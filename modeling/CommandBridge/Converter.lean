/-
  CommandBridge.Converter — a converter that keeps the command it has read.

  The first text that can be read is kept as a command for good; a failure is not kept, so a later
  text is read afresh. Options are looked at anew with every conversion.
  - `read_of_kept`: what is kept is answered, whatever the text is now.
  - `read_of_error`: a failure changes nothing.
-/

import CommandBridge.Conversion

namespace CommandBridge

structure Converter where
  command : Text
  options : Options
  kept : Option Command := none
  deriving Repr

namespace Converter

def read (c : Converter) : Except Rejection Command × Converter :=
  match c.kept with
  | some tree => (.ok tree, c)
  | none =>
    match Command.read c.command with
    | .ok tree => (.ok tree, { c with kept := some tree })
    | .error why => (.error why, c)

def convert (c : Converter) : Verdict × Converter := (Verdict.of c.options c.read.1, c.read.2)

theorem read_of_kept {c : Converter} {tree : Command} (h : c.kept = some tree) : c.read = (.ok tree, c) := by
  simp [read, h]

theorem read_of_error {c : Converter} {why : Rejection} (h : c.read.1 = .error why) : c.read.2 = c := by
  unfold read at h ⊢
  split
  · rfl
  · split <;> simp_all

/-! ## Steps -/

inductive Step
  | read
  | convert
  | setCommand (t : Text)
  | setOptions (o : Options)

inductive Reply
  /-- What was read; `again` when an earlier step of the run has answered the same tree. -/
  | read (r : Except Rejection Command) (again : Bool)
  | converted (v : Verdict)
  | command (t : Text)
  | options (o : Options)

def step (c : Converter) (again : Bool) : Step → Reply × Converter
  | .read => (.read c.read.1 again, c.read.2)
  | .convert => (.converted c.convert.1, c.convert.2)
  | .setCommand t => (.command t, { c with command := t })
  | .setOptions o => (.options o, { c with options := o })

/-- The reply has handed out a tree. -/
def Reply.hasTree : Reply → Bool
  | read (.ok _) _ => true
  | _ => false

def runFrom (c : Converter) (again : Bool) : List Step → List Reply
  | [] => []
  | s :: steps =>
    let (reply, c') := c.step again s
    reply :: runFrom c' (again || reply.hasTree) steps

def run (c : Converter) (steps : List Step) : List Reply := c.runFrom false steps

end Converter

end CommandBridge
