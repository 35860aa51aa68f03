/-
  CommandBridge.Batch — converting a block of lines that all speak to one manager.

  Every line is converted on its own. A line that is blank or starts with `#` is copied without a
  note, a line that fails is copied with one, and a converted line keeps the blanks around it. As
  soon as a converted line names another manager than the first one, the batch fails; so it does
  when no line was converted.
-/

import CommandBridge.Journal

namespace CommandBridge.Batch

/-- What has become of one line. -/
inductive Line
  | copied (text : Text)
  | converted (text : Text) (t : Translation)
  deriving DecidableEq, Repr

namespace Line

/-- The line as it is said to a manager. -/
def say (m : Manager) : Line → Text
  | copied text => text
  | converted text t => Text.lead text ++ t.commandFor m ++ Text.trail text

/-- The trimmed line with what it became. -/
def conversion? : Line → Option (Text × Translation)
  | copied _ => none
  | converted text t => some (Text.trim text, t)

end Line

/-- A line without a command, blank or a comment. -/
def isIgnored (trimmed : Text) : Bool := trimmed.isEmpty || trimmed.head? == some '#'

/-- The lines that a batch has made, or why it failed, and what was noted on the way. -/
structure Run where
  lines : Except Reason (List Line)
  events : List Event

/-- Puts a line and its events in front. -/
def Run.cons (line : Line) (events : List Event) (r : Run) : Run := ⟨r.lines.map (line :: ·), events ++ r.events⟩

/-- Runs over lines that start with line `n` of the block; `first` is the manager seen before them. -/
def run (o : Options) (n : Nat) (first : Option Manager) : List Text → Run
  | [] => ⟨.ok [], []⟩
  | line :: rest =>
    let command := Text.trim line
    let v := verdict o command
    if isIgnored command then (run o (n + 1) first rest).cons (.copied line) []
    else match v.outcome with
      | .error reason => (run o (n + 1) first rest).cons (.copied line) [v.event command, .kept n reason]
      | .ok t =>
        let expected := first.getD t.manager
        if t.manager = expected then (run o (n + 1) (some expected) rest).cons (.converted line t) [v.event command]
        else ⟨.error .mixedManagers, [v.event command, .mixed n t.manager expected]⟩

/-! ## Blocks -/

/-- A converted block: its text for every manager, and the lines that were converted, trimmed. -/
structure Block where
  kind : Command.Kind
  commands : PerManager Text
  conversions : List (Text × Translation)
  deriving DecidableEq, Repr

/-- The block that lines make; its class is that of its first converted line. -/
def Block.ofLines (lines : List Line) : Except Reason Block :=
  match lines.filterMap Line.conversion? with
  | [] => .error .notSupported
  | c :: cs => .ok ⟨c.2.kind, PerManager.ofFn fun m => Text.joinLines (lines.map (Line.say m)), c :: cs⟩

def start (o : Options) (t : Text) : Run := run o 1 none (Text.lines t)

def Run.outcome (r : Run) : Except Reason Block := r.lines.bind Block.ofLines

def convert (o : Options) (t : Text) : Except Reason Block := (start o t).outcome

/-! ## Traces -/

example : (convert Options.allEnabled "# setup\n npm i \nnpm run dev".toList).toOption.map (fun b => b.commands.bun) =
    some "# setup\n bun install \nbun run dev".toList := by decide +kernel

example : (start Options.standard "npm i\nyarn".toList).events =
    [.converted "npm i".toList .install .npm,
     .rejected "yarn".toList (.malformed ⟨.expectedSubcommand, Token.atEnd 4⟩), .kept 2 .parseError] := by
  decide +kernel

end CommandBridge.Batch
