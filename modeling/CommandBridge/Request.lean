/-
  CommandBridge.Request — conversions as callers ask for them.

  A caller hands over a datum that should be a text, options with overrides on top, and may ask the
  answer for the command of a manager given by any datum. Overrides are looked at before the command.
  - `answerAlong_of_not_isMultiLine`: without blocks, a path of answers is a path of conversions.
-/

import CommandBridge.Batch

namespace CommandBridge

inductive RequestError
  | options (e : OptionError)
  | notText (command : Datum)
  | notManager (manager : Datum)

namespace RequestError

def message : RequestError → Text
  | options e => e.message
  | notText command => "Command must be a string, got ".toList ++ command.kindName
  | notManager manager => manager.literal ++ " is not a valid PackageManager".toList

end RequestError

/-- The answer to a command on one line, or to a block. -/
inductive Answer
  | line (r : Except Reason Translation)
  | block (r : Except Reason Batch.Block)

namespace Answer

/-- The commands of an answer that did not fail. -/
def commands? : Answer → Option (PerManager Text)
  | line (.ok r) => some r.commands
  | block (.ok b) => some b.commands
  | _ => none

def isOk (a : Answer) : Bool := a.commands?.isSome

end Answer

namespace Request

def command (d : Datum) : Except RequestError Text :=
  match d with
  | .text t => .ok t
  | d => .error (.notText d)

/-- Options with overrides on top; the names of the request's own parts are taken. -/
def options (o : Options) (overrides : List (Text × Datum)) : Except RequestError Options :=
  match Options.checkNames "packmorph".toList ["command".toList, "options".toList] overrides with
  | .error e => .error (.options e)
  | .ok _ => (o.override overrides).mapError .options

/-- Converts line by line if the options say so, and as one command otherwise. -/
def answer (o : Options) (t : Text) : Answer :=
  if o.isMultiLine then .block (Batch.convert o t) else .line (convert o t)

/-- The answers to a text and then, for each manager of the path in turn, to the command that the last
    answer has for it, up to the first failure. -/
def answerAlong (o : Options) (t : Text) : List Manager → List Answer
  | [] => [answer o t]
  | m :: path =>
    match (answer o t).commands? with
    | some commands => answer o t :: answerAlong o (commands.get m) path
    | none => [answer o t]

theorem answerAlong_of_not_isMultiLine {o : Options} (h : o.isMultiLine = false) (t : Text) (path : List Manager) :
    answerAlong o t path = (convertAlong o t path).map .line := by
  induction path generalizing t with
  | nil => simp [answerAlong, convertAlong, answer, h]
  | cons m path ih =>
    cases hc : convert o t with
    | error e => simp [answerAlong, convertAlong, answer, h, hc, Answer.commands?]
    | ok r => simp [answerAlong, convertAlong, answer, h, hc, Answer.commands?, ih, Translation.commandFor]

/-- The events that the answer leaves, and their source. -/
def events (o : Options) (t : Text) : Source × List Event :=
  if o.isMultiLine then (.batch, (Batch.start o t).events) else (.converter, [(verdict o t).event t])

/-- The command for a manager given by a datum. -/
def commandFor (commands : PerManager Text) (d : Datum) : Except RequestError Text :=
  match d with
  | .text t =>
    match Manager.ofName? t with
    | some m => .ok (commands.get m)
    | none => .error (.notManager d)
  | d => .error (.notManager d)

end Request

end CommandBridge
