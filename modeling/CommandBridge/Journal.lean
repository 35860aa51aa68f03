/-
  CommandBridge.Journal — what is noted while commands are converted.

  Each event has a level and a message. The source that notes it is the single converter, the batch,
  or one that the caller provides.
-/

import CommandBridge.Conversion

namespace CommandBridge

inductive Event
  | rejected (command : Text) (why : Rejection)
  | disabled (command : Text) (kind : Command.Kind)
  | converted (command : Text) (kind : Command.Kind) (manager : Manager)
  /-- A line of a block that is copied because it was not converted. -/
  | kept (line : Nat) (reason : Reason)
  /-- A line of a block that uses another manager than the lines before it. -/
  | mixed (line : Nat) (manager first : Manager)
  deriving DecidableEq, Repr

inductive Level
  | debug | info | warning
  deriving DecidableEq, Repr

inductive Source
  | converter | batch | provided
  deriving DecidableEq, Repr

namespace Level

def all : List Level := [debug, info, warning]

def name : Level → Text
  | debug => "DEBUG".toList
  | info => "INFO".toList
  | warning => "WARNING".toList

def ofName? (t : Text) : Option Level := all.find? fun l => l.name = t

def rank : Level → Nat
  | debug => 0
  | info => 1
  | warning => 2

end Level

def Source.name : Source → Text
  | converter => "packmorph.converter".toList
  | batch => "packmorph.multiline".toList
  | provided => "injected".toList

namespace Event

def level : Event → Level
  | mixed .. => .info
  | _ => .debug

def message : Event → Text
  | rejected command why =>
    "Rejected ".toList ++ Text.literal command ++ ": ".toList ++ why.reason.name ++ " (".toList ++ why.message ++ [')']
  | disabled command kind =>
    "Rejected ".toList ++ Text.literal command ++ ": ".toList ++ kind.name ++ " command disabled".toList
  | converted command kind manager =>
    "Converted ".toList ++ kind.name ++ " command from ".toList ++ manager.name ++ ": ".toList ++ Text.literal command
  | kept line reason => "Keeping line ".toList ++ Text.ofNat line ++ " as is: ".toList ++ reason.name
  | mixed line manager first =>
    "Line ".toList ++ Text.ofNat line ++ " uses ".toList ++ manager.name ++ " but the block started with ".toList ++
      first.name

/-- The events at the level or above it. -/
def select (l : Level) (es : List Event) : List Event := es.filter fun e => l.rank ≤ e.level.rank

end Event

/-- What is noted about a command once its verdict is found. -/
def Verdict.event (command : Text) : Verdict → Event
  | rejected why => .rejected command why
  | disabled kind => .disabled command kind
  | converted t => .converted command t.kind t.manager

end CommandBridge
