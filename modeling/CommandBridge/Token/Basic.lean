/-
  CommandBridge.Token.Basic — tokens of a command line and their places.

  A token has a kind, a value and the places of its source from `start` up to, but without, `stop`.
  Only an argument can be quoted, so its quoting belongs to its kind.
-/

import CommandBridge.Text.Literal

namespace CommandBridge

/-- The places that a part of a command covers: from `start` up to, but without, `stop`. A part that
    is built by hand may stand anywhere. -/
structure Span where
  start : Int
  stop : Int
  deriving DecidableEq, Repr

inductive Quoting
  | bare
  /-- Written between two marks; the mark may be unknown. -/
  | quoted (mark : Option Text)
  deriving DecidableEq, Repr

inductive Token.Kind
  | manager | subcommand | flag
  | argument (quoting : Quoting)
  | separator | eof
  deriving DecidableEq, Repr

structure Token where
  kind : Token.Kind
  value : Text
  start : Nat
  stop : Nat
  deriving DecidableEq, Repr

namespace Token

def Kind.name : Kind → Text
  | manager => "MANAGER".toList
  | subcommand => "SUBCOMMAND".toList
  | flag => "FLAG".toList
  | argument _ => "ARGUMENT".toList
  | separator => "SEPARATOR".toList
  | eof => "EOF".toList

/-- One kind for each name. -/
def Kind.all : List Kind := [manager, subcommand, flag, argument .bare, separator, eof]

def quoting (t : Token) : Quoting :=
  match t.kind with
  | .argument q => q
  | _ => .bare

def isFlag (t : Token) : Bool := t.kind == .flag

def isSeparator (t : Token) : Bool := t.kind == .separator

def isBareWord (t : Token) : Bool := t.kind == .argument .bare

def isEnd (t : Token) : Bool := t.kind == .eof

/-- The token that stands after the last character. -/
def atEnd (offset : Nat) : Token := ⟨.eof, [], offset, offset⟩

/-- The places from the start of a token to the end of another. -/
def spanTo (t u : Token) : Span := ⟨t.start, u.stop⟩

def span (t : Token) : Span := t.spanTo t

/-- Shows a token with its kind, value and places, and the mark if it was quoted. -/
def describe (t : Token) : Text :=
  let quoted := match t.quoting with
    | .bare => []
    | .quoted mark => ", quoted=".toList ++ (mark.map Text.literal).getD "None".toList
  "Token(".toList ++ Text.joinCommas [t.kind.name, Text.literal t.value,
    Text.ofNat t.start ++ ':' :: Text.ofNat t.stop] ++ quoted ++ [')']

end Token

end CommandBridge
