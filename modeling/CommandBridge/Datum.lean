/-
  CommandBridge.Datum — a value of any shape, as callers may hand one over where a text, a
  manager or a switch is expected.

  A datum counts as true or false (`isTrue`), has a kind with a name, may equal a truth value
  (`equalsBool`: numbers compare by value, so 0 is false and 1 is true), and has a written form for
  messages (`literal`). A record has each key once: given pair by pair, a key stands where it first
  came, with the value that came last (`fieldsOfPairs`).
-/

import CommandBridge.Decimal
import CommandBridge.Text.Literal

namespace CommandBridge

inductive Datum
  | null
  | bool (b : Bool)
  | int (n : Int)
  | decimal (d : Decimal)
  | text (t : Text)
  | list (items : List Datum)
  | record (fields : List (Text × Datum))
  deriving Repr, Inhabited

namespace Datum

/-- Null, false, zero and whatever is empty count as false; all else counts as true. -/
def isTrue : Datum → Bool
  | null => false
  | bool b => b
  | int n => n != 0
  | decimal d => !d.isZero
  | text t => !t.isEmpty
  | list items => !items.isEmpty
  | record fields => !fields.isEmpty

def equalsBool (b : Bool) : Datum → Bool
  | bool c => c == b
  | int n => n == (if b then 1 else 0)
  | decimal d => if b then d.isOne else d.isZero
  | _ => false

def kindName : Datum → Text
  | null => "NoneType".toList
  | bool _ => "bool".toList
  | int _ => "int".toList
  | decimal _ => "float".toList
  | text _ => "str".toList
  | list _ => "list".toList
  | record _ => "dict".toList

mutual

def literal : Datum → Text
  | null => "None".toList
  | bool true => "True".toList
  | bool false => "False".toList
  | int n => Text.ofInt n
  | decimal d => d.text
  | text t => Text.literal t
  | list items => '[' :: Text.joinCommas (literals items) ++ [']']
  | record fields => '\x7b' :: Text.joinCommas (fieldLiterals fields) ++ ['\x7d']

def literals : List Datum → List Text
  | [] => []
  | item :: items => literal item :: literals items

def fieldLiterals : List (Text × Datum) → List Text
  | [] => []
  | (key, value) :: fields => (Text.literal key ++ ':' :: ' ' :: literal value) :: fieldLiterals fields

end

/-! ## Records -/

def putField (fields : List (Text × Datum)) (key : Text) (value : Datum) : List (Text × Datum) :=
  if fields.any fun f => f.1 = key then fields.map fun f => if f.1 = key then (key, value) else f
  else fields ++ [(key, value)]

/-- The fields of a record that is given pair by pair. -/
def fieldsOfPairs (pairs : List (Text × Datum)) : List (Text × Datum) :=
  pairs.foldl (fun fields p => putField fields p.1 p.2) []

/-! ## Examples -/

example : literal (list [int 1, text ['x'], null]) = "[1, 'x', None]".toList := by decide +kernel
example : literal (record [(['a'], bool true)]) = "\x7b'a': True\x7d".toList := by decide +kernel

end Datum

end CommandBridge
