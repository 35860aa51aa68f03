/-
  CommandBridge.Text.Literal — a text written as a quoted literal, as messages show it.

  The quote is ' unless the text holds a ' and no ". A backslash and the quote get a backslash;
  tab, line feed and carriage return are named; any other character that is not printable is
  given by its code in lower-case hexadecimal, with two, four or eight digits.
-/

import CommandBridge.Text.Printable

namespace CommandBridge.Text

def singleQuote : Char := '\x27'

def doubleQuote : Char := '\x22'

def literalQuote (t : Text) : Char :=
  if singleQuote ∈ t ∧ doubleQuote ∉ t then doubleQuote else singleQuote

/-- The code of a character in hexadecimal, with at least `width` digits. -/
def hex (width : Nat) (c : Char) : Text := (Nat.toDigits 16 c.toNat).leftpad width '0'

def escape (quote c : Char) : Text :=
  if c = quote ∨ c = '\\' then ['\\', c]
  else if c = '\t' then ['\\', 't']
  else if c = '\n' then ['\\', 'n']
  else if c = '\r' then ['\\', 'r']
  else if isPrintable c then [c]
  else if c.toNat < 0x100 then '\\' :: 'x' :: hex 2 c
  else if c.toNat < 0x10000 then '\\' :: 'u' :: hex 4 c
  else '\\' :: 'U' :: hex 8 c

def literal (t : Text) : Text :=
  literalQuote t :: t.flatMap (escape (literalQuote t)) ++ [literalQuote t]

/-! ## Examples -/

example : literal "it".toList = "'it'".toList := by decide +kernel
example : literal "it's".toList = "\"it's\"".toList := by decide +kernel
example : literal "\n\x00\\".toList = "'\\n\\x00\\\\'".toList := by decide +kernel

end CommandBridge.Text
