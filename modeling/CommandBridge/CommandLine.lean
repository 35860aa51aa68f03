/-
  CommandBridge.CommandLine — writing arguments and joining them to a command line.

  A bare argument is written as it is. A quoted one is written between its marks, with a backslash
  before every backslash and every mark in it. A command line joins its parts with single spaces
  and leaves out empty ones.
  - `join_eq_joinWords`: nothing is left out of parts none of which is empty.
  - `writeQuoted_single`: with a mark of one character, each character is escaped on its own.
-/

import CommandBridge.Token.Basic

namespace CommandBridge.CommandLine

/-- Escapes backslashes first, then every occurrence of the mark in what that gives. -/
def writeQuoted (mark : Char) (more : Text) (value : Text) : Text :=
  let escaped := Text.replaceAll '\\' [] ['\\', '\\'] value
  (mark :: more) ++ Text.replaceAll mark more ('\\' :: mark :: more) escaped ++ (mark :: more)

/-- A quoted argument whose mark is unknown or empty is written between double quotes. -/
def writeArgument (value : Text) : Quoting → Text
  | .bare => value
  | .quoted (some (mark :: more)) => writeQuoted mark more value
  | .quoted _ => writeQuoted Text.doubleQuote [] value

def join (parts : List Text) : Text := Text.joinWords (parts.filter fun p => !p.isEmpty)

theorem join_eq_joinWords {parts : List Text} (h : ∀ p ∈ parts, p ≠ []) : join parts = Text.joinWords parts := by
  have hf : (parts.filter fun p => !p.isEmpty) = parts := by
    apply List.filter_eq_self.mpr
    intro p hp
    simpa using h p hp
  rw [join, hf]

theorem writeQuoted_single {mark : Char} (h : mark ≠ '\\') (value : Text) :
    writeQuoted mark [] value =
      mark :: (value.flatMap fun c => if c = '\\' ∨ c = mark then ['\\', c] else [c]) ++ [mark] := by
  simp only [writeQuoted, Text.replaceAll_single, List.flatMap_assoc, List.cons_append, List.nil_append]
  congr 3
  funext c
  by_cases h1 : c = '\\'
  · simp [h1, h.symm]
  · by_cases h2 : c = mark
    · subst h2
      simp [h]
    · simp [h1, h2]

end CommandBridge.CommandLine
