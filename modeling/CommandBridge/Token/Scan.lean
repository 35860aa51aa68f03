/-
  CommandBridge.Token.Scan — from a text to its tokens.

  Spaces (space, tab, carriage return, line feed) separate tokens. A quoted argument starts with a
  mark and runs to the next such mark, a backslash taking the character after it as it is; without a
  closing mark it runs to the end. Any other token runs to the next space: `--` alone is a
  separator, what starts with `-` is a flag, all else is an argument. Scanning never fails.
  - `source_append_rest`: a lexeme covers exactly the characters in front of its rest.
  - `length_rest_lt`: a lexeme takes at least one character, which is why scanning ends.
  - `stop_scanFrom`: scanning ends where the text does.
  - `run_run`: a scanner that has run once has nothing left but the end.
-/

import CommandBridge.Manager
import CommandBridge.Token.Basic

namespace CommandBridge.Token

def isSpace (c : Char) : Bool := c == ' ' || c == '\t' || c == '\r' || c == '\n'

def isMark (c : Char) : Bool := c == Text.doubleQuote || c == Text.singleQuote

def separatorText : Text := ['-', '-']

theorem isSpace_iff {c : Char} : isSpace c = true ↔ c = ' ' ∨ c = '\t' ∨ c = '\r' ∨ c = '\n' := by
  simp [isSpace, or_assoc]

theorem isMark_iff {c : Char} : isMark c = true ↔ c = '\x22' ∨ c = '\x27' := by
  simp [isMark, Text.doubleQuote, Text.singleQuote]

/-! ## Lexemes -/

/-- One lexeme at the head of a text: its meaning, the characters it covers, and what follows. -/
structure Lexeme where
  kind : Kind
  value : Text
  source : Text
  rest : Text
  deriving DecidableEq, Repr

namespace Lexeme

def wordKind (w : Text) : Kind :=
  if w = separatorText then .separator else if w.head? = some '-' then .flag else .argument .bare

/-- The word that starts with `c`. -/
def word (c : Char) (rest : Text) : Lexeme :=
  let w := c :: rest.takeWhile fun d => !isSpace d
  ⟨wordKind w, w, w, rest.dropWhile fun d => !isSpace d⟩

/-- Puts a character of the value, and the characters that stand for it, in front. -/
def push (l : Lexeme) (c : Char) (source : Text) : Lexeme :=
  { l with value := c :: l.value, source := source ++ l.source }

/-- What follows an opening mark, up to its closing mark. A backslash at the very end stands for nothing. -/
def quotedBody (mark : Char) : Text → Lexeme
  | [] => ⟨.argument (.quoted (some [mark])), [], [], []⟩
  | ['\\'] => ⟨.argument (.quoted (some [mark])), [], ['\\'], []⟩
  | '\\' :: c :: rest => (quotedBody mark rest).push c ['\\', c]
  | c :: rest =>
    if c = mark then ⟨.argument (.quoted (some [mark])), [], [c], rest⟩
    else (quotedBody mark rest).push c [c]

def quoted (mark : Char) (rest : Text) : Lexeme :=
  let body := quotedBody mark rest
  { body with source := mark :: body.source }

/-- The lexeme that starts with `c`. -/
def read (c : Char) (rest : Text) : Lexeme := if isMark c then quoted c rest else word c rest

theorem body_source_append_rest (mark : Char) (t : Text) :
    (quotedBody mark t).source ++ (quotedBody mark t).rest = t := by
  fun_induction quotedBody mark t <;> simp_all [push]

theorem source_append_rest (c : Char) (rest : Text) :
    (read c rest).source ++ (read c rest).rest = c :: rest := by
  unfold read
  split
  · simp [quoted, body_source_append_rest]
  · simp [word, List.takeWhile_append_dropWhile]

theorem source_ne_nil (c : Char) (rest : Text) : (read c rest).source ≠ [] := by
  unfold read
  split <;> simp [quoted, word]

theorem length_rest_lt (c : Char) (rest : Text) : (read c rest).rest.length < (c :: rest).length := by
  have h := congrArg List.length (source_append_rest c rest)
  have := List.length_pos_iff.2 (source_ne_nil c rest)
  rw [List.length_append] at h
  omega

def token (l : Lexeme) (offset : Nat) : Token := ⟨l.kind, l.value, offset, offset + l.source.length⟩

end Lexeme

/-! ## Scanning -/

/-- What a scan gives: the tokens, and the place where it stops. -/
structure Scanned where
  tokens : List Token
  stop : Nat
  deriving DecidableEq, Repr

def Scanned.push (s : Scanned) (t : Token) : Scanned := { s with tokens := t :: s.tokens }

/-- The scan of a text whose first character stands at `offset`. -/
def scanFrom (offset : Nat) : Text → Scanned
  | [] => ⟨[], offset⟩
  | c :: rest =>
    if isSpace c then scanFrom (offset + 1) rest
    else
      (scanFrom (offset + (Lexeme.read c rest).source.length) (Lexeme.read c rest).rest).push
        ((Lexeme.read c rest).token offset)
termination_by t => t.length
decreasing_by
  · simp
  · exact Lexeme.length_rest_lt c rest

/-- The tokens of a text whose first character stands at `offset`. -/
def scan (offset : Nat) (t : Text) : List Token := (scanFrom offset t).tokens

theorem scan_nil (n : Nat) : scan n [] = [] := by rw [scan, scanFrom]

theorem scan_space {c : Char} (h : isSpace c = true) (n : Nat) (rest : Text) :
    scan n (c :: rest) = scan (n + 1) rest := by
  rw [scan, scanFrom, if_pos h, scan]

theorem scan_lexeme {c : Char} (h : ¬ isSpace c = true) (n : Nat) (rest : Text) :
    scan n (c :: rest) = (Lexeme.read c rest).token n ::
      scan (n + (Lexeme.read c rest).source.length) (Lexeme.read c rest).rest := by
  rw [scan, scanFrom, if_neg h, Scanned.push, scan]

/-- A scan stops at the end of the text, and nowhere before. -/
theorem stop_scanFrom (n : Nat) (t : Text) : (scanFrom n t).stop = n + t.length := by
  fun_induction scanFrom n t with
  | case1 => rfl
  | case2 n c rest _ ih =>
    rw [ih, List.length_cons]
    omega
  | case3 n c rest _ ih =>
    have hl := congrArg List.length (Lexeme.source_append_rest c rest)
    rw [List.length_append] at hl
    rw [Scanned.push, ih, Nat.add_assoc, hl]

/-! ## The header

  The first word of a command calls a manager; unless it is a shorthand, the word after it is the
  subcommand. Only bare words are marked so.
-/

def markSubcommand : List Token → List Token
  | [] => []
  | t :: ts => if t.isBareWord then { t with kind := .subcommand } :: ts else t :: ts

def markHeader : List Token → List Token
  | [] => []
  | t :: ts =>
    if t.isBareWord ∧ (Manager.ofInvocation? t.value).isSome then
      { t with kind := .manager } :: if Manager.isShorthand t.value then ts else markSubcommand ts
    else t :: ts

/-- The tokens of a command line, without the one at its end. -/
def ofLine (t : Text) : List Token := markHeader (scan 0 t)

/-- The token at the end of a command line, where its scan stops. -/
def lineEnd (t : Text) : Token := atEnd (scanFrom 0 t).stop

def tokenize (t : Text) : List Token := ofLine t ++ [lineEnd t]

theorem lineEnd_eq (t : Text) : lineEnd t = atEnd t.length := by rw [lineEnd, stop_scanFrom, Nat.zero_add]

theorem tokenize_eq (t : Text) : tokenize t = ofLine t ++ [atEnd t.length] := by rw [tokenize, lineEnd_eq]

/-! ## A scanner that can be asked again -/

/-- The text still to be scanned and the place where it starts. -/
structure Scanner where
  offset : Nat
  rest : Text
  deriving DecidableEq, Repr

namespace Scanner

def ofText (t : Text) : Scanner := ⟨0, t⟩

/-- The tokens of the rest, without the one at the end. -/
def pending (s : Scanner) : List Token := markHeader (scan s.offset s.rest)

/-- The scanner where its scan stops: what lies before that place has been scanned. -/
def finish (s : Scanner) : Scanner :=
  let stop := (scanFrom s.offset s.rest).stop
  ⟨stop, s.rest.drop (stop - s.offset)⟩

/-- Nothing is left behind the place where the scan stops. -/
theorem finish_eq (s : Scanner) : s.finish = ⟨s.offset + s.rest.length, []⟩ := by simp [finish, stop_scanFrom]

def run (s : Scanner) : List Token × Scanner := (s.pending ++ [atEnd s.finish.offset], s.finish)

theorem pending_finish (s : Scanner) : s.finish.pending = [] := by rw [finish_eq, pending, scan_nil, markHeader]

theorem finish_finish (s : Scanner) : s.finish.finish = s.finish := by simp [finish_eq]

theorem run_run (s : Scanner) : s.run.2.run = ([atEnd s.finish.offset], s.finish) := by
  rw [run, run, pending_finish, finish_finish, List.nil_append]

theorem run_ofText (t : Text) : (ofText t).run.1 = tokenize t := rfl

end Scanner

/-! ## Traces -/

example : tokenize "npm i".toList =
    [⟨.manager, "npm".toList, 0, 3⟩, ⟨.subcommand, "i".toList, 4, 5⟩, ⟨.eof, [], 5, 5⟩] := by
  decide +kernel

example : scan 0 "-- --x '\\'a".toList =
    [⟨.separator, "--".toList, 0, 2⟩, ⟨.flag, "--x".toList, 3, 6⟩,
     ⟨.argument (.quoted (some [Text.singleQuote])), "'a".toList, 7, 11⟩] := by
  decide +kernel

end CommandBridge.Token
