/-
  CommandBridge.Proofs.Opening — texts that open with given words.

  A text opens with words of the library's own if these stand in front, each but the last with one space after
  it, and a space and any text follow. Every stage of a conversion goes past such an opening: trimming cuts
  only at the other end, the guard finds nothing to refuse in it, and the scanner reads its words and then
  what it reads in the rest alone.
  - `trim_opened`, `isComposed_opening`: the rest alone decides what is trimmed and what is refused.
  - `convert_opened`: so a conversion is the guard on the rest, and then the answer to the parser.
  - `parse_opened`: the parser is given the words and the tokens of the rest.
-/

import CommandBridge.Conversion
import CommandBridge.Proofs.Guard

namespace CommandBridge

open Token (Item)

namespace Guard

/-- The characters that a composition can start with. -/
def starters : List Char := [';', '\n', '&', '|', '(']

theorem composes_eq_false {p : Pattern} {c : Char} (h : c ∉ starters) (rest : Text) : composes p (c :: rest) = false := by
  simp only [starters, List.mem_cons, List.not_mem_nil, or_false, not_or] at h
  unfold composes
  split <;> simp_all

theorem isComposed_append {t : Text} (h : ∀ c ∈ t, c ∉ starters) (p : Pattern) (rest : Text) :
    isComposed p (t ++ rest) = isComposed p rest := by
  induction t with
  | nil => rfl
  | cons c t ih =>
    obtain ⟨hc, ht⟩ := List.forall_mem_cons.1 h
    rw [List.cons_append, isComposed, composes_eq_false hc, Bool.false_or, ih ht]

theorem select_eq_exec {t w : Text} {ws : List Text} (hw : Text.words t = w :: ws)
    (h : Manager.isShorthand w = true ∨ ws.head? = some "dlx".toList) : select t = .exec := by
  rw [select, hw]
  exact if_pos h

theorem select_eq_standard {t w v : Text} {ws : List Text} (hw : Text.words t = w :: v :: ws)
    (hs : Manager.isShorthand w = false) (hv : v ≠ "dlx".toList) : select t = .standard := by
  rw [select, hw]
  apply if_neg
  rintro (h | h)
  · rw [hs] at h
    cases h
  · exact hv (Option.some.inj h)

end Guard

/-! ## Openings -/

/-- What a conversion answers when the guard lets a text pass. -/
def answer (o : Options) (r : Except SyntaxError Command) : Except Reason Translation :=
  (Verdict.of o (r.mapError .malformed)).outcome

/-- Some words, and after a space any text. -/
def opened (words : List Text) (rest : Text) : Text := Text.joinWords words ++ ' ' :: rest

/-- What is left of the rest, with its space, once blanks are cut off at the end. -/
def remainder (rest : Text) : Text := Text.trimRight (' ' :: rest)

theorem breaks_remainder (rest : Text) : Token.Breaks (remainder rest) := by
  intro c hc
  have h := congrArg List.head? (Text.trimRight_append_trail (' ' :: rest))
  rw [List.head?_append, ← remainder, Option.mem_def.1 hc] at h
  cases h
  rfl

theorem isBlank_of_isSpace {c : Char} (h : Token.isSpace c = true) : Text.isBlank c = true := by
  rcases Token.isSpace_iff.1 h with rfl | rfl | rfl | rfl <;> rfl

/-- A word that no stage of a conversion stops at. -/
structure IsOpening (w : Text) : Prop where
  ne_nil : w ≠ []
  solid : ∀ c ∈ w, Text.isBlank c = false
  inert : ∀ c ∈ w, c ∉ Guard.starters
  unmarked : ∀ c ∈ w.head?, Token.isMark c = false

/-- The words of headers and the flags that `global` stands for. -/
def openingWords : List Text := Command.headerWords ++ ["i".toList, "-g".toList, "--global".toList]

theorem isOpening_of_mem {w : Text} (h : w ∈ openingWords) : IsOpening w := by
  have hall : ∀ w ∈ openingWords, w ≠ [] ∧ w.all (fun c => !Text.isBlank c) = true ∧
      w.all (fun c => !Guard.starters.contains c) = true ∧ w.head?.all (fun c => !Token.isMark c) = true := by decide
  obtain ⟨hne, hs, hi, hm⟩ := hall w h
  refine ⟨hne, by simpa using hs, by simpa using hi, ?_⟩
  intro c hc
  simpa using (Option.all_eq_true _ _).1 hm c hc

namespace IsOpening

variable {w : Text}

theorem spaceFree (h : IsOpening w) : Item.SpaceFree w := by
  intro c hc
  rw [← Bool.not_eq_true]
  intro hs
  have hb := h.solid c hc
  rw [isBlank_of_isSpace hs] at hb
  cases hb

/-- What a word says by itself. -/
theorem legible (h : IsOpening w) : (⟨Token.Lexeme.wordKind w, w⟩ : Item).Legible := by
  obtain ⟨c, body, -, hc, hr⟩ := Token.Lexeme.read_bare h.ne_nil h.spaceFree h.unmarked Token.breaks_nil
  have hl := Token.Lexeme.legible_read hc body
  rw [hr] at hl
  exact hl

end IsOpening

section Opening

variable {ws : List Text} (hw : ∀ w ∈ ws, w ∈ openingWords)
include hw

/-! ## Trimming -/

theorem isTrimmed_opening : Text.IsTrimmed (Text.joinWords ws) := by
  apply Text.isTrimmed_joinWords
  intro w h
  have ho := isOpening_of_mem (hw w h)
  exact ⟨ho.ne_nil, Text.isTrimmed_of_solid ho.solid⟩

theorem trim_opened (hne : ws ≠ []) (rest : Text) :
    Text.trim (opened ws rest) = Text.joinWords ws ++ remainder rest := by
  have ht := isTrimmed_opening hw
  have hj : Text.joinWords ws ≠ [] := by
    obtain ⟨w, ws, rfl⟩ := List.exists_cons_of_ne_nil hne
    exact Text.joinWords_ne_nil (isOpening_of_mem (hw w (List.mem_cons_self ..))).ne_nil ws
  have hl : Text.trimLeft (opened ws rest) = opened ws rest := by
    apply Text.trimLeft_eq_self
    rw [opened, List.head?_append_of_ne_nil _ hj]
    exact ht.1
  rw [Text.trim, hl, opened, Text.trimRight_append ht.2, remainder]

/-! ## The guard -/

theorem words_opening {rest : Text} (hr : Token.Breaks rest) :
    Text.words (Text.joinWords ws ++ rest) = ws ++ Text.words rest := by
  refine Text.words_joinWords_append (fun w h => ?_) fun c hc => isBlank_of_isSpace (hr c hc)
  have ho := isOpening_of_mem (hw w h)
  exact ⟨ho.ne_nil, ho.solid⟩

theorem isComposed_opening (p : Guard.Pattern) (rest : Text) :
    Guard.isComposed p (Text.joinWords ws ++ rest) = Guard.isComposed p rest := by
  apply Guard.isComposed_append
  intro c hc
  rcases Text.mem_joinWords hc with rfl | ⟨w, hmem, hc⟩
  · decide
  · exact (isOpening_of_mem (hw w hmem)).inert c hc

/-- A conversion guards what remains behind the opening, and then answers the parser. -/
theorem convert_opened (hne : ws ≠ []) (o : Options) (rest : Text) :
    convert o (opened ws rest) =
      if Guard.isComposed (Guard.select (Text.joinWords ws ++ remainder rest)) (remainder rest) then
        .error .notSupported
      else answer o (Command.parse (Text.joinWords ws ++ remainder rest)) := by
  have ht := trim_opened hw hne rest
  have hj : (Text.joinWords ws ++ remainder rest).isEmpty = false := by
    obtain ⟨w, ws, rfl⟩ := List.exists_cons_of_ne_nil hne
    simp [Text.joinWords_ne_nil (isOpening_of_mem (hw w (List.mem_cons_self ..))).ne_nil ws]
  have hr : Guard.refusal? (opened ws rest) none =
      if Guard.isComposed (Guard.select (Text.joinWords ws ++ remainder rest)) (remainder rest) then
        some .notSupported else none := by
    rw [Guard.refusal?, ht, hj, Option.getD_none, isComposed_opening hw]
    rfl
  rw [convert, verdict, Command.read, hr, ht]
  by_cases hc : Guard.isComposed (Guard.select (Text.joinWords ws ++ remainder rest)) (remainder rest) = true
  · rw [if_pos hc, if_pos hc]
    rfl
  · rw [if_neg hc, if_neg hc]
    rfl

end Opening

/-! ## The parser -/

namespace Token

/-- Marking the header leaves the body alone if all of the header stands before it. -/
theorem markHeader_append {header : List Token}
    (h : 2 ≤ header.length ∨ ∃ t, header = [t] ∧ Manager.isShorthand t.value = true) (body : List Token) :
    ∃ marked, markHeader (header ++ body) = marked ++ body ∧ marked.map value = header.map value := by
  rcases header with _ | ⟨t, _ | ⟨u, header⟩⟩
  · rcases h with h | ⟨t, h, -⟩ <;> cases h
  · obtain ⟨t', ht, hs⟩ := h.resolve_left (by simp)
    cases ht
    rw [List.singleton_append, markHeader, if_pos hs]
    split
    · exact ⟨[_], rfl, rfl⟩
    · exact ⟨[t], rfl, rfl⟩
  · rw [List.cons_append, List.cons_append, markHeader]
    split
    · split
      · exact ⟨{ t with kind := .manager } :: u :: header, rfl, rfl⟩
      · rw [markSubcommand]
        split
        · exact ⟨{ t with kind := .manager } :: { u with kind := .subcommand } :: header, rfl, rfl⟩
        · exact ⟨{ t with kind := .manager } :: u :: header, rfl, rfl⟩
    · exact ⟨t :: u :: header, rfl, rfl⟩

end Token

/-- Behind the words of an opening the parser is given what it would be given of the rest alone. -/
theorem parse_opened {ws : List Text} (hw : ∀ w ∈ ws, w ∈ openingWords)
    (hh : 2 ≤ ws.length ∨ ∃ w, ws = [w] ∧ Manager.isShorthand w = true) {rest : Text} (hr : Token.Breaks rest) :
    ∃ finish header body, header.map Token.value = ws ∧ body.map Token.item = (Token.scan 0 rest).map Token.item ∧
      Command.parse (Text.joinWords ws ++ rest) = Command.ofTokens finish (header ++ body) := by
  let items : List Item := ws.map fun w => ⟨Token.Lexeme.wordKind w, w⟩
  have hl : ∀ i ∈ items, i.Legible := List.forall_mem_map.2 fun w h => (isOpening_of_mem (hw w h)).legible
  have hwrite : items.map Item.write = ws := by
    rw [List.map_map]
    exact (List.map_congr_left fun w _ => Token.write_of_bare (Token.isQuoted_wordKind w w)).trans (List.map_id ws)
  have hvalue : items.map Item.value = ws := by
    rw [List.map_map]
    exact List.map_id ws
  have hs := Token.scan_join_append hl hr 0
  rw [hwrite, CommandLine.join_eq_joinWords fun w h => (isOpening_of_mem (hw w h)).ne_nil] at hs
  obtain ⟨header, body, hscan, hheader, hbody⟩ := List.map_eq_append_iff.1 hs
  have hv : header.map Token.value = ws := by
    rw [← hvalue, ← hheader, List.map_map]
    rfl
  have hmarks : 2 ≤ header.length ∨ ∃ t, header = [t] ∧ Manager.isShorthand t.value = true := by
    rcases hh with hh | ⟨w, rfl, hshort⟩
    · rw [← hv, List.length_map] at hh
      exact .inl hh
    · obtain ⟨t, rfl, rfl⟩ := List.map_eq_singleton_iff.1 hv
      exact .inr ⟨t, rfl, hshort⟩
  obtain ⟨marked, hm, hmv⟩ := Token.markHeader_append hmarks body
  refine ⟨Token.lineEnd (Text.joinWords ws ++ rest), marked, body, hmv.trans hv, hbody, ?_⟩
  rw [Command.parse, Token.ofLine, hscan, hm]

end CommandBridge
