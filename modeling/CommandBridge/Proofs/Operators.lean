/-
  CommandBridge.Proofs.Operators — the operators of a shell in the lines that are written.

  The guard searches a text for operators before the text is scanned, and nothing searches the lines that
  come out. Scanning takes the backslash off an escaped character, so two characters that stood apart in a
  quoted argument can stand side by side in its value, and so in the lines.
  - `not_holdsOperator_of_refusal?`: the guard leaves no operator in a text.
  - `shows_quotedBody`: a doubled character of a quoted value was doubled in the text, or had a backslash between.
  - `twice_write_iff`: so a token of a text without operators is written with a doubled character if it is quoted
    and had the backslash.
  - `write_mem_parts`: every quoted argument stands in every line.
  - `operators_of_convert`: so the lines hold an operator if and only if a quoted argument does, once the
    backslash is off.
-/

import CommandBridge.Conversion
import CommandBridge.Proofs.Vocabulary
import Mathlib.Data.List.Infix

namespace CommandBridge

open Token (Item)

/-! ## Parts of texts -/

namespace Text

variable {l : Text}

/-- What holds no `c` stands before a `c` or after it. -/
theorem infix_append_cons_iff {c : Char} (h : c ∉ l) {a b : Text} :
    l <:+: a ++ c :: b ↔ l <:+: a ∨ l <:+: b := by
  have hempty {p : Text} (hp : p <+: c :: b) (hc : c ∉ p) : p = [] := by
    cases p with
    | nil => rfl
    | cons d p =>
      obtain ⟨rfl, -⟩ := List.cons_prefix_cons.1 hp
      exact absurd (List.mem_cons_self ..) hc
  constructor
  · intro hl
    rcases List.infix_append_iff.1 hl with hl | hl | ⟨l₁, l₂, rfl, h₁, h₂⟩
    · exact .inl hl
    · rcases List.infix_cons_iff.1 hl with hl | hl
      · rw [hempty hl h]
        exact .inl List.nil_infix
      · exact .inr hl
    · rw [hempty h₂ fun hc => h (List.mem_append_right _ hc), List.append_nil]
      exact .inl h₁.isInfix
  · rintro (hl | hl)
    · exact hl.trans (List.prefix_append ..).isInfix
    · exact hl.trans ((List.suffix_cons ..).trans (List.suffix_append ..)).isInfix

theorem infix_cons_iff_of_not_mem {c : Char} (h : c ∉ l) {b : Text} : l <:+: c :: b ↔ l <:+: b := by
  have hl := infix_append_cons_iff h (a := []) (b := b)
  rw [List.nil_append] at hl
  exact hl.trans (or_iff_right_of_imp fun hn => hn.trans List.nil_infix)

/-- What is not empty and holds no space stands in one of the words. -/
theorem infix_joinWords_iff (hs : ' ' ∉ l) (hne : l ≠ []) {ws : List Text} :
    l <:+: joinWords ws ↔ ∃ w ∈ ws, l <:+: w := by
  induction ws with
  | nil => simp [joinWords, hne]
  | cons w ws ih =>
    cases ws with
    | nil => simp [joinWords]
    | cons v ws =>
      rw [joinWords_cons_cons, infix_append_cons_iff hs, ih]
      exact (List.exists_mem_cons_iff _ w _).symm

theorem infix_join_iff (hs : ' ' ∉ l) (hne : l ≠ []) {ws : List Text} :
    l <:+: CommandLine.join ws ↔ ∃ w ∈ ws, l <:+: w := by
  rw [CommandLine.join, infix_joinWords_iff hs hne]
  constructor
  · rintro ⟨w, hw, hl⟩
    exact ⟨w, (List.mem_filter.1 hw).1, hl⟩
  · rintro ⟨w, hw, hl⟩
    refine ⟨w, List.mem_filter.2 ⟨hw, ?_⟩, hl⟩
    have hw : w ≠ [] := by
      rintro rfl
      exact hne (List.infix_nil.1 hl)
    simpa using hw

end Text

/-! ## What the guard searches for -/

namespace Guard

/-- What may stand nowhere in a text, parentheses aside. -/
def operators : List Text := [";".toList, "\n".toList, "&&".toList, "||".toList]

def HoldsOperator (t : Text) : Prop := ∃ op ∈ operators, op <:+: t

instance (t : Text) : Decidable (HoldsOperator t) := inferInstanceAs (Decidable (∃ op ∈ operators, op <:+: t))

theorem composes_of_operator {op : Text} (h : op ∈ operators) (p : Pattern) (rest : Text) :
    composes p (op ++ rest) = true := by
  simp only [operators, List.mem_cons, List.not_mem_nil, or_false] at h
  rcases h with rfl | rfl | rfl | rfl <;> rfl

theorem isComposed_of_suffix {p : Pattern} {s t : Text} (h : s <:+ t) (hs : composes p s = true) :
    isComposed p t = true := by
  induction t with
  | nil =>
    rw [List.suffix_nil.1 h] at hs
    cases hs
  | cons c t ih =>
    rw [isComposed, Bool.or_eq_true]
    rcases List.suffix_cons_iff.1 h with rfl | h
    · exact .inl hs
    · exact .inr (ih h)

theorem isComposed_of_holdsOperator {p : Pattern} {t : Text} (h : HoldsOperator t) : isComposed p t = true := by
  obtain ⟨op, hop, hi⟩ := h
  obtain ⟨s, ⟨rest, rfl⟩, hs⟩ := List.infix_iff_prefix_suffix.1 hi
  exact isComposed_of_suffix hs (composes_of_operator hop p rest)

theorem not_holdsOperator_of_refusal? {t : Text} (h : refusal? t none = none) : ¬ HoldsOperator (Text.trim t) := by
  intro ho
  simp [refusal?, isComposed_of_holdsOperator ho] at h

theorem HoldsOperator.mono {s t : Text} (h : HoldsOperator s) (hi : s <:+: t) : HoldsOperator t := by
  obtain ⟨op, hop, ho⟩ := h
  exact ⟨op, hop, ho.trans hi⟩

def operatorChars : List Char := [';', '\n', '&', '|']

theorem HoldsOperator.exists_mem {t : Text} (h : HoldsOperator t) : ∃ c ∈ t, c ∈ operatorChars := by
  have hall : ∀ op ∈ operators, op.any operatorChars.contains = true := by decide
  obtain ⟨op, hop, hi⟩ := h
  obtain ⟨c, hmem, hc⟩ := List.any_eq_true.1 (hall op hop)
  exact ⟨c, hi.subset hmem, List.contains_iff_mem.1 hc⟩

theorem not_holdsOperator_of_mem_ownWords : ∀ w ∈ Command.ownWords, ¬ HoldsOperator w := by
  have hall : ∀ w ∈ Command.ownWords, w.any operatorChars.contains = false := by decide
  intro w hw h
  obtain ⟨c, hmem, hc⟩ := h.exists_mem
  exact List.any_eq_false.1 (hall w hw) c hmem (List.contains_iff_mem.2 hc)

end Guard

/-! ## Doubled characters in tokens -/

namespace Token

theorem slice_isInfix (t : Text) (u : Token) : u.slice t <:+: t :=
  (List.take_prefix _ _).isInfix.trans (List.drop_suffix _ _).isInfix

namespace Lexeme

/-- Where the value doubles a character the source doubles it too, perhaps with a backslash between, and a
    backslash between comes off. The same is said of a character that may be the second of the two. -/
structure Shows (x : Char) (value source : Text) : Prop where
  head : [x] <+: value → [x] <+: source ∨ ['\\', x] <+: source
  unescape : ['\\', x] <+: source → [x] <+: value
  twice : [x, x] <:+: value → [x, x] <:+: source ∨ [x, '\\', x] <:+: source
  untwice : [x, '\\', x] <:+: source → [x, x] <:+: value

namespace Shows

variable {x : Char} {value source : Text} (h : Shows x value source) (c : Char)
include h

theorem twice_cons (hv : [x, x] <:+: c :: value) : [x, x] <:+: c :: source ∨ [x, '\\', x] <:+: c :: source := by
  rcases List.infix_cons_iff.1 hv with hv | hv
  · obtain ⟨rfl, htail⟩ := List.cons_prefix_cons.1 hv
    rcases h.head htail with hs | hs
    · exact .inl ((List.prefix_cons_inj x).2 hs).isInfix
    · exact .inr ((List.prefix_cons_inj x).2 hs).isInfix
  · rcases h.twice hv with hs | hs
    · exact .inl (List.infix_cons hs)
    · exact .inr (List.infix_cons hs)

theorem untwice_cons (hs : [x, '\\', x] <:+: c :: source) : [x, x] <:+: c :: value := by
  rcases List.infix_cons_iff.1 hs with hs | hs
  · obtain ⟨rfl, htail⟩ := List.cons_prefix_cons.1 hs
    exact ((List.prefix_cons_inj x).2 (h.unescape htail)).isInfix
  · exact List.infix_cons (h.untwice hs)

theorem plain (hc : c ≠ '\\') : Shows x (c :: value) (c :: source) where
  head hv := .inl (by simpa [List.cons_prefix_cons] using hv)
  unescape hs := absurd (List.cons_prefix_cons.1 hs).1.symm hc
  twice := h.twice_cons c
  untwice := h.untwice_cons c

theorem escape (hx : x ≠ '\\') : Shows x (c :: value) ('\\' :: c :: source) where
  head hv := .inr ((List.prefix_cons_inj _).2 (by simpa [List.cons_prefix_cons] using hv))
  unescape hs := by simpa [List.cons_prefix_cons] using hs
  twice hv := (h.twice_cons c hv).imp List.infix_cons List.infix_cons
  untwice hs := by
    rcases List.infix_cons_iff.1 hs with hs | hs
    · exact absurd (List.cons_prefix_cons.1 hs).1 hx
    · exact h.untwice_cons c hs

end Shows

theorem shows_quotedBody (mark : Char) {x : Char} (hx : x ≠ '\\') (t : Text) :
    Shows x (quotedBody mark t).value (quotedBody mark t).source := by
  fun_induction quotedBody mark t with
  | case1 => constructor <;> simp
  | case2 => constructor <;> simp [List.infix_cons_iff, List.cons_prefix_cons]
  | case3 c rest ih => exact ih.escape c hx
  | case4 rest => constructor <;> simp [List.infix_cons_iff, List.cons_prefix_cons]
  | case5 c rest hend hescape _ ih =>
    refine ih.plain c ?_
    rintro rfl
    cases rest with
    | nil => exact hend rfl rfl
    | cons d rest => exact hescape d rest rfl rfl

end Lexeme

section Escaped

variable {mark : Char} {l : Text} (hb : '\\' ∉ l) (hm : mark ∉ l)
include hb hm

theorem prefix_escaped_iff {value : Text} : l <+: escaped mark value ↔ l <+: value := by
  induction value generalizing l with
  | nil => rfl
  | cons c value ih =>
    cases l with
    | nil => simp
    | cons d l =>
      rw [List.mem_cons, not_or] at hb hm
      by_cases hc : c = '\\' ∨ c = mark
      · have hd : d ≠ c := by
          rintro rfl
          rcases hc with rfl | rfl
          · exact hb.1 rfl
          · exact hm.1 rfl
        simp [escaped_special hc, List.cons_prefix_cons, Ne.symm hb.1, hd]
      · rw [escaped_plain hc, List.cons_prefix_cons, List.cons_prefix_cons, ih hb.2 hm.2]

/-- Escaping puts nothing between plain characters. -/
theorem infix_escaped_iff (hne : l ≠ []) {value : Text} : l <:+: escaped mark value ↔ l <:+: value := by
  have hspecial {c : Char} (hc : c = '\\' ∨ c = mark) (t : Text) : ¬ l <+: c :: t := by
    obtain ⟨d, l, rfl⟩ := List.exists_cons_of_ne_nil hne
    intro h
    obtain ⟨rfl, -⟩ := List.cons_prefix_cons.1 h
    rcases hc with rfl | rfl
    · exact hb (List.mem_cons_self ..)
    · exact hm (List.mem_cons_self ..)
  induction value with
  | nil => rfl
  | cons c value ih =>
    by_cases hc : c = '\\' ∨ c = mark
    · simp only [escaped_special hc, List.infix_cons_iff, hspecial hc, hspecial (.inl rfl), false_or, ih]
    · rw [List.infix_cons_iff, ← prefix_escaped_iff hb hm, escaped_plain hc, List.infix_cons_iff]
      exact or_congr_right ih

end Escaped

/-! ## Tokens in their text -/

section Scanned

variable {t : Text} {u : Token}

/-- A bare token stands in the text as it is written; a quoted one is read from its mark on. -/
theorem bare_or_quoted (h : u ∈ scan 0 t) :
    (u.item.isQuoted = false ∧ u.item.write = u.slice t) ∨
      ∃ mark rest, isMark mark = true ∧
        u.item = ⟨.argument (.quoted (some [mark])), (Lexeme.quotedBody mark rest).value⟩ ∧
        u.slice t = mark :: (Lexeme.quotedBody mark rest).source := by
  obtain ⟨before, c, rest, rfl, -, rfl⟩ := eq_token_of_mem_scan h
  rw [Nat.zero_add, slice_token, Lexeme.read]
  split
  case isTrue hc =>
    refine .inr ⟨c, rest, hc, ?_, rfl⟩
    rw [← Lexeme.kind_quotedBody c rest]
    rfl
  case isFalse =>
    have hq := isQuoted_wordKind (Lexeme.word c rest).value (Lexeme.word c rest).value
    exact .inl ⟨hq, write_of_bare hq⟩

/-- In a text without operators a token is written with a doubled character if it is quoted and a backslash
    stood between the two. -/
theorem twice_write_iff (ht : ¬ Guard.HoldsOperator t) (h : u ∈ scan 0 t) {x : Char} (hx : x = '&' ∨ x = '|') :
    [x, x] <:+: u.item.write ↔ u.item.isQuoted = true ∧ [x, '\\', x] <:+: u.slice t := by
  have hop : [x, x] ∈ Guard.operators := by rcases hx with rfl | rfl <;> decide
  have hslice : ¬ [x, x] <:+: u.slice t := fun hi => ht ⟨_, hop, hi.trans (slice_isInfix t u)⟩
  rcases bare_or_quoted h with ⟨hu, hw⟩ | ⟨mark, rest, hm, hi, hs⟩
  · rw [hw, hu]
    simpa using hslice
  · have hb : x ≠ '\\' := by rcases hx with rfl | rfl <;> decide
    have hmx : mark ≠ x := by
      rintro rfl
      rcases hx with rfl | rfl <;> cases hm
    have hmb : mark ≠ '\\' := ne_backslash_of_isMark hm
    have hfree : mark ∉ [x, x] ∧ mark ∉ [x, '\\', x] := by simp [hmx, hmb]
    have hwrite : [x, x] <:+: u.item.write ↔ [x, x] <:+: (Lexeme.quotedBody mark rest).value := by
      rw [hi, write_quoted hm, List.cons_append, Text.infix_cons_iff_of_not_mem hfree.1,
        Text.infix_append_cons_iff hfree.1, infix_escaped_iff (by simp [hb.symm]) hfree.1 (List.cons_ne_nil _ _)]
      simp
    rw [hs, Text.infix_cons_iff_of_not_mem hfree.1] at hslice
    rw [hwrite, hs, Text.infix_cons_iff_of_not_mem hfree.2, hi]
    have hshows := Lexeme.shows_quotedBody mark hb rest
    constructor
    · intro h
      exact ⟨rfl, (hshows.twice h).resolve_left hslice⟩
    · intro h
      exact hshows.untwice h.2

end Scanned

/-! ## Marks of the header -/

theorem isQuoted_unmark (u : Token) : (unmark u).item.isQuoted = u.item.isQuoted := by
  obtain ⟨kind, value, start, stop⟩ := u
  cases kind <;> rfl

theorem exists_quoted_iff {t l : Text} : (∃ u ∈ tokenize t, u.item.isQuoted = true ∧ l <:+: u.slice t) ↔
    ∃ u ∈ scan 0 t, u.item.isQuoted = true ∧ l <:+: u.slice t := by
  constructor
  · rintro ⟨u, hu, hq, hi⟩
    rcases List.mem_append.1 hu with hu | hu
    · refine ⟨unmark u, mem_scan_iff.2 ⟨u, hu, rfl⟩, ?_⟩
      rw [isQuoted_unmark, slice_unmark]
      exact ⟨hq, hi⟩
    · rw [List.mem_singleton.1 hu] at hq
      cases hq
  · rintro ⟨v, hv, hq, hi⟩
    obtain ⟨u, hu, rfl⟩ := mem_scan_iff.1 hv
    rw [isQuoted_unmark] at hq
    rw [slice_unmark] at hi
    exact ⟨u, List.mem_append_left _ hu, hq, hi⟩

end Token

/-! ## Lines -/

namespace Command

variable {t : Text} {c : Command}

theorem isPackage_of_isQuoted {u : Token} (h : u.item.isQuoted = true) : isPackage u = true := by
  obtain ⟨kind, value, start, stop⟩ := u
  cases kind <;> first | rfl | cases h

/-- Every quoted token but one that calls for the command stands in every line. -/
theorem write_mem_parts (h : parse t = .ok c) {u : Token} (hu : u ∈ Token.scan 0 t) (hq : u.item.isQuoted = true)
    (hc : u.value ∉ callingWords) (m : Manager) : u.item.write ∈ c.parts m := by
  obtain ⟨header, body, hts, hcalling, hr⟩ := readFrom_of_ofTokens (parse_eq_ok_iff.1 h)
  have hbody : u ∈ body := by
    rw [hts] at hu
    exact (List.mem_append.1 hu).resolve_left fun hu => hc (hcalling u hu)
  have hitems : u.item.write ∈ (body.map Token.item).map Item.write :=
    List.mem_map_of_mem (List.mem_map_of_mem hbody)
  cases hr with
  | @install _ _ _ _ c himplied hc =>
    obtain ⟨-, rfl⟩ := installOfBody_eq_ok_iff.1 hc
    apply List.mem_append_right
    exact List.mem_map_of_mem (List.mem_map_of_mem (List.mem_filter.2 ⟨hbody, isPackage_of_isQuoted hq⟩))
  | @exec _ _ _ c hc =>
    show u.item.write ∈ c.parts m
    rw [parts_exec hc]
    exact List.mem_append_right _ hitems
  | @run _ _ _ c hc =>
    show u.item.write ∈ c.parts m
    rw [parts_run hc]
    exact List.mem_append_right _ hitems
  | create hc =>
    obtain ⟨template, rest, rfl, rfl⟩ := createOfBody_eq_ok_iff.1 hc
    rcases List.mem_cons.1 hbody with rfl | hbody
    · apply List.mem_append_left
      apply List.mem_append_left
      exact List.mem_cons_of_mem _ (List.mem_cons_of_mem _ (List.mem_singleton.2 rfl))
    · have hsep : (!u.isSeparator) = true := by simp [(isPackage_eq_true.1 (isPackage_of_isQuoted hq)).2]
      apply List.mem_append_right
      exact List.mem_map_of_mem (List.mem_map_of_mem (List.mem_filter.2 ⟨hbody, hsep⟩))

theorem exists_item_of_mem_ownWords {w : Text} (h : w ∈ ownWords) : ∃ i : Item, i.Legible ∧ i.write = w := by
  rcases List.mem_append.1 h with h | h
  · rcases List.mem_append.1 h with h | h
    · exact ⟨wordItem w, legible_wordItem h, rfl⟩
    · obtain ⟨r, hr, hw⟩ := List.mem_flatMap.1 h
      exact ⟨⟨.flag, w⟩, Flag.legible_of_mem_words hr hw, rfl⟩
  · rcases List.mem_cons.1 h with rfl | h
    · exact ⟨_, Flag.legible_frozenLockfile, rfl⟩
    · rw [List.mem_singleton.1 h]
      exact ⟨_, .separator, rfl⟩

/-- Outside quotes a line holds no operator if the text held none. -/
theorem isQuoted_of_holdsOperator (ht : ¬ Guard.HoldsOperator t) (h : parse t = .ok c) (m : Manager) {u : Token}
    (hu : u ∈ Token.scan 0 (c.lineFor m)) (ho : Guard.HoldsOperator (u.slice (c.lineFor m))) :
    u.item.isQuoted = true := by
  have hparts : ∀ w ∈ c.parts m, ∃ i : Item,
      (i.Legible ∧ (i.isQuoted = false → ¬ Guard.HoldsOperator i.write)) ∧ i.write = w := by
    refine forall_mem_parts ?_ ?_ h m
    · intro w hw
      obtain ⟨i, hi, rfl⟩ := exists_item_of_mem_ownWords hw
      exact ⟨i, ⟨hi, fun _ => Guard.not_holdsOperator_of_mem_ownWords _ hw⟩, rfl⟩
    · intro v hv
      refine ⟨v.item, ⟨Token.legible_of_mem_scan hv, fun hq hw => ht ?_⟩, rfl⟩
      rcases Token.bare_or_quoted hv with ⟨-, hs⟩ | ⟨mark, rest, -, hi, -⟩
      · rw [hs] at hw
        exact hw.mono (Token.slice_isInfix t v)
      · rw [hi] at hq
        cases hq
  obtain ⟨items, hitems, hwrite⟩ := Token.exists_items hparts
  have hscan := Token.scan_join (fun i hi => (hitems i hi).1) 0
  rw [hwrite] at hscan
  rcases Token.bare_or_quoted hu with ⟨hq, hs⟩ | ⟨mark, rest, -, hi, -⟩
  · rw [← hs] at ho
    exact absurd ho ((hitems u.item (hscan ▸ List.mem_map_of_mem hu)).2 hq)
  · rw [hi]
    rfl

section Twice

variable {x : Char} (hx : x = '&' ∨ x = '|')
include hx

/-- A doubled character makes no word call for a command. -/
theorem not_mem_callingWords_of_twice {i : Item} (hi : i.Legible) (h : [x, x] <:+: i.write) :
    i.value ∉ callingWords := by
  have hcalling : ∀ w ∈ callingWords, '&' ∉ w ∧ '|' ∉ w := by decide
  have hvalue : x ∈ i.value := by
    rcases Token.mem_of_mem_write hi (h.subset (List.mem_cons_self ..)) with hv | rfl | hm
    · exact hv
    · rcases hx with hx | hx <;> cases hx
    · rcases hx with rfl | rfl <;> cases hm
  intro hc
  rcases hx with rfl | rfl
  · exact (hcalling _ hc).1 hvalue
  · exact (hcalling _ hc).2 hvalue

/-- A doubled character stands in a line if and only if a quoted argument has a backslash between the two. -/
theorem twice_line_iff (ht : ¬ Guard.HoldsOperator t) (h : parse t = .ok c) (m : Manager) :
    [x, x] <:+: c.lineFor m ↔
      ∃ u ∈ Token.scan 0 t, u.item.isQuoted = true ∧ [x, '\\', x] <:+: u.slice t := by
  have hop : [x, x] ∈ Guard.operators := by rcases hx with rfl | rfl <;> decide
  have hspace : ' ' ∉ [x, x] := by rcases hx with rfl | rfl <;> decide
  have hwords : ∀ w ∈ c.parts m, [x, x] <:+: w →
      ∃ u ∈ Token.scan 0 t, u.item.isQuoted = true ∧ [x, '\\', x] <:+: u.slice t := by
    refine forall_mem_parts ?_ ?_ h m
    · intro w hw hi
      exact absurd ⟨_, hop, hi⟩ (Guard.not_holdsOperator_of_mem_ownWords w hw)
    · intro u hu hi
      exact ⟨u, hu, (Token.twice_write_iff ht hu hx).1 hi⟩
  rw [lineFor, Text.infix_join_iff hspace (List.cons_ne_nil _ _)]
  constructor
  · rintro ⟨w, hw, hi⟩
    exact hwords w hw hi
  · rintro ⟨u, hu, hq⟩
    have hi := (Token.twice_write_iff ht hu hx).2 hq
    have hc := not_mem_callingWords_of_twice hx (Token.legible_of_mem_scan hu) hi
    exact ⟨_, write_mem_parts h hu hq.1 hc m, hi⟩

end Twice

/-- A single character that the guard refuses comes into no line. -/
theorem not_mem_line_of_operator (ht : ¬ Guard.HoldsOperator t) (h : parse t = .ok c) (m : Manager) {x : Char}
    (hx : [x] ∈ Guard.operators) (hown : x ∉ ownChars) : x ∉ c.lineFor m := by
  intro hmem
  rcases mem_text_or_ownChars h m x hmem with hmem | hmem
  · exact ht ⟨_, hx, (List.singleton_infix_iff _ _).2 hmem⟩
  · exact hown hmem

end Command

/-! ## What the lines hold -/

/-- No line holds a `;` or a line feed, and outside quotes none holds an operator. A doubled `&` or `|` stands in
    a line if and only if a quoted argument of the text has a backslash between the two. -/
theorem operators_of_convert {o : Options} {t : Text} {r : Translation} (h : convert o t = .ok r) (m : Manager) :
    (';' ∉ r.commandFor m ∧ '\n' ∉ r.commandFor m) ∧
      (∀ u ∈ Token.tokenize (r.commandFor m), Guard.HoldsOperator (u.slice (r.commandFor m)) →
        u.item.isQuoted = true) ∧
      ∀ x, x = '&' ∨ x = '|' → ([x, x] <:+: r.commandFor m ↔ ∃ u ∈ Token.tokenize (Text.trim t),
        u.item.isQuoted = true ∧ [x, '\\', x] <:+: u.slice (Text.trim t)) := by
  obtain ⟨c, hr, -, rfl⟩ := convert_eq_ok_iff.1 h
  obtain ⟨href, hp⟩ := Command.read_eq_ok_iff.1 hr
  have ht := Guard.not_holdsOperator_of_refusal? href
  rw [Command.commandFor_translate]
  refine ⟨⟨?_, ?_⟩, ?_, ?_⟩
  · exact Command.not_mem_line_of_operator ht hp m (by decide) (by decide)
  · exact Command.not_mem_line_of_operator ht hp m (by decide) (by decide)
  · intro u hu ho
    rcases List.mem_append.1 hu with hu | hu
    · rw [← Token.slice_unmark] at ho
      rw [← Token.isQuoted_unmark]
      exact Command.isQuoted_of_holdsOperator ht hp m (Token.mem_scan_iff.2 ⟨u, hu, rfl⟩) ho
    · -- The token at the end covers nothing.
      have hnil : ¬ Guard.HoldsOperator [] := by decide
      rw [List.mem_singleton.1 hu] at ho
      exact absurd (by simpa [Token.slice, Token.lineEnd, Token.atEnd] using ho) hnil
  · intro x hx
    rw [Command.twice_line_iff hx ht hp m, Token.exists_quoted_iff]

/-- Of two quoted arguments one doubles `&` once the backslash is off; the other keeps a backslash that is
    itself escaped. -/
theorem operators_of_convert_escaped : ∃ r, convert .standard "npm i \"a&\\&b\" 'c|\\\\|d'".toList = .ok r ∧
    r.commands.bun = "bun add \"a&&b\" 'c|\\\\|d'".toList ∧
      ['&', '&'] <:+: r.commandFor .bun ∧ ¬ ['|', '|'] <:+: r.commandFor .bun := by
  let r : Translation :=
    ⟨⟨"npm install \"a&&b\" 'c|\\\\|d'".toList, "pnpm add \"a&&b\" 'c|\\\\|d'".toList,
      "yarn add \"a&&b\" 'c|\\\\|d'".toList, "bun add \"a&&b\" 'c|\\\\|d'".toList⟩,
      .install ⟨.npm, ["a&&b".toList, "c|\\|d".toList], false, false, false, false, false, false, []⟩⟩
  have h : convert .standard "npm i \"a&\\&b\" 'c|\\\\|d'".toList = .ok r := by decide +kernel
  obtain ⟨-, -, htwice⟩ := operators_of_convert h .bun
  refine ⟨r, h, rfl, (htwice '&' (.inl rfl)).2 (by decide +kernel), ?_⟩
  rw [htwice '|' (.inr rfl)]
  decide +kernel

/-- What the guard refuses in a text may stand in the lines. -/
theorem holdsOperator_of_escaped :
    ¬ ∀ (o : Options) (t : Text) (r : Translation), convert o t = .ok r →
      ∀ m, ¬ Guard.HoldsOperator (r.commandFor m) := by
  intro hall
  have hyarn : (convert .standard "npm i \"a&\\&b\"".toList).toOption.map (fun r => r.commandFor .yarn) =
      some "yarn add \"a&&b\"".toList := by decide +kernel
  cases h : convert .standard "npm i \"a&\\&b\"".toList with
  | error e =>
    rw [h] at hyarn
    cases hyarn
  | ok r =>
    rw [h] at hyarn
    have hline : r.commandFor .yarn = "yarn add \"a&&b\"".toList := Option.some.inj hyarn
    apply hall _ _ r h .yarn
    rw [hline]
    decide +kernel

end CommandBridge
