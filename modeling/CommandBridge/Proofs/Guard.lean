/-
  CommandBridge.Proofs.Guard — texts that the guard lets pass, and that stay so when they are written again.

  A character is plain if it neither escapes nor opens a group, and is blank only as the scanner's spaces
  are. A text of plain characters passes the guard if no operator stands in it. Such a text is harmless,
  trimmed as well, and so is every word of its own tokens and every line that joins harmless words.
  - `isComposed_eq_false_iff`: without parentheses only the operators count, wherever they stand.
  - `harmless_write`: a token of a harmless text is written as a harmless word.
  - `harmless_join`: harmless words joined to a line are harmless.
-/

import CommandBridge.Guard
import CommandBridge.Proofs.Layout
import CommandBridge.Proofs.Vocabulary
import Mathlib.Data.List.Chain

namespace CommandBridge

open Token (Item)

/-! ## Operators -/

namespace Guard

def IsPlain (c : Char) : Prop := c ≠ '\\' ∧ c ≠ '(' ∧ (Text.isBlank c = true → Token.isSpace c = true)

instance (c : Char) : Decidable (IsPlain c) := inferInstanceAs (Decidable (_ ∧ _))

theorem plain_of_all {t : Text} (h : t.all (fun c => decide (IsPlain c)) = true) : ∀ c ∈ t, IsPlain c := by
  simpa using h

/-- The two characters are no operator. -/
def Apart (a b : Char) : Prop := ¬ (a = b ∧ (a = '&' ∨ a = '|'))

instance (a b : Char) : Decidable (Apart a b) := inferInstanceAs (Decidable (¬ _))

theorem apart_of_ne {a b : Char} (h : a ≠ '&' ∧ a ≠ '|') : Apart a b ∧ Apart b a := by
  constructor
  · intro hab
    rcases hab.2 with rfl | rfl
    · exact h.1 rfl
    · exact h.2 rfl
  · intro hba
    obtain ⟨rfl, hb | hb⟩ := hba
    · exact h.1 hb
    · exact h.2 hb

theorem composes_eq_false_iff {p : Pattern} {c : Char} {rest : Text} (h : c ≠ '(') :
    composes p (c :: rest) = false ↔ (c ≠ ';' ∧ c ≠ '\n') ∧ ∀ d ∈ rest.head?, Apart c d := by
  unfold composes
  split
  case h_6 hsemicolon hfeed hand hor _ =>
    refine ⟨fun _ => ⟨⟨fun e => hsemicolon rest (by rw [e]), fun e => hfeed rest (by rw [e])⟩, ?_⟩, fun _ => rfl⟩
    intro d hd hcd
    obtain ⟨tail, rfl⟩ := List.head?_eq_some_iff.1 hd
    obtain ⟨rfl, rfl | rfl⟩ := hcd
    · exact hand tail rfl
    · exact hor tail rfl
  all_goals simp_all [Apart]

/-- Without parentheses only the operators count, wherever they stand. -/
theorem isComposed_eq_false_iff {p : Pattern} {t : Text} (h : '(' ∉ t) :
    isComposed p t = false ↔ (∀ c ∈ t, c ≠ ';' ∧ c ≠ '\n') ∧ t.IsChain Apart := by
  induction t with
  | nil => simp [isComposed]
  | cons c rest ih =>
    rw [List.mem_cons, not_or] at h
    rw [isComposed, Bool.or_eq_false_iff, composes_eq_false_iff (Ne.symm h.1), ih h.2, List.forall_mem_cons,
      List.isChain_cons]
    constructor
    · intro hc
      exact ⟨⟨hc.1.1, hc.2.1⟩, hc.1.2, hc.2.2⟩
    · intro hc
      exact ⟨⟨hc.1.1, hc.2.1⟩, hc.1.2, hc.2.2⟩

/-! ## Harmless texts -/

/-- A text that the guard lets pass as it is. -/
structure Harmless (t : Text) : Prop where
  plain : ∀ c ∈ t, IsPlain c
  single : ∀ c ∈ t, c ≠ ';' ∧ c ≠ '\n'
  apart : t.IsChain Apart
  trimmed : Text.IsTrimmed t

theorem paren_not_mem {t : Text} (h : ∀ c ∈ t, IsPlain c) : '(' ∉ t := fun hp => (h _ hp).2.1 rfl

theorem backslash_not_mem {t : Text} (h : ∀ c ∈ t, IsPlain c) : '\\' ∉ t := fun hp => (h _ hp).1 rfl

/-- What the guard lets pass of a plain text is harmless once it is trimmed. -/
theorem harmless_trim {t : Text} (ht : ∀ c ∈ t, IsPlain c) (h : refusal? t none = none) : Harmless (Text.trim t) := by
  have hp : ∀ c ∈ Text.trim t, IsPlain c := fun c hc => ht c (Text.trim_subset t hc)
  unfold refusal? at h
  dsimp only at h
  split at h
  · cases h
  split at h
  · cases h
  case isFalse hc =>
    obtain ⟨hs, ha⟩ := (isComposed_eq_false_iff (paren_not_mem hp)).1 (by simpa using hc)
    exact ⟨hp, hs, ha, Text.isTrimmed_trim t⟩

theorem refusal?_of_harmless {t : Text} (h : Harmless t) (hne : t ≠ []) : refusal? t none = none := by
  have hc (p : Pattern) : isComposed p t = false := (isComposed_eq_false_iff (paren_not_mem h.plain)).2 ⟨h.single, h.apart⟩
  have he : t.isEmpty = false := by simpa using hne
  simp [refusal?, Text.trim_eq_self h.trimmed, he, hc]

/-! ## Joined lines -/

namespace Harmless

theorem nil : Harmless [] := ⟨by simp, by simp, List.isChain_nil, by simp [Text.IsTrimmed]⟩

theorem append_space {w v : Text} (hw : Harmless w) (hv : Harmless v) (hwn : w ≠ []) (hvn : v ≠ []) :
    Harmless (w ++ ' ' :: v) where
  plain := List.forall_mem_append.2 ⟨hw.plain, List.forall_mem_cons.2 ⟨by decide, hv.plain⟩⟩
  single := List.forall_mem_append.2 ⟨hw.single, List.forall_mem_cons.2 ⟨by decide, hv.single⟩⟩
  apart := by
    have hs : ' ' ≠ '&' ∧ ' ' ≠ '|' := by decide
    refine List.isChain_append.2 ⟨hw.apart, List.isChain_cons.2 ⟨fun c _ => (apart_of_ne hs).1, hv.apart⟩, ?_⟩
    intro c _ d hd
    cases hd
    exact (apart_of_ne hs).2
  trimmed := hw.trimmed.append_space hv.trimmed hwn hvn

end Harmless

theorem harmless_joinWords {ws : List Text} (h : ∀ w ∈ ws, Harmless w ∧ w ≠ []) : Harmless (Text.joinWords ws) := by
  induction ws with
  | nil => exact .nil
  | cons w ws ih =>
    obtain ⟨hw, hws⟩ := List.forall_mem_cons.1 h
    cases ws with
    | nil => simpa [Text.joinWords] using hw.1
    | cons v ws =>
      rw [Text.joinWords_cons_cons]
      exact hw.1.append_space (ih hws) hw.2 (Text.joinWords_ne_nil (hws v (List.mem_cons_self ..)).2 ws)

theorem harmless_join {ws : List Text} (h : ∀ w ∈ ws, Harmless w) : Harmless (CommandLine.join ws) := by
  apply harmless_joinWords
  intro w hw
  obtain ⟨hw, hne⟩ := List.mem_filter.1 hw
  exact ⟨h w hw, by simpa using hne⟩

end Guard

/-! ## Tokens of texts without escapes -/

namespace Token

theorem escaped_eq_self {mark : Char} {value : Text} (hb : '\\' ∉ value) (hm : mark ∉ value) :
    escaped mark value = value := by
  have hc : ∀ c ∈ value, (if c = '\\' ∨ c = mark then ['\\', c] else [c]) = [c] := by
    intro c hc
    rw [if_neg]
    rintro (rfl | rfl)
    · exact hb hc
    · exact hm hc
  rw [escaped, List.flatMap_congr hc, List.flatMap_singleton']

namespace Lexeme

theorem quotedBody_unescaped {mark : Char} {t : Text} (h : '\\' ∉ t) :
    mark ∉ (quotedBody mark t).value ∧ (quotedBody mark t).value <+: (quotedBody mark t).source := by
  fun_induction quotedBody mark t with
  | case1 => exact ⟨List.not_mem_nil, List.nil_prefix⟩
  | case2 => exact absurd (List.mem_cons_self ..) h
  | case3 => exact absurd (List.mem_cons_self ..) h
  | case4 => exact ⟨List.not_mem_nil, List.nil_prefix⟩
  | case5 c rest _ _ hc ih =>
    obtain ⟨hm, hp⟩ := ih fun hb => h (List.mem_cons_of_mem _ hb)
    refine ⟨fun hmem => ?_, (List.prefix_cons_inj c).2 hp⟩
    rcases List.mem_cons.1 hmem with rfl | hmem
    · exact hc rfl
    · exact hm hmem

theorem value_infix_source {c : Char} {rest : Text} (h : '\\' ∉ rest) : (read c rest).value <:+: (read c rest).source := by
  unfold read
  split
  · exact List.infix_cons (quotedBody_unescaped h).2.isInfix
  · exact List.infix_refl _

theorem kind_word_ne_quoted (c : Char) (rest : Text) (mark : Option Text) :
    (word c rest).kind ≠ .argument (.quoted mark) := by
  have hq := isQuoted_wordKind (word c rest).value (word c rest).value
  intro h
  rw [show wordKind (word c rest).value = .argument (.quoted mark) from h] at hq
  cases hq

theorem mark_not_mem_value {c mark : Char} {rest : Text} (h : '\\' ∉ rest)
    (hk : (read c rest).kind = .argument (.quoted (some [mark]))) : mark ∉ (read c rest).value := by
  unfold read at hk ⊢
  split at hk
  case isTrue hm =>
    rw [if_pos hm]
    rw [quoted, kind_quotedBody] at hk
    cases hk
    exact (quotedBody_unescaped h).1
  case isFalse hm => exact absurd hk (kind_word_ne_quoted c rest _)

end Lexeme

section Unescaped

variable {n : Nat} {s : Text} {u : Token}

/-- Without escapes a value stands in the text as it is. -/
theorem infix_of_mem_scan (h : u ∈ scan n s) (hb : '\\' ∉ s) : u.value <:+: s := by
  obtain ⟨c, rest, hs, -, hi⟩ := exists_read_of_mem_scan h
  have hv : u.value = (Lexeme.read c rest).value := congrArg Item.value hi
  have hrest : '\\' ∉ rest := fun hr => hb (hs.subset (List.mem_cons_of_mem _ hr))
  have hread : (Lexeme.read c rest).source <:+: c :: rest :=
    ⟨[], (Lexeme.read c rest).rest, Lexeme.source_append_rest c rest⟩
  rw [hv]
  exact (Lexeme.value_infix_source hrest).trans (hread.trans hs.isInfix)

/-- Without escapes a quoted value does not hold its own mark. -/
theorem mark_not_mem_of_mem_scan (h : u ∈ scan n s) (hb : '\\' ∉ s) {mark : Char}
    (hk : u.kind = .argument (.quoted (some [mark]))) : mark ∉ u.value := by
  obtain ⟨c, rest, hs, -, hi⟩ := exists_read_of_mem_scan h
  have hv : u.value = (Lexeme.read c rest).value := congrArg Item.value hi
  have hkind : u.kind = (Lexeme.read c rest).kind := congrArg Item.kind hi
  have hrest : '\\' ∉ rest := fun hr => hb (hs.subset (List.mem_cons_of_mem _ hr))
  rw [hv]
  exact Lexeme.mark_not_mem_value hrest (hkind.symm.trans hk)

end Unescaped

end Token

/-! ## Words of harmless texts -/

namespace Guard

theorem isTrimmed_of_spaceFree {w : Text} (hp : ∀ c ∈ w, IsPlain c) (hw : Item.SpaceFree w) : Text.IsTrimmed w := by
  apply Text.isTrimmed_of_solid
  intro c hc
  have h := (hp c hc).2.2
  rw [hw c hc] at h
  simpa using h

/-- A word without spaces that stands in a harmless text is harmless. -/
theorem Harmless.of_infix {w t : Text} (ht : Harmless t) (h : w <:+: t) (hw : Item.SpaceFree w) : Harmless w where
  plain c hc := ht.plain c (h.subset hc)
  single c hc := ht.single c (h.subset hc)
  apart := ht.apart.infix h
  trimmed := isTrimmed_of_spaceFree (fun c hc => ht.plain c (h.subset hc)) hw

/-- Between two marks anything that stands in a harmless text is harmless. -/
theorem Harmless.between_marks {w t : Text} (ht : Harmless t) (h : w <:+: t) {mark : Char}
    (hm : Token.isMark mark = true) : Harmless (mark :: w ++ [mark]) := by
  have hmark : (IsPlain mark ∧ mark ≠ ';' ∧ mark ≠ '\n') ∧ (mark ≠ '&' ∧ mark ≠ '|') ∧ Text.isBlank mark = false := by
    rcases Bool.or_eq_true_iff.1 hm with h | h <;> rw [beq_iff_eq.1 h] <;> decide
  obtain ⟨⟨hplain, hsingle⟩, hop, hblank⟩ := hmark
  have hw : w.IsChain Apart := ht.apart.infix h
  refine ⟨?_, ?_, ?_, ?_, ?_⟩
  · exact List.forall_mem_cons.2 ⟨hplain, List.forall_mem_append.2
      ⟨fun c hc => ht.plain c (h.subset hc), List.forall_mem_singleton.2 hplain⟩⟩
  · exact List.forall_mem_cons.2 ⟨hsingle, List.forall_mem_append.2
      ⟨fun c hc => ht.single c (h.subset hc), List.forall_mem_singleton.2 hsingle⟩⟩
  · refine List.isChain_cons.2 ⟨fun c _ => (apart_of_ne hop).1, List.isChain_append.2
      ⟨hw, List.isChain_singleton _, ?_⟩⟩
    intro c _ d hd
    cases hd
    exact (apart_of_ne hop).2
  · intro c hc
    cases hc
    exact hblank
  · intro c hc
    rw [List.getLast?_concat] at hc
    cases hc
    exact hblank

/-- A token of a harmless text is written as a harmless word. -/
theorem harmless_write {t : Text} (ht : Harmless t) {n : Nat} {u : Token} (h : u ∈ Token.scan n t) :
    Harmless u.item.write := by
  have hb := backslash_not_mem ht.plain
  have hvalue := Token.infix_of_mem_scan h hb
  have hmark (mark : Char) (hk : u.kind = .argument (.quoted (some [mark]))) : mark ∉ u.value :=
    Token.mark_not_mem_of_mem_scan h hb hk
  have hl := Token.legible_of_mem_scan h
  obtain ⟨kind, value, start, stop⟩ := u
  cases hl with
  | word _ hw _ => exact ht.of_infix hvalue hw
  | flag _ hw _ => exact ht.of_infix hvalue hw
  | separator => exact ht.of_infix hvalue (by decide : Item.SpaceFree Token.separatorText)
  | @quoted mark _ hm =>
    show Harmless (Item.write ⟨.argument (.quoted (some [mark])), value⟩)
    rw [Token.write_quoted hm, Token.escaped_eq_self (fun hv => hb (hvalue.subset hv)) (hmark mark rfl)]
    exact ht.between_marks hvalue hm

theorem harmless_of_mem_ownWords : ∀ w ∈ Command.ownWords, Harmless w := by
  have hall : ∀ w ∈ Command.ownWords, w.all (fun c => decide (IsPlain c)) = true ∧
      w.all (fun c => c != ';' && c != '\n') = true ∧ w.IsChain Apart ∧ Item.SpaceFree w := by decide
  intro w hw
  obtain ⟨hp, hs, ha, hf⟩ := hall w hw
  have hplain : ∀ c ∈ w, IsPlain c := plain_of_all hp
  exact ⟨hplain, by simpa using hs, ha, isTrimmed_of_spaceFree hplain hf⟩

end Guard

end CommandBridge
