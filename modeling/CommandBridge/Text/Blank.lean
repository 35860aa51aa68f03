/-
  CommandBridge.Text.Blank — blank characters and what surrounds a text.

  A character is blank when it separates words in the Unicode sense: the ASCII controls 09 to 0D
  and 1C to 1F, the space, 85 and A0, and the space and line separators beyond Latin-1. Zero-width
  characters are not blank.
  - `lead_append_trimLeft`, `trimRight_append_trail`: trimming only cuts blanks off.
  - `words_joinWords_append`: words that are joined come apart again.
  - `isTrimmed_trim`, `trim_eq_self`: a trimmed text has no blank at either end, and then trimming does nothing.
  - `trim_around`, `lead_around`, `trail_around`: blanks around a trimmed text are told from it again.
  - `lead_trim_trail`: and so a text is its blanks around what is trimmed.
-/

import CommandBridge.Text.Basic

namespace CommandBridge.Text

/-- The blank code points, as inclusive ranges. -/
def blankRanges : List (Nat × Nat) :=
  [(0x09, 0x0D), (0x1C, 0x20), (0x85, 0x85), (0xA0, 0xA0), (0x1680, 0x1680), (0x2000, 0x200A),
   (0x2028, 0x2029), (0x202F, 0x202F), (0x205F, 0x205F), (0x3000, 0x3000)]

def isBlank (c : Char) : Bool := blankRanges.any fun r => r.1 ≤ c.toNat && c.toNat ≤ r.2

/-! ## Trimming -/

def lead (t : Text) : Text := t.takeWhile isBlank

def trimLeft (t : Text) : Text := t.dropWhile isBlank

def trail (t : Text) : Text := (lead t.reverse).reverse

def trimRight (t : Text) : Text := (trimLeft t.reverse).reverse

def trim (t : Text) : Text := trimRight (trimLeft t)

/-- The maximal runs of characters that are not blank. -/
def words (t : Text) : List Text := (t.splitOnP isBlank).filter fun w => !w.isEmpty

theorem lead_append_trimLeft (t : Text) : lead t ++ trimLeft t = t := List.takeWhile_append_dropWhile

theorem trimRight_append_trail (t : Text) : trimRight t ++ trail t = t := by
  rw [trimRight, trail, ← List.reverse_append, lead_append_trimLeft, List.reverse_reverse]

theorem isBlank_of_mem_lead {t : Text} {c : Char} (h : c ∈ lead t) : isBlank c = true :=
  List.all_eq_true.1 List.all_takeWhile c h

theorem isBlank_of_mem_trail {t : Text} {c : Char} (h : c ∈ trail t) : isBlank c = true :=
  isBlank_of_mem_lead (List.mem_reverse.1 h)

theorem trimLeft_eq_nil_iff {t : Text} : trimLeft t = [] ↔ ∀ c ∈ t, isBlank c := by
  induction t with
  | nil => simp [trimLeft]
  | cons c rest ih =>
    by_cases h : isBlank c
    · rw [trimLeft, List.dropWhile_cons_of_pos h, ← trimLeft, ih, List.forall_mem_cons]
      simp only [h, true_and]
    · rw [trimLeft, List.dropWhile_cons_of_neg h, List.forall_mem_cons]
      simp [h]

theorem trimRight_eq_nil_iff {t : Text} : trimRight t = [] ↔ ∀ c ∈ t, isBlank c := by
  rw [trimRight, List.reverse_eq_nil_iff, trimLeft_eq_nil_iff]
  simp

theorem trim_subset (t : Text) : trim t ⊆ t := by
  intro c hc
  have hc : c ∈ trimLeft t := by
    rw [← trimRight_append_trail (trimLeft t)]
    exact List.mem_append_left _ hc
  exact (List.dropWhile_suffix _).subset hc

/-! ## Words -/

theorem words_cons_of_isBlank {c : Char} (h : isBlank c = true) (t : Text) : words (c :: t) = words t := by
  rw [words, List.splitOnP_cons_eq_if_modifyHead, if_pos h, List.filter_cons_of_neg (by simp), words]

theorem words_append {t v : Text} (h : ∀ c ∈ v.head?, isBlank c = true) : words (t ++ v) = words t ++ words v := by
  cases v with
  | nil => simp [words]
  | cons c v =>
    have hc := h c rfl
    rw [words_cons_of_isBlank hc, words, List.splitOnP_append_cons t v hc, List.filter_append, words, words]

/-- A text without blanks is one word. -/
theorem words_eq_singleton {w : Text} (hne : w ≠ []) (h : ∀ c ∈ w, isBlank c = false) : words w = [w] := by
  rw [words, List.splitOnP_eq_singleton h, List.filter_cons_of_pos (by simpa using hne), List.filter_nil]

/-- Words that are joined come apart again, and then what follows after a blank. -/
theorem words_joinWords_append {ws : List Text} (hw : ∀ w ∈ ws, w ≠ [] ∧ ∀ c ∈ w, isBlank c = false) {v : Text}
    (hv : ∀ c ∈ v.head?, isBlank c = true) : words (joinWords ws ++ v) = ws ++ words v := by
  induction ws with
  | nil => rfl
  | cons w ws ih =>
    obtain ⟨⟨hne, hc⟩, hws⟩ := List.forall_mem_cons.1 hw
    cases ws with
    | nil =>
      have hjoin : joinWords [w] = w := by simp [joinWords]
      rw [hjoin, words_append hv, words_eq_singleton hne hc]
    | cons u ws =>
      have hspace : isBlank ' ' = true := by decide
      have hhead : ∀ c ∈ (' ' :: (joinWords (u :: ws) ++ v)).head?, isBlank c = true := by
        intro c hc
        cases hc
        exact hspace
      rw [joinWords_cons_cons, List.append_assoc, List.cons_append, words_append hhead, words_cons_of_isBlank hspace,
        ih hws, words_eq_singleton hne hc]
      rfl

/-! ## Trimmed texts -/

/-- Neither end is blank. -/
def IsTrimmed (t : Text) : Prop := (∀ c ∈ t.head?, isBlank c = false) ∧ ∀ c ∈ t.getLast?, isBlank c = false

theorem isBlank_of_mem_head?_trimLeft {t : Text} {c : Char} (h : c ∈ (trimLeft t).head?) : isBlank c = false := by
  have hd := List.head?_dropWhile_not isBlank t
  rw [← trimLeft, Option.mem_def.1 h] at hd
  exact hd

theorem isBlank_of_mem_getLast?_trimRight {t : Text} {c : Char} (h : c ∈ (trimRight t).getLast?) :
    isBlank c = false := by
  rw [trimRight, List.getLast?_reverse] at h
  exact isBlank_of_mem_head?_trimLeft h

theorem isTrimmed_trim (t : Text) : IsTrimmed (trim t) := by
  refine ⟨fun c hc => ?_, fun c hc => isBlank_of_mem_getLast?_trimRight hc⟩
  -- What is cut off at the right leaves the head alone, unless nothing is left.
  apply isBlank_of_mem_head?_trimLeft (t := t)
  rw [← trimRight_append_trail (trimLeft t), List.head?_append, ← trim, Option.mem_def.1 hc]
  rfl

theorem trimLeft_eq_self {t : Text} (h : ∀ c ∈ t.head?, isBlank c = false) : trimLeft t = t := by
  cases t with
  | nil => rfl
  | cons c rest => exact List.dropWhile_cons_of_neg (by simp [h c rfl])

theorem trim_eq_self {t : Text} (h : IsTrimmed t) : trim t = t := by
  have hr : ∀ c ∈ t.reverse.head?, isBlank c = false := by
    rw [List.head?_reverse]
    exact h.2
  rw [trim, trimLeft_eq_self h.1, trimRight, trimLeft_eq_self hr, List.reverse_reverse]

theorem isTrimmed_of_solid {w : Text} (h : ∀ c ∈ w, isBlank c = false) : IsTrimmed w :=
  ⟨fun c hc => h c (List.mem_of_mem_head? hc), fun c hc => h c (List.mem_of_mem_getLast? hc)⟩

theorem IsTrimmed.append_space {w v : Text} (hw : IsTrimmed w) (hv : IsTrimmed v) (hwn : w ≠ []) (hvn : v ≠ []) :
    IsTrimmed (w ++ ' ' :: v) := by
  obtain ⟨c, w, rfl⟩ := List.exists_cons_of_ne_nil hwn
  obtain ⟨d, v, rfl⟩ := List.exists_cons_of_ne_nil hvn
  refine ⟨hw.1, fun e he => hv.2 e ?_⟩
  rw [List.getLast?_append, List.getLast?_cons_cons, List.getLast?_cons, Option.some_or] at he
  rw [List.getLast?_cons]
  exact he

theorem isTrimmed_joinWords {ws : List Text} (h : ∀ w ∈ ws, w ≠ [] ∧ IsTrimmed w) : IsTrimmed (joinWords ws) := by
  induction ws with
  | nil => exact ⟨nofun, nofun⟩
  | cons w ws ih =>
    obtain ⟨⟨hne, hw⟩, hws⟩ := List.forall_mem_cons.1 h
    cases ws with
    | nil => simpa [joinWords] using hw
    | cons v ws =>
      rw [joinWords_cons_cons]
      exact hw.append_space (ih hws) hne (joinWords_ne_nil (hws v (List.mem_cons_self ..)).1 ws)

theorem trim_trim (t : Text) : trim (trim t) = trim t := trim_eq_self (isTrimmed_trim t)

/-! ## Blanks around a text -/

theorem lead_append {w t : Text} (hw : ∀ c ∈ w, isBlank c = true) (ht : ∀ c ∈ t.head?, isBlank c = false) :
    lead (w ++ t) = w := by
  have hn : t.takeWhile isBlank = [] := by
    cases t with
    | nil => rfl
    | cons c rest => exact List.takeWhile_cons_of_neg (by simp [ht c rfl])
  rw [lead, List.takeWhile_append_of_pos hw, hn, List.append_nil]

theorem trimRight_append {t : Text} (h : ∀ c ∈ t.getLast?, isBlank c = false) (v : Text) :
    trimRight (t ++ v) = t ++ trimRight v := by
  have ht : trimLeft t.reverse = t.reverse := by
    apply trimLeft_eq_self
    rw [List.head?_reverse]
    exact h
  rw [trimRight, trimRight, List.reverse_append, trimLeft, List.dropWhile_append, ← trimLeft, ← trimLeft, ht]
  split
  case isTrue hv => rw [List.isEmpty_iff.1 hv, List.reverse_reverse, List.reverse_nil, List.append_nil]
  case isFalse => rw [List.reverse_append, List.reverse_reverse]

section Around

variable {w t v : Text}

theorem trim_around (hw : ∀ c ∈ w, isBlank c = true) (hv : ∀ c ∈ v, isBlank c = true) (h : IsTrimmed t) :
    trim (w ++ t ++ v) = t := by
  have hl : trimLeft (w ++ (t ++ v)) = trimLeft (t ++ v) := List.dropWhile_append_of_pos hw
  rw [List.append_assoc, trim, hl]
  cases t with
  | nil =>
    rw [List.nil_append, trimLeft_eq_nil_iff.2 hv]
    rfl
  | cons c rest =>
    have hc : trimLeft (c :: rest ++ v) = c :: rest ++ v := trimLeft_eq_self h.1
    rw [hc, trimRight_append h.2, trimRight_eq_nil_iff.2 hv, List.append_nil]

theorem lead_around (hw : ∀ c ∈ w, isBlank c = true) (h : IsTrimmed t) (hne : t ≠ []) :
    lead (w ++ t ++ v) = w := by
  obtain ⟨c, rest, rfl⟩ := List.exists_cons_of_ne_nil hne
  rw [List.append_assoc]
  exact lead_append hw h.1

theorem trail_around (hv : ∀ c ∈ v, isBlank c = true) (h : IsTrimmed t) (hne : t ≠ []) :
    trail (w ++ t ++ v) = v := by
  have hr : t.reverse ≠ [] := by simpa using hne
  have ht : IsTrimmed t.reverse := by
    rw [IsTrimmed, List.head?_reverse, List.getLast?_reverse]
    exact ⟨h.2, h.1⟩
  rw [trail, List.reverse_append, List.reverse_append, ← List.append_assoc, lead_around (by simpa using hv) ht hr,
    List.reverse_reverse]

end Around

/-- A text that is not all blank is cut at its blanks. -/
theorem lead_trim_trail {t : Text} (h : trim t ≠ []) : lead t ++ trim t ++ trail t = t := by
  have hcut : lead t ++ trim t ++ trail (trimLeft t) = t := by
    rw [List.append_assoc, trim, trimRight_append_trail, lead_append_trimLeft]
  have hblank : ∀ c ∈ trail (trimLeft t), isBlank c = true := fun _ => isBlank_of_mem_trail
  have htrail := trail_around (w := lead t) hblank (isTrimmed_trim t) h
  rw [hcut] at htrail
  rw [htrail, hcut]

end CommandBridge.Text
