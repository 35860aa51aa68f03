/-
  CommandBridge.Proofs.FlagWords — the words of flags, and the categories they are read with.

  - `classify_of_mem_words`: every word that a rule can be written with is known by its category.
  - `asks_written`: of the rules that are written, a category is asked for again if there is a word for it.
  - `written_eq_self`: words that were chosen from those of the rules are written again.
  - `Category.keptBy`: the categories that each manager has words for.
-/

import CommandBridge.Flag
import CommandBridge.Proofs.Item
import Mathlib.Data.List.Perm.Subperm

namespace CommandBridge

open Token (Item)
open scoped List

/-! ## The words of the rules -/

namespace Flag

/-- Some of the words has the category. -/
def asks (ws : List Text) (k : Category) : Bool := ws.any fun w => classify w == k

theorem asks_append (ws vs : List Text) (k : Category) : asks (ws ++ vs) k = (asks ws k || asks vs k) :=
  List.any_append

theorem asks_congr {ws vs : List Text} (h : ∀ w, w ∈ vs ↔ w ∈ ws) (k : Category) : asks vs k = asks ws k := by
  rw [Bool.eq_iff_iff, asks, asks, List.any_eq_true, List.any_eq_true]
  simp only [h]

/-- A rule looks for its variants among the given spellings, whatever their order and number. -/
theorem Rule.spelling_congr (r : Rule) {given given' : List Text} (h : ∀ w, w ∈ given' ↔ w ∈ given) (keep : Bool) :
    r.spelling given' keep = r.spelling given keep := by
  have hgiven : (fun v => given'.contains v) = fun v => given.contains v := by
    funext v
    rw [Bool.eq_iff_iff, List.contains_iff_mem, List.contains_iff_mem]
    exact h v
  simp only [spelling, hgiven]

/-- Every word that can be written for a rule. -/
def Rule.words (r : Rule) : List Text := r.fallback :: r.variants ++ r.yarn.toList ++ r.bun.toList

theorem asks_eq_false {ws : List Text} {k : Category} (h : ∀ w ∈ ws, classify w ≠ k) : asks ws k = false := by
  apply List.any_eq_false.mpr
  intro w hw hk
  exact h w hw (beq_iff_eq.1 hk)

theorem category_ne_unknown : ∀ r ∈ rules, r.category ≠ .unknown := by decide

theorem eq_of_category_eq : ∀ r ∈ rules, ∀ s ∈ rules, r.category = s.category → r = s := by decide

theorem variants_subset_words (r : Rule) : r.variants ⊆ r.words := by
  intro w hw
  simp [Rule.words, hw]

theorem classify_of_mem_words : ∀ r ∈ rules, ∀ w ∈ r.words, classify w = r.category := by decide

theorem legible_of_mem_words {r : Rule} (hr : r ∈ rules) {w : Text} (hw : w ∈ r.words) :
    (⟨.flag, w⟩ : Item).Legible := by
  have hall : ∀ r ∈ rules, ∀ w ∈ r.words, w.head? = some '-' ∧ Item.SpaceFree w ∧ w ≠ Token.separatorText := by decide
  obtain ⟨hh, hs, hne⟩ := hall r hr w hw
  exact .flag hh hs hne

theorem legible_frozenLockfile : (⟨.flag, frozenLockfile⟩ : Item).Legible :=
  .flag rfl (by decide) (by decide)

theorem spelling_mem_words (r : Rule) (given : List Text) (keep : Bool) : r.spelling given keep ∈ r.words := by
  have hf : r.fallback ∈ r.words := List.mem_cons_self ..
  unfold Rule.spelling
  split
  · cases hfind : r.variants.find? fun v => given.contains v with
    | none => exact hf
    | some v =>
      have hv : v ∈ r.variants := List.mem_of_find?_eq_some hfind
      simp [Rule.words, hv]
  · exact hf

theorem yarn_mem_words {r : Rule} {w : Text} (h : w ∈ r.yarn) : w ∈ r.words := by
  simp [Rule.words, Option.mem_def.1 h]

theorem bun_mem_words {r : Rule} {w : Text} (h : w ∈ r.bun) : w ∈ r.words := by
  simp [Rule.words, Option.mem_def.1 h]

/-! ## Written rules -/

/-- The rules of some categories, as far as there are words for them. -/
def written (has : Category → Bool) (spell : Rule → Option Text) : List Text :=
  (rules.filter fun r => has r.category).filterMap spell

section Written

variable {has : Category → Bool} {spell : Rule → Option Text}

theorem mem_written {w : Text} : w ∈ written has spell ↔ ∃ r ∈ rules, has r.category = true ∧ w ∈ spell r := by
  simp [written, List.mem_filterMap, and_assoc]

/-- What is written hangs only on the categories that there is a word for. -/
theorem written_congr {other : Category → Bool}
    (h : ∀ r ∈ rules, (spell r).isSome = true → has r.category = other r.category) :
    written has spell = written other spell := by
  rw [written, written, List.filterMap_filter, List.filterMap_filter]
  apply List.filterMap_congr
  intro r hr
  cases hs : spell r with
  | none => rw [ite_self, ite_self]
  | some w => rw [h r hr (by rw [hs]; rfl)]

/-- A category is asked for again if it was asked for and its rule has a word. -/
theorem asks_written (hs : ∀ r, ∀ w ∈ spell r, w ∈ r.words) (k : Category) :
    asks (written has spell) k = (has k && rules.any fun r => r.category == k && (spell r).isSome) := by
  rw [Bool.eq_iff_iff, Bool.and_eq_true, asks, List.any_eq_true, List.any_eq_true]
  constructor
  · intro h
    obtain ⟨w, hw, hk⟩ := h
    obtain ⟨r, hr, hh, hw⟩ := mem_written.1 hw
    have hc : r.category = k := (classify_of_mem_words r hr w (hs r w hw)).symm.trans (beq_iff_eq.1 hk)
    exact ⟨hc ▸ hh, r, hr, by rw [hc, Option.mem_def.1 hw]; simp⟩
  · intro h
    obtain ⟨hk, r, hr, hrk⟩ := h
    obtain ⟨hc, hsome⟩ := Bool.and_eq_true_iff.1 hrk
    obtain ⟨w, hw⟩ := Option.isSome_iff_exists.1 hsome
    have hc : r.category = k := beq_iff_eq.1 hc
    exact ⟨w, mem_written.2 ⟨r, hr, hc ▸ hk, hw⟩, by rw [classify_of_mem_words r hr w (hs r w hw), hc]; simp⟩

/-- Of what is written, the words of one category are those that its rule is written with. -/
theorem filter_written (hs : ∀ r, ∀ w ∈ spell r, w ∈ r.words) (k : Category) :
    (written has spell).filter (fun w => classify w == k) =
      ((rules.filter fun r => r.category == k).filter fun r => has r.category).filterMap spell := by
  rw [written, List.filter_filter, List.filterMap_filter, List.filter_filterMap, List.filterMap_filter]
  apply List.filterMap_congr
  intro r hr
  cases hw : spell r with
  | none => simp
  | some w =>
    rw [← classify_of_mem_words r hr w (hs r w hw)]
    cases has (classify w) <;> simp [Option.filter]

theorem filter_unknown_written (hs : ∀ r, ∀ w ∈ spell r, w ∈ r.words) :
    (written has spell).filter (fun w => classify w == .unknown) = [] := by
  have hnone : (rules.filter fun r => r.category == .unknown) = [] := by decide
  rw [filter_written hs, hnone]
  rfl

/-! ## Chosen words are written again -/

variable {ws : List Text}

/-- Of the words of the rules, a rule's own word is the only one of its category. -/
theorem mem_spell_of_classify (hs : ∀ r ∈ rules, ∀ w ∈ spell r, w ∈ r.words) (hws : ws <+ rules.filterMap spell)
    {w : Text} (hw : w ∈ ws) {r : Rule} (hr : r ∈ rules) (hc : classify w = r.category) : w ∈ spell r := by
  obtain ⟨q, hq, hw⟩ := List.mem_filterMap.1 (hws.subset hw)
  have hqc : q.category = r.category := (classify_of_mem_words q hq w (hs q hq w hw)).symm.trans hc
  rw [← eq_of_category_eq q hq r hr hqc]
  exact hw

theorem nodup_filterMap_spell (hs : ∀ r ∈ rules, ∀ w ∈ spell r, w ∈ r.words) : (rules.filterMap spell).Nodup := by
  have hrules : rules.Pairwise fun r q => r.category ≠ q.category := by decide
  apply List.Pairwise.filterMap spell _ (List.Pairwise.and_mem.1 hrules)
  intro r q hrq w hw v hv e
  obtain ⟨hr, hq, hne⟩ := hrq
  rw [← classify_of_mem_words r hr w (hs r hr w hw), ← classify_of_mem_words q hq v (hs q hq v hv), e] at hne
  exact hne rfl

/-- Words that were chosen from those of the rules are written again, in the same order. -/
theorem written_eq_self (hs : ∀ r ∈ rules, ∀ w ∈ spell r, w ∈ r.words) (hws : ws <+ rules.filterMap spell)
    (h : ∀ r ∈ rules, (spell r).isSome = true → has r.category = asks ws r.category) : written has spell = ws := by
  have hsub : written has spell <+ rules.filterMap spell := List.filter_sublist.filterMap spell
  have hnodup := nodup_filterMap_spell hs
  -- Two sublists of a list without repetitions are the same if they have the same members.
  apply (hnodup.perm_iff_eq_of_sublist hsub hws).1
  apply (List.perm_ext_iff_of_nodup (hnodup.sublist hsub) (hnodup.sublist hws)).2
  intro w
  constructor
  · intro hw
    obtain ⟨r, hr, hh, hw⟩ := mem_written.1 hw
    rw [h r hr (by rw [Option.mem_def.1 hw]; rfl), asks, List.any_eq_true] at hh
    obtain ⟨v, hv, hc⟩ := hh
    have hvr : v ∈ spell r := mem_spell_of_classify hs hws hv hr (beq_iff_eq.1 hc)
    rw [Option.mem_unique hw hvr]
    exact hv
  · intro hw
    obtain ⟨r, hr, hwr⟩ := List.mem_filterMap.1 (hws.subset hw)
    have hc : classify w = r.category := classify_of_mem_words r hr w (hs r hr w hwr)
    refine mem_written.2 ⟨r, hr, ?_, hwr⟩
    rw [h r hr (by rw [hwr]; rfl), asks, List.any_eq_true]
    exact ⟨w, hw, beq_iff_eq.2 hc⟩

end Written

/-! ## What the managers have words for -/

/-- Whether a manager has a word for the category, when there are packages and when there are none. -/
def Category.keptBy (k : Category) (hasPackages : Bool) : Manager → Bool
  | .npm | .pnpm => true
  | .yarn =>
    match k with
    | dev | exact => true
    | global => hasPackages
    | frozen => !hasPackages
    | optional | peer | unknown => false
  | .bun =>
    match k with
    | dev | exact | global => true
    | optional | peer | frozen | unknown => false

end Flag

end CommandBridge
