/-
  CommandBridge.Proofs.KeptFlags — the flags on the lines for npm and pnpm.

  Between npm and pnpm a flag keeps the spelling that the user gave it. Of several spellings of one category the one
  that stands first in the table is written, and flags that are in no table are written as they came.
  - `mem_variants_iff`: the table of a category has the spellings that are read as it, and no other.
  - `filter_fullFlags`: for each category that was asked for one spelling is written, and it is one that was given.
  - `flagWords_kept`: the flags that are read again from the lines, against those of the text.
-/

import CommandBridge.Proofs.Canonical
import CommandBridge.Proofs.InstallText

namespace CommandBridge

open Token (Item)

namespace Flag

/-! ## The spellings of a category -/

/-- The known spellings of a category, in the order in which they are looked for. -/
def Category.variants (k : Category) : List Text := (spellings.filter fun p => p.2 == k).map Prod.fst

theorem Rule.variants_category : ∀ r ∈ rules, r.category.variants = r.variants := by decide

theorem variants_frozen : Category.frozen.variants = [frozenLockfile] := by decide

theorem Category.frozen_or_exists_rule {k : Category} (hk : k ≠ .unknown) :
    k = .frozen ∨ ∃ r ∈ rules, r.category = k := by
  revert hk
  cases k <;> decide

/-- The tables cover each other: a spelling is read as the category that it is listed for. -/
theorem mem_variants_iff {k : Category} (hk : k ≠ .unknown) {w : Text} : w ∈ k.variants ↔ classify w = k := by
  simp only [Category.variants, List.mem_map, List.mem_filter, beq_iff_eq]
  constructor
  · intro h
    obtain ⟨p, ⟨hp, rfl⟩, rfl⟩ := h
    exact classify_of_mem_spellings p hp
  · intro h
    have hknown : ¬ ∀ p ∈ spellings, p.1 ≠ w := fun hn => hk (h.symm.trans (classify_eq_unknown_iff.2 hn))
    push Not at hknown
    obtain ⟨p, hp, rfl⟩ := hknown
    exact ⟨p, ⟨hp, (classify_of_mem_spellings p hp).symm.trans h⟩, rfl⟩

/-- Of the given words the spelling of the category that stands first in its table. -/
def preferred? (given : List Text) (k : Category) : Option Text := k.variants.find? fun v => given.contains v

variable {given : List Text} {k : Category}

theorem mem_of_preferred? {w : Text} (h : w ∈ preferred? given k) : w ∈ given :=
  List.contains_iff_mem.1 (List.find?_some h)

theorem isSome_preferred? (hk : k ≠ .unknown) : (preferred? given k).isSome = asks given k := by
  rw [Bool.eq_iff_iff, preferred?, List.find?_isSome, asks, List.any_eq_true]
  simp only [mem_variants_iff hk, List.contains_iff_mem, beq_iff_eq]
  exact exists_congr fun w => and_comm

theorem preferred?_eq_none (hk : k ≠ .unknown) (ha : asks given k = false) : preferred? given k = none := by
  rw [← Option.not_isSome_iff_eq_none, isSome_preferred? hk, ha]
  exact Bool.false_ne_true

/-- A rule falls back only if no spelling of its category was given. -/
theorem preferred?_category {r : Rule} (hr : r ∈ rules) (ha : asks given r.category = true) :
    preferred? given r.category = some (r.spelling given true) := by
  rw [← isSome_preferred? (category_ne_unknown r hr)] at ha
  obtain ⟨w, hw⟩ := Option.isSome_iff_exists.1 ha
  have hfind : r.variants.find? (fun v => given.contains v) = some w := by
    rw [← Rule.variants_category r hr]
    exact hw
  rw [hw, Rule.spelling, if_pos rfl, hfind]
  rfl

theorem preferred?_frozen (ha : asks given .frozen = true) : preferred? given .frozen = some frozenLockfile := by
  rw [← isSome_preferred? (by decide)] at ha
  obtain ⟨w, hw⟩ := Option.isSome_iff_exists.1 ha
  have hmem : w ∈ Category.frozen.variants := List.mem_of_find?_eq_some hw
  rw [variants_frozen, List.mem_singleton] at hmem
  rw [hw, hmem]

end Flag

/-! ## Written flags of one category -/

namespace Install

variable {c : Install}

theorem filter_unknownFlags (h : c.Settled) {k : Flag.Category} (hk : k ≠ .unknown) :
    c.unknownFlags.filter (fun w => Flag.classify w == k) = [] := by
  rw [unknownFlags_eq_filter h, List.filter_filter]
  apply List.filter_eq_nil_iff.2
  intro w _ hw
  obtain ⟨hw, hu⟩ := Bool.and_eq_true_iff.1 hw
  exact hk ((beq_iff_eq.1 hw).symm.trans (beq_iff_eq.1 hu))

theorem filter_frozenFlag (c : Install) (k : Flag.Category) : (c.frozenFlag true).filter (fun w => Flag.classify w == k) =
    if k = .frozen ∧ c.has .frozen = true then [Flag.frozenLockfile] else [] := by
  rw [frozenFlag, Bool.and_true]
  cases c.has .frozen <;> cases k <;> rfl

/-- For a known category the preferred one of the given spellings is written, and nothing if none was given. -/
theorem filter_fullFlags (h : c.Settled) (hc : c.keepsSpelling = true) {k : Flag.Category} (hk : k ≠ .unknown) :
    c.fullFlags.filter (fun w => Flag.classify w == k) = (Flag.preferred? c.spellings k).toList := by
  rw [fullFlags_eq, List.filter_append, List.filter_append, filter_unknownFlags h hk, List.append_nil,
    Flag.filter_written c.spelling_word, filter_frozenFlag, hc]
  rcases Flag.Category.frozen_or_exists_rule hk with rfl | ⟨r, hr, rfl⟩
  · have hnone : (Flag.rules.filter fun r => r.category == .frozen) = [] := by decide
    rw [hnone, has_eq_asks h]
    cases ha : Flag.asks c.spellings .frozen with
    | true => rw [Flag.preferred?_frozen ha]; rfl
    | false => rw [Flag.preferred?_eq_none hk ha]; rfl
  · have hone : ∀ r ∈ Flag.rules, (Flag.rules.filter fun q => q.category == r.category) = [r] := by decide
    rw [hone r hr, if_neg fun hf => Flag.category_ne_frozen r hr hf.1, List.append_nil, List.filter_singleton,
      has_eq_asks h]
    cases ha : Flag.asks c.spellings r.category with
    | true => rw [Flag.preferred?_category hr ha]; rfl
    | false => rw [Flag.preferred?_eq_none hk ha]; rfl

end Install

/-! ## Kept flags -/

/-- The flags `kept` are some of the flags `given`, spelled as they were: one for each known category that was given,
    and all that are not known, in their order and as often as they were given. -/
structure Flag.Keeps (given kept : List Text) : Prop where
  subset : ∀ w ∈ kept, w ∈ given
  once : ∀ k : Flag.Category, k ≠ .unknown →
    ((kept.filter fun w => classify w == k).length = 1 ↔ ∃ w ∈ given, classify w = k)
  /-- Of several spellings the one that stands first in the table of the category. -/
  preferred : ∀ k : Flag.Category, k ≠ .unknown → kept.filter (fun w => classify w == k) = (preferred? given k).toList
  unknown : kept.filter (fun w => classify w == .unknown) = given.filter fun w => classify w == .unknown

theorem Flag.keeps_of_filter {given kept : List Text}
    (hk : ∀ k : Flag.Category, k ≠ .unknown → kept.filter (fun w => classify w == k) = (preferred? given k).toList)
    (hu : kept.filter (fun w => classify w == .unknown) = given.filter fun w => classify w == .unknown) :
    Keeps given kept := by
  refine ⟨?_, ?_, hk, hu⟩
  · intro w hw
    have hmem : w ∈ kept.filter fun v => classify v == classify w := List.mem_filter.2 ⟨hw, beq_self_eq_true _⟩
    by_cases hc : classify w = .unknown
    · rw [hc, hu] at hmem
      exact (List.mem_filter.1 hmem).1
    · rw [hk _ hc, Option.mem_toList] at hmem
      exact mem_of_preferred? hmem
  · intro k hne
    have hasks : (preferred? given k).isSome = true ↔ ∃ w ∈ given, classify w = k := by
      simp only [isSome_preferred? hne, asks, List.any_eq_true, beq_iff_eq]
    rw [hk k hne, ← hasks]
    cases preferred? given k <;> simp

namespace Install

theorem keeps_fullFlags {c : Install} (h : c.Settled) (hc : c.keepsSpelling = true) :
    Flag.Keeps c.spellings c.fullFlags := by
  apply Flag.keeps_of_filter
  · intro k hk
    exact filter_fullFlags h hc hk
  · rw [← unknownFlags_eq_filter h]
    exact filter_unknown_heard h .npm

end Install

namespace Command

variable {t : Text} {c : Install}

theorem ne_yarn_of_keepsFlags {m : Manager} (h : m.keepsFlags = true) : m ≠ .yarn := by
  rcases Manager.keepsFlags_iff.1 h with rfl | rfl <;> decide

/-- The flags of a text that is not written to yarn are the spellings of the install that it is read as. -/
theorem flagWords_eq_spellings (h : parse t = .ok (.install c)) (hm : c.manager.manager ≠ .yarn) :
    flagWords t = c.spellings := by
  rw [spellings_of_parse h, impliedWords_of_parse h hm, List.nil_append]

/-- The flags that are read again from the line for npm or pnpm are those that were written there. -/
theorem flagWords_lineFor (h : parse t = .ok (.install c)) {m : Manager} (hm : m.keepsFlags = true) :
    flagWords ((install c).translate.commandFor m) = c.fullFlags := by
  obtain ⟨d, hd, rfl, hs, -, -⟩ := install_hop h m
  rw [commandFor_translate, flagWords_eq_spellings hd (ne_yarn_of_keepsFlags hm), hs, c.heard_of_keepsFlags hm]

/-- Written to npm or pnpm, a text neither gains nor loses a flag on the lines for these two. -/
theorem flagWords_kept {t : Text} {c : Install} (h : parse t = .ok (.install c))
    (hm : c.manager.manager = .npm ∨ c.manager.manager = .pnpm) :
    flagWords ((install c).translate.commandFor .pnpm) = flagWords ((install c).translate.commandFor .npm) ∧
      Flag.Keeps (flagWords t) (flagWords ((install c).translate.commandFor .npm)) := by
  have hkeeps : c.manager.manager.keepsFlags = true := Manager.keepsFlags_iff.2 hm
  rw [flagWords_lineFor h (m := .npm) rfl, flagWords_lineFor h (m := .pnpm) rfl,
    flagWords_eq_spellings h (ne_yarn_of_keepsFlags hkeeps)]
  exact ⟨rfl, Install.keeps_fullFlags (settled_of_parse h) hkeeps⟩

/-- Several spellings of one category, a flag that is not known given twice, and a package that looks like a flag. -/
theorem flagWords_kept_preferred :
    ∃ c, parse "pnpm add --silent --dev '-O' -D --global --frozen-lockfile --silent".toList = .ok (.install c) ∧
      flagWords ((install c).translate.commandFor .pnpm) =
        ["-D".toList, "--global".toList, "--frozen-lockfile".toList, "--silent".toList, "--silent".toList] ∧
      Flag.Keeps ["--silent".toList, "--dev".toList, "-D".toList, "--global".toList, "--frozen-lockfile".toList,
        "--silent".toList] (flagWords ((install c).translate.commandFor .npm)) := by
  let flag (w : Text) (start : Nat) : Flag := ⟨w, Flag.classify w, ⟨start, start + w.length⟩⟩
  let c : Install := ⟨⟨.pnpm, "pnpm".toList, ⟨0, 4⟩⟩, some ⟨"add".toList, ⟨5, 8⟩⟩,
    [flag "--silent".toList 9, flag "--dev".toList 18, flag "-D".toList 29, flag "--global".toList 32,
      flag "--frozen-lockfile".toList 41, flag "--silent".toList 59],
    [.argument ⟨"-O".toList, .quoted ['\''], ⟨24, 28⟩⟩], false, ⟨0, 67⟩⟩
  have h : parse "pnpm add --silent --dev '-O' -D --global --frozen-lockfile --silent".toList = .ok (.install c) := by
    decide +kernel
  have hgiven : flagWords "pnpm add --silent --dev '-O' -D --global --frozen-lockfile --silent".toList =
      ["--silent".toList, "--dev".toList, "-D".toList, "--global".toList, "--frozen-lockfile".toList,
        "--silent".toList] := by decide +kernel
  obtain ⟨-, hkeeps⟩ := flagWords_kept h (.inr rfl)
  rw [hgiven] at hkeeps
  exact ⟨c, h, by decide +kernel, hkeeps⟩

end Command

end CommandBridge
