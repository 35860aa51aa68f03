/-
  CommandBridge.Proofs.Canonical — the lines that installs are written as.

  For each manager these lines are a language of their own: a header, the flags that the manager has words
  for in the order of the rules, and the packages. npm and pnpm keep the variant that the user chose and flags
  that are not known; yarn and bun have fixed words.
  - `canonical_parts`: whatever text an install was read from, it is written in the language.
  - `parts_of_canonical`: what is read from a line of the language is written as the parts of that line.
  - `canonicalLine_iff`: the lines of the language are those that are written, and those that say themselves.
-/

import CommandBridge.Proofs.Relay.Install

namespace CommandBridge

open Token (Item)
open scoped List

/-! ## Packages -/

/-- A word without spaces that begins neither a flag nor a quote, or any value between two marks. -/
inductive PackageText : Text → Prop
  | word {w : Text} : w ≠ [] → Item.SpaceFree w → (∀ c ∈ w.head?, c ≠ '-' ∧ Token.isMark c = false) → PackageText w
  | quoted {mark : Char} (value : Text) : Token.isMark mark = true → PackageText (CommandLine.writeQuoted mark [] value)

theorem packageText_write {i : Item} (hi : i.Legible) (hp : i.isPackage = true) : PackageText i.write := by
  cases hi with
  | word hne hs hh => exact .word hne hs hh
  | flag => cases hp
  | separator => cases hp
  | quoted value hm => exact .quoted value hm

theorem PackageText.exists_item {w : Text} (h : PackageText w) :
    ∃ i : Item, (i.Legible ∧ i.isPackage = true) ∧ i.write = w := by
  cases h with
  | word hne hs hh => exact ⟨_, ⟨.word hne hs hh, rfl⟩, rfl⟩
  | quoted value hm => exact ⟨_, ⟨.quoted value hm, rfl⟩, rfl⟩

/-! ## Flags -/

namespace Flag

/-- For some of these categories, in this order, one variant of their rules each. -/
def Spelled (ws : List Text) : Prop :=
  ∃ spell : Category → Text, (∀ r ∈ rules, spell r.category ∈ r.variants) ∧
    ws <+ [.dev, .global, .exact, .optional, .peer].map spell

/-- A flag that is in no table. -/
def IsUnknown (w : Text) : Prop := (⟨.flag, w⟩ : Item).Legible ∧ ∀ p ∈ spellings, p.1 ≠ w

/-- The flags of npm and pnpm: variants, then the lock file, then what is not known. -/
def Full (ws : List Text) : Prop :=
  ∃ spelled frozen unknown, Spelled spelled ∧ frozen <+ ["--frozen-lockfile".toList] ∧ (∀ w ∈ unknown, IsUnknown w) ∧
    ws = spelled ++ frozen ++ unknown

theorem spelled_iff {ws : List Text} : Spelled ws ↔
    ∃ spell : Rule → Text, (∀ r ∈ rules, spell r ∈ r.variants) ∧ ws <+ rules.map spell := by
  constructor
  · rintro ⟨spell, hspell, hsub⟩
    exact ⟨fun r => spell r.category, hspell, hsub⟩
  · rintro ⟨spell, hspell, hsub⟩
    let spellFor (k : Category) : Text := ((rules.find? fun r => r.category == k).map spell).getD []
    have hfind : ∀ r ∈ rules, (rules.find? fun q => q.category == r.category) = some r := by decide
    have hfor : ∀ r ∈ rules, spell r = spellFor r.category := by
      intro r hr
      simp only [spellFor, hfind r hr, Option.map_some, Option.getD_some]
    refine ⟨spellFor, fun r hr => hfor r hr ▸ hspell r hr, ?_⟩
    rw [List.map_congr_left hfor] at hsub
    exact hsub

theorem classify_eq_unknown_iff {w : Text} : classify w = .unknown ↔ ∀ p ∈ spellings, p.1 ≠ w := by
  constructor
  · rintro h p hp rfl
    have hall : ∀ p ∈ spellings, classify p.1 ≠ .unknown := by decide
    exact hall p hp h
  · intro h
    have hn : spellings.lookup w = none := by
      apply List.lookup_eq_none_iff.2
      intro p hp
      simpa using (h p hp).symm
    rw [classify, hn]
    rfl

theorem spelling_mem_variants {r : Rule} (hr : r ∈ rules) (given : List Text) (keep : Bool) :
    r.spelling given keep ∈ r.variants := by
  have hfallback : ∀ r ∈ rules, r.fallback ∈ r.variants := by decide
  unfold Rule.spelling
  split
  · cases hfind : r.variants.find? fun v => given.contains v with
    | none => exact hfallback r hr
    | some v => exact List.mem_of_find?_eq_some hfind
  · exact hfallback r hr

/-- Of the variants only one was given, so it is the one that is kept. -/
theorem spelling_of_only {r : Rule} {given : List Text} {w : Text} (hv : w ∈ r.variants) (hg : w ∈ given)
    (honly : ∀ v ∈ r.variants, v ∈ given → v = w) : r.spelling given true = w := by
  rw [Rule.spelling, if_pos rfl]
  cases hfind : r.variants.find? fun v => given.contains v with
  | none => exact absurd (List.contains_iff_mem.2 hg) (List.find?_eq_none.1 hfind w hv)
  | some v =>
    exact honly v (List.mem_of_find?_eq_some hfind) (List.contains_iff_mem.1 (List.find?_some hfind))

theorem mem_words_of_variants {spell : Rule → Text} (h : ∀ r ∈ rules, spell r ∈ r.variants) :
    ∀ r ∈ rules, ∀ w ∈ some (spell r), w ∈ r.words := by
  intro r hr w hw
  rw [← Option.mem_some.1 hw]
  exact variants_subset_words r (h r hr)

/-- A variant that was chosen is chosen again, whatever was said of other categories. -/
theorem spelling_eq_self {spell : Rule → Text} (hspell : ∀ r ∈ rules, spell r ∈ r.variants) {spelled others : List Text}
    (hsub : spelled <+ rules.map spell) {r : Rule} (hr : r ∈ rules) (ho : asks others r.category = false)
    (ha : asks (spelled ++ others) r.category = true) : r.spelling (spelled ++ others) true = spell r := by
  rw [← List.filterMap_eq_map'] at hsub
  have honly : ∀ w ∈ spelled ++ others, classify w = r.category → w ∈ spelled ∧ w = spell r := by
    intro w hw hc
    rcases List.mem_append.1 hw with hw | hw
    · exact ⟨hw, (Option.mem_some.1 (mem_spell_of_classify (mem_words_of_variants hspell) hsub hw hr hc)).symm⟩
    · exact absurd (beq_iff_eq.2 hc) (List.any_eq_false.1 ho w hw)
  obtain ⟨w, hw, hc⟩ := List.any_eq_true.1 ha
  obtain ⟨hws, rfl⟩ := honly w hw (beq_iff_eq.1 hc)
  apply spelling_of_only (hspell r hr) hw
  intro v hv hg
  exact (honly v hg (classify_of_mem hr hv)).2

theorem category_ne_frozen : ∀ r ∈ rules, r.category ≠ .frozen := by decide

theorem Spelled.exists_rule {ws : List Text} (h : Spelled ws) {w : Text} (hw : w ∈ ws) : ∃ r ∈ rules, w ∈ r.words := by
  obtain ⟨spell, hspell, hsub⟩ := spelled_iff.1 h
  obtain ⟨r, hr, rfl⟩ := List.mem_map.1 (hsub.subset hw)
  exact ⟨r, hr, variants_subset_words r (hspell r hr)⟩

theorem Spelled.asks_eq_false {ws : List Text} (h : Spelled ws) {k : Category} (hk : ∀ r ∈ rules, r.category ≠ k) :
    asks ws k = false := by
  apply Flag.asks_eq_false
  intro w hw
  obtain ⟨r, hr, hw⟩ := h.exists_rule hw
  rw [classify_of_mem_words r hr w hw]
  exact hk r hr

theorem asks_eq_false_of_sublist {ws vs : List Text} (h : ws <+ vs) {k : Category} (hv : asks vs k = false) :
    asks ws k = false :=
  List.any_eq_false.2 fun w hw => List.any_eq_false.1 hv w (h.subset hw)

theorem asks_frozen {ws : List Text} (h : ws <+ [frozenLockfile]) {k : Category} (hk : k ≠ .frozen) :
    asks ws k = false := by
  apply asks_eq_false
  intro w hw
  rw [List.mem_singleton.1 (h.subset hw), classify_frozenLockfile]
  exact hk.symm

theorem asks_unknown {ws : List Text} (h : ∀ w ∈ ws, IsUnknown w) {k : Category} (hk : k ≠ .unknown) :
    asks ws k = false := by
  apply asks_eq_false
  intro w hw
  rw [classify_eq_unknown_iff.2 (h w hw).2]
  exact hk.symm

theorem filter_unknown_eq_nil {ws : List Text} (h : asks ws .unknown = false) :
    ws.filter (fun w => classify w == .unknown) = [] :=
  List.filter_eq_nil_iff.2 (List.any_eq_false.1 h)

theorem filter_unknown_eq_self {ws : List Text} (h : ∀ w ∈ ws, IsUnknown w) :
    ws.filter (fun w => classify w == .unknown) = ws := by
  apply List.filter_eq_self.2
  intro w hw
  exact beq_iff_eq.2 (classify_eq_unknown_iff.2 (h w hw).2)

theorem Full.legible {ws : List Text} (h : Full ws) : ∀ w ∈ ws, (⟨.flag, w⟩ : Item).Legible := by
  obtain ⟨spelled, frozen, unknown, hs, hf, hu, rfl⟩ := h
  intro w hw
  rw [List.mem_append, List.mem_append] at hw
  rcases hw with (hw | hw) | hw
  · obtain ⟨r, hr, hw⟩ := hs.exists_rule hw
    exact legible_of_mem_words hr hw
  · rw [List.mem_singleton.1 (hf.subset hw)]
    exact legible_frozenLockfile
  · exact (hu w hw).1

end Flag

/-! ## The language of each manager -/

/-- The header, the flags and the packages of an install's line for a manager. -/
inductive Canonical : Manager → List Text → List Text → List Text → Prop
  | npm {flags packages : List Text} : Flag.Full flags → Canonical .npm ["npm".toList, "install".toList] flags packages
  | pnpmAdd {flags packages : List Text} : Flag.Full flags → packages ≠ [] →
      Canonical .pnpm ["pnpm".toList, "add".toList] flags packages
  | pnpmInstall {flags : List Text} : Flag.Full flags → Canonical .pnpm ["pnpm".toList, "install".toList] flags []
  | yarnAdd {flags packages : List Text} : flags <+ ["--dev".toList, "--exact".toList] → packages ≠ [] →
      Canonical .yarn ["yarn".toList, "add".toList] flags packages
  | yarnGlobal {flags packages : List Text} : flags <+ ["--dev".toList, "--exact".toList] → packages ≠ [] →
      Canonical .yarn ["yarn".toList, "global".toList, "add".toList] flags packages
  | yarnInstall {flags : List Text} : flags <+ ["--dev".toList, "--exact".toList, "--frozen-lockfile".toList] →
      Canonical .yarn ["yarn".toList, "install".toList] flags []
  | bunAdd {flags packages : List Text} : flags <+ ["--dev".toList, "-g".toList, "--exact".toList] → packages ≠ [] →
      Canonical .bun ["bun".toList, "add".toList] flags packages
  | bunInstall {flags : List Text} : flags <+ ["--dev".toList, "-g".toList, "--exact".toList] →
      Canonical .bun ["bun".toList, "install".toList] flags []

/-- The parts of such a line, joined by single spaces. -/
def CanonicalLine (m : Manager) (s : Text) : Prop :=
  ∃ header flags packages, Canonical m header flags packages ∧ (∀ w ∈ packages, PackageText w) ∧
    s = Text.joinWords (header ++ flags ++ packages)

namespace Install

variable {c d : Install}

/-! ## Installs are written in the language -/

theorem frozenFlag_sublist (c : Install) (allowed : Bool) : c.frozenFlag allowed <+ [Flag.frozenLockfile] := by
  unfold frozenFlag
  split
  · exact List.Sublist.refl _
  · exact List.nil_sublist _

theorem full_fullFlags (h : c.Settled) : Flag.Full c.fullFlags := by
  refine ⟨_, _, _, Flag.spelled_iff.2 ⟨fun r => r.spelling c.spellings c.keepsSpelling, ?_, ?_⟩,
    c.frozenFlag_sublist true, ?_, rfl⟩
  · intro r hr
    exact Flag.spelling_mem_variants hr _ _
  · exact List.filter_sublist.map _
  · intro w hw
    rw [unknownFlags_eq_filter h, List.mem_filter] at hw
    obtain ⟨f, hf, rfl⟩ := List.mem_map.1 hw.1
    exact ⟨(h.flags f hf).2, Flag.classify_eq_unknown_iff.1 (beq_iff_eq.1 hw.2)⟩

theorem packageText_of_mem (h : c.Settled) : ∀ w ∈ c.packages.map Leaf.write, PackageText w := by
  obtain ⟨ps, hps, hp⟩ := h.packages
  intro w hw
  rw [hps, List.map_map] at hw
  obtain ⟨p, hpm, rfl⟩ := List.mem_map.1 hw
  exact packageText_write (hp p hpm).1 (hp p hpm).2

theorem map_write_eq_nil_iff : c.packages.map Leaf.write = [] ↔ c.hasPackages = false := by
  simp [hasPackages]

theorem writtenFlags_yarn_of_hasPackages (hp : c.hasPackages = true) :
    c.writtenFlags .yarn = Flag.written c.has Flag.Rule.yarn := by
  rw [writtenFlags, frozenFlag, hp, Bool.not_true, Bool.and_false, if_neg Bool.false_ne_true, List.append_nil]
  rfl

theorem canonical_parts (h : c.Settled) (m : Manager) :
    Canonical m (c.header m) (c.writtenFlags m) (c.packages.map Leaf.write) := by
  have hrules {spell : Flag.Rule → Option Text} : c.rules.filterMap spell <+ Flag.rules.filterMap spell :=
    List.filter_sublist.filterMap spell
  cases hp : c.hasPackages with
  | false =>
    rw [map_write_eq_nil_iff.2 hp]
    cases m with
    | npm => exact .npm (full_fullFlags h)
    | pnpm =>
      rw [header, hp]
      exact .pnpmInstall (full_fullFlags h)
    | yarn =>
      rw [header, hp]
      exact .yarnInstall (hrules.append (c.frozenFlag_sublist _))
    | bun =>
      rw [header, hp]
      exact .bunInstall hrules
  | true =>
    have hne : c.packages.map Leaf.write ≠ [] := by
      rw [Ne, map_write_eq_nil_iff, hp]
      decide
    cases m with
    | npm => exact .npm (full_fullFlags h)
    | pnpm =>
      rw [header, hp]
      exact .pnpmAdd (full_fullFlags h) hne
    | yarn =>
      have hflags : c.writtenFlags .yarn <+ ["--dev".toList, "--exact".toList] := by
        rw [writtenFlags_yarn_of_hasPackages hp]
        exact hrules
      rw [header, hp]
      cases c.has .global with
      | true => exact .yarnGlobal hflags hne
      | false => exact .yarnAdd hflags hne
    | bun =>
      rw [header, hp]
      exact .bunAdd hrules hne

/-! ## Lines of the language say themselves -/

/-- The words of some rules are written again if what else was said asks for no other rule that has a word. -/
theorem written_eq_self (h : d.Settled) {spell : Flag.Rule → Option Text} {before ws after : List Text}
    (hs : ∀ r ∈ Flag.rules, ∀ w ∈ spell r, w ∈ r.words) (he : d.spellings = before ++ ws ++ after)
    (hws : ws <+ Flag.rules.filterMap spell)
    (ho : ∀ r ∈ Flag.rules, (spell r).isSome = true → Flag.asks (before ++ after) r.category = false) :
    Flag.written d.has spell = ws := by
  apply Flag.written_eq_self hs hws
  intro r hr hsome
  have hother := ho r hr hsome
  rw [Flag.asks_append, Bool.or_eq_false_iff] at hother
  rw [has_eq_asks h, he, Flag.asks_append, Flag.asks_append, hother.1, hother.2, Bool.false_or, Bool.or_false]

theorem frozenFlag_eq_self {frozen : List Text} (h : frozen <+ [Flag.frozenLockfile])
    (hd : d.has .frozen = Flag.asks frozen .frozen) : d.frozenFlag true = frozen := by
  rw [frozenFlag, hd, Bool.and_true]
  rcases List.sublist_cons_iff.1 h with hnil | ⟨rest, rfl, hrest⟩
  · rw [List.sublist_nil.1 hnil]
    rfl
  · rw [List.sublist_nil.1 hrest]
    rfl

/-- npm and pnpm give back the flags that they were given. -/
theorem fullFlags_eq_spellings (h : d.Settled) (hk : d.keepsSpelling = true) (hf : Flag.Full d.spellings) :
    d.fullFlags = d.spellings := by
  obtain ⟨spelled, frozen, unknown, hspelled, hfrozen, hunknown, he⟩ := hf
  have hfreeze : d.has .frozen = Flag.asks frozen .frozen := by
    rw [has_eq_asks h, he, Flag.asks_append, Flag.asks_append, hspelled.asks_eq_false Flag.category_ne_frozen,
      Flag.asks_unknown hunknown (by decide), Bool.false_or, Bool.or_false]
  have hfilter : d.unknownFlags = unknown := by
    have hknown : Flag.asks (spelled ++ frozen) .unknown = false := by
      rw [Flag.asks_append, hspelled.asks_eq_false Flag.category_ne_unknown, Flag.asks_frozen hfrozen (by decide),
        Bool.or_false]
    rw [unknownFlags_eq_filter h, he, List.filter_append, Flag.filter_unknown_eq_nil hknown,
      Flag.filter_unknown_eq_self hunknown, List.nil_append]
  -- Only what was spelled from the rules bears on the rules; the rest is of categories without one.
  obtain ⟨spell, hspell, hsub⟩ := Flag.spelled_iff.1 hspelled
  have hother : ∀ r ∈ Flag.rules, Flag.asks (frozen ++ unknown) r.category = false := by
    intro r hr
    rw [Flag.asks_append, Flag.asks_frozen hfrozen (Flag.category_ne_frozen r hr),
      Flag.asks_unknown hunknown (Flag.category_ne_unknown r hr), Bool.or_false]
  have hs : d.spellings = [] ++ spelled ++ (frozen ++ unknown) := by rw [he, List.nil_append, List.append_assoc]
  have hspelling : ∀ r ∈ d.rules, r.spelling d.spellings d.keepsSpelling = spell r := by
    intro r hr
    obtain ⟨hr, ha⟩ := List.mem_filter.1 hr
    rw [has_eq_asks h, hs] at ha
    rw [hk, hs]
    exact Flag.spelling_eq_self hspell hsub hr (hother r hr) ha
  have hrules : d.rules.map spell = spelled := by
    rw [← List.filterMap_eq_map'] at hsub ⊢
    exact written_eq_self h (Flag.mem_words_of_variants hspell) hs hsub fun r hr _ => hother r hr
  rw [fullFlags, List.map_congr_left hspelling, hrules, frozenFlag_eq_self hfrozen hfreeze, hfilter, he]

section Parts

variable {header implied flags packages : List Text} {m : Manager}

theorem hasPackages_of_map (hp : d.packages.map Leaf.write = packages) : d.hasPackages = !packages.isEmpty := by
  rw [← hp, List.isEmpty_map]
  rfl

theorem fullFlags_of_canonical (h : d.Settled) (hm : d.keepsSpelling = true) (hs : d.spellings = flags)
    (hf : Flag.Full flags) : d.fullFlags = flags := by
  rw [fullFlags_eq_spellings h hm (hs ▸ hf), hs]

theorem yarnRules_of_canonical (h : d.Settled) {frozen : List Text} (hs : d.spellings = implied ++ flags ++ frozen)
    (hi : implied <+ ["--global".toList]) (hf : flags <+ ["--dev".toList, "--exact".toList])
    (hz : frozen <+ [Flag.frozenLockfile]) : Flag.written d.has Flag.Rule.yarn = flags := by
  have hglobal : ∀ r ∈ Flag.rules, (Flag.Rule.yarn r).isSome = true → Flag.asks ["--global".toList] r.category = false := by
    decide
  refine written_eq_self h (fun r _ w => Flag.yarn_mem_words) hs hf fun r hr hsome => ?_
  rw [Flag.asks_append, Flag.asks_eq_false_of_sublist hi (hglobal r hr hsome),
    Flag.asks_frozen hz (Flag.category_ne_frozen r hr), Bool.or_false]

theorem bunRules_of_canonical (h : d.Settled) (hs : d.spellings = flags)
    (hf : flags <+ ["--dev".toList, "-g".toList, "--exact".toList]) : Flag.written d.has Flag.Rule.bun = flags := by
  have hs : d.spellings = [] ++ flags ++ [] := by rw [hs, List.nil_append, List.append_nil]
  exact written_eq_self h (fun r _ w => Flag.bun_mem_words) hs hf fun _ _ _ => rfl

/-- What is read from a line of the language is written as the parts of that line. -/
theorem parts_of_canonical (hc : Canonical m header flags packages) (hh : Headed m header implied) (h : d.Settled)
    (hm : d.manager.manager = m) (hs : d.spellings = implied ++ flags) (hp : d.packages.map Leaf.write = packages) :
    d.parts m = header ++ flags ++ packages := by
  suffices hparts : d.header m = header ∧ d.writtenFlags m = flags by rw [parts, hparts.1, hparts.2, hp]
  have hpackages : packages ≠ [] → d.hasPackages = true := by
    intro hne
    rw [hasPackages_of_map hp]
    simpa using hne
  cases hc with
  | npm hf =>
    cases hh
    exact ⟨rfl, fullFlags_of_canonical h (by rw [keepsSpelling, hm]; rfl) hs hf⟩
  | pnpmAdd hf hne =>
    cases hh
    refine ⟨?_, fullFlags_of_canonical h (by rw [keepsSpelling, hm]; rfl) hs hf⟩
    rw [Install.header, hpackages hne]
    rfl
  | pnpmInstall hf =>
    cases hh
    refine ⟨?_, fullFlags_of_canonical h (by rw [keepsSpelling, hm]; rfl) hs hf⟩
    rw [Install.header, hasPackages_of_map hp]
    rfl
  | yarnAdd hf hne =>
    cases hh
    have hs : d.spellings = [] ++ flags ++ [] := by rw [hs, List.append_nil]
    have hglobal : d.has .global = false := by
      rw [has_eq_asks h, hs, List.append_nil]
      exact Flag.asks_eq_false_of_sublist hf (by decide)
    refine ⟨?_, ?_⟩
    · rw [Install.header, hpackages hne, hglobal]
      rfl
    · rw [writtenFlags_yarn_of_hasPackages (hpackages hne)]
      exact yarnRules_of_canonical h hs (List.nil_sublist _) hf (List.nil_sublist _)
  | yarnGlobal hf hne =>
    cases hh
    -- The header said it, so it is asked for and still not among the flags of the line.
    have hs : d.spellings = ["--global".toList] ++ flags ++ [] := by rw [hs, List.append_nil]
    have hglobal : d.has .global = true := by
      rw [has_eq_asks h, hs, List.append_nil, Flag.asks_append]
      exact Bool.or_eq_true_iff.2 (.inl (by decide))
    refine ⟨?_, ?_⟩
    · rw [Install.header, hpackages hne, hglobal]
      rfl
    · rw [writtenFlags_yarn_of_hasPackages (hpackages hne)]
      exact yarnRules_of_canonical h hs (List.Sublist.refl _) hf (List.nil_sublist _)
  | yarnInstall hf =>
    cases hh
    have hf : flags <+ ["--dev".toList, "--exact".toList] ++ [Flag.frozenLockfile] := hf
    obtain ⟨words, frozen, rfl, hwords, hfrozen⟩ := List.sublist_append_iff.1 hf
    have hfreeze : d.has .frozen = Flag.asks frozen .frozen := by
      rw [has_eq_asks h, hs, List.nil_append, Flag.asks_append, Flag.asks_eq_false_of_sublist hwords (by decide),
        Bool.false_or]
    have hnone : d.hasPackages = false := hasPackages_of_map hp
    refine ⟨?_, ?_⟩
    · rw [Install.header, hnone]
      rfl
    · show Flag.written d.has Flag.Rule.yarn ++ d.frozenFlag (!d.hasPackages) = _
      rw [hnone, Bool.not_false, frozenFlag_eq_self hfrozen hfreeze,
        yarnRules_of_canonical h (by rw [hs, List.nil_append, List.nil_append]) (List.nil_sublist _) hwords hfrozen]
  | bunAdd hf hne =>
    cases hh
    refine ⟨?_, bunRules_of_canonical h hs hf⟩
    rw [Install.header, hpackages hne]
    rfl
  | bunInstall hf =>
    cases hh
    refine ⟨?_, bunRules_of_canonical h hs hf⟩
    rw [Install.header, hasPackages_of_map hp]
    rfl

end Parts

end Install

/-! ## Lines -/

namespace Canonical

variable {m : Manager} {header flags packages : List Text}

theorem exists_headed (h : Canonical m header flags packages) : ∃ implied, Install.Headed m header implied := by
  cases h with
  | yarnGlobal => exact ⟨_, .global⟩
  | npm => exact ⟨_, .verb .npm (by decide)⟩
  | pnpmAdd => exact ⟨_, .verb .pnpm (by decide)⟩
  | pnpmInstall => exact ⟨_, .verb .pnpm (by decide)⟩
  | yarnAdd => exact ⟨_, .verb .yarn (by decide)⟩
  | yarnInstall => exact ⟨_, .verb .yarn (by decide)⟩
  | bunAdd => exact ⟨_, .verb .bun (by decide)⟩
  | bunInstall => exact ⟨_, .verb .bun (by decide)⟩

theorem legible (h : Canonical m header flags packages) : ∀ w ∈ flags, (⟨.flag, w⟩ : Item).Legible := by
  have hfixed {ws : List Text} (hsub : flags <+ ws) (hws : ∀ w ∈ ws, w.head? = some '-' ∧ Item.SpaceFree w ∧
      w ≠ Token.separatorText) : ∀ w ∈ flags, (⟨.flag, w⟩ : Item).Legible := by
    intro w hw
    obtain ⟨hh, hs, hne⟩ := hws w (hsub.subset hw)
    exact .flag hh hs hne
  cases h with
  | npm hf => exact hf.legible
  | pnpmAdd hf => exact hf.legible
  | pnpmInstall hf => exact hf.legible
  | yarnAdd hf => exact hfixed hf (by decide)
  | yarnGlobal hf => exact hfixed hf (by decide)
  | yarnInstall hf => exact hfixed hf (by decide)
  | bunAdd hf => exact hfixed hf (by decide)
  | bunInstall hf => exact hfixed hf (by decide)

theorem join_eq (h : Canonical m header flags packages) (hp : ∀ w ∈ packages, PackageText w) :
    CommandLine.join (header ++ flags ++ packages) = Text.joinWords (header ++ flags ++ packages) := by
  have hwords : ∀ w ∈ Command.headerWords, w ≠ [] := by decide
  obtain ⟨implied, hh⟩ := h.exists_headed
  apply CommandLine.join_eq_joinWords
  refine List.forall_mem_append.2 ⟨List.forall_mem_append.2 ⟨?_, ?_⟩, ?_⟩
  · intro w hw
    exact hwords w (hh.subset w hw)
  · intro w hw
    exact Token.write_ne_nil (h.legible w hw)
  · intro w hw
    obtain ⟨i, hi, rfl⟩ := (hp w hw).exists_item
    exact Token.write_ne_nil hi.1

end Canonical

namespace CanonicalLine

variable {m : Manager} {s : Text}

/-- Whatever text an install was read from, its lines are in the language. -/
theorem of_parse {t : Text} {c : Install} (h : Command.parse t = .ok (.install c)) (m : Manager) :
    CanonicalLine m ((Command.install c).lineFor m) := by
  have hc := Command.settled_of_parse h
  have hparts := Install.canonical_parts hc m
  have hpackages := Install.packageText_of_mem hc
  exact ⟨_, _, _, hparts, hpackages, hparts.join_eq hpackages⟩

/-- A line of the language is read as an install whose line it is. -/
theorem exists_parse (h : CanonicalLine m s) : ∃ d, Command.parse s = .ok (.install d) ∧ d.manager.manager = m ∧
    (Command.install d).lineFor m = s := by
  obtain ⟨header, flags, packages, hc, hpackages, rfl⟩ := h
  obtain ⟨implied, hh⟩ := hc.exists_headed
  obtain ⟨items, hitems, hwrite⟩ := Token.exists_items fun w hw => (hpackages w hw).exists_item
  obtain ⟨d, hd, hm, hs, -, hp⟩ := Command.parse_install hh hc.legible hitems
  rw [hwrite] at hd hp
  rw [hc.join_eq hpackages] at hd
  refine ⟨d, hd, hm, ?_⟩
  show CommandLine.join (d.parts m) = _
  rw [Install.parts_of_canonical hc hh (Command.settled_of_parse hd) hm hs hp, hc.join_eq hpackages]

end CanonicalLine

/-- The lines of a manager's language are the lines that installs are written as for the manager, whatever text
    they were read from, and they are the installs to that manager which are written as they stand. -/
theorem canonicalLine_iff (m : Manager) (s : Text) :
    (CanonicalLine m s ↔
      ∃ t c, Command.parse t = .ok (.install c) ∧ (Command.install c).translate.commandFor m = s) ∧
    (CanonicalLine m s ↔
      ∃ d, Command.parse s = .ok (.install d) ∧ d.manager.manager = m ∧
        (Command.install d).translate.commandFor m = s) := by
  have hwritten {t : Text} {c : Install} (h : Command.parse t = .ok (.install c))
      (hs : (Command.install c).translate.commandFor m = s) : CanonicalLine m s := by
    rw [← hs, Command.commandFor_translate]
    exact .of_parse h m
  constructor
  · constructor
    · intro h
      obtain ⟨d, hd, -, hs⟩ := h.exists_parse
      exact ⟨s, d, hd, by rw [Command.commandFor_translate, hs]⟩
    · rintro ⟨t, c, h, hs⟩
      exact hwritten h hs
  · constructor
    · intro h
      obtain ⟨d, hd, hm, hs⟩ := h.exists_parse
      exact ⟨d, hd, hm, by rw [Command.commandFor_translate, hs]⟩
    · rintro ⟨d, hd, -, hs⟩
      exact hwritten hd hs

example : (Command.parse "npm install --save-dev --frozen-lockfile --silent vite 'a b'".toList).toOption.map
    (fun c => c.translate.commandFor .npm) =
      some "npm install --save-dev --frozen-lockfile --silent vite 'a b'".toList := by decide +kernel

end CommandBridge
