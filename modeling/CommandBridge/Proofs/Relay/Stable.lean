/-
  CommandBridge.Proofs.Relay.Stable — lines of installs that stay the same on a path of managers.

  npm and pnpm give back what they are given, so between them nothing moves. Beside packages there is a core of
  flags that every manager has words for, and it outlasts every path. yarn and bun leave nothing else. After
  them npm and pnpm are given their own words for the core, which they give back too.
  - `Stable.hop`, `Stable.along`: what one hop leaves of an install, and that it adds up along a path.
  - `Reduced.parts_eq`: two installs that are left with the same packages and core are written the same.
  - `install_stable`: which lines never move, and where all of them end up after yarn or bun.
-/

import CommandBridge.Proofs.Canonical

namespace CommandBridge

/-! ## The core -/

namespace Flag.Category

/-- Beside packages every manager has a word for the category. -/
def isCore (k : Category) : Bool := Manager.all.all (k.keptBy true)

theorem keptBy_of_isCore {k : Category} (h : k.isCore = true) (m : Manager) : k.keptBy true m = true :=
  List.all_eq_true.1 h m (by cases m <;> decide)

theorem keptBy_of_keepsFlags {m : Manager} (h : m.keepsFlags = true) (k : Category) (b : Bool) :
    k.keptBy b m = true := by
  cases m with
  | npm => rfl
  | pnpm => rfl
  | yarn => cases h
  | bun => cases h

/-- yarn and bun have no other words. -/
theorem isCore_of_keptBy {m : Manager} (h : m.keepsFlags = false) {k : Category} (hk : k.keptBy true m = true) :
    k.isCore = true := by
  cases m with
  | npm => cases h
  | pnpm => cases h
  | yarn => cases k <;> first | rfl | cases hk
  | bun => cases k <;> first | rfl | cases hk

end Flag.Category

namespace Install

variable {c d e : Install}

/-- Only the core is asked for, and npm and pnpm are given their own words for it. -/
structure Reduced (c : Install) : Prop where
  core : ∀ k, c.has k = true → k.isCore = true
  flags : c.fullFlags = Flag.written c.has fun r => some r.fallback

theorem has_eq_false_of_core (h : ∀ k, c.has k = true → k.isCore = true) {k : Flag.Category} (hk : k.isCore = false) :
    c.has k = false := by
  rw [← Bool.not_eq_true]
  intro hc
  rw [h k hc] at hk
  cases hk

/-! ## Installs that are written the same -/

theorem hasPackages_congr (hp : d.packages.map Leaf.write = c.packages.map Leaf.write) :
    d.hasPackages = c.hasPackages := by
  rw [hasPackages_of_map hp, hasPackages_of_map rfl]

/-- For npm and pnpm it counts which spellings were given, and not where or how often. -/
theorem fullFlags_congr (hkeep : d.keepsSpelling = c.keepsSpelling) (hk : ∀ k, d.has k = c.has k)
    (hu : d.unknownFlags = c.unknownFlags) (hs : c.keepsSpelling = true → ∀ w, w ∈ d.spellings ↔ w ∈ c.spellings) :
    d.fullFlags = c.fullFlags := by
  have hhas : d.has = c.has := funext hk
  have hspelling : (fun r => Flag.Rule.spelling r d.spellings d.keepsSpelling) =
      fun r => Flag.Rule.spelling r c.spellings c.keepsSpelling := by
    funext r
    rw [hkeep]
    cases hc : c.keepsSpelling with
    | false => rfl
    | true => exact r.spelling_congr (hs hc) true
  rw [fullFlags, fullFlags, hspelling, rules, rules, frozenFlag, frozenFlag, hhas, hu]

theorem parts_congr (hp : d.packages.map Leaf.write = c.packages.map Leaf.write) (hk : ∀ k, d.has k = c.has k)
    {m : Manager} (hf : m.keepsFlags = true → d.fullFlags = c.fullFlags) : d.parts m = c.parts m := by
  have hhas : d.has = c.has := funext hk
  have hpackages := hasPackages_congr hp
  have hheader : d.header m = c.header m := by
    cases m <;> simp only [header, hhas, hpackages]
  have hflags : d.writtenFlags m = c.writtenFlags m := by
    cases m with
    | npm => exact hf rfl
    | pnpm => exact hf rfl
    | yarn => simp only [writtenFlags, frozenFlag, rules, hhas, hpackages]
    | bun => simp only [writtenFlags, rules, hhas]
  rw [parts, parts, hheader, hflags, hp]

/-- For yarn and bun the core decides what is written beside packages. -/
theorem parts_congr_core (hc : c.hasPackages = true)
    (hp : d.packages.map Leaf.write = c.packages.map Leaf.write) (hk : ∀ k, k.isCore = true → d.has k = c.has k)
    {m : Manager} (hm : m.keepsFlags = false) : d.parts m = c.parts m := by
  have hd : d.hasPackages = true := (hasPackages_congr hp).trans hc
  have hwritten {spell : Flag.Rule → Option Text}
      (hs : ∀ r ∈ Flag.rules, (spell r).isSome = true → r.category.isCore = true) :
      Flag.written d.has spell = Flag.written c.has spell :=
    Flag.written_congr fun r hr h => hk _ (hs r hr h)
  cases m with
  | npm => cases hm
  | pnpm => cases hm
  | yarn =>
    rw [parts, parts, hp, header, header, hd, hc, hk .global (by decide), writtenFlags_yarn_of_hasPackages hd,
      writtenFlags_yarn_of_hasPackages hc, hwritten (by decide)]
  | bun =>
    have hflags (c : Install) : c.writtenFlags .bun = Flag.written c.has Flag.Rule.bun := rfl
    rw [parts, parts, hp, header, header, hd, hc, hflags, hflags, hwritten (by decide)]

namespace Reduced

theorem congr (hd : d.Reduced) (hk : ∀ k, e.has k = d.has k) (hf : e.fullFlags = d.fullFlags) : e.Reduced where
  core k h := hd.core k (by rw [← hk, h])
  flags := by rw [hf, hd.flags, funext hk]

/-- Installs that are left with the same packages and core are written the same. -/
theorem parts_eq (hc : c.Reduced) (hd : d.Reduced) (hp : d.packages.map Leaf.write = c.packages.map Leaf.write)
    (hk : ∀ k, k.isCore = true → d.has k = c.has k) (m : Manager) : d.parts m = c.parts m := by
  have hall : ∀ k, d.has k = c.has k := by
    intro k
    cases hcore : k.isCore with
    | true => exact hk k hcore
    | false => rw [has_eq_false_of_core hc.core hcore, has_eq_false_of_core hd.core hcore]
  exact parts_congr hp hall fun _ => by rw [hc.flags, hd.flags, funext hall]

end Reduced

/-! ## What is left on a path -/

/-- What a path leaves of an install. -/
structure Stable (path : List Manager) (c d : Install) : Prop where
  packages : d.packages.map Leaf.write = c.packages.map Leaf.write
  kept : path.all Manager.keepsFlags = true → (∀ k, d.has k = c.has k) ∧ d.fullFlags = c.fullFlags
  core : c.hasPackages = true → ∀ k, k.isCore = true → d.has k = c.has k
  reduced : c.hasPackages = true → path.all Manager.keepsFlags = false → d.Reduced

namespace Stable

theorem start (c : Install) : Stable [] c c where
  packages := rfl
  kept _ := ⟨fun _ => rfl, rfl⟩
  core _ _ _ := rfl
  reduced _ h := by cases h

theorem along {m : Manager} {path : List Manager} (hd : Stable [m] c d) (he : Stable path d e) :
    Stable (m :: path) c e where
  packages := he.packages.trans hd.packages
  kept h := by
    rw [List.all_cons, Bool.and_eq_true] at h
    obtain ⟨hk, hf⟩ := hd.kept (by rw [List.all_cons, h.1]; rfl)
    obtain ⟨hk', hf'⟩ := he.kept h.2
    exact ⟨fun k => (hk' k).trans (hk k), hf'.trans hf⟩
  core hc k hk := by
    have hp := (hasPackages_congr hd.packages).trans hc
    rw [he.core hp k hk, hd.core hc k hk]
  reduced hc h := by
    have hp := (hasPackages_congr hd.packages).trans hc
    cases hpath : path.all Manager.keepsFlags with
    | false => exact he.reduced hp hpath
    | true =>
      -- The rest of the path keeps all flags, so it was the first hop that left nothing but the core.
      rw [List.all_cons, hpath, Bool.and_true] at h
      obtain ⟨hk, hf⟩ := he.kept hpath
      exact (hd.reduced hc (by rw [List.all_cons, h]; rfl)).congr hk hf

/-- Beside packages yarn and bun leave nothing but the core. -/
theorem reduced_of_heard {m : Manager} (hc : c.Settled) (hd : d.Settled) (hp : c.hasPackages = true)
    (hm : m.keepsFlags = false) (hdm : d.manager.manager = m) (hs : d.spellings = c.heard m) : d.Reduced := by
  have hcore : ∀ k, d.has k = true → k.isCore = true := by
    intro k hk
    rw [has_eq_asks hd, hs, asks_heard hc, hp, Bool.and_eq_true] at hk
    exact Flag.Category.isCore_of_keptBy hm hk.2
  refine ⟨hcore, ?_⟩
  have hkeeps : d.keepsSpelling = false := by
    rw [keepsSpelling, hdm]
    exact hm
  have hunknown : d.unknownFlags = [] := by
    rw [unknownFlags_eq_filter hd]
    apply Flag.filter_unknown_eq_nil
    rw [← has_eq_asks hd]
    exact has_eq_false_of_core hcore (by decide)
  have hfrozen : d.has .frozen = false := has_eq_false_of_core hcore (by decide)
  rw [fullFlags_eq, hkeeps, frozenFlag, hfrozen, hunknown, List.append_nil]
  exact List.append_nil _

theorem hop {t : Text} (m : Manager) (h : Command.parse t = .ok (.install c)) :
    ∃ d, Command.parse ((Command.install c).lineFor m) = .ok (.install d) ∧ Stable [m] c d := by
  obtain ⟨d, hd, hdm, hs, -, hp⟩ := Command.install_hop h m
  have hc := Command.settled_of_parse h
  have hsettled := Command.settled_of_parse hd
  have hhas (k : Flag.Category) : d.has k = (c.has k && k.keptBy c.hasPackages m) := by
    rw [has_eq_asks hsettled, hs, asks_heard hc]
  refine ⟨d, hd, hp, ?_, ?_, ?_⟩
  · intro hm
    rw [List.all_cons, List.all_nil, Bool.and_true] at hm
    refine ⟨fun k => by rw [hhas, Flag.Category.keptBy_of_keepsFlags hm, Bool.and_true], ?_⟩
    have hkeeps : d.keepsSpelling = true := by
      rw [keepsSpelling, hdm]
      exact hm
    rw [heard_of_keepsFlags c hm] at hs
    rw [fullFlags_eq_spellings hsettled hkeeps (hs ▸ full_fullFlags hc), hs]
  · intro hpackages k hk
    rw [hhas, hpackages, Flag.Category.keptBy_of_isCore hk, Bool.and_true]
  · intro hpackages hm
    rw [List.all_cons, List.all_nil, Bool.and_true] at hm
    exact reduced_of_heard hc hsettled hpackages hm hdm hs

end Stable

end Install

namespace Command

theorem translate_commands_congr {c d : Install} (h : ∀ m, d.parts m = c.parts m) :
    (install d).translate.commands = (install c).translate.commands := by
  have hline (m : Manager) : (install d).lineFor m = (install c).lineFor m := congrArg CommandLine.join (h m)
  rw [translate, translate, funext hline]

/-- After yarn or bun all lines are those of the install that is read from the first line for yarn, or for bun. -/
theorem commands_of_reduced {t : Text} {c d : Install} (h : parse t = .ok (.install c)) {path : List Manager}
    (hd : Install.Stable path c d) (hc : c.hasPackages = true) (hpath : path.all Manager.keepsFlags = false)
    {m : Manager} (hm : m.keepsFlags = false) :
    ∃ e, parse ((install c).translate.commandFor m) = .ok e ∧ (install d).translate.commands = e.translate.commands := by
  obtain ⟨e, he, hs⟩ := Install.Stable.hop m h
  refine ⟨install e, by rw [commandFor_translate, he], translate_commands_congr ?_⟩
  have hreduced : e.Reduced := hs.reduced hc (by rw [List.all_cons, hm]; rfl)
  refine hreduced.parts_eq (hd.reduced hc hpath) (hd.packages.trans hs.packages.symm) ?_
  intro k hk
  rw [hd.core hc k hk, hs.core hc k hk]

/-- Between npm and pnpm no line of an install moves. Beside packages the lines for yarn and bun never do, and
    after yarn or bun all lines are those of what is read from the first line for yarn, or for bun. -/
theorem install_stable {t : Text} {c : Install} (h : parse t = .ok (.install c)) (path : List Manager) :
    ∃ cs : List Command, relay t path = cs.map .ok ∧ cs.length = path.length + 1 ∧ ∃ d ∈ cs.getLast?,
      ((∀ m ∈ path, m = .npm ∨ m = .pnpm) → d.translate.commands = (install c).translate.commands) ∧
      (c.packages ≠ [] →
        (∀ m, m = .yarn ∨ m = .bun → d.translate.commandFor m = (install c).translate.commandFor m) ∧
        (.yarn ∈ path ∨ .bun ∈ path → ∀ m, m = .yarn ∨ m = .bun →
          ∃ e, parse ((install c).translate.commandFor m) = .ok e ∧
            d.translate.commands = e.translate.commands)) := by
  have hkeeps {m : Manager} (hm : m = .yarn ∨ m = .bun) : m.keepsFlags = false := by
    rcases hm with rfl | rfl <;> rfl
  obtain ⟨cs, hcs, hlen, -, d, hd, hs⟩ :=
    install_relay_of_hop Install.Stable.start Install.Stable.along Install.Stable.hop h path
  refine ⟨cs, hcs, hlen, install d, hd, ?_, ?_⟩
  · intro hpath
    have hall : path.all Manager.keepsFlags = true := by
      apply List.all_eq_true.2
      intro m hm
      rcases hpath m hm with rfl | rfl <;> rfl
    obtain ⟨hk, hf⟩ := hs.kept hall
    exact translate_commands_congr fun m => Install.parts_congr hs.packages hk fun _ => hf
  · intro hne
    have hc : c.hasPackages = true := by
      rw [Install.hasPackages]
      simpa using hne
    refine ⟨?_, ?_⟩
    · intro m hm
      rw [commandFor_translate, commandFor_translate]
      exact congrArg CommandLine.join (Install.parts_congr_core hc hs.packages (hs.core hc) (hkeeps hm))
    · intro hpath m hm
      have hsome : path.all Manager.keepsFlags = false := by
        apply List.all_eq_false.2
        rcases hpath with hpath | hpath
        · exact ⟨.yarn, hpath, by decide⟩
        · exact ⟨.bun, hpath, by decide⟩
      exact commands_of_reduced h hs hc hsome (hkeeps hm)

/-- yarn drops the peers, the lock file and what is not known, and its word for the first flag is not npm's. -/
theorem install_stable_dropped :
    ∃ c, parse "npm i --save-dev -P --frozen-lockfile --silent 'a b'".toList = .ok (.install c) ∧
      ∃ cs : List Command,
        relay "npm i --save-dev -P --frozen-lockfile --silent 'a b'".toList [.npm, .yarn, .pnpm] = cs.map .ok ∧
        ∃ d ∈ cs.getLast?, d.translate.commands =
          ⟨"npm install -D 'a b'".toList, "pnpm add -D 'a b'".toList, "yarn add --dev 'a b'".toList,
            "bun add --dev 'a b'".toList⟩ := by
  let flag (w : Text) (start : Nat) : Flag := ⟨w, Flag.classify w, ⟨start, start + w.length⟩⟩
  let c : Install := ⟨⟨.npm, "npm".toList, ⟨0, 3⟩⟩, some ⟨"i".toList, ⟨4, 5⟩⟩,
    [flag "--save-dev".toList 6, flag "-P".toList 17, flag "--frozen-lockfile".toList 20, flag "--silent".toList 38],
    [.argument ⟨"a b".toList, .quoted ['\''], ⟨47, 52⟩⟩], false, ⟨0, 52⟩⟩
  let e : Command := .install ⟨⟨.yarn, "yarn".toList, ⟨0, 4⟩⟩, some ⟨"add".toList, ⟨5, 8⟩⟩, [flag "--dev".toList 9],
    [.argument ⟨"a b".toList, .quoted ['\''], ⟨15, 20⟩⟩], false, ⟨0, 20⟩⟩
  have h : parse "npm i --save-dev -P --frozen-lockfile --silent 'a b'".toList = .ok (.install c) := by decide +kernel
  have he : parse ((install c).translate.commandFor .yarn) = .ok e := by decide +kernel
  obtain ⟨cs, hcs, -, d, hd, -, hpackages⟩ := install_stable h [.npm, .yarn, .pnpm]
  obtain ⟨e', he', hde⟩ := (hpackages (by decide)).2 (.inl (by decide)) .yarn (.inl rfl)
  have hee : e' = e := Except.ok.inj (he'.symm.trans he)
  refine ⟨c, h, cs, hcs, d, hd, ?_⟩
  rw [hde, hee]
  decide +kernel

end Command

end CommandBridge
