/-
  CommandBridge.Proofs.Relay.Install — installs on a path of managers.

  An install is not passed on as it is: each manager has its own words for the flags, and some
  categories have none. What is read again on a hop has the categories that its line has words for.
  - `asks_heard`: on one hop a category is kept or lost as the table of the managers says.
  - `install_relay`: what an install still says at the end of a path hangs on which managers are on
    the path, and not on how often or in which order.
-/

import CommandBridge.Proofs.Body
import CommandBridge.Proofs.FlagWords
import CommandBridge.Proofs.Relay
import Mathlib.Control.Monad.Basic

namespace CommandBridge

open Token (Item)

/-! ## Installs that were read -/

/-- The flags of an install have the categories of their spellings, and its packages come from tokens. -/
structure Install.Settled (c : Install) : Prop where
  flags : ∀ f ∈ c.flags, f.category = Flag.classify f.spelling ∧ (⟨.flag, f.spelling⟩ : Item).Legible
  packages : ∃ ps : List Token, c.packages = ps.map Leaf.argumentOf ∧
    ∀ p ∈ ps, p.item.Legible ∧ Command.isPackage p = true

namespace Install

variable {c : Install}

theorem map_category_eq (h : c.Settled) : c.flags.map Flag.category = c.spellings.map Flag.classify := by
  rw [spellings, List.map_map]
  exact List.map_congr_left fun f hf => (h.flags f hf).1

theorem has_eq_any (c : Install) (k : Flag.Category) : c.has k = (c.flags.map Flag.category).any (· == k) := by
  rw [List.any_map]
  rfl

theorem has_eq_asks (h : c.Settled) (k : Flag.Category) : c.has k = Flag.asks c.spellings k := by
  rw [has_eq_any, map_category_eq h, List.any_map]
  rfl

theorem unknownFlags_eq_filter (h : c.Settled) :
    c.unknownFlags = c.spellings.filter fun w => Flag.classify w == .unknown := by
  rw [unknownFlags, spellings, List.filter_map]
  congr 1
  apply List.filter_congr
  intro f hf
  rw [Function.comp_apply, (h.flags f hf).1]

theorem asks_unknownFlags (h : c.Settled) (k : Flag.Category) :
    Flag.asks c.unknownFlags k = (c.has k && k == .unknown) := by
  rw [has_eq_asks h, unknownFlags_eq_filter h, Flag.asks, Flag.asks, List.any_filter]
  by_cases hk : k = .unknown
  · simp [hk]
  · rw [beq_false_of_ne hk, Bool.and_false]
    apply List.any_eq_false.mpr
    intro w _ hw
    obtain ⟨hu, hw⟩ := Bool.and_eq_true_iff.mp hw
    exact hk ((beq_iff_eq.mp hw).symm.trans (beq_iff_eq.mp hu))

/-- A word of a category that is written if the category is asked for, and then only at times. -/
theorem asks_gated (c : Install) {w : Text} {j : Flag.Category} (hw : Flag.classify w = j) (allowed : Bool)
    (k : Flag.Category) :
    Flag.asks (if c.has j && allowed then [w] else []) k = (c.has k && (allowed && k == j)) := by
  by_cases hk : k = j
  · subst hk
    rw [beq_self_eq_true, Bool.and_true]
    split
    case isTrue h => rw [h]; simp [Flag.asks, hw]
    case isFalse h => rw [Bool.not_eq_true] at h; rw [h]; rfl
  · rw [beq_false_of_ne hk, Bool.and_false, Bool.and_false]
    split
    · simp [Flag.asks, hw, Ne.symm hk]
    · rfl

/-! ## What is heard -/

/-- The flag that the header of yarn's line stands for. -/
def implied (c : Install) : Manager → List Text
  | .yarn => if c.has .global && c.hasPackages then ["--global".toList] else []
  | _ => []

/-- The flags that are read from the line for a manager. -/
def heard (c : Install) (m : Manager) : List Text := c.implied m ++ c.writtenFlags m

theorem heard_yarn (c : Install) :
    c.heard .yarn = c.implied .yarn ++ (Flag.written c.has Flag.Rule.yarn ++ c.frozenFlag !c.hasPackages) := rfl

theorem heard_bun (c : Install) : c.heard .bun = Flag.written c.has Flag.Rule.bun := rfl

theorem fullFlags_eq (c : Install) : c.fullFlags =
    Flag.written c.has (fun r => some (r.spelling c.spellings c.keepsSpelling)) ++ c.frozenFlag true ++
      c.unknownFlags := by
  rw [fullFlags, Flag.written, List.filterMap_eq_map']
  rfl

theorem spelling_word (c : Install) :
    ∀ r, ∀ w ∈ some (r.spelling c.spellings c.keepsSpelling), w ∈ Flag.Rule.words r := by
  intro r w hw
  rw [← Option.mem_some.1 hw]
  exact Flag.spelling_mem_words ..

theorem asks_fullFlags (h : c.Settled) (k : Flag.Category) : Flag.asks c.fullFlags k = c.has k := by
  rw [fullFlags_eq, Flag.asks_append, Flag.asks_append, Flag.asks_written c.spelling_word, frozenFlag,
    asks_gated c Flag.classify_frozenLockfile, asks_unknownFlags h]
  cases c.has k
  · rfl
  · cases k <;> rfl

/-- On one hop a category is kept if the manager has a word for it. -/
theorem asks_heard (h : c.Settled) (m : Manager) (k : Flag.Category) :
    Flag.asks (c.heard m) k = (c.has k && k.keptBy c.hasPackages m) := by
  have hfull : Flag.asks c.fullFlags k = (c.has k && true) := by rw [asks_fullFlags h, Bool.and_true]
  cases m with
  | npm => exact hfull
  | pnpm => exact hfull
  | yarn =>
    rw [heard_yarn, Flag.asks_append, Flag.asks_append, implied, asks_gated c (j := .global) (by decide),
      Flag.asks_written (fun r w => Flag.yarn_mem_words), frozenFlag, asks_gated c Flag.classify_frozenLockfile]
    cases c.has k
    · rfl
    · cases c.hasPackages <;> cases k <;> rfl
  | bun =>
    rw [heard_bun, Flag.asks_written fun r w => Flag.bun_mem_words]
    cases k <;> rfl

theorem filter_unknown_gated {w : Text} {j : Flag.Category} (hw : Flag.classify w = j) (hj : j ≠ .unknown) (b : Bool) :
    (if b then [w] else []).filter (fun w => Flag.classify w == .unknown) = [] := by
  cases b <;> simp [hw, hj]

/-- Flags that are not known are kept by npm and pnpm alone. -/
theorem filter_unknown_heard (h : c.Settled) (m : Manager) : (c.heard m).filter (fun w => Flag.classify w == .unknown) =
    if Flag.Category.unknown.keptBy c.hasPackages m then c.unknownFlags else [] := by
  have hfrozen (b : Bool) : (c.frozenFlag b).filter (fun w => Flag.classify w == .unknown) = [] :=
    filter_unknown_gated Flag.classify_frozenLockfile (by decide) _
  have hfull : c.fullFlags.filter (fun w => Flag.classify w == .unknown) = c.unknownFlags := by
    rw [fullFlags_eq, List.filter_append, List.filter_append, Flag.filter_unknown_written c.spelling_word, hfrozen,
      unknownFlags_eq_filter h, List.filter_filter]
    simp
  cases m with
  | npm => exact hfull
  | pnpm => exact hfull
  | yarn =>
    rw [heard_yarn, implied, List.filter_append, List.filter_append, hfrozen,
      filter_unknown_gated (j := .global) (by decide) (by decide),
      Flag.filter_unknown_written fun r w => Flag.yarn_mem_words]
    rfl
  | bun =>
    rw [heard_bun, Flag.filter_unknown_written fun r w => Flag.bun_mem_words]
    rfl

/-! ## Lines are read again -/

/-- A written flag is a word of a rule, the word for the lock file, or a flag that is not known. -/
theorem mem_writtenFlags {m : Manager} {w : Text} (hw : w ∈ c.writtenFlags m) :
    (∃ r ∈ Flag.rules, w ∈ r.words) ∨ w = Flag.frozenLockfile ∨ w ∈ c.unknownFlags := by
  have hwritten {spell : Flag.Rule → Option Text} (hs : ∀ r, ∀ w ∈ spell r, w ∈ r.words)
      (hw : w ∈ Flag.written c.has spell) : ∃ r ∈ Flag.rules, w ∈ r.words := by
    obtain ⟨r, hr, -, hw⟩ := Flag.mem_written.1 hw
    exact ⟨r, hr, hs r w hw⟩
  have hfrozen {b : Bool} (hw : w ∈ c.frozenFlag b) : w = Flag.frozenLockfile := by
    unfold frozenFlag at hw
    split at hw
    · exact List.mem_singleton.1 hw
    · cases hw
  have hfull (hw : w ∈ c.fullFlags) :
      (∃ r ∈ Flag.rules, w ∈ r.words) ∨ w = Flag.frozenLockfile ∨ w ∈ c.unknownFlags := by
    rw [fullFlags_eq, List.mem_append, List.mem_append] at hw
    rcases hw with (hw | hw) | hw
    · exact .inl (hwritten c.spelling_word hw)
    · exact .inr (.inl (hfrozen hw))
    · exact .inr (.inr hw)
  cases m with
  | npm => exact hfull hw
  | pnpm => exact hfull hw
  | yarn =>
    rcases List.mem_append.1 hw with hw | hw
    · exact .inl (hwritten (fun r w => Flag.yarn_mem_words) hw)
    · exact .inr (.inl (hfrozen hw))
  | bun => exact .inl (hwritten (fun r w => Flag.bun_mem_words) hw)

theorem legible_of_mem_writtenFlags (h : c.Settled) {m : Manager} {w : Text} (hw : w ∈ c.writtenFlags m) :
    (⟨.flag, w⟩ : Item).Legible := by
  rcases mem_writtenFlags hw with ⟨r, hr, hw⟩ | rfl | hw
  · exact Flag.legible_of_mem_words hr hw
  · exact Flag.legible_frozenLockfile
  · obtain ⟨f, hf, rfl⟩ := List.mem_map.1 hw
    exact (h.flags f (List.mem_filter.1 hf).1).2

/-- The headers of an install's line for a manager, with the flags that each one stands for. -/
inductive Headed : Manager → List Text → List Text → Prop
  | verb (m : Manager) {word : Text} : word ∈ ["install".toList, "add".toList] → Headed m [m.name, word] []
  | global : Headed .yarn ["yarn".toList, "global".toList, "add".toList] ["--global".toList]

theorem headed_header (c : Install) (m : Manager) : Headed m (c.header m) (c.implied m) := by
  cases m with
  | npm => exact .verb .npm (by decide)
  | pnpm =>
    refine .verb .pnpm ?_
    split <;> decide
  | yarn =>
    cases hp : c.hasPackages with
    | false =>
      rw [header, implied, hp, Bool.and_false]
      exact .verb .yarn (by decide)
    | true =>
      cases hg : c.has .global with
      | false =>
        rw [header, implied, hp, hg]
        exact .verb .yarn (by decide)
      | true =>
        rw [header, implied, hp, hg]
        exact .global
  | bun =>
    refine .verb .bun ?_
    split <;> decide

theorem Headed.subset {m : Manager} {header implied : List Text} (h : Headed m header implied) :
    ∀ w ∈ header, w ∈ Command.headerWords := by
  cases h with
  | verb _ hverb =>
    have hverbs : ∀ v ∈ ["install".toList, "add".toList], v ∈ Command.headerWords := by decide
    exact List.forall_mem_cons.2 ⟨Command.name_mem_headerWords m, List.forall_mem_singleton.2 (hverbs _ hverb)⟩
  | global => decide

end Install

/-- A package is any item but a flag or a separator. -/
def Token.Item.isPackage (i : Item) : Bool := !(i.kind == .flag) && !(i.kind == .separator)

namespace Command

theorem isPackage_eq_true {u : Token} : isPackage u = true ↔ u.isFlag = false ∧ u.isSeparator = false := by
  simp [isPackage]

/-- A body that holds flags and then packages. -/
theorem installOfBody_sorted {w : ManagerWord} {s : Subcommand} {implied : List Flag} {span : Span} {fs ps : List Token}
    (hf : ∀ u ∈ fs, u.kind = .flag) (hp : ∀ u ∈ ps, isPackage u = true) : installOfBody w s implied span (fs ++ ps) =
      .ok ⟨w, some s, implied ++ fs.map Flag.ofToken, ps.map Leaf.argumentOf, false, span⟩ := by
  have hflag : ∀ u ∈ fs, u.isFlag = true ∧ u.isSeparator = false := by
    intro u hu
    simp [Token.isFlag, Token.isSeparator, hf u hu]
  have hs : ∀ u ∈ fs ++ ps, u.isSeparator = false := by
    intro u hu
    rcases List.mem_append.1 hu with hu | hu
    · exact (hflag u hu).2
    · exact (isPackage_eq_true.1 (hp u hu)).2
  have hff : fs.filter Token.isFlag = fs := by
    apply List.filter_eq_self.mpr
    intro u hu
    exact (hflag u hu).1
  have hpf : ps.filter Token.isFlag = [] := by
    apply List.filter_eq_nil_iff.mpr
    intro u hu
    simp [(isPackage_eq_true.mp (hp u hu)).1]
  have hfp : fs.filter isPackage = [] := by
    apply List.filter_eq_nil_iff.mpr
    intro u hu
    simp [isPackage, (hflag u hu).1]
  have hpp : ps.filter isPackage = ps := List.filter_eq_self.mpr hp
  have hany : (fs ++ ps).any Token.isSeparator = false := by
    apply List.any_eq_false.mpr
    intro u hu
    simp [hs u hu]
  apply installOfBody_eq_ok_iff.mpr
  refine ⟨fun u hu => hs u (List.mem_of_getLast? hu), ?_⟩
  rw [List.filter_append, List.filter_append, hff, hpf, hfp, hpp, hany, List.append_nil, List.nil_append]

theorem settled_of_parse {t : Text} {c : Install} (h : parse t = .ok (.install c)) : c.Settled := by
  obtain ⟨finish, body, hl, hr⟩ := readFrom_of_parse h
  cases hr with
  | install himplied hc =>
    obtain ⟨-, rfl⟩ := installOfBody_eq_ok_iff.mp hc
    refine ⟨?_, body.filter isPackage, rfl, ?_⟩
    · intro f hf
      rcases List.mem_append.mp hf with hf | hf
      · obtain ⟨hs, hc⟩ := himplied f hf
        rw [hs, hc]
        exact ⟨by decide, .flag rfl (by decide) (by decide)⟩
      · obtain ⟨u, hu, rfl⟩ := List.mem_map.1 hf
        obtain ⟨hu, hflag⟩ := List.mem_filter.1 hu
        have hk : u.kind = .flag := beq_iff_eq.1 hflag
        have hi : u.item = ⟨.flag, u.value⟩ := by rw [Token.item, hk]
        exact ⟨rfl, hi ▸ hl u hu⟩
    · intro p hp
      obtain ⟨hp, hpackage⟩ := List.mem_filter.mp hp
      exact ⟨hl p hp, hpackage⟩

/-- A line with the header of an install is read as one, with the flag that the header stands for. -/
theorem parse_install_line {m : Manager} {header implied : List Text} (hh : Install.Headed m header implied)
    {items : List Item} (hi : ∀ i ∈ items, i.Legible) :
    ∃ w s flags span us, us.map Token.item = items ∧ w.manager = m ∧ flags.map Flag.spelling = implied ∧
      ∀ d, parse (CommandLine.join (header ++ items.map Item.write)) = .ok d ↔
        (installOfBody w s flags span us).map install = .ok d := by
  cases hh with
  | @verb _ verb hverb =>
    have hwords : ∀ w ∈ ["install".toList, "add".toList], w ∈ headerWords ∧ w ∈ Verb.install.words := by decide
    obtain ⟨finish, w, u, span, us, hv, hu, hm, hp⟩ := parse_named_line m verb (hwords verb hverb).1 hi
    refine ⟨w, ⟨u.value, u.span⟩, [], span, us, hu, hm, rfl, fun d => ?_⟩
    rw [hp, ofBody_install (by rw [hv]; exact (hwords verb hverb).2)]
  | global =>
    have hi' : ∀ i ∈ wordItem "add".toList :: items, i.Legible :=
      List.forall_mem_cons.2 ⟨legible_wordItem (by decide), hi⟩
    obtain ⟨finish, w, u, span, us, hv, hu, hm, hp⟩ := parse_named_line .yarn "global".toList (by decide) hi'
    obtain ⟨add, us, rfl, hadd, hu⟩ := List.map_eq_cons_iff.1 hu
    have hadd : add.value = addWord := congrArg Item.value hadd
    refine ⟨w, ⟨add.value, add.span⟩, [⟨"--global".toList, .global, u.span⟩], span, us, hu, hm, rfl, fun d => ?_⟩
    have hparts : ["yarn".toList, "global".toList, "add".toList] ++ items.map Item.write =
        [Manager.yarn.name, "global".toList] ++ (wordItem "add".toList :: items).map Item.write := rfl
    rw [hparts, hp, ofBody_global (by rw [hv]; decide) hm, globalOfBody, if_pos hadd]

/-- Tokens that say flags and then packages make an install with these flags and packages. -/
theorem install_of_items (w : ManagerWord) (s : Subcommand) (implied : List Flag) (span : Span) {us : List Token}
    {flags : List Text} {packages : List Item} (hp : ∀ i ∈ packages, i.isPackage = true)
    (hu : us.map Token.item = flags.map (fun w => ⟨.flag, w⟩) ++ packages) :
    ∃ d, installOfBody w s implied span us = .ok d ∧ d.manager = w ∧
      d.spellings = implied.map Flag.spelling ++ flags ∧ d.packages.map Leaf.value = packages.map Item.value ∧
      d.packages.map Leaf.write = packages.map Item.write := by
  obtain ⟨fs, qs, rfl, hfs, rfl⟩ := List.map_eq_append_iff.mp hu
  have hf : ∀ u ∈ fs, u.kind = .flag :=
    forall_mem_of_map_item (P := fun i => i.kind = .flag) hfs (List.forall_mem_map.mpr fun _ _ => rfl)
  have hq : ∀ u ∈ qs, isPackage u = true := List.forall_mem_map.1 hp
  refine ⟨_, installOfBody_sorted hf hq, rfl, ?_, ?_, ?_⟩
  · have hv := congrArg (List.map Item.value) hfs
    rw [List.map_map, List.map_map] at hv
    rw [Install.spellings, List.map_append, List.map_map]
    exact congrArg _ (hv.trans (List.map_id _))
  · rw [List.map_map, List.map_map]
    rfl
  · rw [List.map_map, List.map_map]
    rfl

/-- A line that is written from a header, flags and packages is read as an install with these. -/
theorem parse_install {m : Manager} {header implied flags : List Text} {packages : List Item}
    (hh : Install.Headed m header implied) (hf : ∀ w ∈ flags, (⟨.flag, w⟩ : Item).Legible)
    (hp : ∀ i ∈ packages, i.Legible ∧ i.isPackage = true) :
    ∃ d, parse (CommandLine.join (header ++ flags ++ packages.map Item.write)) = .ok (.install d) ∧
      d.manager.manager = m ∧ d.spellings = implied ++ flags ∧
      d.packages.map Leaf.value = packages.map Item.value ∧ d.packages.map Leaf.write = packages.map Item.write := by
  have hi : ∀ i ∈ flags.map (fun w => ⟨.flag, w⟩) ++ packages, i.Legible :=
    List.forall_mem_append.2 ⟨List.forall_mem_map.2 hf, fun i hi => (hp i hi).1⟩
  have hflags : (flags.map fun w => (⟨.flag, w⟩ : Item)).map Item.write = flags := by
    rw [List.map_map]
    exact List.map_id _
  obtain ⟨w, s, implied', span, us, hu, hm, himplied, hparse⟩ := parse_install_line hh hi
  obtain ⟨d, hd, hw, hs, hv, hwrite⟩ := install_of_items w s implied' span (fun i hi => (hp i hi).2) hu
  refine ⟨d, ?_, by rw [hw, hm], by rw [hs, himplied], hv, hwrite⟩
  rw [List.map_append, hflags, ← List.append_assoc] at hparse
  rw [hparse, hd]
  rfl

theorem install_hop {t : Text} {c : Install} (h : parse t = .ok (.install c)) (m : Manager) :
    ∃ d, parse ((install c).lineFor m) = .ok (.install d) ∧ d.manager.manager = m ∧ d.spellings = c.heard m ∧
      d.packages.map Leaf.value = c.packages.map Leaf.value ∧
      d.packages.map Leaf.write = c.packages.map Leaf.write := by
  have hc := settled_of_parse h
  obtain ⟨ps, hps, hp⟩ := hc.packages
  have hline : (install c).lineFor m =
      CommandLine.join (c.header m ++ c.writtenFlags m ++ (ps.map Token.item).map Item.write) := by
    rw [List.map_map]
    show CommandLine.join (c.header m ++ c.writtenFlags m ++ c.packages.map Leaf.write) = _
    rw [hps, List.map_map]
    rfl
  have hv : c.packages.map Leaf.value = (ps.map Token.item).map Item.value := by
    rw [hps, List.map_map, List.map_map]
    rfl
  have hw : c.packages.map Leaf.write = (ps.map Token.item).map Item.write := by
    rw [hps, List.map_map, List.map_map]
    rfl
  rw [hline, hv, hw]
  exact parse_install (c.headed_header m) (fun _ hw => Install.legible_of_mem_writtenFlags hc hw)
    (List.forall_mem_map.2 hp)

end Command

/-! ## Every path -/

/-- The managers that keep all flags. -/
def Manager.keepsFlags (m : Manager) : Bool := m == .npm || m == .pnpm

theorem Manager.keepsFlags_iff {m : Manager} : m.keepsFlags = true ↔ m = .npm ∨ m = .pnpm := by
  cases m <;> decide

theorem Install.heard_of_keepsFlags (c : Install) {m : Manager} (h : m.keepsFlags = true) : c.heard m = c.fullFlags := by
  rcases Manager.keepsFlags_iff.1 h with rfl | rfl <;> rfl

/-- What an install says at the end of a path. -/
def InstallSummary.along (s : InstallSummary) (path : List Manager) : InstallSummary where
  manager := path.getLastD s.manager
  packages := s.packages
  dev := s.dev
  global := s.global && !(s.packages.isEmpty && path.contains .yarn)
  exact := s.exact
  optional := s.optional && path.all Manager.keepsFlags
  peer := s.peer && path.all Manager.keepsFlags
  frozen := s.frozen && !(path.contains .bun || !s.packages.isEmpty && path.contains .yarn)
  unknownFlags := if path.all Manager.keepsFlags then s.unknownFlags else []

namespace InstallSummary

theorem along_nil (s : InstallSummary) : s.along [] = s := by
  simp [along]

theorem along_along (s : InstallSummary) (m : Manager) (path : List Manager) :
    (s.along [m]).along path = s.along (m :: path) := by
  have hm : path.getLastD ([m].getLastD s.manager) = (m :: path).getLastD s.manager := by
    rw [List.getLastD_cons, List.getLastD_cons, List.getLastD_nil]
  have hc (k : Manager) : (m :: path).contains k = ([m].contains k || path.contains k) := by
    rw [← List.singleton_append, List.contains_append]
  have ha : (m :: path).all Manager.keepsFlags = ([m].all Manager.keepsFlags && path.all Manager.keepsFlags) := by
    rw [← List.singleton_append, List.all_append]
  simp only [along, InstallSummary.mk.injEq, hm, hc, ha, Bool.and_assoc, true_and]
  -- What is left are the switches that two hops may turn off, as Boolean equations.
  generalize s.packages.isEmpty = e, [m].contains Manager.yarn = y, path.contains Manager.yarn = y',
    [m].contains Manager.bun = b, path.contains Manager.bun = b', [m].all Manager.keepsFlags = f,
    path.all Manager.keepsFlags = f'
  refine ⟨?_, ?_, ?_⟩
  · cases e <;> cases y <;> simp
  · cases e <;> cases y <;> cases b <;> simp
  · cases f <;> cases f' <;> rfl

end InstallSummary

namespace Command

theorem summary_of_hop {c d : Install} {m : Manager} (hc : c.Settled) (hd : d.Settled) (hm : d.manager.manager = m)
    (hs : d.spellings = c.heard m) (hp : d.packages.map Leaf.value = c.packages.map Leaf.value) :
    d.summary = c.summary.along [m] := by
  have hk (k : Flag.Category) : d.has k = (c.has k && k.keptBy c.hasPackages m) := by
    rw [Install.has_eq_asks hd, hs, Install.asks_heard hc]
  have hu : d.unknownFlags = if Flag.Category.unknown.keptBy c.hasPackages m then c.unknownFlags else [] := by
    rw [Install.unknownFlags_eq_filter hd, hs, Install.filter_unknown_heard hc]
  have he : c.summary.packages.isEmpty = !c.hasPackages := by
    simp [Install.summary, Install.hasPackages]
  unfold Install.summary at *
  rw [InstallSummary.along, InstallSummary.mk.injEq]
  simp only [hk, hu, he, hm, hp, Bool.not_not]
  cases m <;> simp [Flag.Category.keptBy, Manager.keepsFlags]

/-- A relation along paths holds of the first and the last install on a path if it holds over one hop. -/
theorem install_relay_of_hop {R : List Manager → Install → Install → Prop} (start : ∀ c, R [] c c)
    (along : ∀ {m path c d e}, R [m] c d → R path d e → R (m :: path) c e)
    (hop : ∀ {t c} m, parse t = .ok (.install c) → ∃ d, parse ((install c).lineFor m) = .ok (.install d) ∧ R [m] c d)
    {t : Text} {c : Install} (h : parse t = .ok (.install c)) (path : List Manager) :
    ∃ cs : List Command, relay t path = cs.map .ok ∧ cs.length = path.length + 1 ∧ (∀ d ∈ cs, d.kind = .install) ∧
      ∃ d, install d ∈ cs.getLast? ∧ R path c d := by
  -- The relation is carried to commands: what an install is related to is an install.
  let Along (path : List Manager) (c d : Command) : Prop := ∀ i, c = install i → ∃ j, d = install j ∧ R path i j
  have hstart (c : Command) : Along [] c c := fun i hi => ⟨i, hi, start i⟩
  have halong {m path c d e} (hd : Along [m] c d) (he : Along path d e) : Along (m :: path) c e := by
    intro i hi
    obtain ⟨j, hdj, hj⟩ := hd i hi
    obtain ⟨k, hek, hk⟩ := he j hdj
    exact ⟨k, hek, along hj hk⟩
  have hhop {t c} (m : Manager) (h : parse t = .ok c) (hk : c.kind = .install) :
      ∃ d, parse (c.translate.commandFor m) = .ok d ∧ d.kind = .install ∧ Along [m] c d := by
    cases c with
    | install c =>
      obtain ⟨d, hd, hr⟩ := hop m h
      refine ⟨install d, by rw [commandFor_translate, hd], rfl, fun i hi => ⟨d, rfl, ?_⟩⟩
      cases hi
      exact hr
    | exec c => cases hk
    | run c => cases hk
    | create c => cases hk
  obtain ⟨cs, hcs, hlen, hall, d, hd, hr⟩ := relay_of_hop hstart halong hhop h rfl path
  obtain ⟨j, rfl, hj⟩ := hr c rfl
  exact ⟨cs, hcs, hlen, hall, j, hd, hj⟩

theorem summary_hop {t : Text} {c : Install} (m : Manager) (h : parse t = .ok (.install c)) :
    ∃ d, parse ((install c).lineFor m) = .ok (.install d) ∧ d.summary = c.summary.along [m] := by
  obtain ⟨d, hd, hm, hs, hv, -⟩ := install_hop h m
  exact ⟨d, hd, summary_of_hop (settled_of_parse h) (settled_of_parse hd) hm hs hv⟩

/-- On every path an install is read again at every hop. At the end it has the same packages, and of its
    flags what every manager on the path has words for. -/
theorem install_relay {t : Text} {c : Install} (h : parse t = .ok (.install c)) (path : List Manager) :
    ∃ cs : List Command, relay t path = cs.map .ok ∧ cs.length = path.length + 1 ∧ (∀ d ∈ cs, d.kind = .install) ∧
      ∃ d ∈ cs.getLast?, d.translate.summary = .install (c.summary.along path) := by
  have along {m : Manager} {path : List Manager} {c d e : Install} (hd : d.summary = c.summary.along [m])
      (he : e.summary = d.summary.along path) : e.summary = c.summary.along (m :: path) := by
    rw [he, hd, InstallSummary.along_along]
  obtain ⟨cs, hcs, hlen, hall, d, hd, hr⟩ :=
    install_relay_of_hop (R := fun path c d => d.summary = c.summary.along path) (fun c => c.summary.along_nil.symm)
      along summary_hop h path
  exact ⟨cs, hcs, hlen, hall, install d, hd, congrArg Summary.install hr⟩

/-- Yarn says globally with its header; beside packages it has no place for the lock file, and for peers and
    for what is not known neither yarn nor bun has a word. -/
theorem install_relay_lossy :
    ∃ c, parse "npm i -g -P --frozen-lockfile --silent 'a b'".toList = .ok (.install c) ∧
      c.summary = ⟨.npm, ["a b".toList], false, true, false, false, true, true, ["--silent".toList]⟩ ∧
      ∃ cs : List Command,
        relay "npm i -g -P --frozen-lockfile --silent 'a b'".toList [.yarn, .bun, .npm] = cs.map .ok ∧
        ∃ d ∈ cs.getLast?, d.translate.summary =
          .install ⟨.npm, ["a b".toList], false, true, false, false, false, false, []⟩ := by
  let flag (w : Text) (start : Nat) : Flag := ⟨w, Flag.classify w, ⟨start, start + w.length⟩⟩
  let c : Install := ⟨⟨.npm, "npm".toList, ⟨0, 3⟩⟩, some ⟨"i".toList, ⟨4, 5⟩⟩,
    [flag "-g".toList 6, flag "-P".toList 9, flag "--frozen-lockfile".toList 12, flag "--silent".toList 30],
    [.argument ⟨"a b".toList, .quoted ['\''], ⟨39, 44⟩⟩], false, ⟨0, 44⟩⟩
  have h : parse "npm i -g -P --frozen-lockfile --silent 'a b'".toList = .ok (.install c) := by decide +kernel
  obtain ⟨cs, hcs, -, -, d, hd, hs⟩ := install_relay h [.yarn, .bun, .npm]
  exact ⟨c, h, by decide, cs, hcs, d, hd, hs.trans (by decide)⟩

end Command

end CommandBridge
