/-
  CommandBridge.Proofs.Rearrangement — installs whose flags and separators are rearranged.

  An install is said by which flags it has, and not by where or how often they stand: the rules look for a
  category and for a spelling among those that were given. Only flags that are not known are written in the
  order in which they came, and so are the packages. A separator says nothing.
  - `Install.AsksAlike`: what two installs must share to be said alike, however they were built.
  - `AsksAlike.translate_eq`: then all lines and the summary are the same.
  - `Rearranges`, `undisturbed_of_rearranges`: one rearrangement of a body, and what it leaves.
  - `translate_rearranged`: installs that ask alike are said alike, and so are texts with one header whose
    bodies are rearranged into each other.
-/

import CommandBridge.Proofs.InstallText
import CommandBridge.Proofs.Relay.Stable
import Mathlib.Logic.Relation

namespace CommandBridge

open Token (Item)

/-! ## Installs that ask alike -/

namespace Install

/-- The install `d` has the manager, the spellings, the categories, the unknown flags and the packages of `c`. Only
    of the last two do order and number count. -/
structure AsksAlike (c d : Install) : Prop where
  manager : d.manager.manager = c.manager.manager
  spellings : ∀ w, w ∈ d.spellings ↔ w ∈ c.spellings
  categories : ∀ k, k ≠ .unknown → d.has k = c.has k
  unknown : d.unknownFlags = c.unknownFlags
  packages : d.packages.map Leaf.content = c.packages.map Leaf.content

theorem has_unknown (c : Install) : c.has .unknown = !c.unknownFlags.isEmpty := by
  rw [has, unknownFlags, List.isEmpty_map, Bool.eq_iff_iff]
  simp

namespace AsksAlike

variable {c d : Install} (h : c.AsksAlike d)
include h

theorem has_eq (k : Flag.Category) : d.has k = c.has k := by
  by_cases hk : k = .unknown
  · rw [hk, has_unknown, has_unknown, h.unknown]
  · exact h.categories k hk

theorem fullFlags_eq : d.fullFlags = c.fullFlags := by
  have hkeep : d.keepsSpelling = c.keepsSpelling := by rw [keepsSpelling, keepsSpelling, h.manager]
  exact fullFlags_congr hkeep h.has_eq h.unknown fun _ => h.spellings

theorem summary_eq : d.summary = c.summary := by
  simp only [summary, h.manager, h.has_eq, h.unknown, Leaf.map_value_of_content h.packages]

theorem translate_eq : (Command.install d).translate = (Command.install c).translate := by
  have hparts (m : Manager) : d.parts m = c.parts m :=
    parts_congr (Leaf.map_write_of_content h.packages) h.has_eq fun _ => h.fullFlags_eq
  have hcommands := Command.translate_commands_congr hparts
  unfold Command.translate at hcommands ⊢
  rw [Translation.mk.injEq]
  exact ⟨hcommands, congrArg Summary.install h.summary_eq⟩

end AsksAlike

end Install

/-! ## Rearranged bodies -/

namespace Token.Item

/-- A flag whose spelling stands in a table. -/
def IsKnownFlag (i : Item) : Prop := i.kind = .flag ∧ Flag.classify i.value ≠ .unknown

def isUnknownFlag (i : Item) : Bool := i.kind == .flag && Flag.classify i.value == .unknown

end Token.Item

/-- One rearrangement of what a body says. -/
inductive Rearranges : List Item → List Item → Prop
  /-- A known flag goes to another place, forth or, read the other way, back. -/
  | move {flag : Item} (before between after : List Item) : flag.IsKnownFlag →
      Rearranges (before ++ flag :: (between ++ after)) (before ++ (between ++ flag :: after))
  /-- A known flag that is there already is said once more. -/
  | again {flag : Item} (before after : List Item) : flag.IsKnownFlag → flag ∈ before ++ after →
      Rearranges (before ++ after) (before ++ flag :: after)
  | separate {separator : Item} (before after : List Item) : separator.kind = .separator →
      Rearranges (before ++ after) (before ++ separator :: after)

/-- What no rearrangement touches: the packages and the unknown flags in their order, and which flags there are. -/
structure Undisturbed (is js : List Item) : Prop where
  packages : js.filter Item.isPackage = is.filter Item.isPackage
  unknown : js.filter Item.isUnknownFlag = is.filter Item.isUnknownFlag
  flags : ∀ i : Item, i.kind = .flag → (i ∈ js ↔ i ∈ is)

namespace Undisturbed

variable {is js ks : List Item}

theorem refl (is : List Item) : Undisturbed is is := ⟨rfl, rfl, fun _ _ => Iff.rfl⟩

theorem symm (h : Undisturbed is js) : Undisturbed js is where
  packages := h.packages.symm
  unknown := h.unknown.symm
  flags i hi := (h.flags i hi).symm

theorem trans (h : Undisturbed is js) (h' : Undisturbed js ks) : Undisturbed is ks where
  packages := h'.packages.trans h.packages
  unknown := h'.unknown.trans h.unknown
  flags i hi := (h'.flags i hi).trans (h.flags i hi)

/-- What is neither a package nor an unknown flag can be put in, if it is no flag or a flag that is there. -/
theorem insert {i : Item} {before after : List Item} (hp : i.isPackage = false) (hu : i.isUnknownFlag = false)
    (hi : i.kind = .flag → i ∈ before ++ after) : Undisturbed (before ++ after) (before ++ i :: after) := by
  refine ⟨by simp [hp], by simp [hu], ?_⟩
  intro j hj
  simp only [List.mem_append, List.mem_cons] at hi ⊢
  by_cases hji : j = i
  · have := hi (hji ▸ hj)
    simp [hji, this]
  · simp [hji]

theorem mem_flagValues (h : Undisturbed is js) (w : Text) : w ∈ flagValues js ↔ w ∈ flagValues is := by
  simp only [flagValues, List.mem_map, List.mem_filter, beq_iff_eq]
  constructor
  · intro hw
    obtain ⟨i, ⟨hi, hk⟩, rfl⟩ := hw
    exact ⟨i, ⟨(h.flags i hk).1 hi, hk⟩, rfl⟩
  · intro hw
    obtain ⟨i, ⟨hi, hk⟩, rfl⟩ := hw
    exact ⟨i, ⟨(h.flags i hk).2 hi, hk⟩, rfl⟩

theorem filter_unknown_flagValues (h : Undisturbed is js) :
    (flagValues js).filter (fun w => Flag.classify w == .unknown) =
      (flagValues is).filter fun w => Flag.classify w == .unknown := by
  have hflags (ks : List Item) : (flagValues ks).filter (fun w => Flag.classify w == .unknown) =
      (ks.filter Item.isUnknownFlag).map Item.value := by
    rw [flagValues, List.filter_map, List.filter_filter]
    congr 2
    funext i
    exact Bool.and_comm ..
  rw [hflags, hflags, h.unknown]

end Undisturbed

theorem Token.Item.IsKnownFlag.plain {i : Item} (h : i.IsKnownFlag) : i.isPackage = false ∧ i.isUnknownFlag = false := by
  obtain ⟨hk, hc⟩ := h
  simp [isPackage, isUnknownFlag, hk, hc]

theorem undisturbed_of_rearranges {is js : List Item} (h : Rearranges is js) : Undisturbed is js := by
  cases h with
  | @move flag before between after hflag =>
    obtain ⟨hp, hu⟩ := hflag.plain
    refine ⟨by simp [hp], by simp [hu], fun j _ => ?_⟩
    simp only [List.mem_append, List.mem_cons]
    grind
  | again before after hflag hmem => exact .insert hflag.plain.1 hflag.plain.2 fun _ => hmem
  | separate before after hs =>
    refine .insert (by simp [Item.isPackage, hs]) (by simp [Item.isUnknownFlag, hs]) fun hf => ?_
    rw [hs] at hf
    cases hf

/-- However often a body is rearranged, forth and back, the same is left. -/
theorem undisturbed_of_eqvGen {is js : List Item} (h : Relation.EqvGen Rearranges is js) : Undisturbed is js := by
  induction h with
  | rel _ _ h => exact undisturbed_of_rearranges h
  | refl is => exact .refl is
  | symm _ _ _ ih => exact ih.symm
  | trans _ _ _ _ _ ih ih' => exact ih.trans ih'

/-! ## Texts -/

namespace Command

variable {t t' : Text} {c c' : Install}

/-- Installs ask alike if they are read from one header and from bodies of which the same is left. -/
theorem asksAlike_of_undisturbed (h : parse t = .ok (.install c)) (h' : parse t' = .ok (.install c'))
    (hh : headerValues t' = headerValues t) (hb : Undisturbed (bodyItems t) (bodyItems t')) : c.AsksAlike c' := by
  have hc := takenFrom_of_parse h
  have hc' := takenFrom_of_parse h'
  have hset : ∀ w, w ∈ c'.spellings ↔ w ∈ c.spellings := by
    intro w
    rw [hc'.spellings, hc.spellings, hh, List.mem_append, List.mem_append]
    exact or_congr_right (hb.mem_flagValues w)
  refine ⟨?_, hset, ?_, ?_, ?_⟩
  · have hname : c'.manager.manager.name = c.manager.manager.name := by
      apply Option.some.inj
      rw [← hc'.manager, ← hc.manager, hh]
    exact Manager.eq_of_name_eq hname
  · intro k _
    rw [Install.has_eq_asks (settled_of_parse h'), Install.has_eq_asks (settled_of_parse h)]
    exact Flag.asks_congr hset k
  · rw [Install.unknownFlags_eq_filter (settled_of_parse h'), Install.unknownFlags_eq_filter (settled_of_parse h),
      hc'.spellings, hc.spellings, hh, List.filter_append, List.filter_append]
    exact congrArg _ hb.filter_unknown_flagValues
  · rw [hc'.packages, hc.packages, hb.packages]

/-- Installs that ask alike are said alike, however they were built. So are texts with one header whose bodies can be
    rearranged into each other. -/
theorem translate_rearranged :
    (∀ c d : Install, c.AsksAlike d → (install d).translate = (install c).translate) ∧
      ∀ (t t' : Text) (c c' : Install), parse t = .ok (.install c) → parse t' = .ok (.install c') →
        headerValues t' = headerValues t → Relation.EqvGen Rearranges (bodyItems t) (bodyItems t') →
        (install c').translate = (install c).translate := by
  refine ⟨fun c d h => h.translate_eq, ?_⟩
  intro t t' c c' h h' hh hb
  exact (asksAlike_of_undisturbed h h' hh (undisturbed_of_eqvGen hb)).translate_eq

/-- Flags that were built by hand with categories that are not theirs, and a body with one flag moved forth, one moved
    back, one repeated and a separator put in. -/
theorem translate_rearranged_shuffled :
    let flag (w : Text) (k : Flag.Category) (start : Int) : Flag := ⟨w, k, ⟨start, start⟩⟩
    let install (flags : List Flag) : Command :=
      .install ⟨⟨.pnpm, "pnpm".toList, ⟨0, 4⟩⟩, none, flags, [.argument ⟨"a b".toList, .bare, ⟨7, 7⟩⟩], false, ⟨0, 9⟩⟩
    (install [flag "--dev".toList .exact 1, flag "-g".toList .unknown 2, flag "-g".toList .exact 3]).translate =
        (install [flag "-g".toList .unknown 3, flag "--dev".toList .exact 2, flag "--dev".toList .exact 1]).translate ∧
      ∃ c d, parse "npm i -D --silent 'a b' -g".toList = .ok (.install c) ∧
        parse "npm i --silent -g -- -D 'a b' -D".toList = .ok (.install d) ∧ c.spellings ≠ d.spellings ∧
        (Command.install d).translate = (Command.install c).translate := by
  refine ⟨translate_rearranged.1 _ _ ⟨rfl, ?_, ?_, rfl, rfl⟩, ?_⟩
  · intro w
    simp only [Install.spellings, List.map_cons, List.map_nil, List.mem_cons, List.not_mem_nil, or_false]
    tauto
  · intro k _
    cases k <;> rfl
  · let flag (w : Text) (start : Nat) : Flag := ⟨w, Flag.classify w, ⟨start, start + w.length⟩⟩
    let c : Install := ⟨⟨.npm, "npm".toList, ⟨0, 3⟩⟩, some ⟨"i".toList, ⟨4, 5⟩⟩,
      [flag "-D".toList 6, flag "--silent".toList 9, flag "-g".toList 24],
      [.argument ⟨"a b".toList, .quoted ['\''], ⟨18, 23⟩⟩], false, ⟨0, 26⟩⟩
    let d : Install := ⟨⟨.npm, "npm".toList, ⟨0, 3⟩⟩, some ⟨"i".toList, ⟨4, 5⟩⟩,
      [flag "--silent".toList 6, flag "-g".toList 15, flag "-D".toList 21, flag "-D".toList 30],
      [.argument ⟨"a b".toList, .quoted ['\''], ⟨24, 29⟩⟩], true, ⟨0, 32⟩⟩
    have hc : parse "npm i -D --silent 'a b' -g".toList = .ok (.install c) := by decide +kernel
    have hd : parse "npm i --silent -g -- -D 'a b' -D".toList = .ok (.install d) := by decide +kernel
    refine ⟨c, d, hc, hd, by decide, translate_rearranged.2 _ _ c d hc hd (by decide +kernel) ?_⟩
    let dev : Item := ⟨.flag, "-D".toList⟩
    let silent : Item := ⟨.flag, "--silent".toList⟩
    let globally : Item := ⟨.flag, "-g".toList⟩
    let package : Item := ⟨.argument (.quoted ['\'']), "a b".toList⟩
    let separator : Item := ⟨.separator, "--".toList⟩
    have hfrom : bodyItems "npm i -D --silent 'a b' -g".toList = [dev, silent, package, globally] := by decide +kernel
    have hto : bodyItems "npm i --silent -g -- -D 'a b' -D".toList =
        [silent, globally, separator, dev, package, dev] := by decide +kernel
    have hdev : dev.IsKnownFlag := ⟨rfl, by decide⟩
    have hglobally : globally.IsKnownFlag := ⟨rfl, by decide⟩
    have hseparator : separator.kind = .separator := rfl
    rw [hfrom, hto]
    refine .trans _ _ _ (.rel _ _ (.move [] [silent] [package, globally] hdev)) ?_
    refine .trans _ _ _ (.symm _ _ (.rel _ _ (.move [silent] [dev, package] [] hglobally))) ?_
    refine .trans _ _ _ (.rel _ _ (.separate [silent, globally] [dev, package] hseparator)) ?_
    exact .rel _ _ (.again [silent, globally, separator, dev, package] [] hdev (by decide))

end Command

end CommandBridge
