/-
  CommandBridge.Proofs.NamedValues — options that are built from named values.

  Two names stand for each switch. Values are stored one after the other, so of those that are given
  for a switch, by either name, the last one stands, and pairs for different switches do not touch
  each other. The first pair with something wrong ends it all: a name that stands for no switch, or
  else a value that is no truth value.
  - `store_of_fault`, `sound_or_fault`: what is wrong with one pair, which is all that can be.
  - `storeAll_of_sound`: what sound pairs leave in each switch.
  - `storeAll_of_fault`: what a faulty pair after sound ones leads to.
  - `ofPairs_lastWriter`: both outcomes, each with its condition.
-/

import CommandBridge.Options

namespace CommandBridge

namespace Switch

/-- The key is one of the two names of the switch. -/
def IsNamed : Switch → Text → Prop
  | install, key => key = "parse_install".toList ∨ key = "parseInstall".toList
  | exec, key => key = "parse_exec".toList ∨ key = "parseExec".toList
  | run, key => key = "parse_run".toList ∨ key = "parseRun".toList
  | create, key => key = "parse_create".toList ∨ key = "parseCreate".toList
  | multiLine, key => key = "parse_multi_line".toList ∨ key = "parseMultiLine".toList

theorem isNamed_iff {s : Switch} {key : Text} : s.IsNamed key ↔ key = s.name ∨ key = s.camelName := by
  cases s <;> exact Iff.rfl

instance (s : Switch) (key : Text) : Decidable (s.IsNamed key) := decidable_of_iff _ isNamed_iff.symm

theorem ofKey?_eq_some_iff {s : Switch} {key : Text} : ofKey? key = some s ↔ s.IsNamed key := by
  rw [isNamed_iff]
  constructor
  · intro h
    have hnamed : s.name = key ∨ s.camelName = key := by simpa using List.find?_some h
    exact hnamed.imp Eq.symm Eq.symm
  · rintro (rfl | rfl)
    · exact ofKey?_name s
    · exact ofKey?_camelName s

theorem ofKey?_eq_none_iff {key : Text} : ofKey? key = none ↔ ∀ s : Switch, ¬ s.IsNamed key := by
  rw [Option.eq_none_iff_forall_ne_some]
  exact forall_congr' fun s => not_congr ofKey?_eq_some_iff

theorem IsNamed.unique {s s' : Switch} {key : Text} (h : s.IsNamed key) (h' : s'.IsNamed key) : s = s' :=
  Option.some.inj ((ofKey?_eq_some_iff.2 h).symm.trans (ofKey?_eq_some_iff.2 h'))

end Switch

namespace Options

/-! ## One pair -/

/-- The pair has a name of a switch, and a truth value. -/
def IsSound (p : Text × Datum) : Prop := (∃ s : Switch, s.IsNamed p.1) ∧ ∃ b, p.2 = .bool b

/-- What is wrong with a pair; its value counts only if its name stands for a switch. -/
inductive Fault : Text × Datum → OptionError → Prop
  | unknownKey {key : Text} (value : Datum) : (∀ s : Switch, ¬ s.IsNamed key) → Fault (key, value) (.unknownKey key)
  | notBoolean {s : Switch} {key : Text} {value : Datum} : s.IsNamed key → (∀ b, value ≠ .bool b) →
      Fault (key, value) (.notBoolean key value)

theorem store_of_named {s : Switch} {key : Text} (h : s.IsNamed key) (o : Options) (b : Bool) :
    o.store key (.bool b) = .ok (o.put s (.bool b)) := by
  simp only [store, Switch.ofKey?_eq_some_iff.2 h]

theorem store_of_fault {p : Text × Datum} {e : OptionError} (h : Fault p e) (o : Options) :
    o.store p.1 p.2 = .error e := by
  cases h with
  | unknownKey value hnone => simp only [store, Switch.ofKey?_eq_none_iff.2 hnone]
  | @notBoolean s key value hs hv =>
    simp only [store, Switch.ofKey?_eq_some_iff.2 hs]

theorem sound_or_fault (p : Text × Datum) : IsSound p ∨ ∃ e, Fault p e := by
  obtain ⟨key, value⟩ := p
  by_cases hkey : ∃ s : Switch, s.IsNamed key
  · by_cases hvalue : ∃ b, value = .bool b
    · exact .inl ⟨hkey, hvalue⟩
    · obtain ⟨s, hs⟩ := hkey
      exact .inr ⟨_, .notBoolean hs (not_exists.1 hvalue)⟩
  · exact .inr ⟨_, .unknownKey value (not_exists.1 hkey)⟩

/-! ## All pairs -/

/-- The values that are given for a switch, by either of its names, in order. -/
def given (s : Switch) (pairs : List (Text × Datum)) : List Datum :=
  (pairs.filter fun p => s.IsNamed p.1).map Prod.snd

theorem given_cons_of_named {s : Switch} {key : Text} (h : s.IsNamed key) (value : Datum) (pairs : List (Text × Datum)) :
    given s ((key, value) :: pairs) = value :: given s pairs := by
  simp [given, h]

theorem given_cons_of_not_named {s : Switch} {key : Text} (h : ¬ s.IsNamed key) (value : Datum)
    (pairs : List (Text × Datum)) : given s ((key, value) :: pairs) = given s pairs := by
  simp [given, h]

/-- Sound pairs leave in each switch the last value that is given for it, or else what was there. -/
theorem storeAll_of_sound {pairs : List (Text × Datum)} (h : ∀ p ∈ pairs, IsSound p) (o : Options) :
    ∃ o', storeAll o pairs = .ok o' ∧ ∀ s, o'.get s = (given s pairs).getLast?.getD (o.get s) := by
  induction pairs generalizing o with
  | nil => exact ⟨o, rfl, fun _ => rfl⟩
  | cons p pairs ih =>
    obtain ⟨key, value⟩ := p
    obtain ⟨⟨⟨s, hs⟩, b, hb⟩, hpairs⟩ := List.forall_mem_cons.1 h
    obtain rfl : value = .bool b := hb
    obtain ⟨o', ho', hget⟩ := ih hpairs (o.put s (.bool b))
    refine ⟨o', ?_, fun s' => ?_⟩
    · rw [storeAll, store_of_named hs]
      exact ho'
    · rw [hget, get_put]
      by_cases e : s = s'
      · subst e
        rw [if_pos rfl, given_cons_of_named hs, List.getLast?_cons, Option.getD_some]
      · rw [if_neg e, given_cons_of_not_named fun hs' => e (hs.unique hs')]

theorem storeAll_append (o : Options) (before after : List (Text × Datum)) :
    storeAll o (before ++ after) = (storeAll o before).bind fun o' => storeAll o' after := by
  induction before generalizing o with
  | nil => rfl
  | cons p before ih =>
    rw [List.cons_append, storeAll, storeAll]
    cases o.store p.1 p.2 with
    | ok o' => exact ih o'
    | error e => rfl

/-- A faulty pair after sound ones ends it, whatever follows. -/
theorem storeAll_of_fault {before after : List (Text × Datum)} {p : Text × Datum} {e : OptionError}
    (h : ∀ q ∈ before, IsSound q) (hp : Fault p e) (o : Options) : storeAll o (before ++ p :: after) = .error e := by
  obtain ⟨o', ho', -⟩ := storeAll_of_sound h o
  rw [storeAll_append, ho']
  show storeAll o' (p :: after) = .error e
  rw [storeAll, store_of_fault hp]

/-- If not all pairs are sound, one comes first that is not. -/
theorem sound_or_firstFault (pairs : List (Text × Datum)) : (∀ p ∈ pairs, IsSound p) ∨
    ∃ before p after e, pairs = before ++ p :: after ∧ (∀ q ∈ before, IsSound q) ∧ Fault p e := by
  induction pairs with
  | nil => exact .inl (List.forall_mem_nil _)
  | cons p pairs ih =>
    rcases sound_or_fault p with hp | ⟨e, hp⟩
    · rcases ih with h | ⟨before, q, after, e, rfl, hbefore, hq⟩
      · exact .inl (List.forall_mem_cons.2 ⟨hp, h⟩)
      · exact .inr ⟨p :: before, q, after, e, rfl, List.forall_mem_cons.2 ⟨hp, hbefore⟩, hq⟩
    · exact .inr ⟨[], p, pairs, e, rfl, List.forall_mem_nil _, hp⟩

/-- Only installs are converted by default. -/
theorem get_standard (s : Switch) : standard.get s = .bool (s == .install) := by cases s <;> rfl

theorem ofPairs_of_sound {pairs : List (Text × Datum)} (h : ∀ p ∈ pairs, IsSound p) :
    ∃ o, ofPairs pairs = .ok o ∧ ∀ s, o.get s = (given s pairs).getLast?.getD (.bool (s == .install)) := by
  obtain ⟨o, ho, hget⟩ := storeAll_of_sound h standard
  simp only [get_standard] at hget
  exact ⟨o, ho, hget⟩

theorem ofPairs_eq_ok_iff {pairs : List (Text × Datum)} : (∃ o, ofPairs pairs = .ok o) ↔ ∀ p ∈ pairs, IsSound p := by
  constructor
  · rintro ⟨o, ho⟩
    rcases sound_or_firstFault pairs with h | ⟨before, p, after, e, rfl, hbefore, hp⟩
    · exact h
    · rw [ofPairs, storeAll_of_fault hbefore hp] at ho
      cases ho
  · intro h
    obtain ⟨o, ho, -⟩ := ofPairs_of_sound h
    exact ⟨o, ho⟩

theorem ofPairs_eq_error_iff {pairs : List (Text × Datum)} {e : OptionError} : ofPairs pairs = .error e ↔
    ∃ before p after, pairs = before ++ p :: after ∧ (∀ q ∈ before, IsSound q) ∧ Fault p e := by
  constructor
  · intro he
    rcases sound_or_firstFault pairs with h | ⟨before, p, after, e', rfl, hbefore, hp⟩
    · obtain ⟨o, ho, -⟩ := ofPairs_of_sound h
      rw [ho] at he
      cases he
    · rw [ofPairs, storeAll_of_fault hbefore hp] at he
      cases he
      exact ⟨before, p, after, rfl, hbefore, hp⟩
  · rintro ⟨before, p, after, rfl, hbefore, hp⟩
    exact storeAll_of_fault hbefore hp standard

/-- Options can be built exactly if every pair is sound. Then each switch holds the last value that is given for it by
    either name, or its default, which is to convert installs only, and the same comes of the pairs in any order that
    leaves the values for each switch in theirs. Otherwise the first pair that is not sound says what is wrong. -/
theorem ofPairs_lastWriter (pairs : List (Text × Datum)) :
    ((∃ o, ofPairs pairs = .ok o) ↔ ∀ p ∈ pairs, IsSound p) ∧
    (∀ o, ofPairs pairs = .ok o →
      (∀ s, o.get s = (given s pairs).getLast?.getD (.bool (s == .install))) ∧
      ∀ pairs', pairs'.Perm pairs → (∀ s, given s pairs' = given s pairs) → ofPairs pairs' = .ok o) ∧
    ∀ e, ofPairs pairs = .error e ↔
      ∃ before p after, pairs = before ++ p :: after ∧ (∀ q ∈ before, IsSound q) ∧ Fault p e := by
  refine ⟨ofPairs_eq_ok_iff, fun o ho => ?_, fun e => ofPairs_eq_error_iff⟩
  have hsound := ofPairs_eq_ok_iff.1 ⟨o, ho⟩
  obtain ⟨o', ho', hget⟩ := ofPairs_of_sound hsound
  obtain rfl : o = o' := Except.ok.inj (ho.symm.trans ho')
  refine ⟨hget, fun pairs' hperm hgiven => ?_⟩
  obtain ⟨o', ho', hget'⟩ := ofPairs_of_sound fun p hp => hsound p (hperm.mem_iff.1 hp)
  have hsame : o' = o := ext_get fun s => by rw [hget', hgiven, hget]
  rw [ho', hsame]

/-- Both names of a switch among the pairs, with a pair for another switch moved, and pairs of which two are faulty. -/
theorem ofPairs_lastWriter_bothNames :
    (∃ o, ofPairs [("parse_exec".toList, .bool true), ("parseRun".toList, .bool true), ("parseExec".toList, .bool false)] =
        .ok o ∧ o.get .exec = .bool false ∧ o.get .install = .bool true ∧
      ofPairs [("parseRun".toList, .bool true), ("parse_exec".toList, .bool true), ("parseExec".toList, .bool false)] =
        .ok o) ∧
    ofPairs [("parseRun".toList, .bool true), ("parseExec".toList, .int 0), ("parseAll".toList, .null)] =
      .error (.notBoolean "parseExec".toList (.int 0)) := by
  constructor
  · obtain ⟨hok, hget, -⟩ := ofPairs_lastWriter
      [("parse_exec".toList, .bool true), ("parseRun".toList, .bool true), ("parseExec".toList, .bool false)]
    have hsound : ∀ p ∈ [("parse_exec".toList, Datum.bool true), ("parseRun".toList, .bool true),
        ("parseExec".toList, .bool false)], IsSound p := by
      simp only [List.forall_mem_cons]
      exact ⟨⟨⟨.exec, .inl rfl⟩, _, rfl⟩, ⟨⟨.run, .inr rfl⟩, _, rfl⟩, ⟨⟨.exec, .inr rfl⟩, _, rfl⟩, List.forall_mem_nil _⟩
    obtain ⟨o, ho⟩ := hok.2 hsound
    obtain ⟨hlast, hperm⟩ := hget o ho
    exact ⟨o, ho, hlast .exec, hlast .install, hperm _ (.swap ..) fun s => by cases s <;> rfl⟩
  · refine ((ofPairs_lastWriter _).2.2 _).2 ⟨[("parseRun".toList, .bool true)], _, _, rfl, ?_, ?_⟩
    · exact List.forall_mem_singleton.2 ⟨⟨.run, .inr rfl⟩, _, rfl⟩
    · exact .notBoolean (s := .exec) (.inr rfl) nofun

end Options

end CommandBridge
