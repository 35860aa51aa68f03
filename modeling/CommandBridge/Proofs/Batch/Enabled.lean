/-
  CommandBridge.Proofs.Batch.Enabled — the same text under other options.

  Options are looked at last, when a command has been read, so they decide whether it is translated
  and nothing else. Enabling more classes lets more lines of a block be converted: what was converted
  stays as it was, and only the managers of the new lines can make the block fail.
  - `convert_of_read_ok`: what the options decide.
  - `conversions_sublist`: with more classes enabled, lines are added to those that convert.
  - `convert_widened`: what two options have to do with each other, for a command and for a block.
-/

import CommandBridge.Proofs.Batch.Append

namespace CommandBridge

/-- The other options enable every class of commands that these do. -/
def Options.Within (o o' : Options) : Prop := ∀ k, o.isEnabled k = true → o'.isEnabled k = true

instance (o o' : Options) : Decidable (o.Within o') :=
  decidable_of_iff (∀ k ∈ Command.Kind.all, o.isEnabled k = true → o'.isEnabled k = true)
    ⟨fun h k => h k (by cases k <;> decide), fun h k _ => h k⟩

/-! ## One command -/

section Command

variable {o : Options} {t : Text}

theorem convert_of_read_error {why : Rejection} (h : Command.read t = .error why) (o : Options) :
    convert o t = .error why.reason := by
  rw [convert, verdict, h]
  rfl

theorem convert_of_read_ok {c : Command} (h : Command.read t = .ok c) (o : Options) :
    convert o t = if o.isEnabled c.kind then .ok c.translate else .error .disabled := by
  rw [convert, verdict, h, Verdict.of]
  split <;> rfl

/-- What is wrong with a text is wrong with it under all options. -/
theorem convert_eq_error_of_ne_disabled {reason : Reason} (h : convert o t = .error reason) (hne : reason ≠ .disabled)
    (o' : Options) : convert o' t = .error reason := by
  cases hr : Command.read t with
  | error why => rw [convert_of_read_error hr, ← h, convert_of_read_error hr]
  | ok c =>
    rw [convert_of_read_ok hr] at h
    split at h
    · cases h
    · cases h
      exact absurd rfl hne

theorem convert_ok_unique {o' : Options} {r r' : Translation} (h : convert o t = .ok r) (h' : convert o' t = .ok r') :
    r' = r := by
  obtain ⟨c, hread, -, rfl⟩ := convert_eq_ok_iff.1 h
  obtain ⟨d, hread', -, rfl⟩ := convert_eq_ok_iff.1 h'
  rw [hread] at hread'
  cases hread'
  rfl

theorem convert_ok_of_within {o' : Options} (hw : o.Within o') {r : Translation} (h : convert o t = .ok r) :
    convert o' t = .ok r := by
  obtain ⟨c, hread, ho, rfl⟩ := convert_eq_ok_iff.1 h
  exact convert_eq_ok_iff.2 ⟨c, hread, hw c.kind ho, rfl⟩

end Command

namespace Batch

section Within

variable {o o' : Options} (hw : o.Within o')
include hw

/-! ## Blocks -/

/-- A line that converts still converts, to the same; in between others may have come. -/
theorem conversions_sublist (ls : List Text) : (conversions o ls).Sublist (conversions o' ls) := by
  induction ls with
  | nil => exact .slnil
  | cons line ls ih =>
    cases h : CommandBridge.convert o line with
    | ok r =>
      rw [conversions_cons_ok h, conversions_cons_ok (convert_ok_of_within hw h)]
      exact ih.cons_cons _
    | error e =>
      rw [conversions_cons_error h]
      cases h' : CommandBridge.convert o' line with
      | ok r =>
        rw [conversions_cons_ok h']
        exact ih.cons _
      | error e' =>
        rw [conversions_cons_error h']
        exact ih

theorem agree_of_within {ls : List Text} (h : Agree (managers o' ls)) : Agree (managers o ls) := by
  have hsub : managers o ls ⊆ managers o' ls := ((conversions_sublist hw ls).map _).subset
  exact fun a ha b hb => h a (hsub ha) b (hsub hb)

theorem outcome_mixed_of_within {ls : List Text} (h : outcome o ls = .error .mixedManagers) :
    outcome o' ls = .error .mixedManagers :=
  outcome_eq_mixed fun ha => outcome_eq_mixed_iff.1 h (agree_of_within hw ha)

theorem outcome_ok_of_within {ls : List Text} {b : Block} (h : outcome o ls = .ok b) :
    outcome o' ls = .error .mixedManagers ∨
      ∃ b', outcome o' ls = .ok b' ∧ b.conversions.Sublist b'.conversions := by
  obtain ⟨-, c, cs, hc, rfl⟩ := outcome_eq_ok h
  have hsub := conversions_sublist hw ls
  rw [hc] at hsub
  by_cases ha : Agree (managers o' ls)
  · cases hd : conversions o' ls with
    | nil =>
      rw [hd] at hsub
      cases hsub
    | cons d ds =>
      rw [hd] at hsub
      exact .inr ⟨_, outcome_of_conversions_eq_cons ha hd, hsub⟩
  · exact .inl (outcome_eq_mixed ha)

end Within

/-- Whatever is wrong with a command, other than that its class is not enabled, is wrong with it under all options, and
    if it converts under two options, it converts to the same. If besides the second options enable every class that
    the first do, then what converts under the first converts under the second, a block that fails for mixed managers
    still does, and one that converts has the same conversions among its own, in order, unless it mixes managers. -/
theorem convert_widened (o o' : Options) :
    (∀ t reason, CommandBridge.convert o t = .error reason → reason ≠ .disabled →
      CommandBridge.convert o' t = .error reason) ∧
    (∀ t r r', CommandBridge.convert o t = .ok r → CommandBridge.convert o' t = .ok r' → r' = r) ∧
    (o.Within o' →
      (∀ t r, CommandBridge.convert o t = .ok r → CommandBridge.convert o' t = .ok r) ∧
      (∀ t, convert o t = .error .mixedManagers → convert o' t = .error .mixedManagers) ∧
      ∀ t b, convert o t = .ok b → convert o' t = .error .mixedManagers ∨
        ∃ b', convert o' t = .ok b' ∧ b.conversions.Sublist b'.conversions) := by
  simp only [convert_eq_outcome]
  refine ⟨fun t reason h hne => convert_eq_error_of_ne_disabled h hne o', fun t r r' => convert_ok_unique, fun hw => ?_⟩
  exact ⟨fun t r => convert_ok_of_within hw, fun t => outcome_mixed_of_within hw, fun t b => outcome_ok_of_within hw⟩

/-- Of two blocks that convert by default, one converts more lines when every class is enabled, and one fails: its other
    line names another manager. -/
theorem convert_widened_mixed :
    Options.standard.Within .allEnabled ∧
      (∃ b b', convert .standard "npm i x\nnpx y".toList = .ok b ∧ convert .allEnabled "npm i x\nnpx y".toList = .ok b' ∧
        b.conversions.Sublist b'.conversions ∧ b'.conversions.length = 2) ∧
      (∃ b, convert .standard "npm i x\nyarn run y".toList = .ok b) ∧
      convert .allEnabled "npm i x\nyarn run y".toList = .error .mixedManagers := by
  have hw : Options.standard.Within .allEnabled := by decide
  obtain ⟨-, -, hblock⟩ := (convert_widened .standard .allEnabled).2.2 hw
  have hok {t : Text} (h : (convert .standard t).isOk = true) : ∃ b, convert .standard t = .ok b := by
    cases hb : convert .standard t with
    | error e =>
      rw [hb] at h
      cases h
    | ok b => exact ⟨b, rfl⟩
  obtain ⟨b, hb⟩ := hok (t := "npm i x\nnpx y".toList) (by decide +kernel)
  obtain ⟨c, hc⟩ := hok (t := "npm i x\nyarn run y".toList) (by decide +kernel)
  refine ⟨hw, ?_, ⟨c, hc⟩, ?_⟩
  · have hmore : (convert .allEnabled "npm i x\nnpx y".toList).toOption.map (fun b => b.conversions.length) = some 2 := by
      decide +kernel
    rcases hblock _ b hb with h | ⟨b', hb', hsub⟩
    · rw [h] at hmore
      cases hmore
    · rw [hb'] at hmore
      exact ⟨b, b', hb, hb', hsub, Option.some.inj hmore⟩
  · have hmixed : (convert .allEnabled "npm i x\nyarn run y".toList).toOption = none := by decide +kernel
    rcases hblock _ c hc with h | ⟨c', hc', -⟩
    · exact h
    · rw [hc'] at hmixed
      cases hmixed

end Batch

end CommandBridge
