/-
  CommandBridge.Proofs.Batch.Append — two blocks, one after the other.

  The lines of two blocks with a line feed between them are the lines of the first and then those of the
  second. Nothing that comes before a line shows in what it becomes, so the outcome for both blocks hangs on
  the outcomes for each and, where no line converts, on the text that is copied.
  - `convert_eq_outcome`: the outcome for a block is a function of its lines.
  - `outcome_append`: what comes of some lines and then of others.
  - `convert_append`: what comes of two blocks.
-/

import CommandBridge.Proofs.Batch

namespace CommandBridge.Batch

/-! ## The outcome for some lines -/

section Lines

variable (o : Options) (ls ks : List Text)

/-- The lines that can be converted, trimmed, with what they become. -/
def conversions : List (Text × Translation) :=
  ls.filterMap fun line => (CommandBridge.convert o line).toOption.map fun r => (Text.trim line, r)

/-- The managers that the lines name. -/
def managers : List Manager := (conversions o ls).map fun c => c.2.manager

/-- What the lines say to a manager, each on its own. -/
def sayAll (m : Manager) : Text := Text.joinLines (ls.map (sayAlone o m))

/-- What comes of a block with these lines. -/
def outcome : Except Reason Block :=
  if Agree (managers o ls) then
    match conversions o ls with
    | [] => .error .notSupported
    | c :: cs => .ok ⟨c.2.kind, PerManager.ofFn (sayAll o ls), c :: cs⟩
  else .error .mixedManagers

theorem named_none : named o none ls = managers o ls := by
  rw [named, translations_eq_map, filterMap_conversion?_ofText, List.map_map]
  rfl

theorem ofLines_ofText : Block.ofLines (ls.map (Line.ofText o)) =
    match conversions o ls with
    | [] => .error .notSupported
    | c :: cs => .ok ⟨c.2.kind, PerManager.ofFn (sayAll o ls), c :: cs⟩ := by
  have hsay : (fun m => Text.joinLines ((ls.map (Line.ofText o)).map (Line.say m))) = sayAll o ls :=
    funext fun m => by rw [map_say_ofText, sayAll]
  rw [Block.ofLines, filterMap_conversion?_ofText, hsay]
  rfl

theorem convert_eq_outcome (t : Text) : convert o t = outcome o (Text.lines t) := by
  unfold outcome
  rw [← named_none, ← ofLines_ofText]
  split
  case isTrue h => exact convert_of_agree h
  case isFalse h => exact convert_of_not_agree h

theorem conversions_append : conversions o (ls ++ ks) = conversions o ls ++ conversions o ks := List.filterMap_append

theorem managers_append : managers o (ls ++ ks) = managers o ls ++ managers o ks := by
  rw [managers, conversions_append, List.map_append, managers, managers]

end Lines

theorem agree_append {ms ns : List Manager} :
    Agree (ms ++ ns) ↔ Agree ms ∧ Agree ns ∧ ∀ a ∈ ms, ∀ b ∈ ns, a = b := by
  constructor
  · intro h
    refine ⟨fun a ha b hb => ?_, fun a ha b hb => ?_, fun a ha b hb => ?_⟩ <;> apply h <;> simp [ha, hb]
  · rintro ⟨hm, hn, hmn⟩ a ha b hb
    rcases List.mem_append.1 ha with ha | ha <;> rcases List.mem_append.1 hb with hb | hb
    · exact hm a ha b hb
    · exact hmn a ha b hb
    · exact (hmn b hb a ha).symm
    · exact hn a ha b hb

section Outcome

variable {o : Options} {ls ks : List Text}

theorem conversions_cons_error {line : Text} {e : Reason} (h : CommandBridge.convert o line = .error e) (ls : List Text) :
    conversions o (line :: ls) = conversions o ls := by
  simp [conversions, h, Except.toOption]

theorem conversions_cons_ok {line : Text} {r : Translation} (h : CommandBridge.convert o line = .ok r) (ls : List Text) :
    conversions o (line :: ls) = (Text.trim line, r) :: conversions o ls := by
  simp [conversions, h, Except.toOption]

theorem outcome_eq_mixed (h : ¬ Agree (managers o ls)) : outcome o ls = .error .mixedManagers := if_neg h

theorem outcome_eq_mixed_iff : outcome o ls = .error .mixedManagers ↔ ¬ Agree (managers o ls) := by
  refine ⟨fun h ha => ?_, outcome_eq_mixed⟩
  rw [outcome, if_pos ha] at h
  split at h <;> cases h

theorem outcome_of_conversions_eq_nil (h : conversions o ls = []) : outcome o ls = .error .notSupported := by
  have ha : Agree (managers o ls) := by
    rw [managers, h]
    exact List.forall_mem_nil _
  rw [outcome, if_pos ha, h]

theorem outcome_of_conversions_eq_cons (ha : Agree (managers o ls)) {c : Text × Translation}
    {cs : List (Text × Translation)} (h : conversions o ls = c :: cs) :
    outcome o ls = .ok ⟨c.2.kind, PerManager.ofFn (sayAll o ls), c :: cs⟩ := by
  rw [outcome, if_pos ha, h]

theorem outcome_eq_ok {b : Block} (h : outcome o ls = .ok b) : Agree (managers o ls) ∧
    ∃ c cs, conversions o ls = c :: cs ∧ b = ⟨c.2.kind, PerManager.ofFn (sayAll o ls), c :: cs⟩ := by
  by_cases ha : Agree (managers o ls)
  case neg =>
    rw [outcome_eq_mixed ha] at h
    cases h
  cases hc : conversions o ls with
  | nil =>
    rw [outcome_of_conversions_eq_nil hc] at h
    cases h
  | cons c cs =>
    rw [outcome_of_conversions_eq_cons ha hc] at h
    exact ⟨ha, c, cs, rfl, (Except.ok.inj h).symm⟩

theorem sayAll_append (hl : ls ≠ []) (hk : ks ≠ []) (m : Manager) :
    sayAll o (ls ++ ks) m = sayAll o ls m ++ '\n' :: sayAll o ks m := by
  have hmap {ls : List Text} (h : ls ≠ []) : ls.map (sayAlone o m) ≠ [] := by simpa using h
  rw [sayAll, List.map_append, Text.joinLines_append (hmap hl) (hmap hk), sayAll, sayAll]

/-- Lines none of which converts are copied. -/
theorem sayAll_of_conversions_eq_nil (h : conversions o ls = []) (m : Manager) : sayAll o ls m = Text.joinLines ls := by
  have hcopy : ∀ line ∈ ls, sayAlone o m line = line := by
    intro line hl
    have hn := List.filterMap_eq_nil_iff.1 h line hl
    unfold sayAlone
    cases hc : CommandBridge.convert o line with
    | ok r =>
      rw [hc] at hn
      cases hn
    | error e => rfl
  rw [sayAll, List.map_congr_left hcopy, List.map_id']

end Outcome

/-! ## Two blocks -/

namespace Block

/-- No two converted lines, one of each block, name different managers. -/
def Agrees (a b : Block) : Prop := ∀ c ∈ a.conversions, ∀ d ∈ b.conversions, c.2.manager = d.2.manager

instance (a b : Block) : Decidable (a.Agrees b) := List.decidableBAll _ _

def append (a b : Block) : Block :=
  ⟨a.kind, PerManager.ofFn fun m => a.commands.get m ++ '\n' :: b.commands.get m, a.conversions ++ b.conversions⟩

/-- The block after text that is copied. -/
def after (t : Text) (b : Block) : Block := { b with commands := PerManager.ofFn fun m => t ++ '\n' :: b.commands.get m }

/-- The block before text that is copied. -/
def before (b : Block) (t : Text) : Block := { b with commands := PerManager.ofFn fun m => b.commands.get m ++ '\n' :: t }

end Block

/-- What comes of two texts with a line feed between them, from what comes of each. -/
def beside (t u : Text) : Except Reason Block → Except Reason Block → Except Reason Block
  | .error .mixedManagers, _ => .error .mixedManagers
  | _, .error .mixedManagers => .error .mixedManagers
  | .ok a, .ok b => if a.Agrees b then .ok (a.append b) else .error .mixedManagers
  | .ok a, .error _ => .ok (a.before u)
  | .error _, .ok b => .ok (b.after t)
  | .error e, .error _ => .error e

theorem beside_mixed (t u : Text) (r : Except Reason Block) :
    beside t u r (.error .mixedManagers) = .error .mixedManagers := by
  rcases r with (_ | _ | _ | _) | b <;> rfl

section Beside

variable {o : Options} {ls ks : List Text}

/-- What comes of some lines and then of others. -/
theorem outcome_append (hl : ls ≠ []) (hk : ks ≠ []) : outcome o (ls ++ ks) =
    beside (Text.joinLines ls) (Text.joinLines ks) (outcome o ls) (outcome o ks) := by
  have hagree : Agree (managers o ls ++ managers o ks) ↔ _ := agree_append
  rw [← managers_append] at hagree
  by_cases ha : Agree (managers o ls)
  case neg => rw [outcome_eq_mixed ha, outcome_eq_mixed fun h => ha (hagree.1 h).1, beside]
  by_cases hb : Agree (managers o ks)
  case neg => rw [outcome_eq_mixed hb, outcome_eq_mixed fun h => hb (hagree.1 h).2.1, beside_mixed]
  have hsay : sayAll o (ls ++ ks) = fun m => sayAll o ls m ++ '\n' :: sayAll o ks m :=
    funext fun m => sayAll_append hl hk m
  have hconv := conversions_append o ls ks
  cases hc : conversions o ls with
  | nil =>
    have hls : sayAll o ls = fun _ => Text.joinLines ls := funext (sayAll_of_conversions_eq_nil hc)
    rw [hc, List.nil_append] at hconv
    rw [outcome_of_conversions_eq_nil hc]
    cases hd : conversions o ks with
    | nil =>
      rw [outcome_of_conversions_eq_nil hd, outcome_of_conversions_eq_nil (hconv.trans hd)]
      rfl
    | cons d ds =>
      have hab : Agree (managers o (ls ++ ks)) := by rwa [managers, hconv]
      rw [outcome_of_conversions_eq_cons hb hd, outcome_of_conversions_eq_cons hab (hconv.trans hd), hsay, hls]
      rfl
  | cons c cs =>
    rw [outcome_of_conversions_eq_cons ha hc]
    rw [hc] at hconv
    cases hd : conversions o ks with
    | nil =>
      have hks : sayAll o ks = fun _ => Text.joinLines ks := funext (sayAll_of_conversions_eq_nil hd)
      rw [hd, List.append_nil] at hconv
      have hab : Agree (managers o (ls ++ ks)) := by rwa [managers, hconv, ← hc]
      rw [outcome_of_conversions_eq_nil hd, outcome_of_conversions_eq_cons hab hconv, hsay, hks]
      rfl
    | cons d ds =>
      rw [hd] at hconv
      rw [outcome_of_conversions_eq_cons hb hd]
      -- Each block agrees with itself, so the lines of both agree if those of the one do with the other.
      have hcross : Agree (managers o (ls ++ ks)) ↔ ∀ x ∈ c :: cs, ∀ y ∈ d :: ds, x.2.manager = y.2.manager := by
        rw [hagree, and_iff_right ha, and_iff_right hb, managers, managers, hc, hd, List.forall_mem_map]
        exact forall₂_congr fun x _ => List.forall_mem_map
      show _ = if Block.Agrees _ _ then _ else _
      split
      case isTrue h =>
        rw [outcome_of_conversions_eq_cons (hcross.2 h) hconv, hsay]
        rfl
      case isFalse h => exact outcome_eq_mixed fun hab => h (hcross.1 hab)

theorem outcome_eq_notSupported_iff : outcome o ls = .error .notSupported ↔ conversions o ls = [] := by
  refine ⟨fun h => ?_, outcome_of_conversions_eq_nil⟩
  by_cases ha : Agree (managers o ls)
  case neg =>
    rw [outcome_eq_mixed ha] at h
    cases h
  cases hc : conversions o ls with
  | nil => rfl
  | cons c cs =>
    rw [outcome_of_conversions_eq_cons ha hc] at h
    cases h

end Beside

/-- The outcome for two texts with a line feed between them is made of the outcomes for each; it is that there
    is nothing to convert exactly if this is so of both. -/
theorem convert_append (o : Options) (t u : Text) :
    convert o (t ++ '\n' :: u) = beside t u (convert o t) (convert o u) ∧
      (convert o (t ++ '\n' :: u) = .error .notSupported ↔
        convert o t = .error .notSupported ∧ convert o u = .error .notSupported) := by
  have hne (t : Text) : Text.lines t ≠ [] := List.splitOn_ne_nil '\n' t
  simp only [convert_eq_outcome, Text.lines_append]
  constructor
  · rw [outcome_append (hne t) (hne u), Text.joinLines_lines, Text.joinLines_lines]
  · rw [outcome_eq_notSupported_iff, outcome_eq_notSupported_iff, outcome_eq_notSupported_iff, conversions_append,
      List.append_eq_nil_iff]

end CommandBridge.Batch
