/-
  CommandBridge.Proofs.Body — which bodies make a command, and which command they make.

  One statement for each kind of command: reading a body gives a command exactly if the body has the
  shape of the kind, and then the command is the one that the shape shows. What can go wrong is one
  thing for each kind: a separator at the end of an install, or else a body that breaks off.
-/

import CommandBridge.Command.Parse

namespace CommandBridge.Command

variable {w : ManagerWord} {s : Subcommand} {span : Span} {finish : Token} {body : List Token}

/-- The body of an install may not end with a separator. -/
theorem installOfBody_eq_ok_iff {implied : List Flag} {c : Install} :
    installOfBody w s implied span body = .ok c ↔ (∀ u ∈ body.getLast?, u.isSeparator = false) ∧
      c = ⟨w, some s, implied ++ (body.filter Token.isFlag).map Flag.ofToken,
        (body.filter isPackage).map Leaf.argumentOf, body.any Token.isSeparator, span⟩ := by
  unfold installOfBody
  cases hl : body.getLast?.filter Token.isSeparator with
  | some last =>
    obtain ⟨hlast, hs⟩ := Option.filter_eq_some_iff.mp hl
    constructor
    · intro h
      cases h
    · intro h
      have hf := h.1 last hlast
      rw [hs] at hf
      cases hf
  | none =>
    have hn : ∀ u ∈ body.getLast?, u.isSeparator = false := by
      intro u hu
      simpa using Option.filter_eq_none_iff.mp hl u hu
    constructor
    · intro h
      exact ⟨hn, (Except.ok.inj h).symm⟩
    · intro h
      rw [h.2]

/-- The body of an exec has flags and then the package. -/
theorem execOfBody_eq_ok_iff {s : Option Subcommand} {c : Exec} :
    execOfBody w s span finish body = .ok c ↔ ∃ flags package args, body = flags ++ package :: args ∧
      (∀ f ∈ flags, f.isFlag = true) ∧ package.isFlag = false ∧
        c = ⟨w, s, flags.map Leaf.flagOf, Leaf.argumentOf package, args.map Leaf.argumentOf, span⟩ := by
  constructor
  · intro h
    unfold execOfBody at h
    split at h
    · cases h
    · rename_i package args hd
      have hp := List.head?_dropWhile_not Token.isFlag body
      rw [hd] at hp
      refine ⟨body.takeWhile Token.isFlag, package, args, ?_, ?_, hp, (Except.ok.inj h).symm⟩
      · rw [← hd, List.takeWhile_append_dropWhile]
      · exact List.all_eq_true.mp List.all_takeWhile
  · intro h
    obtain ⟨flags, package, args, rfl, hf, hp, rfl⟩ := h
    have hd : (flags ++ package :: args).dropWhile Token.isFlag = package :: args := by
      rw [List.dropWhile_append_of_pos hf, List.dropWhile_cons_of_neg (by simp [hp])]
    have ht : (flags ++ package :: args).takeWhile Token.isFlag = flags := by
      rw [List.takeWhile_append_of_pos hf, List.takeWhile_cons_of_neg (by simp [hp]), List.append_nil]
    rw [execOfBody, hd, ht]

theorem runOfBody_eq_ok_iff {c : Run} :
    runOfBody w s span finish body = .ok c ↔ ∃ script args, body = script :: args ∧
      c = ⟨w, some s, Leaf.argumentOf script, args.map Leaf.argumentOf, span⟩ := by
  cases body with
  | nil => simp [runOfBody]
  | cons script args =>
    constructor
    · intro h
      exact ⟨script, args, rfl, (Except.ok.inj h).symm⟩
    · intro h
      obtain ⟨_, _, e, rfl⟩ := h
      cases e
      rfl

theorem createOfBody_eq_ok_iff {c : Create} :
    createOfBody w s span finish body = .ok c ↔ ∃ template rest, body = template :: rest ∧
      c = ⟨w, some s, Leaf.argumentOf template, (rest.filter fun t => !t.isSeparator).map Leaf.argumentOf,
        rest.any Token.isSeparator, span⟩ := by
  cases body with
  | nil => simp [createOfBody]
  | cons template rest =>
    constructor
    · intro h
      exact ⟨template, rest, rfl, (Except.ok.inj h).symm⟩
    · intro h
      obtain ⟨_, _, e, rfl⟩ := h
      cases e
      rfl

/-! ## Bodies that make no command -/

variable {e : SyntaxError}

theorem error_installOfBody {implied : List Flag} (h : installOfBody w s implied span body = .error e) :
    e.cause = .danglingSeparator ∧ body.getLast? = some e.token := by
  unfold installOfBody at h
  split at h
  case h_1 last hl =>
    cases h
    exact ⟨rfl, (Option.filter_eq_some_iff.1 hl).1⟩
  case h_2 => cases h

theorem error_execOfBody {s : Option Subcommand} (h : execOfBody w s span finish body = .error e) :
    e = ⟨.expectedPackage, finish⟩ := by
  unfold execOfBody at h
  split at h
  · exact (Except.error.inj h).symm
  · cases h

theorem error_runOfBody (h : runOfBody w s span finish body = .error e) : e = ⟨.expectedScript, finish⟩ := by
  cases body with
  | nil => exact (Except.error.inj h).symm
  | cons => cases h

theorem error_createOfBody (h : createOfBody w s span finish body = .error e) : e = ⟨.expectedTemplate, finish⟩ := by
  cases body with
  | nil => exact (Except.error.inj h).symm
  | cons => cases h

end CommandBridge.Command
