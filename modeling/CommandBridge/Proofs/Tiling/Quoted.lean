/-
  CommandBridge.Proofs.Tiling.Quoted — quoted tokens that are written as they stand.

  Writing a quoted token puts a backslash before every backslash and every mark in it, and closes it.
  What stands in the text may lack the closing mark, and may escape any character. The two are the
  same exactly if the token is closed and nothing in it is escaped without need.
  - `spells_escaped`: what is written spells the value.
  - `Spells.eq_escaped_iff`: of what spells a value, that is written which escapes only where it must.
  - `writeArgument_eq_slice_iff`: when a token is written as it stands.
-/

import CommandBridge.Proofs.Tiling

namespace CommandBridge.Token

/-- The token is quoted and has its closing mark; what stands between its marks spells its value. -/
inductive IsClosed (t : Text) (u : Token) : Prop
  | between {mark : Char} {body : Text} : u.quoting = .quoted (some [mark]) → u.slice t = mark :: body ++ [mark] →
      Spells mark body u.value → IsClosed t u

/-- The characters that follow an escaping backslash, from the left; a backslash that is escaped escapes nothing. -/
def escapes : Text → List Char
  | [] => []
  | ['\\'] => []
  | '\\' :: c :: rest => c :: escapes rest
  | _ :: rest => escapes rest

theorem escapes_cons {c : Char} (h : c ≠ '\\') (rest : Text) : escapes (c :: rest) = escapes rest := by
  rw [escapes.eq_4 c rest (fun e _ => h e) (fun _ _ e _ => h e)]

/-! ## What is written spells the value -/

theorem spells_escaped (mark : Char) (value : Text) : Spells mark (escaped mark value) value := by
  induction value with
  | nil => exact .nil
  | cons c value ih =>
    by_cases hc : c = '\\' ∨ c = mark
    · rw [escaped_special hc]
      exact .escape c ih
    · rw [escaped_plain hc]
      rw [not_or] at hc
      exact .plain hc.1 hc.2 ih

namespace Spells

variable {mark : Char} {body value : Text}

theorem escapes_append (h : Spells mark body value) (rest : Text) :
    escapes (body ++ rest) = escapes body ++ escapes rest := by
  induction h with
  | nil => rfl
  | plain hc _ _ ih => rw [List.cons_append, escapes_cons hc, escapes_cons hc, ih]
  | escape c _ ih => exact congrArg (c :: ·) ih

theorem escapes_between (h : Spells mark body value) (hm : mark ≠ '\\') :
    escapes (mark :: body ++ [mark]) = escapes body := by
  rw [List.cons_append, escapes_cons hm, h.escapes_append, escapes_cons hm, escapes, List.append_nil]

/-- Of all that spells a value, one escapes only backslashes and marks: that which is written. -/
theorem eq_escaped_iff (h : Spells mark body value) :
    body = escaped mark value ↔ ∀ c ∈ escapes body, c = '\\' ∨ c = mark := by
  induction h with
  | nil => exact iff_of_true rfl (List.forall_mem_nil _)
  | @plain c body value hc hm _ ih =>
    rw [escaped_plain (not_or.2 ⟨hc, hm⟩), escapes_cons hc, ← ih]
    exact List.cons_inj_right c
  | @escape c body value _ ih =>
    show _ ↔ ∀ d ∈ c :: escapes body, d = '\\' ∨ d = mark
    rw [List.forall_mem_cons, ← ih]
    by_cases hc : c = '\\' ∨ c = mark
    · rw [escaped_special hc, and_iff_right hc]
      exact List.append_right_inj ['\\', c]
    · -- The backslash is not needed, and without it the character would come first.
      rw [escaped_plain hc]
      exact iff_of_false (fun e => hc (.inl (List.cons.inj e).1.symm)) fun h => hc h.1

end Spells

/-! ## Tokens -/

/-- A token is written as it stands exactly if it is bare, or is closed and has no backslash before a character other
    than a backslash and its own mark. -/
theorem writeArgument_eq_slice_iff {t : Text} {u : Token} (h : u ∈ tokenize t) (hend : u.kind ≠ .eof) :
    CommandLine.writeArgument u.value u.quoting = u.slice t ↔ u.quoting = .bare ∨
      u.IsClosed t ∧ ∀ c ∈ escapes (u.slice t), c = '\\' ∨ u.quoting = .quoted (some [c]) := by
  have hmem : u ∈ ofLine t := by
    rcases List.mem_append.1 h with h | h
    · exact h
    · exact absurd (congrArg Token.kind (List.mem_singleton.1 h)) hend
  cases stands_of_mem_ofLine hmem with
  | bare hq hv _ _ =>
    rw [hq]
    exact iff_of_true hv (.inl rfl)
  | @quoted mark body close hm hq hs _ _ =>
    have hslash : mark ≠ '\\' := ne_backslash_of_isMark hm
    have hmark (c : Char) : u.quoting = .quoted (some [c]) ↔ c = mark := by
      rw [hq]
      simp [eq_comm]
    have hw : CommandLine.writeArgument u.value u.quoting = mark :: escaped mark u.value ++ [mark] := by
      rw [hq]
      exact CommandLine.writeQuoted_single hslash u.value
    rw [hw]
    simp only [hmark]
    constructor
    · intro e
      have hspells := spells_escaped mark u.value
      refine .inr ⟨.between hq e.symm hspells, ?_⟩
      rw [← e, hspells.escapes_between hslash]
      exact hspells.eq_escaped_iff.1 rfl
    · rintro (hb | ⟨⟨hq', hs', hspells⟩, hescapes⟩)
      · rw [hq] at hb
        cases hb
      · obtain rfl := (hmark _).1 hq'
        rw [hs', hspells.escapes_between hslash] at hescapes
        rw [hs', hspells.eq_escaped_iff.2 hescapes]

/-- A mark that has to be escaped, and a text that breaks off after a backslash: what is written for the second token
    has as many characters as stand there. -/
theorem writeArgument_eq_slice_dangling :
    let t := "npm i 'a\\'b' \"c\\".toList
    let u : Token := ⟨.argument (.quoted ['\'']), "a'b".toList, 6, 12⟩
    let v : Token := ⟨.argument (.quoted [Text.doubleQuote]), "c".toList, 13, 16⟩
    (u ∈ tokenize t ∧ u.IsClosed t ∧ ∀ c ∈ escapes (u.slice t), c = '\\' ∨ u.quoting = .quoted (some [c])) ∧
      v ∈ tokenize t ∧ (CommandLine.writeArgument v.value v.quoting).length = (v.slice t).length ∧
      ¬ (v.IsClosed t ∧ ∀ c ∈ escapes (v.slice t), c = '\\' ∨ v.quoting = .quoted (some [c])) := by
  intro t u v
  have hu : u ∈ tokenize t := by decide +kernel
  have hv : v ∈ tokenize t := by decide +kernel
  have hclosed := (writeArgument_eq_slice_iff hu (by decide)).1 (by decide +kernel)
  have hopen : ¬ CommandLine.writeArgument v.value v.quoting = v.slice t := by decide +kernel
  rw [writeArgument_eq_slice_iff hv (by decide), not_or] at hopen
  exact ⟨⟨hu, hclosed.resolve_left (by decide)⟩, hv, by decide +kernel, hopen.2⟩

end CommandBridge.Token
