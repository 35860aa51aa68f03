/-
  CommandBridge.Proofs.Dispatch — how the header of a command chooses the way its body is read.

  - `ofTokens_named`, `ofTokens_short`: what a manager's name and what a shorthand leads to.
  - `ofText?_eq_some_iff`: the words of each verb.
  - `readFrom_of_ofTokens`: before the body of a command stand calling words alone.
  - `readFrom_of_parse`: a command that was parsed was read from a body of legible tokens, in one of
    four ways.
-/

import CommandBridge.Command.Parse
import CommandBridge.Proofs.Item

namespace CommandBridge

/-! ## Calling words -/

namespace Manager

theorem eq_of_name_eq {m n : Manager} (h : m.name = n.name) : m = n := by
  apply Option.some.inj
  rw [← ofName?_name, ← ofName?_name, h]

theorem isShorthand_name (m : Manager) : isShorthand m.name = false := by cases m <;> decide

/-- A word calls a manager as a shorthand or by the name. -/
theorem eq_name_of_ofInvocation? {t : Text} {m : Manager} (h : ofInvocation? t = some m)
    (hs : isShorthand t = false) : t = m.name := by
  have hall : ∀ p ∈ invocations, isShorthand p.1 = true ∨ p.1 = p.2.name := by decide
  obtain ⟨before, after, e, -⟩ := List.lookup_eq_some_iff.1 h
  have hmem : (t, m) ∈ invocations := by rw [e]; exact List.mem_append_right _ (List.mem_cons_self ..)
  rcases hall _ hmem with h' | h'
  · rw [hs] at h'; cases h'
  · exact h'

end Manager

namespace Command

/-! ## Verbs -/

def Verb.words : Verb → List Text
  | .dlx => ["dlx".toList]
  | .install => ["install".toList, "i".toList, "add".toList]
  | .run => ["run".toList]
  | .create => ["create".toList]
  | .global => ["global".toList]

theorem Verb.ofText?_of_mem {t : Text} {v : Verb} (h : t ∈ v.words) : ofText? t = some v := by
  revert t
  cases v <;> decide

theorem Verb.ofText?_eq_some_iff {t : Text} {v : Verb} : ofText? t = some v ↔ t ∈ v.words := by
  refine ⟨fun h => ?_, Verb.ofText?_of_mem⟩
  unfold ofText? at h
  split at h
  case isTrue e => cases h; exact List.mem_singleton.2 e
  split at h
  case isTrue e =>
    cases h
    exact (by decide : ∀ w ∈ installWords, w ∈ Verb.install.words) t (List.contains_iff_mem.1 e)
  split at h
  case isTrue e => cases h; exact List.mem_singleton.2 e
  split at h
  case isTrue e => cases h; exact List.mem_singleton.2 e
  split at h
  case isTrue e => cases h; exact List.mem_singleton.2 e
  cases h

/-! ## The two ways to call a manager -/

variable {finish : Token}

theorem ofTokens_named (finish : Token) {t : Token} {m : Manager} (h : t.value = m.name) (verb : Token)
    (body : List Token) :
    ofTokens finish (t :: verb :: body) =
      ofBody ⟨m, t.value, t.span⟩ verb (t.spanTo ((verb :: body).getLastD t)) finish body := by
  have hm : Manager.ofInvocation? t.value = some m := by rw [h, Manager.ofInvocation?_name]
  have hs : Manager.isShorthand t.value = false := by rw [h, Manager.isShorthand_name]
  simp [ofTokens, hm, hs]

theorem ofTokens_short (finish : Token) {t : Token} {m : Manager} (hs : Manager.isShorthand t.value = true)
    (hm : Manager.ofInvocation? t.value = some m) (u : Token) (body : List Token) :
    ofTokens finish (t :: u :: body) =
      (execOfBody ⟨m, t.value, t.span⟩ none (t.spanTo ((u :: body).getLastD t)) finish (u :: body)).map exec := by
  simp [ofTokens, hm, hs]

/-! ## What the verbs lead to -/

section Verbs

variable {m : ManagerWord} {verb : Token} {span : Span} {body : List Token}

theorem ofBody_dlx (h : verb.value ∈ Verb.dlx.words) (hd : m.manager.hasDlx = true) :
    ofBody m verb span finish body = (execOfBody m (some ⟨verb.value, verb.span⟩) span finish body).map exec := by
  simp [ofBody, Verb.ofText?_of_mem h, hd]

theorem ofBody_noDlx (h : verb.value ∈ Verb.dlx.words) (hd : m.manager.hasDlx = false) :
    ofBody m verb span finish body = .error ⟨.noDlx m.manager, verb⟩ := by
  simp [ofBody, Verb.ofText?_of_mem h, hd]

theorem ofBody_install (h : verb.value ∈ Verb.install.words) :
    ofBody m verb span finish body = (installOfBody m ⟨verb.value, verb.span⟩ [] span body).map install := by
  simp [ofBody, Verb.ofText?_of_mem h]

theorem ofBody_run (h : verb.value ∈ Verb.run.words) :
    ofBody m verb span finish body = (runOfBody m ⟨verb.value, verb.span⟩ span finish body).map run := by
  simp [ofBody, Verb.ofText?_of_mem h]

theorem ofBody_create (h : verb.value ∈ Verb.create.words) :
    ofBody m verb span finish body = (createOfBody m ⟨verb.value, verb.span⟩ span finish body).map create := by
  simp [ofBody, Verb.ofText?_of_mem h]

theorem ofBody_global (h : verb.value ∈ Verb.global.words) (hy : m.manager = .yarn) :
    ofBody m verb span finish body = (globalOfBody m verb span finish body).map install := by
  simp [ofBody, Verb.ofText?_of_mem h, hy]

theorem ofBody_unsupported (h : ∀ v, verb.value ∈ Verb.words v → v = .global ∧ m.manager ≠ .yarn) :
    ofBody m verb span finish body = .error ⟨.unsupportedSubcommand verb.value, verb⟩ := by
  unfold ofBody
  cases hv : Verb.ofText? verb.value with
  | none => rfl
  | some v =>
    obtain ⟨rfl, hy⟩ := h v (Verb.ofText?_eq_some_iff.1 hv)
    simp [hy]

end Verbs

/-! ## The marks of the header -/

theorem map_eq_ok_iff {α β : Type} {f : α → β} {r : Except SyntaxError α} {b : β} :
    r.map f = .ok b ↔ ∃ a, r = .ok a ∧ f a = b := by
  cases r <;> simp [Except.map]

theorem globalOfBody_marked (m : ManagerWord) (word : Token) (k : Token.Kind) (span : Span) (body : List Token) :
    globalOfBody m { word with kind := k } span finish body = globalOfBody m word span finish body := by
  cases body <;> rfl

theorem ofBody_marked (m : ManagerWord) (verb : Token) (k : Token.Kind) (span : Span) (body : List Token)
    (c : Command) :
    ofBody m { verb with kind := k } span finish body = .ok c ↔ ofBody m verb span finish body = .ok c := by
  unfold ofBody
  rw [globalOfBody_marked]
  cases Verb.ofText? verb.value with
  | none => simp
  | some v =>
    cases v with
    | dlx => dsimp only; split <;> simp [Token.span, Token.spanTo]
    | global => dsimp only; split <;> simp
    | _ => rfl

/-- Marking the header does not change what is read. -/
theorem ofTokens_markHeader (ts : List Token) (c : Command) :
    ofTokens finish (Token.markHeader ts) = .ok c ↔ ofTokens finish ts = .ok c := by
  rcases ts with _ | ⟨t, _ | ⟨u, body⟩⟩
  · rfl
  · rw [Token.markHeader]
    split
    · simp only [Token.markSubcommand, ite_self, ofTokens]
      cases Manager.ofInvocation? t.value <;> simp
    · rfl
  rw [Token.markHeader]
  split
  case isFalse => rfl
  case isTrue hc =>
    obtain ⟨m, hm⟩ := Option.isSome_iff_exists.1 hc.2
    by_cases hs : Manager.isShorthand t.value = true
    · rw [if_pos hs, ofTokens_short _ hs hm, ofTokens_short _ (t := { t with kind := .manager }) hs hm]
      rfl
    · have hn := Manager.eq_name_of_ofInvocation? hm (by simpa using hs)
      rw [if_neg hs, Token.markSubcommand, ofTokens_named _ hn]
      split
      · rw [ofTokens_named _ (t := { t with kind := .manager }) hn]
        refine Iff.trans ?_ (ofBody_marked _ u .subcommand _ _ _)
        cases body <;> rfl
      · rw [ofTokens_named _ (t := { t with kind := .manager }) hn]
        rfl

theorem parse_eq_ok_iff {t : Text} {c : Command} :
    parse t = .ok c ↔ ofTokens (Token.lineEnd t) (Token.scan 0 t) = .ok c :=
  ofTokens_markHeader _ _

/-! ## Reading bodies -/

/-- A command is read from the tokens of its body. -/
inductive ReadFrom (finish : Token) (body : List Token) : Command → Prop
  | install {m : ManagerWord} {s : Subcommand} {implied : List Flag} {span : Span} {c : Install} :
      (∀ f ∈ implied, f.spelling = "--global".toList ∧ f.category = .global) →
      installOfBody m s implied span body = .ok c → ReadFrom finish body (.install c)
  | exec {m : ManagerWord} {s : Option Subcommand} {span : Span} {c : Exec} :
      execOfBody m s span finish body = .ok c → ReadFrom finish body (.exec c)
  | run {m : ManagerWord} {s : Subcommand} {span : Span} {c : Run} :
      runOfBody m s span finish body = .ok c → ReadFrom finish body (.run c)
  | create {m : ManagerWord} {s : Subcommand} {span : Span} {c : Create} :
      createOfBody m s span finish body = .ok c → ReadFrom finish body (.create c)

/-- The words that may stand before a body. -/
def callingWords : List Text :=
  Manager.invocations.map Prod.fst ++ [Verb.dlx, .install, .run, .create, .global].flatMap Verb.words

theorem Verb.mem_callingWords {t : Text} {v : Verb} (h : ofText? t = some v) : t ∈ callingWords := by
  apply List.mem_append_right
  exact List.mem_flatMap.2 ⟨v, by cases v <;> decide, Verb.ofText?_eq_some_iff.1 h⟩

theorem mem_callingWords_of_ofInvocation? {t : Text} {m : Manager} (h : Manager.ofInvocation? t = some m) :
    t ∈ callingWords := by
  apply List.mem_append_left
  obtain ⟨before, after, e, -⟩ := List.lookup_eq_some_iff.1 h
  rw [e, List.map_append]
  exact List.mem_append_right _ (List.mem_cons_self ..)

theorem readFrom_of_ofBody {m : ManagerWord} {verb : Token} {span : Span} {rest : List Token} {c : Command}
    (h : ofBody m verb span finish rest = .ok c) :
    ∃ header body, verb :: rest = header ++ body ∧ (∀ u ∈ header, u.value ∈ callingWords) ∧
      ReadFrom finish body c := by
  have hverb {v : Verb} (hv : Verb.ofText? verb.value = some v) : ∀ u ∈ [verb], u.value ∈ callingWords :=
    List.forall_mem_singleton.2 (Verb.mem_callingWords hv)
  unfold ofBody at h
  split at h
  case h_1 hv =>
    split at h
    · obtain ⟨e, he, rfl⟩ := map_eq_ok_iff.1 h
      exact ⟨[verb], rest, rfl, hverb hv, .exec he⟩
    · cases h
  case h_2 hv =>
    obtain ⟨i, hi, rfl⟩ := map_eq_ok_iff.1 h
    exact ⟨[verb], rest, rfl, hverb hv, .install (by simp) hi⟩
  case h_3 hv =>
    obtain ⟨r, hr, rfl⟩ := map_eq_ok_iff.1 h
    exact ⟨[verb], rest, rfl, hverb hv, .run hr⟩
  case h_4 hv =>
    obtain ⟨e, he, rfl⟩ := map_eq_ok_iff.1 h
    exact ⟨[verb], rest, rfl, hverb hv, .create he⟩
  case h_5 hv =>
    split at h
    · obtain ⟨i, hi, rfl⟩ := map_eq_ok_iff.1 h
      unfold globalOfBody at hi
      split at hi
      · cases hi
      case h_2 add body =>
        split at hi
        case isTrue hadd =>
          refine ⟨[verb, add], body, rfl, ?_, .install (by simp) hi⟩
          refine List.forall_mem_cons.2 ⟨Verb.mem_callingWords hv, List.forall_mem_singleton.2 ?_⟩
          rw [hadd]
          decide
        case isFalse => cases hi
    · cases h
  case h_6 => cases h

theorem readFrom_of_ofTokens {ts : List Token} {c : Command} (h : ofTokens finish ts = .ok c) :
    ∃ header body, ts = header ++ body ∧ (∀ u ∈ header, u.value ∈ callingWords) ∧ ReadFrom finish body c := by
  unfold ofTokens at h
  split at h
  · cases h
  case h_2 t rest =>
    split at h
    · cases h
    case h_2 m hm =>
      have ht := mem_callingWords_of_ofInvocation? hm
      dsimp only at h
      split at h
      · cases h
      case h_2 verb body =>
        split at h
        · obtain ⟨e, he, rfl⟩ := map_eq_ok_iff.1 h
          exact ⟨[t], verb :: body, rfl, List.forall_mem_singleton.2 ht, .exec he⟩
        · obtain ⟨header, body, hs, hcalling, hr⟩ := readFrom_of_ofBody h
          exact ⟨t :: header, body, congrArg (t :: ·) hs, List.forall_mem_cons.2 ⟨ht, hcalling⟩, hr⟩

/-- The first token of a command calls a manager. -/
theorem invocation_of_parse {t : Text} {c : Command} (h : parse t = .ok c) :
    ∃ u us, Token.scan 0 t = u :: us ∧ (Manager.ofInvocation? u.value).isSome = true := by
  have ht := parse_eq_ok_iff.1 h
  cases hs : Token.scan 0 t with
  | nil =>
    rw [hs] at ht
    cases ht
  | cons u us =>
    rw [hs, ofTokens] at ht
    split at ht
    · cases ht
    case h_2 m hm => exact ⟨u, us, rfl, by rw [hm]; rfl⟩

/-- A command that was parsed was read from legible tokens. -/
theorem readFrom_of_parse {t : Text} {c : Command} (h : parse t = .ok c) :
    ∃ finish body, (∀ u ∈ body, u.item.Legible) ∧ ReadFrom finish body c := by
  obtain ⟨header, body, hs, -, hr⟩ := readFrom_of_ofTokens (parse_eq_ok_iff.1 h)
  refine ⟨_, body, fun u hu => Token.legible_of_mem_scan (n := 0) (s := t) ?_, hr⟩
  rw [hs]
  exact List.mem_append_right _ hu

end Command

end CommandBridge
