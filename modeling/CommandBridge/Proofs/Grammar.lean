/-
  CommandBridge.Proofs.Grammar — which lines are commands, and how the others fail.

  `Judged` gives every list of tokens its outcome, shape by shape and without a parser: the kind of
  the command, or the reason of the failure and the token where it shows.
  - `parse_judged`: parsing a line has the outcome that its tokens are judged to have, and no other.
-/

import CommandBridge.Proofs.Body
import CommandBridge.Proofs.Dispatch
import Mathlib.Data.List.TakeWhile

namespace CommandBridge.Command

inductive Outcome
  | command (kind : Kind)
  | failure (reason : Reason) (token : Token)
  deriving DecidableEq, Repr

def outcome : Except SyntaxError Command → Outcome
  | .ok c => .command c.kind
  | .error e => .failure e.reason e.token

/-! ## The shapes -/

def SaysOneOf (words : List String) (t : Token) : Prop := t.value ∈ words.map String.toList

abbrev Says (word : String) : Token → Prop := SaysOneOf [word]

/-- The word is the name of a manager. -/
abbrev Names : Token → Prop := SaysOneOf ["npm", "pnpm", "yarn", "bun"]

abbrev IsShort : Token → Prop := SaysOneOf ["npx", "bunx"]

inductive ExecHeader : List Token → Prop
  | short {t : Token} : IsShort t → ExecHeader [t]
  | dlx {t u : Token} : SaysOneOf ["pnpm", "yarn"] t → Says "dlx" u → ExecHeader [t, u]

inductive InstallHeader : List Token → Prop
  | verb {t u : Token} : Names t → SaysOneOf ["install", "i", "add"] u → InstallHeader [t, u]
  | global {t u v : Token} : Says "yarn" t → Says "global" u → Says "add" v → InstallHeader [t, u, v]

/-- The outcome of the tokens of a line; `finish` is the token at its end. -/
inductive Judged (finish : Token) : List Token → Outcome → Prop
  | nothing : Judged finish [] (.failure .notSupported finish)
  | stranger {t : Token} {rest : List Token} : ¬ Names t → ¬ IsShort t →
      Judged finish (t :: rest) (.failure .notSupported t)
  | alone {t : Token} : Names t ∨ IsShort t → Judged finish [t] (.failure .parseError finish)
  | exec {header body : List Token} : ExecHeader header → (∃ u ∈ body, u.isFlag = false) →
      Judged finish (header ++ body) (.command .exec)
  | noPackage {header body : List Token} : ExecHeader header → (∀ u ∈ body, u.isFlag = true) →
      Judged finish (header ++ body) (.failure .parseError finish)
  | noDlx {t u : Token} {rest : List Token} : SaysOneOf ["npm", "bun"] t → Says "dlx" u →
      Judged finish (t :: u :: rest) (.failure .notSupported u)
  | install {header body : List Token} : InstallHeader header → (∀ u ∈ body.getLast?, u.isSeparator = false) →
      Judged finish (header ++ body) (.command .install)
  | dangling {header body : List Token} {u : Token} : InstallHeader header → u.isSeparator = true →
      Judged finish (header ++ (body ++ [u])) (.failure .parseError u)
  | run {t u v : Token} {rest : List Token} : Names t → Says "run" u →
      Judged finish (t :: u :: v :: rest) (.command .run)
  | noScript {t u : Token} : Names t → Says "run" u → Judged finish [t, u] (.failure .parseError finish)
  | create {t u v : Token} {rest : List Token} : Names t → Says "create" u →
      Judged finish (t :: u :: v :: rest) (.command .create)
  | noTemplate {t u : Token} : Names t → Says "create" u → Judged finish [t, u] (.failure .parseError finish)
  | globalAlone {t u : Token} : Says "yarn" t → Says "global" u → Judged finish [t, u] (.failure .notSupported finish)
  | notAdd {t u v : Token} {rest : List Token} : Says "yarn" t → Says "global" u → ¬ Says "add" v →
      Judged finish (t :: u :: v :: rest) (.failure .notSupported v)
  | unknownVerb {t u : Token} {rest : List Token} : Names t →
      ¬ SaysOneOf ["dlx", "install", "i", "add", "run", "create"] u → ¬ (Says "yarn" t ∧ Says "global" u) →
      Judged finish (t :: u :: rest) (.failure .notSupported u)

/-! ## Calling words -/

theorem says_iff {word : String} {t : Token} : Says word t ↔ t.value = word.toList := List.mem_singleton

theorem names_iff {t : Token} : Names t ↔ ∃ m : Manager, t.value = m.name := by
  constructor
  · intro h
    have hall : ∀ w ∈ ["npm", "pnpm", "yarn", "bun"].map String.toList, ∃ m ∈ Manager.all, w = m.name := by decide
    obtain ⟨m, -, e⟩ := hall _ h
    exact ⟨m, e⟩
  · intro h
    obtain ⟨m, e⟩ := h
    rw [Names, SaysOneOf, e]
    cases m <;> decide

theorem isShort_iff {t : Token} : IsShort t ↔ Manager.isShorthand t.value = true := by
  have hall : ∀ w, w ∈ ["npx", "bunx"].map String.toList ↔ w ∈ Manager.shorthands := by
    simp [Manager.shorthands, or_comm]
  rw [Manager.isShorthand, List.contains_iff_mem]
  exact hall t.value

/-- A word calls a manager as a shorthand or by the name, and not both. -/
theorem names_or_isShort {t : Token} {m : Manager} (h : Manager.ofInvocation? t.value = some m) :
    t.value = m.name ∨ IsShort t := by
  by_cases hs : Manager.isShorthand t.value = true
  · exact .inr (isShort_iff.2 hs)
  · exact .inl (Manager.eq_name_of_ofInvocation? h (by simpa using hs))

theorem ofInvocation?_of_isShort {t : Token} (h : IsShort t) : ∃ m, Manager.ofInvocation? t.value = some m :=
  Option.isSome_iff_exists.1 (Manager.ofInvocation?_of_isShorthand (isShort_iff.1 h))

theorem ofInvocation?_eq_none {t : Token} (hn : ¬ Names t) (hs : ¬ IsShort t) :
    Manager.ofInvocation? t.value = none := by
  cases h : Manager.ofInvocation? t.value with
  | none => rfl
  | some m =>
    rcases names_or_isShort h with e | h
    · exact absurd (names_iff.2 ⟨m, e⟩) hn
    · exact absurd h hs

/-! ## Bodies -/

variable {m : ManagerWord} {s : Subcommand} {span : Span} {finish : Token}

theorem outcome_exec_of_exists {s : Option Subcommand} {body : List Token} (h : ∃ u ∈ body, u.isFlag = false) :
    outcome ((execOfBody m s span finish body).map exec) = .command .exec := by
  cases hd : body.dropWhile Token.isFlag with
  | nil =>
    obtain ⟨u, hu, hf⟩ := h
    have := List.dropWhile_eq_nil_iff.1 hd u hu
    rw [hf] at this
    cases this
  | cons p args =>
    rw [execOfBody, hd]
    rfl

theorem outcome_exec_of_forall {s : Option Subcommand} {body : List Token} (h : ∀ u ∈ body, u.isFlag = true) :
    outcome ((execOfBody m s span finish body).map exec) = .failure .parseError finish := by
  rw [execOfBody, List.dropWhile_eq_nil_iff.2 h]
  rfl

theorem outcome_install {implied : List Flag} {body : List Token} (h : ∀ u ∈ body.getLast?, u.isSeparator = false) :
    outcome ((installOfBody m s implied span body).map install) = .command .install := by
  rw [installOfBody_eq_ok_iff.mpr ⟨h, rfl⟩]
  rfl

theorem outcome_install_dangling {implied : List Flag} {body : List Token} {u : Token} (h : u.isSeparator = true) :
    outcome ((installOfBody m s implied span (body ++ [u])).map install) = .failure .parseError u := by
  have hf : (body ++ [u]).getLast?.filter Token.isSeparator = some u := by simp [h]
  rw [installOfBody, hf]
  rfl

/-! ## Headers -/

/-- A header that runs a package leads to the body of an exec. -/
theorem exec_of_header (finish : Token) {header : List Token} (h : ExecHeader header) (body : List Token) :
    ∃ m s span, outcome (ofTokens finish (header ++ body)) = outcome ((execOfBody m s span finish body).map exec) := by
  cases h with
  | @short t ht =>
    obtain ⟨m, hm⟩ := ofInvocation?_of_isShort ht
    cases body with
    | nil => exact ⟨⟨m, t.value, t.span⟩, none, t.span, by simp [ofTokens, hm]; rfl⟩
    | cons u body =>
      have h := ofTokens_short finish (isShort_iff.1 ht) hm u body
      exact ⟨_, _, _, congrArg outcome h⟩
  | @dlx t u ht hu =>
    have hall : ∀ w ∈ ["pnpm", "yarn"].map String.toList, ∃ m ∈ Manager.withDlx, w = m.name := by decide
    obtain ⟨m, hm, e⟩ := hall _ ht
    have h := ofTokens_named finish e u body
    rw [ofBody_dlx hu (List.contains_iff_mem.2 hm)] at h
    exact ⟨_, _, _, congrArg outcome h⟩

/-- A header that installs leads to the body of an install. -/
theorem install_of_header (finish : Token) {header : List Token} (h : InstallHeader header) (body : List Token) :
    ∃ m s implied span, outcome (ofTokens finish (header ++ body)) =
      outcome ((installOfBody m s implied span body).map install) := by
  cases h with
  | @verb t u ht hu =>
    obtain ⟨m, e⟩ := names_iff.1 ht
    have h := ofTokens_named finish e u body
    rw [ofBody_install hu] at h
    exact ⟨_, _, _, _, congrArg outcome h⟩
  | @global t u v ht hu hv =>
    have e : t.value = Manager.yarn.name := says_iff.1 ht
    have ha : v.value = addWord := says_iff.1 hv
    have h := ofTokens_named finish e u (v :: body)
    rw [ofBody_global hu rfl, globalOfBody, if_pos ha] at h
    exact ⟨_, _, _, _, congrArg outcome h⟩

/-! ## Every line is judged as it is parsed -/

theorem outcome_of_judged {ts : List Token} {o : Outcome} (h : Judged finish ts o) :
    outcome (ofTokens finish ts) = o := by
  cases h with
  | nothing => rfl
  | stranger hn hs => simp [ofTokens, ofInvocation?_eq_none hn hs]; rfl
  | @alone t ht =>
    obtain ⟨m, hm⟩ : ∃ m, Manager.ofInvocation? t.value = some m := by
      rcases ht with hn | hs
      · obtain ⟨m, e⟩ := names_iff.1 hn
        exact ⟨m, by rw [e, Manager.ofInvocation?_name]⟩
      · exact ofInvocation?_of_isShort hs
    simp [ofTokens, hm]
    rfl
  | exec hh hb =>
    obtain ⟨m, s, span, e⟩ := exec_of_header finish hh _
    rw [e, outcome_exec_of_exists hb]
  | noPackage hh hb =>
    obtain ⟨m, s, span, e⟩ := exec_of_header finish hh _
    rw [e, outcome_exec_of_forall hb]
  | @noDlx t u rest ht hu =>
    have hall : ∀ w ∈ ["npm", "bun"].map String.toList, ∃ m ∈ Manager.all, m.hasDlx = false ∧ w = m.name := by decide
    obtain ⟨m, -, hd, e⟩ := hall _ ht
    rw [ofTokens_named _ e, ofBody_noDlx hu hd]
    rfl
  | install hh hb =>
    obtain ⟨m, s, implied, span, e⟩ := install_of_header finish hh _
    rw [e, outcome_install hb]
  | dangling hh hu =>
    obtain ⟨m, s, implied, span, e⟩ := install_of_header finish hh _
    rw [e, outcome_install_dangling hu]
  | run ht hu =>
    obtain ⟨m, e⟩ := names_iff.1 ht
    rw [ofTokens_named _ e, ofBody_run hu]
    rfl
  | noScript ht hu =>
    obtain ⟨m, e⟩ := names_iff.1 ht
    rw [ofTokens_named _ e, ofBody_run hu]
    rfl
  | create ht hu =>
    obtain ⟨m, e⟩ := names_iff.1 ht
    rw [ofTokens_named _ e, ofBody_create hu]
    rfl
  | noTemplate ht hu =>
    obtain ⟨m, e⟩ := names_iff.1 ht
    rw [ofTokens_named _ e, ofBody_create hu]
    rfl
  | @globalAlone t u ht hu =>
    have e : t.value = Manager.yarn.name := says_iff.1 ht
    rw [ofTokens_named _ e, ofBody_global hu rfl]
    rfl
  | @notAdd t u v rest ht hu hv =>
    have e : t.value = Manager.yarn.name := says_iff.1 ht
    have ha : v.value ≠ addWord := fun h => hv (says_iff.2 h)
    rw [ofTokens_named _ e, ofBody_global hu rfl, globalOfBody, if_neg ha]
    rfl
  | @unknownVerb t u rest ht hu hy =>
    obtain ⟨m, e⟩ := names_iff.1 ht
    have hall : ∀ v, v ≠ .global → ∀ w ∈ Verb.words v,
        w ∈ ["dlx", "install", "i", "add", "run", "create"].map String.toList := by
      intro v
      cases v <;> decide
    have hv : ∀ v, u.value ∈ Verb.words v → v = .global ∧ m ≠ .yarn := by
      intro v hw
      by_cases hg : v = .global
      · subst hg
        exact ⟨rfl, fun hm => hy ⟨says_iff.2 (by rw [e, hm]; rfl), hw⟩⟩
      · exact absurd (hall v hg _ hw) hu
    rw [ofTokens_named _ e, ofBody_unsupported hv]
    rfl

theorem judged_of_execHeader {header : List Token} (h : ExecHeader header) (body : List Token) :
    ∃ o, Judged finish (header ++ body) o := by
  by_cases hb : ∃ u ∈ body, u.isFlag = false
  · exact ⟨_, .exec h hb⟩
  · refine ⟨_, .noPackage h ?_⟩
    intro u hu
    cases hf : u.isFlag with
    | true => rfl
    | false => exact absurd ⟨u, hu, hf⟩ hb

theorem judged_of_installHeader {header : List Token} (h : InstallHeader header) (body : List Token) :
    ∃ o, Judged finish (header ++ body) o := by
  rcases List.eq_nil_or_concat body with rfl | ⟨body, u, rfl⟩
  · refine ⟨_, .install h ?_⟩
    intro u hu
    cases hu
  rw [List.concat_eq_append]
  by_cases hu : u.isSeparator = true
  · exact ⟨_, .dangling h hu⟩
  · refine ⟨_, .install h ?_⟩
    intro v hv
    rw [List.getLast?_concat] at hv
    cases hv
    simpa using hu

/-- The shapes leave no line out. -/
theorem exists_judged (finish : Token) (ts : List Token) : ∃ o, Judged finish ts o := by
  rcases ts with _ | ⟨t, rest⟩
  · exact ⟨_, .nothing⟩
  by_cases hs : IsShort t
  · exact judged_of_execHeader (.short hs) rest
  by_cases hn : Names t
  case neg => exact ⟨_, .stranger hn hs⟩
  rcases rest with _ | ⟨u, body⟩
  · exact ⟨_, .alone (.inl hn)⟩
  by_cases hd : Says "dlx" u
  · by_cases ht : SaysOneOf ["pnpm", "yarn"] t
    · exact judged_of_execHeader (.dlx ht hd) body
    · refine ⟨_, .noDlx ?_ hd⟩
      simp only [SaysOneOf, List.map_cons, List.map_nil, List.mem_cons, List.not_mem_nil, or_false] at hn ht ⊢
      grind
  by_cases hi : SaysOneOf ["install", "i", "add"] u
  · exact judged_of_installHeader (.verb hn hi) body
  by_cases hr : Says "run" u
  · cases body with
    | nil => exact ⟨_, .noScript hn hr⟩
    | cons v rest => exact ⟨_, .run hn hr⟩
  by_cases hc : Says "create" u
  · cases body with
    | nil => exact ⟨_, .noTemplate hn hc⟩
    | cons v rest => exact ⟨_, .create hn hc⟩
  by_cases hg : Says "yarn" t ∧ Says "global" u
  · rcases body with _ | ⟨v, body⟩
    · exact ⟨_, .globalAlone hg.1 hg.2⟩
    by_cases ha : Says "add" v
    · exact judged_of_installHeader (.global hg.1 hg.2 ha) body
    · exact ⟨_, .notAdd hg.1 hg.2 ha⟩
  refine ⟨_, .unknownVerb hn ?_ hg⟩
  simp only [SaysOneOf, List.map_cons, List.map_nil, List.mem_cons, List.not_mem_nil, or_false] at hd hi hr hc ⊢
  grind

theorem judged_iff {ts : List Token} {o : Outcome} : Judged finish ts o ↔ outcome (ofTokens finish ts) = o := by
  refine ⟨outcome_of_judged, fun h => ?_⟩
  obtain ⟨o', hj⟩ := exists_judged finish ts
  rw [← h, outcome_of_judged hj]
  exact hj

/-- Parsing a line has exactly the outcome that its tokens, without the one at its end, are judged to have. -/
theorem parse_judged (t : Text) (o : Outcome) :
    outcome (parse t) = o ↔
      Judged (Token.atEnd t.length) ((Token.tokenize t).filter fun u => !u.isEnd) o := by
  rw [Token.filter_tokenize, judged_iff, parse_eq]

end CommandBridge.Command
