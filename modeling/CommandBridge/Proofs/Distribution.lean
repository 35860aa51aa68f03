/-
  CommandBridge.Proofs.Distribution — where the tokens of a line go in its command.

  The words of the header name the manager and the subcommand; every token of the body becomes one leaf
  of the command, in order, but for the separators of an install and a create, which only leave a mark.
  - `madeOf_install`, `madeOf_exec`, `madeOf_run`, `madeOf_create`: the leaves that each kind of body makes.
  - `exists_header`: how long the header is, and what is made of it.
  - `parse_distributes`: the command of a line, with every token in its place.
-/

import CommandBridge.Proofs.Cursor
import CommandBridge.Proofs.Grammar
import CommandBridge.Proofs.Tiling

namespace CommandBridge.Command

/-! ## Leaves -/

/-- The flag that copies a token, with the category of what it says. -/
def flagCopy (u : Token) : Flag where
  spelling := u.value
  category := Flag.classify u.value
  span := ⟨u.start, u.stop⟩

/-- The argument that copies a token. -/
def argumentCopy (u : Token) : Leaf := .argument
  { value := u.value
    quoting := u.quoting
    span := ⟨u.start, u.stop⟩ }

/-- The body has been distributed over the leaves of the command, after the flags that its header implies. -/
inductive Distributed (implied : List Flag) (body : List Token) : Command → Prop
  | install {c : Install} : c.flags = implied ++ (body.filter Token.isFlag).map flagCopy →
      c.packages = (body.filter fun u => !u.isFlag && !u.isSeparator).map argumentCopy →
      (c.hasSeparator = true ↔ ∃ u ∈ body, u.isSeparator = true) → Distributed implied body (.install c)
  /-- The flags are the longest run of them at the head of the body. -/
  | exec {c : Exec} {flags : List Token} {package : Token} {args : List Token} : body = flags ++ package :: args →
      (∀ u ∈ flags, u.isFlag = true) → package.isFlag = false →
      c.flags = flags.map (fun u => .flag (flagCopy u)) → c.package = argumentCopy package →
      c.args = args.map argumentCopy → Distributed implied body (.exec c)
  | run {c : Run} {script : Token} {args : List Token} : body = script :: args → c.script = argumentCopy script →
      c.args = args.map argumentCopy → Distributed implied body (.run c)
  | create {c : Create} {template : Token} {rest : List Token} : body = template :: rest →
      c.template = argumentCopy template → c.args = (rest.filter fun u => !u.isSeparator).map argumentCopy →
      (c.hasSeparator = true ↔ ∃ u ∈ rest, u.isSeparator = true) → Distributed implied body (.create c)

structure MadeOf (m : ManagerWord) (s : Option Subcommand) (span : Span) (implied : List Flag) (body : List Token)
    (c : Command) : Prop where
  manager : c.managerWord = m
  subcommand : c.subcommand = s
  span : c.span = span
  distributed : Distributed implied body c

section Bodies

variable {m : ManagerWord} {s : Subcommand} {span : Span} {finish : Token} {implied : List Flag} {body : List Token}

theorem madeOf_install {c : Install} (h : installOfBody m s implied span body = .ok c) :
    MadeOf m (some s) span implied body (install c) := by
  obtain ⟨-, rfl⟩ := installOfBody_eq_ok_iff.1 h
  exact ⟨rfl, rfl, rfl, .install rfl rfl List.any_eq_true⟩

theorem madeOf_exec {s : Option Subcommand} {c : Exec} (h : execOfBody m s span finish body = .ok c) :
    MadeOf m s span implied body (exec c) := by
  obtain ⟨flags, package, args, hbody, hflags, hpackage, rfl⟩ := execOfBody_eq_ok_iff.1 h
  exact ⟨rfl, rfl, rfl, .exec hbody hflags hpackage rfl rfl rfl⟩

theorem madeOf_run {c : Run} (h : runOfBody m s span finish body = .ok c) :
    MadeOf m (some s) span implied body (run c) := by
  obtain ⟨script, args, hbody, rfl⟩ := runOfBody_eq_ok_iff.1 h
  exact ⟨rfl, rfl, rfl, .run hbody rfl rfl⟩

theorem madeOf_create {c : Create} (h : createOfBody m s span finish body = .ok c) :
    MadeOf m (some s) span implied body (create c) := by
  obtain ⟨template, rest, hbody, rfl⟩ := createOfBody_eq_ok_iff.1 h
  exact ⟨rfl, rfl, rfl, .create hbody rfl rfl List.any_eq_true⟩

end Bodies

/-! ## Headers -/

/-- The header that says globally what two words say otherwise. -/
def globalHeader : List Text := ["yarn".toList, "global".toList, "add".toList]

/-- How many tokens of a line stand before its body. -/
def headerLength (line : List Token) : Nat :=
  let words := line.map Token.value
  if words.head?.any Manager.isShorthand then 1 else if globalHeader.isPrefixOf words then 3 else 2

/-- The word `global` stands for a flag. -/
def impliedBy : List Token → List Flag
  | [_, word, _] => [⟨"--global".toList, .global, ⟨word.start, word.stop⟩⟩]
  | _ => []

/-- The command that is called by the words of its header: the first calls the manager, and the last, unless it is
    the only one, is the subcommand. -/
def CalledBy (header : List Token) (span : Span) (body : List Token) (c : Command) : Prop :=
  ∃ t ∈ header.head?, ∃ m, Manager.ofInvocation? t.value = some m ∧
    MadeOf ⟨m, t.value, ⟨t.start, t.stop⟩⟩ (header.tail.getLast?.map fun u => ⟨u.value, ⟨u.start, u.stop⟩⟩) span
      (impliedBy header) body c

section Headers

variable {finish t verb : Token} {m : Manager} {body : List Token} {c : Command}

theorem headerLength_short (h : Manager.isShorthand t.value = true) (rest : List Token) : headerLength (t :: rest) = 1 := by
  simp [headerLength, h]

theorem headerLength_global {add : Token} (ht : t.value = "yarn".toList) (hv : verb.value = "global".toList)
    (ha : add.value = "add".toList) (body : List Token) : headerLength (t :: verb :: add :: body) = 3 := by
  have hwords : (t :: verb :: add :: body).map Token.value = globalHeader ++ body.map Token.value := by
    rw [List.map_cons, List.map_cons, List.map_cons, ht, hv, ha]
    rfl
  have hshort : ¬ (globalHeader ++ body.map Token.value).head?.any Manager.isShorthand = true :=
    show ¬ Manager.isShorthand "yarn".toList = true by decide
  rw [headerLength, hwords, if_neg hshort, if_pos (List.isPrefixOf_iff_prefix.2 (List.prefix_append _ _))]

/-- A line without a shorthand has a header of two words, if not the one of three. -/
theorem headerLength_eq_two_or (hs : Manager.isShorthand t.value = false) (body : List Token) :
    headerLength (t :: verb :: body) = 2 ∨ t.value = "yarn".toList ∧ verb.value = "global".toList ∧
      ∃ add rest, body = add :: rest ∧ headerLength (t :: verb :: body) = 3 := by
  by_cases hg : globalHeader <+: (t :: verb :: body).map Token.value
  · right
    obtain ⟨ht, h⟩ := List.cons_prefix_cons.1 hg
    obtain ⟨hv, h⟩ := List.cons_prefix_cons.1 h
    cases body with
    | nil => exact absurd (List.prefix_nil.1 h) (List.cons_ne_nil _ _)
    | cons add rest =>
      exact ⟨ht.symm, hv.symm, add, rest, rfl, headerLength_global ht.symm hv.symm (List.cons_prefix_cons.1 h).1.symm rest⟩
  · left
    have hshort : ¬ ((t :: verb :: body).map Token.value).head?.any Manager.isShorthand = true := Bool.eq_false_iff.1 hs
    rw [headerLength, if_neg hshort, if_neg (mt List.isPrefixOf_iff_prefix.1 hg)]

theorem headerLength_verb (hs : Manager.isShorthand t.value = false) (hv : Verb.ofText? verb.value ≠ some .global)
    (body : List Token) : headerLength (t :: verb :: body) = 2 := by
  rcases headerLength_eq_two_or hs body with hlen | ⟨-, hglobal, -⟩
  · exact hlen
  · rw [hglobal] at hv
    exact absurd (by decide) hv

theorem calledBy_verb (hs : Manager.isShorthand t.value = false) (hm : Manager.ofInvocation? t.value = some m)
    {span : Span} (h : ofBody ⟨m, t.value, t.span⟩ verb span finish body = .ok c) :
    ∃ header rest, t :: verb :: body = header ++ rest ∧ header.length = headerLength (t :: verb :: body) ∧
      CalledBy header span rest c := by
  have hplain {v : Verb} (hv : Verb.ofText? verb.value = some v) (hne : v ≠ .global)
      (hmade : MadeOf ⟨m, t.value, t.span⟩ (some ⟨verb.value, verb.span⟩) span [] body c) :
      ∃ header rest, t :: verb :: body = header ++ rest ∧ header.length = headerLength (t :: verb :: body) ∧
        CalledBy header span rest c := by
    refine ⟨[t, verb], body, rfl, ?_, t, rfl, m, hm, hmade⟩
    rw [headerLength_verb hs fun e => hne (Option.some.inj (hv.symm.trans e))]
    rfl
  unfold ofBody at h
  cases hv : Verb.ofText? verb.value with
  | none =>
    rw [hv] at h
    cases h
  | some v =>
    rw [hv] at h
    cases v with
    | dlx =>
      dsimp only at h
      split at h
      · obtain ⟨e, he, rfl⟩ := map_eq_ok_iff.1 h
        exact hplain hv (by decide) (madeOf_exec he)
      · cases h
    | install =>
      obtain ⟨i, hi, rfl⟩ := map_eq_ok_iff.1 h
      exact hplain hv (by decide) (madeOf_install hi)
    | run =>
      obtain ⟨r, hr, rfl⟩ := map_eq_ok_iff.1 h
      exact hplain hv (by decide) (madeOf_run hr)
    | create =>
      obtain ⟨e, he, rfl⟩ := map_eq_ok_iff.1 h
      exact hplain hv (by decide) (madeOf_create he)
    | global =>
      dsimp only at h
      split at h
      case isFalse => cases h
      case isTrue hyarn =>
        obtain ⟨i, hi, rfl⟩ := map_eq_ok_iff.1 h
        cases body with
        | nil => cases hi
        | cons add body =>
          rw [globalOfBody] at hi
          split at hi
          case isFalse => cases hi
          case isTrue hadd =>
            have hyarn : m = .yarn := hyarn
            have ht : t.value = "yarn".toList := by rw [Manager.eq_name_of_ofInvocation? hm hs, hyarn]; rfl
            have hglobal : verb.value = "global".toList := List.mem_singleton.1 (Verb.ofText?_eq_some_iff.1 hv)
            refine ⟨[t, verb, add], body, rfl, ?_, t, rfl, m, hm, madeOf_install hi⟩
            rw [headerLength_global ht hglobal hadd]
            rfl

/-- A command is made of a header, as long as its words say, and of the body after it. -/
theorem exists_header {ts : List Token} (h : ofTokens finish ts = .ok c) :
    ∃ header body first, ts = header ++ body ∧ header.length = headerLength ts ∧ ts.head? = some first ∧
      CalledBy header (first.spanTo (ts.getLastD first)) body c := by
  rcases ts with _ | ⟨t, rest⟩
  · cases h
  rw [ofTokens] at h
  cases hm : Manager.ofInvocation? t.value with
  | none =>
    rw [hm] at h
    cases h
  | some m =>
    rw [hm] at h
    cases rest with
    | nil => cases h
    | cons verb body =>
      dsimp only at h
      split at h
      case isTrue hs =>
        obtain ⟨e, he, rfl⟩ := map_eq_ok_iff.1 h
        refine ⟨[t], verb :: body, t, rfl, ?_, rfl, t, rfl, m, hm, ?_⟩
        · rw [headerLength_short hs]
          rfl
        · exact madeOf_exec he
      case isFalse hs =>
        obtain ⟨header, rest, hts, hlen, hcalled⟩ := calledBy_verb (by simpa using hs) hm h
        exact ⟨header, rest, t, hts, hlen, rfl, hcalled⟩

end Headers

/-! ## Lines -/

/-- The command is made of all tokens of a text, and of nothing else that it says. -/
structure MadeOfText (t : Text) (header body : List Token) (c : Command) : Prop where
  tokens : ((Token.tokenize t).filter fun u => !u.isEnd) = header ++ body
  header_length : header.length = headerLength (header ++ body)
  /-- The command covers the tokens from the first to the last, which is all of the text but spaces around it. -/
  called : ∃ first ∈ (header ++ body).head?, ∃ last ∈ (header ++ body).getLast?,
    CalledBy header ⟨first.start, last.stop⟩ body c ∧
      ∀ i ch, t[i]? = some ch → i < first.start ∨ last.stop ≤ i → Token.isSpace ch = true
  /-- Read one after another, the tokens make the command, and none is left. -/
  read : Cursor.line (Token.atEnd t.length) (header ++ body) = (.ok c, [])

theorem parse_distributes {t : Text} {c : Command} (h : parse t = .ok c) : ∃ header body, MadeOfText t header body c := by
  obtain ⟨header, body, first, hts, hlen, hfirst, hcalled⟩ := exists_header h
  have hlast : (Token.ofLine t).getLast? = some ((Token.ofLine t).getLastD first) := by
    obtain ⟨rest, hrest⟩ := List.head?_eq_some_iff.1 hfirst
    rw [hrest, List.getLast?_cons, List.getLastD_cons, List.getLastD_eq_getLast?]
  refine ⟨header, body, ?_, ?_, ?_, ?_⟩
  · rw [Token.filter_tokenize, hts]
  · rw [← hts, hlen]
  · rw [← hts]
    refine ⟨first, hfirst, _, hlast, hcalled, fun i ch hch ho => ?_⟩
    exact (Token.tiles_ofLine t).isSpace_outside hfirst hlast hch (by rwa [Nat.zero_add])
  · have hread : ofTokens (Token.atEnd t.length) (Token.ofLine t) = .ok c := by rw [← parse_eq, h]
    rw [← hts, Cursor.line_eq, hread]
    exact congrArg (Prod.mk _) (List.drop_length ..)

/-- The word `global` becomes a flag, the separator leaves its mark, and the quoted word keeps its marks. -/
theorem parse_distributes_global :
    ∃ c, parse " yarn global add -D react -- 'x y' ".toList = .ok c ∧
      ∃ header body, MadeOfText " yarn global add -D react -- 'x y' ".toList header body c := by
  have h : parse " yarn global add -D react -- 'x y' ".toList = .ok (.install
      { manager := ⟨.yarn, "yarn".toList, ⟨1, 5⟩⟩
        subcommand := some ⟨"add".toList, ⟨13, 16⟩⟩
        flags := [⟨"--global".toList, .global, ⟨6, 12⟩⟩, ⟨"-D".toList, .dev, ⟨17, 19⟩⟩]
        packages := [.argument ⟨"react".toList, .bare, ⟨20, 25⟩⟩,
          .argument ⟨"x y".toList, .quoted (some "'".toList), ⟨29, 34⟩⟩]
        hasSeparator := true
        span := ⟨1, 34⟩ }) := by decide +kernel
  exact ⟨_, h, parse_distributes h⟩

end CommandBridge.Command
