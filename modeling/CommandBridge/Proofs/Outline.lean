/-
  CommandBridge.Proofs.Outline — commands apart from where their words stand.

  An outline keeps what a token or a part of a command says and loses its places. It keeps quotings or
  loses them, too; in the header of a line, which is only looked up, it always does.
  - `summary_outline`, `parts_outline`: summaries lose nothing with places and quotings, and the words of
    a command lose nothing with places.
  - `ofBody_outline`: the outline of a body is read as the outline of what the body is read as.
  - `said_congr`: lines whose outlines agree are read as commands whose outlines agree.
  - `showsAt_ofTokens`: the cause of an error and the length of the line tell where the error shows.
  - `parse_indifferent`: texts whose tokens say the same are read as the same and converted to the same.
-/

import CommandBridge.Proofs.Distribution
import CommandBridge.Proofs.Synonyms

namespace CommandBridge

/-! ## Outlines of tokens -/

/-- What the kind of a token says to the parser. -/
inductive Token.Role
  | flag | separator | eof | word
  deriving DecidableEq, Repr

def Span.nowhere : Span := ⟨0, 0⟩

/-- The quoting, if quotings are kept. -/
def Quoting.outline (keep : Bool) (q : Quoting) : Quoting := if keep then q else .bare

namespace Token

def Role.kind (quoting : Quoting) : Role → Kind
  | flag => .flag
  | separator => .separator
  | eof => .eof
  | word => .argument quoting

def role (u : Token) : Role :=
  match u.kind with
  | .flag => .flag
  | .separator => .separator
  | .eof => .eof
  | _ => .word

def outline (keep : Bool) (u : Token) : Token := ⟨u.role.kind (u.quoting.outline keep), u.value, 0, 0⟩

/-- What a token says to the parser. -/
def content (u : Token) : Role × Text := (u.role, u.value)

variable (keep : Bool) (u : Token)

@[simp] theorem value_outline : (u.outline keep).value = u.value := rfl

@[simp] theorem span_outline : (u.outline keep).span = .nowhere := rfl

@[simp] theorem isFlag_outline : (u.outline keep).isFlag = u.isFlag := by
  obtain ⟨kind, value, start, stop⟩ := u
  cases kind <;> rfl

@[simp] theorem isSeparator_outline : (u.outline keep).isSeparator = u.isSeparator := by
  obtain ⟨kind, value, start, stop⟩ := u
  cases kind <;> rfl

@[simp] theorem quoting_outline : (u.outline keep).quoting = u.quoting.outline keep := by
  obtain ⟨kind, value, start, stop⟩ := u
  cases keep <;> cases kind <;> rfl

theorem map_outline_congr {keep : Bool} {us us' : List Token} (hc : us'.map content = us.map content)
    (hq : keep = true → us'.map quoting = us.map quoting) : us'.map (outline keep) = us.map (outline keep) := by
  induction us generalizing us' with
  | nil => rw [List.map_eq_nil_iff.1 hc]
  | cons u us ih =>
    obtain ⟨u', us', rfl, hu, hus⟩ := List.map_eq_cons_iff.1 hc
    have hhead : u'.outline keep = u.outline keep := by
      obtain ⟨hrole, hvalue⟩ := Prod.mk.inj hu
      have hquoting : u'.quoting.outline keep = u.quoting.outline keep := by
        cases keep with
        | false => rfl
        | true => exact (List.cons.inj (hq rfl)).1
      rw [outline, outline, hrole, hvalue, hquoting]
    rw [List.map_cons, List.map_cons, hhead, ih hus fun hk => (List.cons.inj (hq hk)).2]

end Token

/-! ## Outlines of commands -/

def Flag.outline (f : Flag) : Flag := { f with span := .nowhere }

def Argument.outline (keep : Bool) (a : Argument) : Argument := ⟨a.value, a.quoting.outline keep, .nowhere⟩

def Leaf.outline (keep : Bool) : Leaf → Leaf
  | flag f => flag f.outline
  | argument a => argument (a.outline keep)

def ManagerWord.outline (m : ManagerWord) : ManagerWord := { m with span := .nowhere }

def Subcommand.outline (s : Subcommand) : Subcommand := { s with span := .nowhere }

def Install.outline (keep : Bool) (c : Install) : Install where
  manager := c.manager.outline
  subcommand := c.subcommand.map Subcommand.outline
  flags := c.flags.map Flag.outline
  packages := c.packages.map (Leaf.outline keep)
  hasSeparator := c.hasSeparator
  span := .nowhere

def Exec.outline (keep : Bool) (c : Exec) : Exec where
  manager := c.manager.outline
  subcommand := c.subcommand.map Subcommand.outline
  flags := c.flags.map (Leaf.outline keep)
  package := c.package.outline keep
  args := c.args.map (Leaf.outline keep)
  span := .nowhere

def Run.outline (keep : Bool) (c : Run) : Run where
  manager := c.manager.outline
  subcommand := c.subcommand.map Subcommand.outline
  script := c.script.outline keep
  args := c.args.map (Leaf.outline keep)
  span := .nowhere

def Create.outline (keep : Bool) (c : Create) : Create where
  manager := c.manager.outline
  subcommand := c.subcommand.map Subcommand.outline
  template := c.template.outline keep
  args := c.args.map (Leaf.outline keep)
  hasSeparator := c.hasSeparator
  span := .nowhere

def Command.outline (keep : Bool) : Command → Command
  | install c => install (c.outline keep)
  | exec c => exec (c.outline keep)
  | run c => run (c.outline keep)
  | create c => create (c.outline keep)

/-! ## What outlines still say -/

@[simp] theorem Leaf.value_outline (keep : Bool) (l : Leaf) : (l.outline keep).value = l.value := by cases l <;> rfl

@[simp] theorem Leaf.write_outline (l : Leaf) : (l.outline true).write = l.write := by cases l <;> rfl

@[simp] theorem Leaf.map_value_outline (keep : Bool) (ls : List Leaf) :
    (ls.map (Leaf.outline keep)).map Leaf.value = ls.map Leaf.value := by
  rw [List.map_map, show Leaf.value ∘ Leaf.outline keep = Leaf.value from funext (Leaf.value_outline keep)]

@[simp] theorem Leaf.map_write_outline (ls : List Leaf) :
    (ls.map (Leaf.outline true)).map Leaf.write = ls.map Leaf.write := by
  rw [List.map_map, show Leaf.write ∘ Leaf.outline true = Leaf.write from funext Leaf.write_outline]

@[simp] theorem Install.has_outline (keep : Bool) (c : Install) (k : Flag.Category) : (c.outline keep).has k = c.has k := by
  simp only [has, outline, List.any_map]
  rfl

@[simp] theorem Install.spellings_outline (keep : Bool) (c : Install) : (c.outline keep).spellings = c.spellings := by
  simp only [spellings, outline, List.map_map]
  rfl

@[simp] theorem Install.unknownFlags_outline (keep : Bool) (c : Install) :
    (c.outline keep).unknownFlags = c.unknownFlags := by
  simp only [unknownFlags, outline, List.filter_map, List.map_map]
  rfl

theorem Install.rephrases_outline (c : Install) : c.Rephrases (c.outline true) where
  packages := Leaf.map_write_outline c.packages
  values := Leaf.map_value_outline true c.packages
  has := c.has_outline true
  unknown := c.unknownFlags_outline true
  spellings _ _ := c.spellings_outline true

namespace Command

theorem summary_outline (keep : Bool) (c : Command) : (c.outline keep).summary = c.summary := by
  cases c with
  | install c =>
    refine congrArg Summary.install ?_
    simp only [Install.summary, Install.has_outline, Install.unknownFlags_outline]
    rw [Install.outline, Leaf.map_value_outline]
    rfl
  | exec c =>
    refine congrArg Summary.exec ?_
    simp only [Exec.summary, Exec.outline, Leaf.map_value_outline, Leaf.value_outline]
    rfl
  | run c =>
    refine congrArg Summary.run ?_
    simp only [Run.summary, Run.outline, Leaf.map_value_outline, Leaf.value_outline]
    rfl
  | create c =>
    refine congrArg Summary.create ?_
    simp only [Create.summary, Create.outline, Leaf.map_value_outline, Leaf.value_outline]
    rfl

theorem parts_outline (c : Command) (m : Manager) : (c.outline true).parts m = c.parts m := by
  cases c with
  | install c => exact (Install.rephrases_outline c).parts_eq fun _ => rfl
  | exec c => simp only [outline, parts, Exec.parts, Exec.outline, Leaf.map_write_outline, Leaf.write_outline]
  | run c => simp only [outline, parts, Run.parts, Run.outline, Leaf.map_write_outline, Leaf.write_outline]
  | create c =>
    exact Create.parts_congr (d := c.outline true) (Leaf.write_outline c.template) (Leaf.map_write_outline c.args) rfl m

theorem lineFor_outline (c : Command) (m : Manager) : (c.outline true).lineFor m = c.lineFor m :=
  congrArg CommandLine.join (c.parts_outline m)

/-! ## Outlines are read as outlines -/

/-- What is said by a reading: an outline, or the cause why there is none. -/
def said (keep : Bool) (r : Except SyntaxError Command) : Except SyntaxError.Cause Command :=
  (r.map (outline keep)).mapError SyntaxError.cause

section Bodies

variable (keep : Bool) {m : ManagerWord} {s : Subcommand} {span : Span} {finish : Token} {body : List Token}

theorem filter_outline {p : Token → Bool} (hp : ∀ u, p (u.outline keep) = p u) (us : List Token) :
    (us.map (Token.outline keep)).filter p = (us.filter p).map (Token.outline keep) := by
  rw [List.filter_map, show p ∘ Token.outline keep = p from funext hp]

theorem any_outline {p : Token → Bool} (hp : ∀ u, p (u.outline keep) = p u) (us : List Token) :
    (us.map (Token.outline keep)).any p = us.any p := by
  rw [List.any_map, show p ∘ Token.outline keep = p from funext hp]

theorem isPackage_outline (u : Token) : isPackage (u.outline keep) = isPackage u := by
  rw [isPackage, isPackage, Token.isFlag_outline, Token.isSeparator_outline]

theorem argumentOf_outline (u : Token) : Leaf.argumentOf (u.outline keep) = (Leaf.argumentOf u).outline keep := by
  rw [Leaf.argumentOf, Argument.ofToken, Token.quoting_outline]
  rfl

theorem map_argumentOf_outline (us : List Token) :
    (us.map (Token.outline keep)).map Leaf.argumentOf = (us.map Leaf.argumentOf).map (Leaf.outline keep) := by
  rw [List.map_map, List.map_map]
  exact List.map_congr_left fun u _ => argumentOf_outline keep u

theorem map_flagOf_outline (us : List Token) :
    (us.map (Token.outline keep)).map Leaf.flagOf = (us.map Leaf.flagOf).map (Leaf.outline keep) := by
  rw [List.map_map, List.map_map]
  rfl

theorem map_ofToken_outline (us : List Token) :
    (us.map (Token.outline keep)).map Flag.ofToken = (us.map Flag.ofToken).map Flag.outline := by
  rw [List.map_map, List.map_map]
  rfl

theorem install_outline (implied : List Flag) :
    ((installOfBody m.outline s.outline (implied.map Flag.outline) .nowhere (body.map (Token.outline keep))).map
        install).mapError SyntaxError.cause =
      said keep ((installOfBody m s implied span body).map install) := by
  have hlast : (body.map (Token.outline keep)).getLast?.filter Token.isSeparator =
      (body.getLast?.filter Token.isSeparator).map (Token.outline keep) := by
    rw [List.getLast?_map]
    cases body.getLast? with
    | none => rfl
    | some u => simp [Option.filter, apply_ite]
  rw [installOfBody, installOfBody, hlast]
  cases body.getLast?.filter Token.isSeparator with
  | some u => rfl
  | none =>
    simp only [said, Option.map, Except.map, Except.mapError, outline, Install.outline,
      filter_outline keep (Token.isFlag_outline keep), filter_outline keep (isPackage_outline keep),
      any_outline keep (Token.isSeparator_outline keep), map_argumentOf_outline, map_ofToken_outline, List.map_append]

theorem exec_outline (s : Option Subcommand) :
    ((execOfBody m.outline (s.map Subcommand.outline) .nowhere (.atEnd 0) (body.map (Token.outline keep))).map
        exec).mapError SyntaxError.cause =
      said keep ((execOfBody m s span finish body).map exec) := by
  have hp : Token.isFlag ∘ Token.outline keep = Token.isFlag := funext (Token.isFlag_outline keep)
  rw [execOfBody, execOfBody, List.dropWhile_map, List.takeWhile_map, hp]
  cases body.dropWhile Token.isFlag with
  | nil => rfl
  | cons package args =>
    simp only [said, List.map_cons, Except.map, Except.mapError, outline, Exec.outline, map_argumentOf_outline,
      argumentOf_outline, map_flagOf_outline]

theorem run_outline :
    ((runOfBody m.outline s.outline .nowhere (.atEnd 0) (body.map (Token.outline keep))).map run).mapError
        SyntaxError.cause =
      said keep ((runOfBody m s span finish body).map run) := by
  cases body with
  | nil => rfl
  | cons script args =>
    simp only [said, List.map_cons, runOfBody, Except.map, Except.mapError, outline, Run.outline, map_argumentOf_outline,
      argumentOf_outline]
    rfl

theorem create_outline :
    ((createOfBody m.outline s.outline .nowhere (.atEnd 0) (body.map (Token.outline keep))).map create).mapError
        SyntaxError.cause =
      said keep ((createOfBody m s span finish body).map create) := by
  cases body with
  | nil => rfl
  | cons template rest =>
    have hp (u : Token) : (!(u.outline keep).isSeparator) = !u.isSeparator := by rw [Token.isSeparator_outline]
    have hargs := filter_outline (p := fun u => !u.isSeparator) keep hp rest
    simp only [said, List.map_cons, createOfBody, Except.map, Except.mapError, outline, Create.outline, hargs,
      any_outline keep (Token.isSeparator_outline keep), map_argumentOf_outline, argumentOf_outline]
    rfl

/-- Of the word after `global` only the value counts. -/
theorem global_cons_outline (keepWord keepAdd : Bool) {word add : Token} :
    ((globalOfBody m.outline (word.outline keepWord) .nowhere (.atEnd 0)
        (add.outline keepAdd :: body.map (Token.outline keep))).map install).mapError SyntaxError.cause =
      said keep ((globalOfBody m word span finish (add :: body)).map install) := by
  rw [globalOfBody, globalOfBody, Token.value_outline, Token.span_outline, Token.span_outline]
  split
  · exact install_outline keep (s := ⟨add.value, add.span⟩) [⟨"--global".toList, .global, word.span⟩]
  · rfl

theorem ofBody_outline (keepVerb : Bool) {verb : Token} :
    (ofBody m.outline (verb.outline keepVerb) .nowhere (.atEnd 0) (body.map (Token.outline keep))).mapError
        SyntaxError.cause =
      said keep (ofBody m verb span finish body) := by
  rw [ofBody, ofBody, Token.value_outline, Token.span_outline]
  cases Verb.ofText? verb.value with
  | none => rfl
  | some v =>
    cases v with
    | dlx =>
      dsimp only
      by_cases hd : m.manager.hasDlx = true
      · rw [if_pos hd, if_pos (show m.outline.manager.hasDlx = true from hd)]
        exact exec_outline keep (some ⟨verb.value, verb.span⟩)
      · rw [if_neg hd, if_neg (show ¬ m.outline.manager.hasDlx = true from hd)]
        rfl
    | install => exact install_outline keep (s := ⟨verb.value, verb.span⟩) []
    | run => exact run_outline keep (s := ⟨verb.value, verb.span⟩)
    | create => exact create_outline keep (s := ⟨verb.value, verb.span⟩)
    | global =>
      dsimp only
      by_cases hy : m.manager = .yarn
      · rw [if_pos hy, if_pos (show m.outline.manager = .yarn from hy)]
        cases body with
        | nil => rfl
        | cons add body => exact global_cons_outline keep keepVerb keep
      · rw [if_neg hy, if_neg (show ¬ m.outline.manager = .yarn from hy)]
        rfl

end Bodies

/-! ## Lines whose outlines agree -/

section Lines

variable {keep : Bool} {finish finish' : Token} {ts ts' : List Token}

theorem headerLength_congr (h : ts'.map Token.value = ts.map Token.value) : headerLength ts' = headerLength ts := by
  rw [headerLength, headerLength, h]

/-- Lines that agree but for places, and in their headers for quotings, say the same. -/
theorem said_congr (hline : ts'.map (Token.outline false) = ts.map (Token.outline false))
    (hbody : (ts'.drop (headerLength ts)).map (Token.outline keep) = (ts.drop (headerLength ts)).map (Token.outline keep)) :
    said keep (ofTokens finish' ts') = said keep (ofTokens finish ts) := by
  rcases ts with _ | ⟨t, rest⟩
  · obtain rfl := List.map_eq_nil_iff.1 hline
    rfl
  obtain ⟨t', rest', rfl, ht, hrest⟩ := List.map_eq_cons_iff.1 hline
  have hword : t'.value = t.value := (congrArg Token.value ht :)
  rw [ofTokens, ofTokens, hword]
  cases hm : Manager.ofInvocation? t.value with
  | none => rfl
  | some m =>
    have hmanager : ManagerWord.outline ⟨m, t.value, t'.span⟩ = ManagerWord.outline ⟨m, t.value, t.span⟩ := rfl
    rcases rest with _ | ⟨verb, body⟩
    · obtain rfl := List.map_eq_nil_iff.1 hrest
      rfl
    obtain ⟨verb', body', rfl, hverb, hrest⟩ := List.map_eq_cons_iff.1 hrest
    -- Each way to go on leaves a body behind its header, and both bodies are read as the outline that they share.
    dsimp only
    split
    case isTrue hs =>
      rw [headerLength_short hs] at hbody
      have hbody : (verb' :: body').map (Token.outline keep) = (verb :: body).map (Token.outline keep) := hbody
      rw [← exec_outline keep none, ← exec_outline keep none, hmanager, hbody]
    case isFalse hs =>
      rcases headerLength_eq_two_or (Bool.eq_false_iff.2 hs) body with hlen | ⟨hyarn, hglobal, add, body, rfl, hlen⟩
      · rw [hlen] at hbody
        have hbody : body'.map (Token.outline keep) = body.map (Token.outline keep) := hbody
        rw [← ofBody_outline keep false, ← ofBody_outline keep false, hmanager, hverb, hbody]
      · obtain ⟨add', body', rfl, hadd, hrest⟩ := List.map_eq_cons_iff.1 hrest
        rw [hlen] at hbody
        have hbody : body'.map (Token.outline keep) = body.map (Token.outline keep) := hbody
        have hm : m = .yarn := by
          rw [hyarn] at hm
          exact (Option.some.inj hm).symm
        have hglobal : verb.value ∈ Verb.global.words := List.mem_singleton.2 hglobal
        have hglobal' : verb'.value ∈ Verb.global.words := (congrArg Token.value hverb :) ▸ hglobal
        rw [ofBody_global hglobal hm, ofBody_global hglobal' hm, ← global_cons_outline keep false false,
          ← global_cons_outline keep false false, hmanager, hverb, hadd, hbody]

end Lines

end Command

/-! ## Where errors show -/

/-- The place of an error in its line of tokens, whose end counts as one more. -/
def SyntaxError.Cause.index (length : Nat) : SyntaxError.Cause → Nat
  | .unknownManager _ => 0
  | .noDlx _ | .unsupportedSubcommand _ => 1
  | .expectedAdd => 2
  | .danglingSeparator => length - 1
  | .expectedManager | .expectedSubcommand | .expectedPackage | .expectedScript | .expectedTemplate => length

namespace Command

section Places

variable {α : Type} {m : ManagerWord} {finish t verb : Token} {span : Span} {ts body : List Token}

/-- Errors show where their causes say. -/
def ShowsAt (ts : List Token) (finish : Token) (r : Except SyntaxError α) : Prop :=
  ∀ e, r = .error e → (ts ++ [finish])[e.cause.index ts.length]? = some e.token

theorem ShowsAt.map {r : Except SyntaxError α} (h : ShowsAt ts finish r) (f : α → Command) :
    ShowsAt ts finish (r.map f) := by
  cases r with
  | ok a => exact nofun
  | error e =>
    intro e' he
    cases he
    exact h e rfl

theorem showsAt_error {e : SyntaxError} (h : (ts ++ [finish])[e.cause.index ts.length]? = some e.token) :
    ShowsAt ts finish (.error e : Except SyntaxError α) := by
  intro e' he
  cases he
  exact h

theorem showsAt_finish {cause : SyntaxError.Cause} (h : cause.index ts.length = ts.length) :
    ShowsAt ts finish (.error ⟨cause, finish⟩ : Except SyntaxError α) := by
  apply showsAt_error
  rw [h]
  exact List.getElem?_concat_length

theorem showsAt_install (header : List Token) (s : Subcommand) (implied : List Flag) :
    ShowsAt (header ++ body) finish (installOfBody m s implied span body) := by
  intro e he
  obtain ⟨hcause, hbody⟩ := error_installOfBody he
  have hlast : (header ++ body).getLast? = some e.token := by rw [List.getLast?_append, hbody, Option.some_or]
  have hpos : 0 < (header ++ body).length := List.length_pos_of_mem (List.mem_of_getLast? hlast)
  rw [hcause, SyntaxError.Cause.index, List.getElem?_append_left (Nat.sub_one_lt_of_lt hpos),
    ← List.getLast?_eq_getElem?, hlast]

theorem showsAt_exec (header : List Token) (s : Option Subcommand) :
    ShowsAt (header ++ body) finish (execOfBody m s span finish body) := by
  intro e he
  rw [error_execOfBody he]
  exact List.getElem?_concat_length

theorem showsAt_run (header : List Token) (s : Subcommand) :
    ShowsAt (header ++ body) finish (runOfBody m s span finish body) := by
  intro e he
  rw [error_runOfBody he]
  exact List.getElem?_concat_length

theorem showsAt_create (header : List Token) (s : Subcommand) :
    ShowsAt (header ++ body) finish (createOfBody m s span finish body) := by
  intro e he
  rw [error_createOfBody he]
  exact List.getElem?_concat_length

theorem showsAt_global : ShowsAt (t :: verb :: body) finish (globalOfBody m verb span finish body) := by
  cases body with
  | nil => exact showsAt_finish rfl
  | cons add body =>
    rw [globalOfBody]
    split
    · exact showsAt_install [t, verb, add] _ _
    · exact showsAt_error rfl

theorem showsAt_ofBody : ShowsAt (t :: verb :: body) finish (ofBody m verb span finish body) := by
  unfold ofBody
  cases Verb.ofText? verb.value with
  | none => exact showsAt_error rfl
  | some v =>
    cases v with
    | dlx =>
      dsimp only
      split
      · exact (showsAt_exec [t, verb] _).map _
      · exact showsAt_error rfl
    | install => exact (showsAt_install [t, verb] _ _).map _
    | run => exact (showsAt_run [t, verb] _).map _
    | create => exact (showsAt_create [t, verb] _).map _
    | global =>
      dsimp only
      split
      · exact showsAt_global.map _
      · exact showsAt_error rfl

theorem showsAt_ofTokens (finish : Token) (ts : List Token) : ShowsAt ts finish (ofTokens finish ts) := by
  rcases ts with _ | ⟨t, rest⟩
  · exact showsAt_finish rfl
  rw [ofTokens]
  cases Manager.ofInvocation? t.value with
  | none => exact showsAt_error rfl
  | some m =>
    cases rest with
    | nil => exact showsAt_finish rfl
    | cons verb body =>
      dsimp only
      split
      · exact (showsAt_exec [t] none).map _
      · exact showsAt_ofBody

end Places

/-! ## Texts that say the same -/

/-- The tokens of the bodies are quoted alike. -/
def QuotedAlike (t t' : Text) : Prop :=
  ((Token.ofLine t').drop (headerLength (Token.ofLine t'))).map Token.quoting =
    ((Token.ofLine t).drop (headerLength (Token.ofLine t))).map Token.quoting

section Texts

variable {t t' : Text}

theorem content_ofLine (h : (Token.tokenize t').map Token.content = (Token.tokenize t).map Token.content) :
    (Token.ofLine t').map Token.content = (Token.ofLine t).map Token.content := by
  rw [Token.tokenize_eq, Token.tokenize_eq, List.map_append, List.map_append] at h
  exact List.append_inj_left' h rfl

/-- Texts whose tokens say the same say the same, with quotings if the bodies are quoted alike. -/
theorem said_parse {keep : Bool} (h : (Token.ofLine t').map Token.content = (Token.ofLine t).map Token.content)
    (hq : keep = true → QuotedAlike t t') : said keep (parse t') = said keep (parse t) := by
  have hheader : headerLength (Token.ofLine t') = headerLength (Token.ofLine t) := by
    have hwords := congrArg (List.map Prod.snd) h
    rw [List.map_map, List.map_map] at hwords
    exact headerLength_congr hwords
  refine said_congr (Token.map_outline_congr h fun hk => absurd hk Bool.false_ne_true)
    (Token.map_outline_congr ?_ fun hk => ?_)
  · rw [List.map_drop, List.map_drop, h]
  · rw [← hq hk, hheader]

/-- What two texts are read as is the same but for places and quotings, and it is converted to the same. -/
inductive ReadAlike (t t' : Text) : Except SyntaxError Command → Except SyntaxError Command → Prop
  /-- The cause settles the reason and, but for the place that it names, the message. -/
  | failed {e e' : SyntaxError} {i : Nat} : e'.cause = e.cause → (Token.tokenize t)[i]? = some e.token →
      (Token.tokenize t')[i]? = some e'.token → ReadAlike t t' (.error e) (.error e')
  | read {c c' : Command} : c'.outline false = c.outline false → c'.translate.kind = c.translate.kind →
      c'.translate.summary = c.translate.summary →
      (QuotedAlike t t' → ∀ m, c'.translate.commandFor m = c.translate.commandFor m) → ReadAlike t t' (.ok c) (.ok c')

/-- Where tokens stand and how a header is quoted counts for nothing: texts whose tokens say the same are read alike. -/
theorem parse_indifferent (h : (Token.tokenize t').map Token.content = (Token.tokenize t).map Token.content) :
    ReadAlike t t' (parse t) (parse t') := by
  have hline := content_ofLine h
  have hplain : said false (parse t') = said false (parse t) := said_parse hline fun hk => absurd hk Bool.false_ne_true
  have hquoted (hq : QuotedAlike t t') : said true (parse t') = said true (parse t) := said_parse hline fun _ => hq
  cases hp : parse t with
  | error e =>
    cases hp' : parse t' with
    | error e' =>
      rw [hp, hp'] at hplain
      have hcause : e'.cause = e.cause := Except.error.inj hplain
      have hlength : (Token.ofLine t').length = (Token.ofLine t).length := by simpa using congrArg List.length hline
      have hplace := showsAt_ofTokens _ _ e' hp'
      rw [hcause, hlength] at hplace
      exact .failed hcause (showsAt_ofTokens _ _ e hp) hplace
    | ok c' =>
      rw [hp, hp'] at hplain
      cases hplain
  | ok c =>
    cases hp' : parse t' with
    | error e' =>
      rw [hp, hp'] at hplain
      cases hplain
    | ok c' =>
      rw [hp, hp'] at hplain hquoted
      have houtline : c'.outline false = c.outline false := Except.ok.inj hplain
      have hsummary : c'.summary = c.summary := by rw [← summary_outline false, houtline, summary_outline]
      refine .read houtline (congrArg Summary.kind hsummary) hsummary fun hq m => ?_
      have houtline : c'.outline true = c.outline true := Except.ok.inj (hquoted hq)
      rw [commandFor_translate, commandFor_translate, ← lineFor_outline, houtline, lineFor_outline]

end Texts

/-- Two ways to write one command, of which the second is quoted where it does not count. The trees have other places,
    and the lines are the same. -/
theorem parse_indifferent_header :
    (Token.tokenize "\t'npm' \"i\"  -D 'left pad'".toList).map Token.content =
        (Token.tokenize "npm i -D 'left pad'".toList).map Token.content ∧
      QuotedAlike "npm i -D 'left pad'".toList "\t'npm' \"i\"  -D 'left pad'".toList ∧
      ∃ c c', parse "npm i -D 'left pad'".toList = .ok c ∧ parse "\t'npm' \"i\"  -D 'left pad'".toList = .ok c' ∧
        c' ≠ c ∧ c'.outline false = c.outline false ∧ c'.translate.summary = c.translate.summary ∧
        (∀ m, c'.translate.commandFor m = c.translate.commandFor m) ∧
        c.translate.commands = ⟨"npm install -D 'left pad'".toList, "pnpm add -D 'left pad'".toList,
          "yarn add --dev 'left pad'".toList, "bun add --dev 'left pad'".toList⟩ := by
  let c : Command := .install
    { manager := ⟨.npm, "npm".toList, ⟨0, 3⟩⟩
      subcommand := some ⟨"i".toList, ⟨4, 5⟩⟩
      flags := [⟨"-D".toList, .dev, ⟨6, 8⟩⟩]
      packages := [.argument ⟨"left pad".toList, .quoted (some "'".toList), ⟨9, 19⟩⟩]
      hasSeparator := false
      span := ⟨0, 19⟩ }
  let c' : Command := .install
    { manager := ⟨.npm, "npm".toList, ⟨1, 6⟩⟩
      subcommand := some ⟨"i".toList, ⟨7, 10⟩⟩
      flags := [⟨"-D".toList, .dev, ⟨12, 14⟩⟩]
      packages := [.argument ⟨"left pad".toList, .quoted (some "'".toList), ⟨15, 25⟩⟩]
      hasSeparator := false
      span := ⟨1, 25⟩ }
  have h : (Token.tokenize "\t'npm' \"i\"  -D 'left pad'".toList).map Token.content =
      (Token.tokenize "npm i -D 'left pad'".toList).map Token.content := by decide +kernel
  have hq : QuotedAlike "npm i -D 'left pad'".toList "\t'npm' \"i\"  -D 'left pad'".toList := by
    unfold QuotedAlike
    decide +kernel
  have hc : parse "npm i -D 'left pad'".toList = .ok c := by decide +kernel
  have hc' : parse "\t'npm' \"i\"  -D 'left pad'".toList = .ok c' := by decide +kernel
  have hread := parse_indifferent h
  rw [hc, hc'] at hread
  cases hread with
  | read houtline _ hsummary hlines =>
    exact ⟨h, hq, c, c', hc, hc', by decide, houtline, hsummary, hlines hq, by decide +kernel⟩

end Command

end CommandBridge
