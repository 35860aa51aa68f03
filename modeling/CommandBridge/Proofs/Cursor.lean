/-
  CommandBridge.Proofs.Cursor — a command read token by token.

  The parser says of a whole body which tokens are flags, packages and arguments. Here the tokens are
  taken one after another instead, each is put into the command at once, and the command ends with
  the token that was taken last. What is left shows how far the reading has come.
  - `Install.foldl_take`, `Exec.foldl_take`, `Run.foldl_take`, `Create.foldl_take`: what taking tokens
    adds to a command.
  - `install_eq`, `exec_eq`, `all_eq`: what comes of reading on to the end.
  - `line_eq`: the readings agree, and what is left are the tokens that the parser says it has not read.
-/

import CommandBridge.Proofs.Body

namespace CommandBridge

/-! ## Taking one token -/

/-- The places up to the end of a token. -/
def Span.upTo (s : Span) (u : Token) : Span := ⟨s.start, u.stop⟩

/-- The places up to the end of the last of the tokens. -/
def Span.through (s : Span) (us : List Token) : Span := us.foldl Span.upTo s

theorem Span.through_spanTo (t u : Token) (us : List Token) : (t.spanTo u).through us = t.spanTo (us.getLastD u) := by
  induction us generalizing u with
  | nil => rfl
  | cons v us ih =>
    rw [List.getLastD_cons]
    exact ih v

/-- The places before the last token that is taken do not matter, but for where they start. -/
theorem Span.through_append_cons {s s' : Span} (h : s.start = s'.start) (before : List Token) (u : Token) (us : List Token) :
    s.through (before ++ u :: us) = (s'.upTo u).through us := by
  have hstart : (s.through before).start = s.start := by
    induction before generalizing s with
    | nil => rfl
    | cons v before ih => exact (ih (s := s.upTo v) h).trans rfl
  rw [through, List.foldl_append, List.foldl_cons, ← through, ← through, upTo, upTo, hstart, h]

def Install.take (c : Install) (u : Token) : Install :=
  let c := { c with span := c.span.upTo u }
  if u.isSeparator then { c with hasSeparator := true }
  else if u.isFlag then { c with flags := c.flags ++ [Flag.ofToken u] }
  else { c with packages := c.packages ++ [Leaf.argumentOf u] }

def Exec.take (c : Exec) (u : Token) : Exec :=
  { c with args := c.args ++ [Leaf.argumentOf u], span := c.span.upTo u }

def Run.take (c : Run) (u : Token) : Run :=
  { c with args := c.args ++ [Leaf.argumentOf u], span := c.span.upTo u }

def Create.take (c : Create) (u : Token) : Create :=
  let c := { c with span := c.span.upTo u }
  if u.isSeparator then { c with hasSeparator := true } else { c with args := c.args ++ [Leaf.argumentOf u] }

theorem Install.foldl_take (c : Install) (us : List Token) : us.foldl Install.take c =
    { c with
      flags := c.flags ++ (us.filter Token.isFlag).map Flag.ofToken
      packages := c.packages ++ (us.filter Command.isPackage).map Leaf.argumentOf
      hasSeparator := c.hasSeparator || us.any Token.isSeparator
      span := c.span.through us } := by
  induction us generalizing c with
  | nil => simp [Span.through]
  | cons u us ih =>
    rw [List.foldl_cons, ih, Install.take]
    by_cases hs : u.isSeparator = true
    · have hf : u.isFlag = false := by
        rw [Token.isFlag, beq_iff_eq.1 hs]
        rfl
      simp [hs, hf, Command.isPackage, Span.through]
    · by_cases hf : u.isFlag = true <;> simp [hs, hf, Command.isPackage, Span.through]

theorem Exec.foldl_take (c : Exec) (us : List Token) :
    us.foldl Exec.take c = { c with args := c.args ++ us.map Leaf.argumentOf, span := c.span.through us } := by
  induction us generalizing c with
  | nil => simp [Span.through]
  | cons u us ih => simp [ih, Exec.take, Span.through]

theorem Run.foldl_take (c : Run) (us : List Token) :
    us.foldl Run.take c = { c with args := c.args ++ us.map Leaf.argumentOf, span := c.span.through us } := by
  induction us generalizing c with
  | nil => simp [Span.through]
  | cons u us ih => simp [ih, Run.take, Span.through]

theorem Create.foldl_take (c : Create) (us : List Token) : us.foldl Create.take c =
    { c with
      args := c.args ++ (us.filter fun u => !u.isSeparator).map Leaf.argumentOf
      hasSeparator := c.hasSeparator || us.any Token.isSeparator
      span := c.span.through us } := by
  induction us generalizing c with
  | nil => simp [Span.through]
  | cons u us ih =>
    rw [List.foldl_cons, ih, Create.take]
    by_cases hs : u.isSeparator = true <;> simp [hs, Span.through]

/-! ## Reading on -/

namespace Cursor

/-- What has come of reading, and the tokens that are left. -/
abbrev Reading (α : Type) := Except SyntaxError α × List Token

/-- Takes every token that is left. -/
def all {α : Type} (take : α → Token → α) (a : α) : List Token → Reading α
  | [] => (.ok a, [])
  | u :: rest => all take (take a u) rest

/-- Takes flags and packages; a separator may not be the last token. -/
def install (c : Install) : List Token → Reading Install
  | [] => (.ok c, [])
  | u :: rest =>
    if u.isSeparator ∧ rest = [] then (.error ⟨.danglingSeparator, u⟩, rest) else install (c.take u) rest

/-- Takes flags up to the package, and then arguments. -/
def exec (m : ManagerWord) (s : Option Subcommand) (finish : Token) (flags : List Leaf) : List Token → Reading Exec
  | [] => (.error ⟨.expectedPackage, finish⟩, [])
  | u :: rest =>
    if u.isFlag then exec m s finish (flags ++ [Leaf.flagOf u]) rest
    else all Exec.take ⟨m, s, flags, Leaf.argumentOf u, [], m.span.upTo u⟩ rest

def run (m : ManagerWord) (s : Subcommand) (finish : Token) : List Token → Reading Run
  | [] => (.error ⟨.expectedScript, finish⟩, [])
  | u :: rest => all Run.take ⟨m, some s, Leaf.argumentOf u, [], m.span.upTo u⟩ rest

def create (m : ManagerWord) (s : Subcommand) (finish : Token) : List Token → Reading Create
  | [] => (.error ⟨.expectedTemplate, finish⟩, [])
  | u :: rest => all Create.take ⟨m, some s, Leaf.argumentOf u, [], false, m.span.upTo u⟩ rest

/-- Looks at the word after `global` before it is taken. -/
def global (m : ManagerWord) (globalWord finish : Token) : List Token → Reading Install
  | [] => (.error ⟨.expectedAdd, finish⟩, [])
  | u :: rest =>
    if u.value = Command.addWord then
      install ⟨m, some ⟨u.value, u.span⟩, [⟨"--global".toList, .global, globalWord.span⟩], [], false, m.span.upTo u⟩ rest
    else (.error ⟨.expectedAdd, u⟩, u :: rest)

def Reading.as {α : Type} (f : α → Command) (r : Reading α) : Reading Command := (r.1.map f, r.2)

/-- Reads on after the subcommand. -/
def verb (m : ManagerWord) (u finish : Token) (rest : List Token) : Reading Command :=
  let s : Subcommand := ⟨u.value, u.span⟩
  let unsupported : SyntaxError := ⟨.unsupportedSubcommand u.value, u⟩
  match Command.Verb.ofText? u.value with
  | some .dlx =>
    if m.manager.hasDlx then Reading.as .exec (exec m (some s) finish [] rest) else (.error ⟨.noDlx m.manager, u⟩, rest)
  | some .install => Reading.as .install (install ⟨m, some s, [], [], false, m.span.upTo u⟩ rest)
  | some .run => Reading.as .run (run m s finish rest)
  | some .create => Reading.as .create (create m s finish rest)
  | some .global =>
    if m.manager = .yarn then Reading.as .install (global m u finish rest) else (.error unsupported, rest)
  | none => (.error unsupported, rest)

/-- Reads a line; the word that calls the manager is looked at before it is taken. -/
def line (finish : Token) : List Token → Reading Command
  | [] => (.error ⟨.expectedManager, finish⟩, [])
  | t :: rest =>
    match Manager.ofInvocation? t.value with
    | none => (.error ⟨.unknownManager t.value, t⟩, t :: rest)
    | some manager =>
      let m : ManagerWord := ⟨manager, t.value, t.span⟩
      match rest with
      | [] => (.error ⟨.expectedSubcommand, finish⟩, [])
      | u :: rest =>
        if Manager.isShorthand t.value then Reading.as .exec (exec m none finish [] (u :: rest)) else verb m u finish rest

/-! ## The readings agree -/

theorem all_eq {α : Type} (take : α → Token → α) (a : α) (us : List Token) :
    all take a us = (.ok (us.foldl take a), []) := by
  induction us generalizing a with
  | nil => rfl
  | cons u us ih => exact ih (take a u)

theorem install_eq (c : Install) (us : List Token) :
    install c us = (match us.getLast?.filter Token.isSeparator with
      | some last => .error ⟨.danglingSeparator, last⟩
      | none => .ok (us.foldl Install.take c), []) := by
  induction us generalizing c with
  | nil => rfl
  | cons u us ih =>
    cases us with
    | nil => by_cases hs : u.isSeparator = true <;> simp [install, hs, Option.filter]
    | cons v us =>
      rw [install, if_neg (fun h => List.cons_ne_nil v us h.2), ih, List.getLast?_cons_cons]
      rfl

variable {m : ManagerWord} {finish : Token}

theorem exec_eq (s : Option Subcommand) (flags : List Leaf) (us : List Token) :
    exec m s finish flags us = (match us.dropWhile Token.isFlag with
      | [] => .error ⟨.expectedPackage, finish⟩
      | u :: args => .ok (args.foldl Exec.take
          ⟨m, s, flags ++ (us.takeWhile Token.isFlag).map Leaf.flagOf, Leaf.argumentOf u, [], m.span.upTo u⟩), []) := by
  induction us generalizing flags with
  | nil => rfl
  | cons u us ih =>
    rw [exec]
    by_cases hf : u.isFlag = true
    · rw [if_pos hf, ih, List.dropWhile_cons_of_pos hf, List.takeWhile_cons_of_pos hf]
      simp
    · rw [if_neg hf, all_eq, List.dropWhile_cons_of_neg hf, List.takeWhile_cons_of_neg hf]
      simp

/-! ### Bodies -/

variable {s : Subcommand} {t u : Token} {us : List Token}

theorem install_ofBody (implied : List Flag) (span : Span) :
    install ⟨m, some s, implied, [], false, span⟩ us = (Command.installOfBody m s implied (span.through us) us, []) := by
  rw [install_eq, Install.foldl_take, Command.installOfBody]
  rfl

theorem exec_ofBody (s : Option Subcommand) {span : Span} (h : span.start = m.span.start) :
    exec m s finish [] us = (Command.execOfBody m s (span.through us) finish us, []) := by
  rw [exec_eq, Command.execOfBody]
  have happend : us.takeWhile Token.isFlag ++ us.dropWhile Token.isFlag = us := List.takeWhile_append_dropWhile
  cases hd : us.dropWhile Token.isFlag with
  | nil => rfl
  | cons u args =>
    rw [hd] at happend
    have hspan : span.through us = (m.span.upTo u).through args := by
      rw [← happend]
      exact Span.through_append_cons h _ u args
    simp only [Exec.foldl_take, hspan, List.nil_append]

theorem run_ofBody {span : Span} (h : span.start = m.span.start) :
    run m s finish us = (Command.runOfBody m s (span.through us) finish us, []) := by
  cases us with
  | nil => rfl
  | cons u us =>
    have hspan : span.through (u :: us) = (m.span.upTo u).through us := Span.through_append_cons h [] u us
    rw [run, all_eq, Run.foldl_take, Command.runOfBody, hspan]
    rfl

theorem create_ofBody {span : Span} (h : span.start = m.span.start) :
    create m s finish us = (Command.createOfBody m s (span.through us) finish us, []) := by
  cases us with
  | nil => rfl
  | cons u us =>
    have hspan : span.through (u :: us) = (m.span.upTo u).through us := Span.through_append_cons h [] u us
    rw [create, all_eq, Create.foldl_take, Command.createOfBody, hspan]
    rfl

/-! ### Lines -/

/-- Whatever goes wrong shows when all tokens have been taken. -/
def TakesAll {α : Type} (r : Except SyntaxError α) : Prop :=
  ∀ e, r = .error e → ∀ line, e.tokensRead line = line.length

theorem takesAll_install (implied : List Flag) (span : Span) : TakesAll (Command.installOfBody m s implied span us) := by
  intro e h line
  rw [SyntaxError.tokensRead, (Command.error_installOfBody h).1]

theorem takesAll_exec (s : Option Subcommand) (span : Span) : TakesAll (Command.execOfBody m s span finish us) := by
  intro e h line
  rw [Command.error_execOfBody h]
  rfl

theorem takesAll_run (span : Span) : TakesAll (Command.runOfBody m s span finish us) := by
  intro e h line
  rw [Command.error_runOfBody h]
  rfl

theorem takesAll_create (span : Span) : TakesAll (Command.createOfBody m s span finish us) := by
  intro e h line
  rw [Command.error_createOfBody h]
  rfl

/-- The tokens of the line that a parser has not read when it answers. -/
def left (ts : List Token) (r : Except SyntaxError Command) : List Token := ts.drop (Command.tokensRead ts r)

theorem as_eq {α : Type} (f : α → Command) {r : Except SyntaxError α} (h : TakesAll r) (ts : List Token) :
    Reading.as f (r, []) = (r.map f, left ts (r.map f)) := by
  have hleft : left ts (r.map f) = [] := by
    apply List.drop_eq_nil_of_le
    cases r with
    | ok a => exact Nat.le_refl _
    | error e => exact Nat.le_of_eq (h e rfl ts).symm
  rw [hleft]
  rfl

theorem global_ofBody {span : Span} (h : span.start = m.span.start) :
    Reading.as .install (global m u finish us) = ((Command.globalOfBody m u (span.through us) finish us).map .install,
      left (t :: u :: us) ((Command.globalOfBody m u (span.through us) finish us).map .install)) := by
  cases us with
  | nil => rfl
  | cons v us =>
    have hspan : span.through (v :: us) = (m.span.upTo v).through us := Span.through_append_cons h [] v us
    rw [global, Command.globalOfBody]
    split
    · rw [install_ofBody, hspan, as_eq _ (takesAll_install _ _) (t :: u :: v :: us)]
    · rfl

theorem verb_ofBody {span : Span} (h : span.start = m.span.start) (hstop : span = m.span.upTo u) :
    verb m u finish us = (Command.ofBody m u (span.through us) finish us,
      left (t :: u :: us) (Command.ofBody m u (span.through us) finish us)) := by
  unfold verb Command.ofBody
  cases Command.Verb.ofText? u.value with
  | none => rfl
  | some v =>
    cases v with
    | dlx =>
      dsimp only
      split
      · rw [exec_ofBody _ h, as_eq _ (takesAll_exec _ _) (t :: u :: us)]
      · rfl
    | install =>
      dsimp only
      rw [← hstop, install_ofBody, as_eq _ (takesAll_install _ _) (t :: u :: us)]
    | run =>
      dsimp only
      rw [run_ofBody h, as_eq _ (takesAll_run _) (t :: u :: us)]
    | create =>
      dsimp only
      rw [create_ofBody h, as_eq _ (takesAll_create _) (t :: u :: us)]
    | global =>
      dsimp only
      split
      · exact global_ofBody h
      · rfl

/-- Reading a line token by token answers what the parser answers, and leaves what the parser says it has not read. -/
theorem line_eq (finish : Token) (ts : List Token) :
    line finish ts = (Command.ofTokens finish ts, left ts (Command.ofTokens finish ts)) := by
  rcases ts with _ | ⟨t, rest⟩
  · rfl
  rw [line, Command.ofTokens]
  cases hm : Manager.ofInvocation? t.value with
  | none => rfl
  | some manager =>
    cases rest with
    | nil => rfl
    | cons u us =>
      dsimp only
      split
      · have hstart : t.span.start = (ManagerWord.mk manager t.value t.span).span.start := rfl
        rw [exec_ofBody none hstart, Token.span, Span.through_spanTo, as_eq _ (takesAll_exec _ _) (t :: u :: us)]
      · have hstart : (t.spanTo u).start = (ManagerWord.mk manager t.value t.span).span.start := rfl
        have hstop : t.spanTo u = (ManagerWord.mk manager t.value t.span).span.upTo u := rfl
        rw [verb_ofBody (t := t) hstart hstop, Span.through_spanTo, List.getLastD_cons]

end Cursor

end CommandBridge
