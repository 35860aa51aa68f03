/-
  CommandBridge.Proofs.Converter — what a converter answers, in whatever order it is used.

  Reading and converting ask for the command; the other steps assign a text or options. The text and the
  options that hold at a step are those assigned last, and the first step that asks while the text can
  be read settles the tree for good. All three are said here of the list of steps alone.
  - `recalls_next`: what one step leaves to be remembered.
  - `recalls_after`: so a converter remembers the last assignments and the tree that was read first.
  - `getElem?_run`: a step is answered by the state that the steps before it have left.
  - `run_answered`: every step of a run is answered as the steps before it say.
-/

import CommandBridge.Converter
import Mathlib.Data.List.Induction

namespace CommandBridge

/-! ## What texts are read as -/

namespace Command

/-- The guard lets the text pass, and without the blanks around it the parser makes the tree of it. -/
def Makes (t : Text) (tree : Command) : Prop := Guard.refusal? t none = none ∧ parse (Text.trim t) = .ok tree

/-- A text is refused, or else it is malformed. -/
inductive Fails (t : Text) : Rejection → Prop
  | refused {r : Reason} : Guard.refusal? t none = some r → Fails t (.refused r)
  | malformed {e : SyntaxError} : Guard.refusal? t none = none → parse (Text.trim t) = .error e →
      Fails t (.malformed e)

theorem fails_of_read {t : Text} {why : Rejection} (h : read t = .error why) : Fails t why := by
  unfold read at h
  split at h
  case h_1 r hr =>
    cases h
    exact .refused hr
  case h_2 hr =>
    cases hp : parse (Text.trim t) with
    | ok c =>
      rw [hp] at h
      cases h
    | error e =>
      rw [hp] at h
      cases h
      exact .malformed hr hp

theorem makes_iff {t : Text} {tree : Command} : Makes t tree ↔ read t = .ok tree := read_eq_ok_iff.symm

end Command

namespace Converter

/-! ## What the steps say by themselves -/

namespace Step

/-- The step has the command read. -/
def asks : Step → Bool
  | read | convert => true
  | setCommand _ | setOptions _ => false

/-- The text that holds after the step, if `t` held before it. -/
def commandAfter (t : Text) : Step → Text
  | setCommand u => u
  | _ => t

/-- The options that hold after the step, if `o` held before it. -/
def optionsAfter (o : Options) : Step → Options
  | setOptions p => p
  | _ => o

theorem commandAfter_of_asks {s : Step} (h : s.asks = true) (t : Text) : s.commandAfter t = t := by
  cases s with
  | read => rfl
  | convert => rfl
  | setCommand u => cases h
  | setOptions p => rfl

theorem optionsAfter_of_asks {s : Step} (h : s.asks = true) (o : Options) : s.optionsAfter o = o := by
  cases s with
  | read => rfl
  | convert => rfl
  | setCommand u => rfl
  | setOptions p => cases h

end Step

/-- The text that was assigned last. -/
def lastCommand (t : Text) (steps : List Step) : Text := steps.foldl Step.commandAfter t

/-- The options that were assigned last. -/
def lastOptions (o : Options) (steps : List Step) : Options := steps.foldl Step.optionsAfter o

/-- Whichever of the steps asks, the text that holds there is not read. -/
def Unread (t : Text) (steps : List Step) : Prop :=
  ∀ before s, before ++ [s] <+: steps → s.asks = true → ¬ ∃ tree, Command.Makes (lastCommand t before) tree

/-- The first of the steps that asks while the text can be read finds `tree`. -/
def ReadFirst (t : Text) (steps : List Step) (tree : Command) : Prop :=
  ∃ before s, before ++ [s] <+: steps ∧ Unread t before ∧ s.asks = true ∧ Command.Makes (lastCommand t before) tree

section Steps

variable {t : Text} {o : Options} {before : List Step} {s : Step} {tree : Command}

@[simp] theorem lastCommand_concat : lastCommand t (before ++ [s]) = s.commandAfter (lastCommand t before) :=
  List.foldl_append

@[simp] theorem lastOptions_concat : lastOptions o (before ++ [s]) = s.optionsAfter (lastOptions o before) :=
  List.foldl_append

theorem unread_nil : Unread t [] := by
  intro before s h
  simp at h

theorem not_readFirst_nil : ¬ ReadFirst t [] tree := by
  rintro ⟨before, s, h, -⟩
  simp at h

theorem unread_concat : Unread t (before ++ [s]) ↔
    Unread t before ∧ (s.asks = true → ¬ ∃ tree, Command.Makes (lastCommand t before) tree) := by
  constructor
  · intro h
    exact ⟨fun b u hb => h b u (hb.trans (List.prefix_append ..)), h before s List.prefix_rfl⟩
  · rintro ⟨hbefore, hs⟩ b u hb
    rcases List.prefix_concat_iff.1 hb with e | hb
    · obtain ⟨rfl, rfl⟩ := List.append_singleton_inj.1 e
      exact hs
    · exact hbefore b u hb

theorem readFirst_concat : ReadFirst t (before ++ [s]) tree ↔
    ReadFirst t before tree ∨ Unread t before ∧ s.asks = true ∧ Command.Makes (lastCommand t before) tree := by
  constructor
  · rintro ⟨b, u, hb, h⟩
    rcases List.prefix_concat_iff.1 hb with e | hb
    · obtain ⟨rfl, rfl⟩ := List.append_singleton_inj.1 e
      exact .inr h
    · exact .inl ⟨b, u, hb, h⟩
  · rintro (⟨b, u, hb, h⟩ | h)
    · exact ⟨b, u, hb.trans (List.prefix_append ..), h⟩
    · exact ⟨before, s, List.prefix_rfl, h⟩

theorem ReadFirst.mono {steps : List Step} (h : ReadFirst t before tree) (hp : before <+: steps) :
    ReadFirst t steps tree := by
  obtain ⟨b, u, hb, h⟩ := h
  exact ⟨b, u, hb.trans hp, h⟩

end Steps

/-! ## What a converter remembers -/

/-- The converter after a step. -/
def next (c : Converter) (s : Step) : Converter := (c.step false s).2

def after (c : Converter) (steps : List Step) : Converter := steps.foldl next c

@[simp] theorem after_concat (c : Converter) (before : List Step) (s : Step) :
    c.after (before ++ [s]) = (c.after before).next s := List.foldl_append

theorem read_snd_command (c : Converter) : c.read.2.command = c.command := by
  unfold read
  split
  · rfl
  · split <;> rfl

theorem read_snd_options (c : Converter) : c.read.2.options = c.options := by
  unfold read
  split
  · rfl
  · split <;> rfl

/-- A converter that began with `t` and `o` is in the state that the steps ask for. -/
structure Recalls (t : Text) (o : Options) (steps : List Step) (c : Converter) : Prop where
  command : c.command = lastCommand t steps
  options : c.options = lastOptions o steps
  kept_none : c.kept = none ↔ Unread t steps
  kept_some : ∀ tree, c.kept = some tree ↔ ReadFirst t steps tree

section Recalls

variable {t : Text} {o : Options} {before : List Step} {c : Converter} {s : Step}

theorem recalls_start (t : Text) (o : Options) : Recalls t o [] { command := t, options := o } where
  command := rfl
  options := rfl
  kept_none := iff_of_true rfl unread_nil
  kept_some _ := iff_of_false nofun not_readFirst_nil

/-- Asking changes neither assignment, and keeps the tree that is read first, by this step or before it. -/
theorem Recalls.ask (h : Recalls t o before c) (hs : s.asks = true) : Recalls t o (before ++ [s]) c.read.2 := by
  refine ⟨?_, ?_, ?_, ?_⟩
  · rw [read_snd_command, h.command, lastCommand_concat, Step.commandAfter_of_asks hs]
  · rw [read_snd_options, h.options, lastOptions_concat, Step.optionsAfter_of_asks hs]
  all_goals
    simp only [unread_concat, readFirst_concat, hs, true_imp_iff, true_and, ← h.kept_none, ← h.kept_some, ← h.command,
      Command.makes_iff]
    cases hk : c.kept with
    | some tree =>
      rw [read_of_kept hk]
      simp [hk]
    | none => cases hr : Command.read c.command <;> simp [read, hk, hr]

theorem recalls_next (h : Recalls t o before c) (s : Step) : Recalls t o (before ++ [s]) (c.next s) := by
  cases s with
  | read => exact h.ask rfl
  | convert => exact h.ask rfl
  | setCommand u =>
    refine ⟨by simp [next, step, Step.commandAfter], by simp [next, step, Step.optionsAfter, h.options], ?_, ?_⟩
    · simp [unread_concat, Step.asks, ← h.kept_none, next, step]
    · simp [readFirst_concat, Step.asks, ← h.kept_some, next, step]
  | setOptions p =>
    refine ⟨by simp [next, step, Step.commandAfter, h.command], by simp [next, step, Step.optionsAfter], ?_, ?_⟩
    · simp [unread_concat, Step.asks, ← h.kept_none, next, step]
    · simp [readFirst_concat, Step.asks, ← h.kept_some, next, step]

/-- After any steps a converter has the last assignments, and the tree that was read first. -/
theorem recalls_after (t : Text) (o : Options) (steps : List Step) :
    Recalls t o steps (after { command := t, options := o } steps) := by
  induction steps using List.reverseRecOn with
  | nil => exact recalls_start t o
  | append_singleton before s ih =>
    rw [after_concat]
    exact recalls_next ih s

/-- No two trees are read first. -/
theorem ReadFirst.unique {steps : List Step} {tree tree' : Command} (h : ReadFirst t steps tree)
    (h' : ReadFirst t steps tree') : tree = tree' := by
  have hr := recalls_after t Options.standard steps
  exact Option.some.inj (((hr.kept_some tree).2 h).symm.trans ((hr.kept_some tree').2 h'))

end Recalls

/-! ## Runs -/

theorem runFrom_cons (c : Converter) (again : Bool) (s : Step) (steps : List Step) :
    c.runFrom again (s :: steps) =
      (c.step again s).1 :: (c.next s).runFrom (again || (c.step again s).1.hasTree) steps := by
  cases s <;> rfl

theorem runFrom_append (c : Converter) (again : Bool) (before steps : List Step) :
    c.runFrom again (before ++ steps) = c.runFrom again before ++
      (c.after before).runFrom (again || (c.runFrom again before).any Reply.hasTree) steps := by
  induction before generalizing c again with
  | nil => simp [runFrom, after]
  | cons s before ih =>
    rw [List.cons_append, runFrom_cons, runFrom_cons, ih, List.any_cons, Bool.or_assoc]
    rfl

theorem run_concat (c : Converter) (before : List Step) (s : Step) :
    c.run (before ++ [s]) = c.run before ++ [((c.after before).step ((c.run before).any Reply.hasTree) s).1] := by
  rw [run, runFrom_append, Bool.false_or, runFrom_cons]
  rfl

theorem length_run (c : Converter) (steps : List Step) : (c.run steps).length = steps.length := by
  induction steps using List.reverseRecOn with
  | nil => rfl
  | append_singleton before s ih => simp [run_concat, ih]

/-- A step is answered by the state that the steps before it have left; later steps do not matter. -/
theorem getElem?_run (c : Converter) {before steps : List Step} {s : Step} (h : before ++ [s] <+: steps) :
    (c.run steps)[before.length]? = some ((c.after before).step ((c.run before).any Reply.hasTree) s).1 := by
  obtain ⟨rest, rfl⟩ := h
  have hrun : c.run (before ++ [s] ++ rest) = c.run (before ++ [s]) ++ _ := runFrom_append c false (before ++ [s]) rest
  rw [hrun, run_concat, List.append_assoc, List.getElem?_append_right (Nat.le_of_eq (length_run c before)), length_run,
    Nat.sub_self]
  rfl

/-! ## Answers -/

/-- The answer to a step after the steps `before`, from a converter that began with `t` and `o`. -/
inductive Answered (t : Text) (o : Options) (before : List Step) : Step → Reply → Prop
  | unreadable {why : Rejection} : Unread t before → Command.Fails (lastCommand t before) why →
      Answered t o before .read (.read (.error why) false)
  | rejected {why : Rejection} : Unread t before → Command.Fails (lastCommand t before) why →
      Answered t o before .convert (.converted (.rejected why))
  /-- The tree is handed out again if an earlier reading has handed it out. -/
  | read {tree : Command} {again : Bool} : ReadFirst t (before ++ [.read]) tree →
      (again = true ↔ ∃ earlier, earlier ++ [.read] <+: before ∧ ReadFirst t (earlier ++ [.read]) tree) →
      Answered t o before .read (.read (.ok tree) again)
  | disabled {tree : Command} : ReadFirst t (before ++ [.convert]) tree →
      (lastOptions o before).isEnabled tree.kind = false →
      Answered t o before .convert (.converted (.disabled tree.kind))
  | converted {tree : Command} : ReadFirst t (before ++ [.convert]) tree →
      (lastOptions o before).isEnabled tree.kind = true →
      Answered t o before .convert (.converted (.converted tree.translate))
  | command (u : Text) : Answered t o before (.setCommand u) (.command u)
  | options (p : Options) : Answered t o before (.setOptions p) (.options p)

section Answers

variable {t : Text} {o : Options} {before : List Step} {c : Converter}

/-- What is read is the tree that was read first, or the reason why the text cannot be read. -/
theorem Recalls.read_fst (h : Recalls t o before c) {s : Step} (hs : s.asks = true) :
    (∃ tree, c.read.1 = .ok tree ∧ ReadFirst t (before ++ [s]) tree) ∨
      ∃ why, c.read.1 = .error why ∧ Unread t before ∧ Command.Fails (lastCommand t before) why := by
  cases hk : c.kept with
  | some tree =>
    have hfirst : ReadFirst t before tree := (h.kept_some tree).1 hk
    exact .inl ⟨tree, by rw [read_of_kept hk], hfirst.mono (List.prefix_append ..)⟩
  | none =>
    have hunread : Unread t before := h.kept_none.1 hk
    cases hr : Command.read c.command with
    | ok tree =>
      have hmakes : Command.Makes (lastCommand t before) tree := by rw [Command.makes_iff, ← h.command, hr]
      exact .inl ⟨tree, by simp [Converter.read, hk, hr], readFirst_concat.2 (.inr ⟨hunread, hs, hmakes⟩)⟩
    | error why =>
      have hfails := Command.fails_of_read hr
      rw [h.command] at hfails
      exact .inr ⟨why, by simp [Converter.read, hk, hr], hunread, hfails⟩

theorem Recalls.hasTree_iff (h : Recalls t o before c) (again : Bool) (s : Step) :
    (c.step again s).1.hasTree = true ↔ s = .read ∧ ∃ tree, ReadFirst t (before ++ [.read]) tree := by
  cases s with
  | read =>
    rcases h.read_fst (s := .read) rfl with ⟨tree, hr, hfirst⟩ | ⟨why, hr, hunread, hfails⟩
    · simp [step, hr, Reply.hasTree]
      exact ⟨tree, hfirst⟩
    · have hkept := (h.ask (s := .read) rfl).kept_some
      rw [read_of_error hr, h.kept_none.2 hunread] at hkept
      simp [step, hr, Reply.hasTree, ← hkept]
  | convert => simp [step, Reply.hasTree]
  | setCommand u => simp [step, Reply.hasTree]
  | setOptions p => simp [step, Reply.hasTree]

/-- A reply of the run has handed out a tree exactly if some reading has succeeded. -/
theorem any_hasTree_run (t : Text) (o : Options) (steps : List Step) :
    (run { command := t, options := o } steps).any Reply.hasTree = true ↔
      ∃ earlier tree, earlier ++ [.read] <+: steps ∧ ReadFirst t (earlier ++ [.read]) tree := by
  induction steps using List.reverseRecOn with
  | nil => simp [run, runFrom]
  | append_singleton before s ih =>
    rw [run_concat, List.any_append, Bool.or_eq_true, ih, List.any_cons, List.any_nil, Bool.or_false,
      (recalls_after t o before).hasTree_iff]
    simp only [List.prefix_concat_iff, List.append_singleton_inj]
    constructor
    · rintro (⟨earlier, tree, hp, hfirst⟩ | ⟨rfl, tree, hfirst⟩)
      · exact ⟨earlier, tree, .inr hp, hfirst⟩
      · exact ⟨before, tree, .inl ⟨rfl, rfl⟩, hfirst⟩
    · rintro ⟨earlier, tree, ⟨rfl, rfl⟩ | hp, hfirst⟩
      · exact .inr ⟨rfl, tree, hfirst⟩
      · exact .inl ⟨earlier, tree, hp, hfirst⟩

theorem again_iff (o : Options) {tree : Command} (h : ReadFirst t (before ++ [.read]) tree) :
    (run { command := t, options := o } before).any Reply.hasTree = true ↔
      ∃ earlier, earlier ++ [.read] <+: before ∧ ReadFirst t (earlier ++ [.read]) tree := by
  rw [any_hasTree_run]
  constructor
  · rintro ⟨earlier, tree', hp, hfirst⟩
    have hsame : tree' = tree := (hfirst.mono (hp.trans (List.prefix_append ..))).unique h
    exact ⟨earlier, hp, hsame ▸ hfirst⟩
  · rintro ⟨earlier, hp, hfirst⟩
    exact ⟨earlier, tree, hp, hfirst⟩

/-- A step is answered as the steps before it say. -/
theorem answered_step (t : Text) (o : Options) (before : List Step) (s : Step) :
    Answered t o before s ((after { command := t, options := o } before).step
      ((run { command := t, options := o } before).any Reply.hasTree) s).1 := by
  have hr := recalls_after t o before
  cases s with
  | read =>
    rcases hr.read_fst (s := .read) rfl with ⟨tree, hread, hfirst⟩ | ⟨why, hread, hunread, hfails⟩
    · rw [step, hread]
      exact .read hfirst (again_iff o hfirst)
    · -- Nothing was read before, so no reply has handed out a tree.
      have hnone : (run { command := t, options := o } before).any Reply.hasTree = false := by
        rw [Bool.eq_false_iff, ne_eq, any_hasTree_run]
        rintro ⟨earlier, tree, hp, hfirst⟩
        have hkept := (hr.kept_some tree).2 (hfirst.mono hp)
        rw [hr.kept_none.2 hunread] at hkept
        cases hkept
      rw [step, hread, hnone]
      exact .unreadable hunread hfails
  | convert =>
    rcases hr.read_fst (s := .convert) rfl with ⟨tree, hread, hfirst⟩ | ⟨why, hread, hunread, hfails⟩
    · rw [step, convert, hread, hr.options, Verdict.of]
      split
      case isTrue he => exact .converted hfirst he
      case isFalse he => exact .disabled hfirst (Bool.eq_false_iff.2 he)
    · rw [step, convert, hread, Verdict.of]
      exact .rejected hunread hfails
  | setCommand u => exact .command u
  | setOptions p => exact .options p

end Answers

/-- A converter answers every step of a run. Until a step that asks finds a text that can be read, reading and
    converting fail for the reason of the text that holds there, and nothing is kept. From that step on the tree
    that it read is kept: reading hands it out, and converting translates it if the options that hold there
    enable its class, whatever was assigned in between. The assignments alone settle the text and the options. -/
theorem run_answered (t : Text) (o : Options) (steps : List Step) :
    (run { command := t, options := o } steps).length = steps.length ∧
    (∀ before s, before ++ [s] <+: steps →
      ∃ reply, (run { command := t, options := o } steps)[before.length]? = some reply ∧ Answered t o before s reply) ∧
    Recalls t o steps (after { command := t, options := o } steps) :=
  ⟨length_run _ steps, fun before s h => ⟨_, getElem?_run _ h, answered_step t o before s⟩, recalls_after t o steps⟩

example : (run { command := "npm".toList, options := Options.standard }
    [.read, .setCommand "npm i".toList, .convert, .setCommand "npm".toList, .read, .read]).map Reply.hasTree =
      [false, false, false, false, true, true] := by decide +kernel

end Converter

end CommandBridge
