/-
  CommandBridge.Proofs.Batch — a block is its lines, each converted on its own.

  A batch goes through the lines with the manager that it has seen, passes over blank lines and comments,
  and ends at the first line that names another manager. None of this shows in what comes out.
  - `says_iff`: a line says one text to a manager.
  - `lines_run_cons`: what one line of the block adds to a run.
  - `lines_run`: a run makes of every line what it becomes on its own, or fails if two managers are named.
  - `convert_lines`: the outcome for a block, said by the conversions of its lines alone.
-/

import CommandBridge.Batch
import CommandBridge.Proofs.Vocabulary

namespace CommandBridge

/-! ## One line -/

/-- A line feed that is not in a text is not in the commands it becomes either. -/
theorem newline_not_mem_commandFor {o : Options} {t : Text} {r : Translation} (h : convert o t = .ok r)
    (ht : '\n' ∉ t) (m : Manager) : '\n' ∉ r.commandFor m := by
  obtain ⟨c, hread, -, rfl⟩ := convert_eq_ok_iff.1 h
  rw [Command.commandFor_translate]
  intro hn
  rcases Command.mem_text_or_ownChars (Command.read_eq_ok_iff.1 hread).2 m _ hn with hn | hn
  · exact ht (Text.trim_subset t hn)
  · exact absurd hn (by decide)

namespace Batch

/-- What a line becomes on its own. -/
def Line.ofText (o : Options) (line : Text) : Line :=
  match CommandBridge.convert o line with
  | .ok r => .converted line r
  | .error _ => .copied line

/-- What a line comes to for a manager on its own: its command with the blanks around it, or the line as it is. -/
def sayAlone (o : Options) (m : Manager) (line : Text) : Text :=
  match CommandBridge.convert o line with
  | .ok r => Text.lead line ++ r.commandFor m ++ Text.trail line
  | .error _ => line

/-- The line says a text to the manager: its command, where the line has what stands between its blanks, or else the
    line as it is. -/
inductive Says (o : Options) (m : Manager) : Text → Text → Prop
  | converted {before body after : Text} {r : Translation} : CommandBridge.convert o (before ++ body ++ after) = .ok r →
      (∀ c ∈ before, Text.isBlank c = true) → (∀ c ∈ after, Text.isBlank c = true) → body ≠ [] →
      (∀ c ∈ body.head?, Text.isBlank c = false) → (∀ c ∈ body.getLast?, Text.isBlank c = false) →
      Says o m (before ++ body ++ after) (before ++ r.commandFor m ++ after)
  | copied {line : Text} {reason : Reason} : CommandBridge.convert o line = .error reason → Says o m line line

theorem say_ofText (o : Options) (m : Manager) (line : Text) : (Line.ofText o line).say m = sayAlone o m line := by
  unfold Line.ofText sayAlone
  cases CommandBridge.convert o line <;> rfl

theorem map_say_ofText (o : Options) (m : Manager) (ls : List Text) :
    (ls.map (Line.ofText o)).map (Line.say m) = ls.map (sayAlone o m) := by
  rw [List.map_map]
  exact List.map_congr_left fun line _ => say_ofText o m line

theorem conversion?_ofText (o : Options) (line : Text) : (Line.ofText o line).conversion? =
    (CommandBridge.convert o line).toOption.map fun r => (Text.trim line, r) := by
  unfold Line.ofText
  cases CommandBridge.convert o line <;> rfl

theorem newline_not_mem_sayAlone {o : Options} {line : Text} (h : '\n' ∉ line) (m : Manager) :
    '\n' ∉ sayAlone o m line := by
  unfold sayAlone
  split
  case h_1 r hr =>
    intro hn
    rw [List.mem_append, List.mem_append] at hn
    rcases hn with (hn | hn) | hn
    · exact h (List.takeWhile_subset _ hn)
    · exact newline_not_mem_commandFor hr h m hn
    · apply h
      rw [← Text.trimRight_append_trail line]
      exact List.mem_append_right _ hn
  case h_2 => exact h

/-- What a batch passes over could not be converted: it is refused, or no manager is called with a `#`. -/
theorem convert_of_isIgnored {line : Text} (h : isIgnored (Text.trim line) = true) (o : Options) (r : Translation) :
    CommandBridge.convert o line ≠ .ok r := by
  intro hr
  obtain ⟨c, hread, -, -⟩ := convert_eq_ok_iff.1 hr
  obtain ⟨hrefusal, hparse⟩ := Command.read_eq_ok_iff.1 hread
  rcases Bool.or_eq_true_iff.1 h with he | hc
  · rw [Guard.refusal?, if_pos he] at hrefusal
    cases hrefusal
  · obtain ⟨rest, ht⟩ := List.head?_eq_some_iff.1 (beq_iff_eq.1 hc)
    obtain ⟨u, us, hs, hu⟩ := Command.invocation_of_parse hparse
    rw [ht, Token.scan_lexeme (by decide)] at hs
    obtain ⟨rfl, -⟩ := List.cons.inj hs
    obtain ⟨m, hm⟩ := Option.isSome_iff_exists.1 hu
    have hall : ∀ p ∈ Manager.invocations, p.1.head? ≠ some '#' := by decide
    obtain ⟨before, after, e, -⟩ := List.lookup_eq_some_iff.1 hm
    exact hall _ (by rw [e]; exact List.mem_append_right _ (List.mem_cons_self ..)) rfl

theorem trim_ne_nil_of_convert {o : Options} {line : Text} {r : Translation}
    (h : CommandBridge.convert o line = .ok r) : Text.trim line ≠ [] := by
  intro he
  exact convert_of_isIgnored (by rw [he]; rfl) o r h

/-- A line says one thing to a manager. -/
theorem says_iff {o : Options} {m : Manager} {line said : Text} : Says o m line said ↔ said = sayAlone o m line := by
  constructor
  · intro h
    cases h with
    | converted hr hbefore hafter hne hhead hlast =>
      rw [sayAlone, hr, Text.lead_around hbefore ⟨hhead, hlast⟩ hne, Text.trail_around hafter ⟨hhead, hlast⟩ hne]
    | copied he => rw [sayAlone, he]
  · rintro rfl
    unfold sayAlone
    cases hr : CommandBridge.convert o line with
    | error reason => exact .copied hr
    | ok r =>
      have hne := trim_ne_nil_of_convert hr
      have hcut := Text.lead_trim_trail hne
      have ht := Text.isTrimmed_trim line
      have hsays := Says.converted (m := m) (hcut.symm ▸ hr) (fun _ => Text.isBlank_of_mem_lead)
        (fun _ => Text.isBlank_of_mem_trail) hne ht.1 ht.2
      rw [hcut] at hsays
      exact hsays

/-! ## A run -/

/-- What one line of the block adds to a run. -/
theorem lines_run_cons (o : Options) (n : Nat) (first : Option Manager) (line : Text) (rest : List Text) :
    (run o n first (line :: rest)).lines =
      match CommandBridge.convert o line with
      | .error _ => (run o (n + 1) first rest).lines.map (.copied line :: ·)
      | .ok r =>
        if r.manager = first.getD r.manager then
          (run o (n + 1) (some (first.getD r.manager)) rest).lines.map (.converted line r :: ·)
        else .error .mixedManagers := by
  have hv : (verdict o (Text.trim line)).outcome = CommandBridge.convert o line := convert_trim o line
  cases hc : CommandBridge.convert o line with
  | error reason =>
    rw [hc] at hv
    simp only [run, hv]
    split <;> rfl
  | ok r =>
    have hi : ¬ isIgnored (Text.trim line) = true := fun h => convert_of_isIgnored h o r hc
    rw [hc] at hv
    simp only [run, hv, if_neg hi]
    split <;> rfl

/-- The translations of the lines that can be converted. -/
def translations (o : Options) (ls : List Text) : List Translation :=
  ls.filterMap fun line => (CommandBridge.convert o line).toOption

/-- The manager seen before some lines, and those that the lines name. -/
def named (o : Options) (first : Option Manager) (ls : List Text) : List Manager :=
  first.toList ++ (translations o ls).map Translation.manager

def Agree (ms : List Manager) : Prop := ∀ a ∈ ms, ∀ b ∈ ms, a = b

instance (ms : List Manager) : Decidable (Agree ms) := inferInstanceAs (Decidable (∀ a ∈ ms, ∀ b ∈ ms, a = b))

theorem named_cons_error {o : Options} {line : Text} {reason : Reason} (h : CommandBridge.convert o line = .error reason)
    (first : Option Manager) (rest : List Text) : named o first (line :: rest) = named o first rest := by
  simp [named, translations, h, Except.toOption]

/-- A line that names the manager seen before, or the first one, changes nothing about the others. -/
theorem agree_named_cons {o : Options} {line : Text} {r : Translation} (h : CommandBridge.convert o line = .ok r)
    (first : Option Manager) (rest : List Text) : Agree (named o first (line :: rest)) ↔
      r.manager = first.getD r.manager ∧ Agree (named o (some (first.getD r.manager)) rest) := by
  have hn : named o first (line :: rest) =
      first.toList ++ r.manager :: (translations o rest).map Translation.manager := by
    simp [named, translations, h, Except.toOption]
  rw [hn, named]
  cases first with
  | none => simp
  | some m =>
    rw [Option.getD_some]
    constructor
    · intro ha
      have hm : r.manager = m := ha _ (by simp) _ (by simp)
      refine ⟨hm, fun a hmem b hmem' => ha a ?_ b ?_⟩ <;> simp_all
    · intro h
      obtain ⟨hm, ha⟩ := h
      intro a hmem b hmem'
      refine ha a ?_ b ?_ <;> simp_all

/-- A run makes of every line what it becomes on its own, or fails if two managers are named. -/
theorem lines_run (o : Options) (n : Nat) (first : Option Manager) (ls : List Text) : (run o n first ls).lines =
    if Agree (named o first ls) then .ok (ls.map (Line.ofText o)) else .error .mixedManagers := by
  induction ls generalizing n first with
  | nil =>
    have ha : Agree (named o first []) := by
      cases first <;> simp [named, translations, Agree]
    rw [if_pos ha]
    rfl
  | cons line rest ih =>
    rw [lines_run_cons]
    cases hc : CommandBridge.convert o line with
    | error reason =>
      have hl : Line.ofText o line = .copied line := by rw [Line.ofText, hc]
      simp only [ih, named_cons_error hc, List.map_cons, hl]
      split <;> rfl
    | ok r =>
      have hl : Line.ofText o line = .converted line r := by rw [Line.ofText, hc]
      simp only [ih, agree_named_cons hc, List.map_cons, hl]
      by_cases hm : r.manager = first.getD r.manager
      · rw [if_pos hm]
        simp only [and_iff_right hm]
        split <;> rfl
      · simp only [hm, false_and, if_false]

/-! ## Blocks -/

theorem filterMap_conversion?_ofText (o : Options) (ls : List Text) :
    (ls.map (Line.ofText o)).filterMap Line.conversion? =
      ls.filterMap fun line => (CommandBridge.convert o line).toOption.map fun r => (Text.trim line, r) := by
  rw [List.filterMap_map]
  exact congrArg (List.filterMap · ls) (funext fun line => conversion?_ofText o line)

theorem translations_eq_map (o : Options) (ls : List Text) :
    translations o ls = ((ls.map (Line.ofText o)).filterMap Line.conversion?).map Prod.snd := by
  rw [filterMap_conversion?_ofText, List.map_filterMap, translations]
  congr 1
  funext line
  cases CommandBridge.convert o line <;> rfl

/-- A block that was converted is its lines, each as it is converted on its own. -/
structure Block.Joins (b : Block) (o : Options) (ls : List Text) : Prop where
  kind : ∃ r ∈ (translations o ls).head?, b.kind = r.kind
  conversions : b.conversions =
    ls.filterMap fun line => (CommandBridge.convert o line).toOption.map fun r => (Text.trim line, r)
  lines : ∀ m, List.Forall₂ (Says o m) ls (Text.lines (b.commands.get m))

section Outcome

variable {o : Options} {t : Text}

theorem not_agree_named_none {ls : List Text} : ¬ Agree (named o none ls) ↔
    ∃ r ∈ translations o ls, ∃ s ∈ translations o ls, r.manager ≠ s.manager := by
  simp [Agree, named]

theorem convert_of_not_agree (h : ¬ Agree (named o none (Text.lines t))) :
    convert o t = .error .mixedManagers := by
  rw [convert, Run.outcome, start, lines_run, if_neg h]
  rfl

theorem convert_of_agree (h : Agree (named o none (Text.lines t))) :
    convert o t = Block.ofLines ((Text.lines t).map (Line.ofText o)) := by
  rw [convert, Run.outcome, start, lines_run, if_pos h]
  rfl

theorem agree_of_translations_eq_nil {ls : List Text} (h : translations o ls = []) : Agree (named o none ls) := by
  simp [Agree, named, h]

theorem ofLines_eq_error {ls : List Text} (h : translations o ls = []) :
    Block.ofLines (ls.map (Line.ofText o)) = .error .notSupported := by
  rw [translations_eq_map, List.map_eq_nil_iff] at h
  rw [Block.ofLines, h]

/-- The lines of a block come back from its text, since no command holds a line feed. -/
theorem lines_joinLines_sayAlone (o : Options) (m : Manager) (t : Text) :
    Text.lines (Text.joinLines ((Text.lines t).map (sayAlone o m))) = (Text.lines t).map (sayAlone o m) := by
  apply Text.lines_joinLines
  · exact List.forall_mem_map.2 fun line hl => newline_not_mem_sayAlone (Text.newline_not_mem_of_mem_lines hl) m
  · rw [Ne, List.map_eq_nil_iff]
    exact List.splitOn_ne_nil _ _

theorem forall₂_says (o : Options) (m : Manager) (ls : List Text) :
    List.Forall₂ (Says o m) ls (ls.map (sayAlone o m)) := by
  rw [List.forall₂_map_right_iff, List.forall₂_same]
  exact fun line _ => says_iff.2 rfl

theorem exists_ofLines (h : translations o (Text.lines t) ≠ []) :
    ∃ b, Block.ofLines ((Text.lines t).map (Line.ofText o)) = .ok b ∧ b.Joins o (Text.lines t) := by
  have htrans := translations_eq_map o (Text.lines t)
  have hconv := filterMap_conversion?_ofText o (Text.lines t)
  unfold Block.ofLines
  cases hcs : ((Text.lines t).map (Line.ofText o)).filterMap Line.conversion? with
  | nil =>
    rw [hcs] at htrans
    exact absurd htrans h
  | cons c cs =>
    rw [hcs] at htrans hconv
    refine ⟨_, rfl, ⟨c.2, by rw [htrans]; rfl, rfl⟩, hconv, fun m => ?_⟩
    rw [PerManager.get_ofFn, map_say_ofText, lines_joinLines_sayAlone]
    exact forall₂_says o m _

end Outcome

/-- A batch fails for mixed managers exactly if two lines that convert name two of them, and for nothing to
    convert exactly if no line converts; otherwise it gives a block, which is its lines as each is converted
    on its own. -/
theorem convert_lines (o : Options) (t : Text) :
    (convert o t = .error .mixedManagers ↔ ∃ r ∈ translations o (Text.lines t),
      ∃ s ∈ translations o (Text.lines t), r.manager ≠ s.manager) ∧
    (convert o t = .error .notSupported ↔ translations o (Text.lines t) = []) ∧
    (convert o t = .error .mixedManagers ∨ convert o t = .error .notSupported ∨
      ∃ b, convert o t = .ok b ∧ b.Joins o (Text.lines t)) := by
  rw [← not_agree_named_none]
  by_cases ha : Agree (named o none (Text.lines t))
  case neg =>
    have hne : translations o (Text.lines t) ≠ [] := fun h => ha (agree_of_translations_eq_nil h)
    simp [convert_of_not_agree ha, ha, hne]
  by_cases hne : translations o (Text.lines t) = []
  · simp [convert_of_agree ha, ofLines_eq_error hne, ha, hne]
  · obtain ⟨b, hb, hj⟩ := exists_ofLines hne
    simp [convert_of_agree ha, hb, ha, hne, hj]

end Batch

end CommandBridge
