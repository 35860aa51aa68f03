/-
  CommandBridge.Proofs.Batch.Again — a block that is converted again.

  What a block says to a manager is a block to that manager. If the converted lines are plain, the lines that
  were converted are converted again and the others are copied again, and nothing changes in what the block says
  to that manager.
  - `Command.lineFor_of_parse_line`: a command that was read from a line for a manager has that line.
  - `convert_sayAlone`: what one line says is converted again, between the same blanks.
  - `convert_again`: so is every line of the block.
-/

import CommandBridge.Proofs.Batch.Append
import CommandBridge.Proofs.Canonical
import CommandBridge.Proofs.Relay.Guarded

namespace CommandBridge

/-- A command that was read from another's line for a manager is written as that line for it. -/
theorem Command.lineFor_of_parse_line {t : Text} {c d : Command} {m : Manager} (h : parse t = .ok c)
    (hd : parse (c.lineFor m) = .ok d) : d.lineFor m = c.lineFor m := by
  by_cases hk : c.kind = .install
  · cases c with
    | install c =>
      obtain ⟨e, he, -, hline⟩ := (CanonicalLine.of_parse h m).exists_parse
      rw [he] at hd
      cases hd
      exact hline
    | exec c => cases hk
    | run c => cases hk
    | create c => cases hk
  · obtain ⟨e, he, -, hr⟩ := repeats_hop m h hk
    rw [commandFor_translate, hd] at he
    cases he
    by_cases hm : m = .npm
    · subst hm
      exact hr.npm_kept (.inr fun k hk => List.mem_singleton.1 hk)
    · exact hr.lines m hm

/-- The command that a plain text becomes for a manager converts again, to one of its kind to that manager, and says
    the same to it. -/
theorem convert_commandFor {o : Options} {t : Text} {r : Translation} (h : convert o t = .ok r)
    (hp : ∀ c ∈ Text.trim t, Guard.IsPlain c) (m : Manager) :
    ∃ s, Hop o r m s ∧ s.commandFor m = r.commandFor m ∧ r.commandFor m ≠ [] := by
  obtain ⟨c, hread, ho, rfl⟩ := convert_eq_ok_iff.1 ((convert_trim o t).trans h)
  obtain ⟨hrefusal, hparse⟩ := Command.read_eq_ok_iff.1 hread
  obtain ⟨d, hd, -, hop⟩ := exists_hop (Guard.harmless_trim hp hrefusal) hparse ho m
  refine ⟨d.translate, hop, ?_, ?_⟩ <;> simp only [Command.commandFor_translate]
  · exact Command.lineFor_of_parse_line hparse hd
  · exact Command.ne_nil_of_parse hd

namespace Batch

variable {o : Options} {line : Text}

/-! ## One line -/

/-- The line can be converted. -/
def converts (o : Options) (line : Text) : Bool := (CommandBridge.convert o line).toOption.isSome

theorem sayAlone_of_ok {r : Translation} (h : CommandBridge.convert o line = .ok r) (m : Manager) :
    sayAlone o m line = Text.lead line ++ r.commandFor m ++ Text.trail line := by
  rw [sayAlone, h]

theorem sayAlone_of_error {e : Reason} (h : CommandBridge.convert o line = .error e) (m : Manager) :
    sayAlone o m line = line := by
  rw [sayAlone, h]

/-- The conversion `d` is that of the command which `c` gave for the manager. -/
structure Follows (m : Manager) (c d : Text × Translation) : Prop where
  original : d.1 = c.2.commandFor m
  kind : d.2.kind = c.2.kind
  manager : d.2.manager = m

/-- What a plain line says to a manager is converted again, between the same blanks, and says the same again. -/
theorem convert_sayAlone {r : Translation} (h : CommandBridge.convert o line = .ok r)
    (hp : ∀ c ∈ Text.trim line, Guard.IsPlain c) (m : Manager) :
    ∃ s, CommandBridge.convert o (sayAlone o m line) = .ok s ∧
      Follows m (Text.trim line, r) (Text.trim (sayAlone o m line), s) ∧
      sayAlone o m (sayAlone o m line) = sayAlone o m line := by
  obtain ⟨s, hop, hsame, hne⟩ := convert_commandFor h hp m
  have hlead : ∀ c ∈ Text.lead line, Text.isBlank c = true := fun c => Text.isBlank_of_mem_lead
  have htrail : ∀ c ∈ Text.trail line, Text.isBlank c = true := fun c => Text.isBlank_of_mem_trail
  have htrimmed : Text.IsTrimmed (r.commandFor m) := by
    rw [← hop.trimmed]
    exact Text.isTrimmed_trim _
  have hsay := sayAlone_of_ok h m
  have htrim : Text.trim (sayAlone o m line) = r.commandFor m := by
    rw [hsay, Text.trim_around hlead htrail htrimmed]
  have hconv : CommandBridge.convert o (sayAlone o m line) = .ok s := by rw [← convert_trim, htrim, hop.converted]
  refine ⟨s, hconv, ⟨htrim, hop.kind, hop.manager⟩, ?_⟩
  rw [sayAlone_of_ok hconv, hsame, hsay, Text.lead_around hlead htrimmed hne, Text.trail_around htrail htrimmed hne]

section Line

variable (hp : converts o line = true → ∀ c ∈ Text.trim line, Guard.IsPlain c) (m : Manager)
include hp

theorem plain_of_convert {r : Translation} (h : CommandBridge.convert o line = .ok r) :
    ∀ c ∈ Text.trim line, Guard.IsPlain c :=
  hp (by rw [converts, h]; rfl)

theorem sayAlone_sayAlone : sayAlone o m (sayAlone o m line) = sayAlone o m line := by
  cases h : CommandBridge.convert o line with
  | error e => rw [sayAlone_of_error h, sayAlone_of_error h]
  | ok r =>
    obtain ⟨s, -, -, hsay⟩ := convert_sayAlone h (plain_of_convert hp h) m
    exact hsay

theorem converts_sayAlone : converts o (sayAlone o m line) = converts o line := by
  cases h : CommandBridge.convert o line with
  | error e => rw [sayAlone_of_error h]
  | ok r =>
    obtain ⟨s, hs, -, -⟩ := convert_sayAlone h (plain_of_convert hp h) m
    rw [converts, converts, hs, h]
    rfl

end Line

/-! ## Blocks -/

/-- Of each conversion there is one of what its line says to a manager, in the same order. -/
theorem follows_conversions {ls : List Text}
    (hp : ∀ line ∈ ls, converts o line = true → ∀ c ∈ Text.trim line, Guard.IsPlain c) (m : Manager) :
    List.Forall₂ (Follows m) (conversions o ls) (conversions o (ls.map (sayAlone o m))) := by
  induction ls with
  | nil => exact .nil
  | cons line ls ih =>
    obtain ⟨hline, hls⟩ := List.forall_mem_cons.1 hp
    rw [List.map_cons]
    cases h : CommandBridge.convert o line with
    | error e =>
      rw [sayAlone_of_error h, conversions_cons_error h, conversions_cons_error h]
      exact ih hls
    | ok r =>
      obtain ⟨s, hs, hfollows, -⟩ := convert_sayAlone h (plain_of_convert hline h) m
      rw [conversions_cons_ok h, conversions_cons_ok hs]
      exact .cons hfollows (ih hls)

theorem agree_of_follows {m : Manager} {cs ds : List (Text × Translation)} (h : List.Forall₂ (Follows m) cs ds) :
    Agree (ds.map fun d => d.2.manager) := by
  have hm : ∀ d ∈ ds, d.2.manager = m := by
    induction h with
    | nil => exact List.forall_mem_nil _
    | cons hd _ ih => exact List.forall_mem_cons.2 ⟨hd.manager, ih⟩
  rw [Agree, List.forall_mem_map]
  intro c hc
  rw [List.forall_mem_map]
  intro d hd
  rw [hm c hc, hm d hd]

/-- If the lines that convert are plain, then what a block says to a manager converts again: the same lines, each
    to a command of its kind, to that manager, and to the same text for it. -/
theorem convert_again {t : Text} {b : Block} (h : convert o t = .ok b)
    (hp : ∀ line ∈ Text.lines t, converts o line = true → ∀ c ∈ Text.trim line, Guard.IsPlain c) (m : Manager) :
    ∃ b', convert o (b.commands.get m) = .ok b' ∧ b'.kind = b.kind ∧
      b'.commands.get m = b.commands.get m ∧
      (Text.lines (b.commands.get m)).map (converts o) = (Text.lines t).map (converts o) ∧
      List.Forall₂ (Follows m) b.conversions b'.conversions := by
  rw [convert_eq_outcome] at h
  obtain ⟨-, c, cs, hc, rfl⟩ := outcome_eq_ok h
  have hfollows := follows_conversions hp m
  have hagree := agree_of_follows hfollows
  rw [hc] at hfollows
  obtain ⟨d, ds, hd, -, hds⟩ := List.forall₂_cons_left_iff.1 hfollows
  have hlines : Text.lines (sayAll o (Text.lines t) m) = (Text.lines t).map (sayAlone o m) := lines_joinLines_sayAlone o m t
  simp only [PerManager.get_ofFn, convert_eq_outcome, hlines]
  refine ⟨_, outcome_of_conversions_eq_cons hagree hds, hd.kind, ?_, ?_, hds ▸ hfollows⟩
  · rw [PerManager.get_ofFn, sayAll, sayAll, List.map_map]
    exact congrArg _ (List.map_congr_left fun line hl => sayAlone_sayAlone (hp line hl) m)
  · rw [List.map_map]
    exact List.map_congr_left fun line hl => converts_sayAlone (hp line hl) m

/-- Comments, blank lines and what is no command stay where they are, whatever stands in them. -/
theorem convert_again_script :
    ∃ b, convert .allEnabled "# setup\n\tnpm i -D 'a  b' \r\n\necho \"(\\\" && exit\nnpx -y vite .".toList = .ok b ∧
      b.commands.yarn = "# setup\n\tyarn add --dev 'a  b' \r\n\necho \"(\\\" && exit\nyarn dlx -y vite .".toList ∧
      ∃ b', convert .allEnabled b.commands.yarn = .ok b' ∧ b'.commands.yarn = b.commands.yarn ∧
        List.Forall₂ (Follows .yarn) b.conversions b'.conversions := by
  let t := "# setup\n\tnpm i -D 'a  b' \r\n\necho \"(\\\" && exit\nnpx -y vite .".toList
  have hall : ∀ line ∈ Text.lines t, converts .allEnabled line = true →
      (Text.trim line).all (fun c => decide (Guard.IsPlain c)) = true := by decide +kernel
  have hb : (convert .allEnabled t).toOption.map (fun b => b.commands.yarn) =
      some "# setup\n\tyarn add --dev 'a  b' \r\n\necho \"(\\\" && exit\nyarn dlx -y vite .".toList := by decide +kernel
  cases h : convert .allEnabled t with
  | error e =>
    rw [h] at hb
    cases hb
  | ok b =>
    rw [h] at hb
    obtain ⟨b', hb', -, hsame, -, hfollows⟩ :=
      convert_again h (fun line hl hc => Guard.plain_of_all (hall line hl hc)) .yarn
    exact ⟨b, rfl, Option.some.inj hb, b', hb', hsame, hfollows⟩

end Batch

end CommandBridge
