/-
  CommandBridge.Proofs.Synonyms — headers that ask for the same.

  A package is run by `npx` and `bunx` as by `pnpm dlx` and `yarn dlx`, an install has three verbs, and to
  yarn it is global by a header or by a flag. Which of these the user chose shows in the manager of the
  summary, and in the flags of an install, which npm and pnpm keep if one of them was asked.
  - `alike_answer`: readers that fail for one reason answer alike if what one reads the other reads.
  - `Install.Rephrases.parts_eq`: when installs from the same tokens are written the same.
  - `convert_synonyms`: behind headers that ask for the same, every text is converted alike.
-/

import CommandBridge.Proofs.Opening
import CommandBridge.Proofs.Relay.Stable

namespace CommandBridge

open Token (Item)

/-! ## Conversions that are alike -/

/-- Two conversions fail for the same reason, or have the same lines for some managers and the same summary, but
    that the second is of a command to `m`. -/
inductive Alike (lines : Manager → Prop) (m : Manager) : Except Reason Translation → Except Reason Translation → Prop
  | failed (reason : Reason) : Alike lines m (.error reason) (.error reason)
  | converted {r s : Translation} : (∀ k, lines k → s.commandFor k = r.commandFor k) →
      s.summary = r.summary.withManager m → Alike lines m (.ok r) (.ok s)

theorem Alike.mono {lines lines' : Manager → Prop} {m : Manager} {x y : Except Reason Translation} (h : Alike lines m x y)
    (hl : ∀ k, lines' k → lines k) : Alike lines' m x y := by
  cases h with
  | failed reason => exact .failed reason
  | converted hlines hs => exact .converted (fun k hk => hlines k (hl k hk)) hs

/-- What is alike in everything, and alike to itself as a command to the same manager, is the same. -/
theorem Alike.eq {m : Manager} {x y : Except Reason Translation} (h : Alike (fun _ => True) m x y)
    (hx : Alike (fun _ => True) m x x) : y = x := by
  cases h with
  | failed reason => rfl
  | @converted r s hlines hs =>
    cases hx with
    | converted _ hr =>
      obtain ⟨commands, summary⟩ := s
      have hc : commands = r.commands := PerManager.ext_get fun k => hlines k trivial
      have hsummary : summary = r.summary := hs.trans hr.symm
      rw [hc, hsummary]

section Readers

variable {α : Type} {f : α → Command} {lines : Manager → Prop} {m : Manager} {x y : Except SyntaxError α}

/-- A reader fails at most because the text breaks off. -/
def OnlyBreaksOff (x : Except SyntaxError α) : Prop := ∀ e, x = .error e → e.reason = .parseError

theorem answer_ok (o : Options) (c : Command) :
    answer o (.ok c) = if o.isEnabled c.kind then .ok c.translate else .error .disabled := by
  show (Verdict.of o (.ok c)).outcome = _
  rw [Verdict.of]
  split <;> rfl

theorem answer_error (o : Options) (e : SyntaxError) : answer o (.error e) = .error e.reason := rfl

theorem kind_withManager (s : Summary) (m : Manager) : (s.withManager m).kind = s.kind := by cases s <;> rfl

/-- Readers that fail for one reason answer alike if what one reads the other reads. -/
theorem alike_answer (o : Options) (hx : OnlyBreaksOff x) (hy : OnlyBreaksOff y)
    (hxy : ∀ c, x = .ok c → ∃ d, y = .ok d ∧ (∀ k, lines k → (f d).parts k = (f c).parts k) ∧
      (f d).summary = (f c).summary.withManager m)
    (hyx : ∀ d, y = .ok d → ∃ c, x = .ok c) : Alike lines m (answer o (x.map f)) (answer o (y.map f)) := by
  cases x with
  | error e =>
    cases y with
    | error e' =>
      rw [Except.map, Except.map, answer_error, answer_error, hx e rfl, hy e' rfl]
      exact .failed .parseError
    | ok d =>
      obtain ⟨c, hc⟩ := hyx d rfl
      cases hc
  | ok c =>
    obtain ⟨d, rfl, hlines, hs⟩ := hxy c rfl
    have hk : (f d).kind = (f c).kind := by rw [← Command.kind_summary, hs, kind_withManager, Command.kind_summary]
    rw [Except.map, Except.map, answer_ok, answer_ok, hk]
    split
    · refine .converted (fun k hk => ?_) hs
      rw [Command.commandFor_translate, Command.commandFor_translate]
      exact congrArg CommandLine.join (hlines k hk)
    · exact .failed .disabled

end Readers

/-! ## Bodies that say the same -/

namespace Command

variable {w w' : ManagerWord} {span span' : Span} {finish finish' : Token} {body us : List Token}

theorem map_item_filter_congr (h : us.map Token.item = body.map Token.item) (p : Item → Bool) :
    (us.filter fun u => p u.item).map Token.item = (body.filter fun u => p u.item).map Token.item := by
  have hp := congrArg (List.filter p) h
  rw [List.filter_map, List.filter_map] at hp
  exact hp

theorem any_item_congr (h : us.map Token.item = body.map Token.item) (p : Item → Bool) :
    (us.any fun u => p u.item) = body.any fun u => p u.item := by
  have hp := congrArg (List.any · p) h
  simp only [List.any_map] at hp
  exact hp

/-! ### Execs -/

theorem onlyBreaksOff_exec (s : Option Subcommand) : OnlyBreaksOff (execOfBody w s span finish body) := by
  intro e he
  rw [error_execOfBody he]
  rfl

theorem alike_exec (o : Options) (s s' : Option Subcommand) (hu : us.map Token.item = body.map Token.item) :
    Alike (fun _ => True) w'.manager (answer o ((execOfBody w s span finish body).map exec))
      (answer o ((execOfBody w' s' span' finish' us).map exec)) := by
  refine alike_answer o (onlyBreaksOff_exec s) (onlyBreaksOff_exec s') ?_ ?_
  · intro c hc
    obtain ⟨d, hd, hs⟩ := exec_congr hc hu
    refine ⟨d, hd, fun k _ => ?_, congrArg Summary.exec hs⟩
    show d.parts k = c.parts k
    rw [parts_exec hd, parts_exec hc, hu]
  · intro d hd
    obtain ⟨c, hc, -⟩ := exec_congr hd hu.symm
    exact ⟨c, hc⟩

/-! ### Runs -/

theorem onlyBreaksOff_run (s : Subcommand) : OnlyBreaksOff (runOfBody w s span finish body) := by
  intro e he
  rw [error_runOfBody he]
  rfl

theorem alike_run (o : Options) (s s' : Subcommand) (hu : us.map Token.item = body.map Token.item) :
    Alike (fun _ => True) w'.manager (answer o ((runOfBody w s span finish body).map run))
      (answer o ((runOfBody w' s' span' finish' us).map run)) := by
  refine alike_answer o (onlyBreaksOff_run s) (onlyBreaksOff_run s') ?_ ?_
  · intro c hc
    obtain ⟨d, hd, hs⟩ := run_congr hc hu
    refine ⟨d, hd, fun k _ => ?_, congrArg Summary.run hs⟩
    show d.parts k = c.parts k
    rw [parts_run hd, parts_run hc, hu]
  · intro d hd
    obtain ⟨c, hc, -⟩ := run_congr hd hu.symm
    exact ⟨c, hc⟩

/-! ### Creates -/

theorem Create.parts_congr {c d : Create} (ht : d.template.write = c.template.write)
    (ha : d.args.map Leaf.write = c.args.map Leaf.write) (hs : d.hasSeparator = c.hasSeparator) (m : Manager) :
    d.parts m = c.parts m := by
  have he : d.args.isEmpty = c.args.isEmpty := by simpa using congrArg List.isEmpty ha
  rw [Create.parts, Create.parts, Create.separator, Create.separator, ht, ha, he, hs]

/-- Tokens that say the same make creates that are written the same. -/
theorem create_of_same_items {s s' : Subcommand} {c : Create} (h : createOfBody w s span finish body = .ok c)
    (hu : us.map Token.item = body.map Token.item) :
    ∃ d, createOfBody w' s' span' finish' us = .ok d ∧ (∀ k, d.parts k = c.parts k) ∧
      d.summary = { c.summary with manager := w'.manager } := by
  obtain ⟨template, rest, rfl, rfl⟩ := createOfBody_eq_ok_iff.1 h
  obtain ⟨template', rest', rfl, htemplate, hrest⟩ := List.map_eq_cons_iff.1 hu
  have hargs := map_item_filter_congr hrest fun i => !(i.kind == .separator)
  have hvalue := map_value_congr hargs
  have ht : (Leaf.argumentOf template').write = (Leaf.argumentOf template).write := congrArg Item.write htemplate
  refine ⟨_, createOfBody_eq_ok_iff.2 ⟨template', rest', rfl, rfl⟩, ?_, ?_⟩
  · exact Create.parts_congr ht (map_write_congr hargs) (any_item_congr hrest fun i => i.kind == .separator)
  · simp only [Create.summary, List.map_map, CreateSummary.mk.injEq]
    exact ⟨trivial, congrArg Item.value htemplate, hvalue⟩

theorem onlyBreaksOff_create (s : Subcommand) : OnlyBreaksOff (createOfBody w s span finish body) := by
  intro e he
  rw [error_createOfBody he]
  rfl

theorem alike_create (o : Options) (s s' : Subcommand) (hu : us.map Token.item = body.map Token.item) :
    Alike (fun _ => True) w'.manager (answer o ((createOfBody w s span finish body).map create))
      (answer o ((createOfBody w' s' span' finish' us).map create)) := by
  refine alike_answer o (onlyBreaksOff_create s) (onlyBreaksOff_create s') ?_ ?_
  · intro c hc
    obtain ⟨d, hd, hp, hs⟩ := create_of_same_items hc hu
    exact ⟨d, hd, fun k _ => hp k, congrArg Summary.create hs⟩
  · intro d hd
    obtain ⟨c, hc, -⟩ := create_of_same_items hd hu.symm
    exact ⟨c, hc⟩

/-! ### Installs -/

end Command

namespace Install

/-- The install `d` says what `c` says, and in the same words where both keep the words of the user. -/
structure Rephrases (c d : Install) : Prop where
  packages : d.packages.map Leaf.write = c.packages.map Leaf.write
  values : d.packages.map Leaf.value = c.packages.map Leaf.value
  has : ∀ k, d.has k = c.has k
  unknown : d.unknownFlags = c.unknownFlags
  spellings : c.keepsSpelling = true → d.keepsSpelling = true → d.spellings = c.spellings

namespace Rephrases

variable {c d : Install}

theorem fullFlags_eq (h : c.Rephrases d) (hk : d.keepsSpelling = c.keepsSpelling) : d.fullFlags = c.fullFlags :=
  fullFlags_congr hk h.has h.unknown fun hc w => by rw [h.spellings hc (hk.trans hc)]

theorem parts_eq (h : c.Rephrases d) {m : Manager} (hm : m.keepsFlags = true → d.keepsSpelling = c.keepsSpelling) :
    d.parts m = c.parts m :=
  parts_congr h.packages h.has fun hk => h.fullFlags_eq (hm hk)

theorem summary_eq (h : c.Rephrases d) : d.summary = { c.summary with manager := d.manager.manager } := by
  simp only [summary, h.values, h.has, h.unknown]

end Rephrases

end Install

namespace Command

variable {w w' : ManagerWord} {span span' : Span} {finish finish' : Token} {body us : List Token} {implied implied' : List Flag}

theorem isSeparator_getLast?_congr (h : us.map Token.item = body.map Token.item)
    (hb : ∀ u ∈ body.getLast?, u.isSeparator = false) : ∀ u ∈ us.getLast?, u.isSeparator = false := by
  have hl := congrArg List.getLast? h
  rw [List.getLast?_map, List.getLast?_map] at hl
  intro u hu
  rw [Option.mem_def.1 hu, Option.map_some] at hl
  obtain ⟨v, hv, hi⟩ := Option.map_eq_some_iff.1 hl.symm
  show (u.item.kind == .separator) = false
  rw [← hi]
  exact hb v hv

theorem unknown_ofTokens (fs : List Token) :
    ((fs.map Flag.ofToken).filter fun f => f.category == .unknown).map Flag.spelling =
      (fs.map Token.value).filter fun w => Flag.classify w == .unknown := by
  rw [List.filter_map, List.filter_map, List.map_map]
  rfl

theorem filter_unknown_eq_nil_of_known {fs : List Flag} (h : ∀ k ∈ fs.map Flag.category, k ≠ .unknown) :
    (fs.filter fun f => f.category == .unknown) = [] := by
  apply List.filter_eq_nil_iff.2
  intro f hf
  simpa using h _ (List.mem_map_of_mem hf)

/-- Tokens that say the same make installs that say the same if what is implied has the same categories, and is
    spelled the same where spellings are kept. -/
theorem install_congr {s s' : Subcommand} {c : Install} (h : installOfBody w s implied span body = .ok c)
    (hu : us.map Token.item = body.map Token.item) (hc : implied'.map Flag.category = implied.map Flag.category)
    (hk : ∀ k ∈ implied.map Flag.category, k ≠ .unknown)
    (hs : w.manager.keepsFlags = true → implied'.map Flag.spelling = implied.map Flag.spelling) :
    ∃ d, installOfBody w' s' implied' span' us = .ok d ∧ d.manager = w' ∧ c.Rephrases d := by
  obtain ⟨hlast, rfl⟩ := installOfBody_eq_ok_iff.1 h
  have hflags := map_value_congr (map_item_filter_congr hu fun i => i.kind == .flag)
  have hpackages := map_item_filter_congr hu Item.isPackage
  refine ⟨_, installOfBody_eq_ok_iff.2 ⟨isSeparator_getLast?_congr hu hlast, rfl⟩, rfl, map_write_congr hpackages,
    ?_, ?_, ?_, ?_⟩
  · have hv := map_value_congr hpackages
    rw [List.map_map, List.map_map]
    exact hv
  · intro k
    have hcategories := congrArg (List.map Flag.classify) hflags
    rw [List.map_map, List.map_map] at hcategories
    rw [Install.has_eq_any, Install.has_eq_any, List.map_append, List.map_append, hc, List.map_map, List.map_map]
    exact congrArg (fun ks => (implied.map Flag.category ++ ks).any (· == k)) hcategories
  · -- What is implied is known, so the unknown flags come from the body alone.
    rw [Install.unknownFlags, Install.unknownFlags, List.filter_append, List.filter_append,
      filter_unknown_eq_nil_of_known hk, filter_unknown_eq_nil_of_known (hc ▸ hk), List.nil_append, List.nil_append,
      unknown_ofTokens, unknown_ofTokens]
    exact congrArg (List.filter fun w => Flag.classify w == .unknown) hflags
  · intro hkeep _
    rw [Install.spellings, Install.spellings, List.map_append, List.map_append, hs hkeep, List.map_map, List.map_map]
    exact congrArg (implied.map Flag.spelling ++ ·) hflags

theorem onlyBreaksOff_install (s : Subcommand) : OnlyBreaksOff (installOfBody w s implied span body) := by
  intro e he
  rw [SyntaxError.reason, (error_installOfBody he).1]
  rfl

/-- A flag at the head of a body may as well be implied. -/
theorem installOfBody_cons_flag {s : Subcommand} {u : Token} (hu : u.isFlag = true) :
    installOfBody w s implied span (u :: us) = installOfBody w s (implied ++ [Flag.ofToken u]) span us := by
  have hk : u.kind = .flag := beq_iff_eq.1 hu
  have hs : u.isSeparator = false := by rw [Token.isSeparator, hk]; rfl
  have hp : isPackage u = false := by rw [isPackage, hu]; rfl
  have hlast : (u :: us).getLast?.filter Token.isSeparator = us.getLast?.filter Token.isSeparator := by
    cases us with
    | nil => simp [hs]
    | cons v us => rw [List.getLast?_cons_cons]
  simp [installOfBody, hlast, hu, hs, hp]

/-- yarn and bun write such installs the same, npm and pnpm as well if both or neither were written to them. -/
theorem alike_install (o : Options) (s s' : Subcommand) (hu : us.map Token.item = body.map Token.item)
    (hc : implied'.map Flag.category = implied.map Flag.category) (hk : ∀ k ∈ implied.map Flag.category, k ≠ .unknown)
    (hs : w.manager.keepsFlags = true ∨ w'.manager.keepsFlags = true →
      implied'.map Flag.spelling = implied.map Flag.spelling) :
    Alike (fun k => k.keepsFlags = true → w'.manager.keepsFlags = w.manager.keepsFlags) w'.manager
      (answer o ((installOfBody w s implied span body).map install))
      (answer o ((installOfBody w' s' implied' span' us).map install)) := by
  refine alike_answer o (onlyBreaksOff_install s) (onlyBreaksOff_install s') ?_ ?_
  · intro c hread
    obtain ⟨d, hd, hm, hr⟩ := install_congr hread hu hc hk fun h => hs (.inl h)
    have hcm : c.manager = w := by
      obtain ⟨-, rfl⟩ := installOfBody_eq_ok_iff.1 hread
      rfl
    refine ⟨d, hd, fun k hlines => hr.parts_eq fun hkeeps => ?_, ?_⟩
    · rw [Install.keepsSpelling, Install.keepsSpelling, hm, hcm]
      exact hlines hkeeps
    · rw [← hm]
      exact congrArg Summary.install hr.summary_eq
  · intro d hread
    obtain ⟨c, hd, -⟩ := install_congr hread hu.symm hc.symm (hc.symm ▸ hk) fun h => (hs (.inr h)).symm
    exact ⟨c, hd⟩

end Command

/-! ## Headers -/

/-- The words that run a package, by the manager that runs it. -/
def execWords : Manager → List Text
  | .npm => ["npx".toList]
  | .pnpm => ["pnpm".toList, "dlx".toList]
  | .yarn => ["yarn".toList, "dlx".toList]
  | .bun => ["bunx".toList]

namespace Command

section Headers

variable {rest : Text} (hr : Token.Breaks rest)
include hr

/-- A manager's name and a verb are followed by the body. -/
theorem parse_named_opening (m : Manager) (verb : Text) (hv : verb ∈ openingWords) :
    ∃ w u span finish body, w.manager = m ∧ u.value = verb ∧ body.map Token.item = (Token.scan 0 rest).map Token.item ∧
      parse (Text.joinWords [m.name, verb] ++ rest) = ofBody w u span finish body := by
  have hw : ∀ w ∈ [m.name, verb], w ∈ openingWords :=
    List.forall_mem_cons.2 ⟨List.mem_append_left _ (name_mem_headerWords m), List.forall_mem_singleton.2 hv⟩
  obtain ⟨finish, header, body, hh, hb, hp⟩ := parse_opened hw (.inl (Nat.le_refl 2)) hr
  obtain ⟨t, us, rfl, ht, hus⟩ := List.map_eq_cons_iff.1 hh
  obtain ⟨u, rfl, hu⟩ := List.map_eq_singleton_iff.1 hus
  refine ⟨⟨m, t.value, t.span⟩, u, t.spanTo ((u :: body).getLastD t), finish, body, rfl, hu, hb, ?_⟩
  rw [hp, List.cons_append, List.singleton_append, ofTokens_named finish ht]

theorem answer_short_opening (o : Options) {m : Manager} {word : Text} (hw : word ∈ openingWords)
    (hs : Manager.isShorthand word = true) (hm : Manager.ofInvocation? word = some m) :
    ∃ w s span finish body, w.manager = m ∧ body.map Token.item = (Token.scan 0 rest).map Token.item ∧
      answer o (parse (Text.joinWords [word] ++ rest)) = answer o ((execOfBody w s span finish body).map exec) := by
  obtain ⟨finish, header, body, hh, hb, hp⟩ :=
    parse_opened (List.forall_mem_singleton.2 hw) (.inr ⟨word, rfl, hs⟩) hr
  obtain ⟨t, rfl, rfl⟩ := List.map_eq_singleton_iff.1 hh
  refine ⟨⟨m, t.value, t.span⟩, none, t.spanTo (body.getLastD t), finish, body, rfl, hb, ?_⟩
  rw [hp, List.singleton_append]
  cases body with
  | nil =>
    -- Without a body the subcommand is missed before the package is, for the same reason.
    rw [ofTokens, hm]
    rfl
  | cons u body => rw [ofTokens_short finish hs hm]

theorem answer_exec_opening (o : Options) (m : Manager) :
    ∃ w s span finish body, w.manager = m ∧ body.map Token.item = (Token.scan 0 rest).map Token.item ∧
      answer o (parse (Text.joinWords (execWords m) ++ rest)) =
        answer o ((execOfBody w s span finish body).map exec) := by
  have hdlx (m : Manager) (hd : m.hasDlx = true) :
      ∃ w s span finish body, w.manager = m ∧ body.map Token.item = (Token.scan 0 rest).map Token.item ∧
        answer o (parse (Text.joinWords [m.name, "dlx".toList] ++ rest)) =
          answer o ((execOfBody w s span finish body).map exec) := by
    obtain ⟨w, u, span, finish, body, hw, hu, hb, hp⟩ := parse_named_opening hr m "dlx".toList (by decide)
    refine ⟨w, some ⟨u.value, u.span⟩, span, finish, body, hw, hb, ?_⟩
    rw [hp, ofBody_dlx (by rw [hu]; decide) (by rw [hw]; exact hd)]
  cases m with
  | npm => exact answer_short_opening hr o (by decide) (by decide) rfl
  | pnpm => exact hdlx .pnpm rfl
  | yarn => exact hdlx .yarn rfl
  | bun => exact answer_short_opening hr o (by decide) (by decide) rfl

theorem parse_install_opening (m : Manager) {verb : Text} (hv : verb ∈ Verb.install.words) :
    ∃ w s span body, w.manager = m ∧ body.map Token.item = (Token.scan 0 rest).map Token.item ∧
      parse (Text.joinWords [m.name, verb] ++ rest) = (installOfBody w s [] span body).map install := by
  have hopening : ∀ v ∈ Verb.install.words, v ∈ openingWords := by decide
  obtain ⟨w, u, span, finish, body, hw, hu, hb, hp⟩ := parse_named_opening hr m verb (hopening verb hv)
  refine ⟨w, ⟨u.value, u.span⟩, span, body, hw, hb, ?_⟩
  rw [hp, ofBody_install (by rw [hu]; exact hv)]

/-- A flag that is put in front of the body is read as one that the header stands for. -/
theorem parse_flagged_opening (m : Manager) {verb g : Text} (hv : verb ∈ Verb.install.words)
    (hg : (⟨.flag, g⟩ : Item).Legible) :
    ∃ w s span u body, w.manager = m ∧ u.value = g ∧ body.map Token.item = (Token.scan 0 rest).map Token.item ∧
      parse (Text.joinWords [m.name, verb] ++ ' ' :: (g ++ rest)) =
        (installOfBody w s [Flag.ofToken u] span body).map install := by
  have hspace : Token.Breaks (' ' :: (g ++ rest)) := by
    intro c hc
    cases hc
    rfl
  have hscan : (Token.scan 0 (' ' :: (g ++ rest))).map Token.item =
      ⟨.flag, g⟩ :: (Token.scan 0 rest).map Token.item := by
    have hgap : Token.scan 0 (' ' :: (g ++ rest)) = Token.scan 1 (Item.write ⟨.flag, g⟩ ++ rest) :=
      Token.scan_gap (by decide : Token.IsGap [' ']) 0 _
    rw [hgap, Token.scan_write hg (.inr hr), List.map_cons, Item.item_placed, Token.map_item_scan _ 0]
  obtain ⟨w, s, span, body, hw, hb, hp⟩ := parse_install_opening hspace m hv
  obtain ⟨u, us, rfl, hu, hus⟩ := List.map_eq_cons_iff.1 (hb.trans hscan)
  have hk : u.kind = .flag := congrArg Item.kind hu
  refine ⟨w, s, span, u, us, hw, congrArg Item.value hu, hus, ?_⟩
  rw [hp, installOfBody_cons_flag (by rw [Token.isFlag, hk]; rfl)]
  rfl

/-- The headers after which yarn installs a package for every project. -/
def globalHeaders : List (List Text) :=
  [["yarn".toList, "global".toList, "add".toList], ["yarn".toList, "add".toList, "--global".toList],
   ["yarn".toList, "add".toList, "-g".toList]]

theorem parse_globalWord_opening :
    ∃ w s flag span body, w.manager = .yarn ∧ flag.category = .global ∧
      body.map Token.item = (Token.scan 0 rest).map Token.item ∧
      parse (Text.joinWords ["yarn".toList, "global".toList, "add".toList] ++ rest) =
        (installOfBody w s [flag] span body).map install := by
  have hw : ∀ w ∈ ["yarn".toList, "global".toList, "add".toList], w ∈ openingWords := by decide
  obtain ⟨finish, header, body, hh, hb, hp⟩ := parse_opened hw (.inl (by decide)) hr
  obtain ⟨t, us, rfl, ht, hus⟩ := List.map_eq_cons_iff.1 hh
  obtain ⟨u, vs, rfl, hu, hvs⟩ := List.map_eq_cons_iff.1 hus
  obtain ⟨v, rfl, hv⟩ := List.map_eq_singleton_iff.1 hvs
  have hglobal : u.value ∈ Verb.global.words := by
    rw [hu]
    decide
  have hyarn : t.value = Manager.yarn.name := ht
  have hadd : v.value = addWord := hv
  rw [List.cons_append, List.cons_append, List.singleton_append, ofTokens_named finish hyarn,
    ofBody_global hglobal rfl, globalOfBody, if_pos hadd] at hp
  exact ⟨_, _, _, _, body, rfl, rfl, hb, hp⟩

theorem parse_global_opening {header : List Text} (h : header ∈ globalHeaders) :
    ∃ w s flag span body, w.manager = .yarn ∧ flag.category = .global ∧
      body.map Token.item = (Token.scan 0 rest).map Token.item ∧
      parse (Text.joinWords header ++ rest) = (installOfBody w s [flag] span body).map install := by
  have hflag (g : Text) (hg : (⟨.flag, g⟩ : Item).Legible) (hc : Flag.classify g = .global) :
      ∃ w s flag span body, w.manager = .yarn ∧ flag.category = .global ∧
        body.map Token.item = (Token.scan 0 rest).map Token.item ∧
        parse (Text.joinWords [Manager.yarn.name, "add".toList] ++ ' ' :: (g ++ rest)) =
          (installOfBody w s [flag] span body).map install := by
    obtain ⟨w, s, span, u, body, hw, hu, hb, hp⟩ :=
      parse_flagged_opening hr .yarn (by decide : "add".toList ∈ Verb.install.words) hg
    refine ⟨w, s, Flag.ofToken u, span, body, hw, ?_, hb, hp⟩
    show Flag.classify u.value = .global
    rw [hu, hc]
  simp only [globalHeaders, List.mem_cons, List.not_mem_nil, or_false] at h
  rcases h with rfl | rfl | rfl
  · exact parse_globalWord_opening hr
  · exact hflag "--global".toList (.flag rfl (by decide) (by decide)) (by decide)
  · exact hflag "-g".toList (.flag rfl (by decide) (by decide)) (by decide)

end Headers

end Command

/-! ## Headers that ask for the same -/

/-- Words of the library's own that choose a pattern of the guard whatever follows them. -/
structure Opens (p : Guard.Pattern) (ws : List Text) : Prop where
  ne_nil : ws ≠ []
  words : ∀ w ∈ ws, w ∈ openingWords
  select : ∀ rest, Token.Breaks rest → Guard.select (Text.joinWords ws ++ rest) = p

namespace Opens

theorem exec (m : Manager) : Opens .exec (execWords m) := by
  have hw : ∀ w ∈ execWords m, w ∈ openingWords := by cases m <;> decide
  refine ⟨by cases m <;> decide, hw, fun rest hr => ?_⟩
  have hwords := words_opening hw hr
  cases m with
  | npm => exact Guard.select_eq_exec hwords (.inl (by decide))
  | pnpm => exact Guard.select_eq_exec hwords (.inr rfl)
  | yarn => exact Guard.select_eq_exec hwords (.inr rfl)
  | bun => exact Guard.select_eq_exec hwords (.inl (by decide))

/-- After a manager's name and a verb other than `dlx` the guard takes its standard pattern. -/
theorem verb (m : Manager) {ws : List Text} (hw : ∀ w ∈ ws, w ∈ openingWords) (hd : ∃ w ∈ ws.head?, w ≠ "dlx".toList) :
    Opens .standard (m.name :: ws) := by
  obtain ⟨w, hw', hd⟩ := hd
  obtain ⟨ws, rfl⟩ := List.head?_eq_some_iff.1 hw'
  have hall : ∀ v ∈ m.name :: w :: ws, v ∈ openingWords :=
    List.forall_mem_cons.2 ⟨List.mem_append_left _ (Command.name_mem_headerWords m), hw⟩
  exact ⟨List.cons_ne_nil _ _, hall, fun rest hr =>
    Guard.select_eq_standard (words_opening hall hr) (Manager.isShorthand_name m) hd⟩

/-- Behind words that choose the same pattern, texts are converted alike if they are read alike. -/
theorem alike {p : Guard.Pattern} {ws vs : List Text} (hw : Opens p ws) (hv : Opens p vs) {lines : Manager → Prop}
    {m : Manager} {o : Options} {rest : Text}
    (h : Alike lines m (answer o (Command.parse (Text.joinWords ws ++ remainder rest)))
      (answer o (Command.parse (Text.joinWords vs ++ remainder rest)))) :
    Alike lines m (convert o (opened ws rest)) (convert o (opened vs rest)) := by
  have hr := breaks_remainder rest
  rw [convert_opened hw.words hw.ne_nil, convert_opened hv.words hv.ne_nil, hw.select _ hr, hv.select _ hr]
  split
  · exact .failed .notSupported
  · exact h

end Opens

section Families

variable (o : Options) (rest : Text)

theorem alike_exec_opened (m m' : Manager) :
    Alike (fun _ => True) m' (convert o (opened (execWords m) rest)) (convert o (opened (execWords m') rest)) := by
  have hr := breaks_remainder rest
  obtain ⟨w, s, span, finish, body, -, hb, hp⟩ := Command.answer_exec_opening hr o m
  obtain ⟨w', s', span', finish', body', rfl, hb', hp'⟩ := Command.answer_exec_opening hr o m'
  apply (Opens.exec m).alike (.exec w'.manager)
  rw [hp, hp']
  exact Command.alike_exec o s s' (hb'.trans hb.symm)

/-- Behind managers' names and verbs, texts are converted alike if bodies that say the same are read alike. -/
theorem alike_verb_opened {m m' : Manager} {verb verb' : Text} (hv : verb ∈ openingWords ∧ verb ≠ "dlx".toList)
    (hv' : verb' ∈ openingWords ∧ verb' ≠ "dlx".toList) {lines : Manager → Prop}
    (h : ∀ w u span finish body w' u' span' finish' body', w.manager = m → w'.manager = m' → u.value = verb →
      u'.value = verb' → body'.map Token.item = body.map Token.item →
      Alike lines m' (answer o (Command.ofBody w u span finish body)) (answer o (Command.ofBody w' u' span' finish' body'))) :
    Alike lines m' (convert o (opened [m.name, verb] rest)) (convert o (opened [m'.name, verb'] rest)) := by
  have hr := breaks_remainder rest
  have hopens (m : Manager) {v : Text} (hv : v ∈ openingWords ∧ v ≠ "dlx".toList) : Opens .standard [m.name, v] :=
    .verb m (List.forall_mem_singleton.2 hv.1) ⟨v, rfl, hv.2⟩
  obtain ⟨w, u, span, finish, body, hw, hu, hb, hp⟩ := Command.parse_named_opening hr m verb hv.1
  obtain ⟨w', u', span', finish', body', hw', hu', hb', hp'⟩ := Command.parse_named_opening hr m' verb' hv'.1
  apply (hopens m hv).alike (hopens m' hv')
  rw [hp, hp']
  exact h _ _ _ _ _ _ _ _ _ _ hw hw' hu hu' (hb'.trans hb.symm)

theorem alike_run_opened (m m' : Manager) : Alike (fun _ => True) m' (convert o (opened [m.name, "run".toList] rest))
    (convert o (opened [m'.name, "run".toList] rest)) := by
  refine alike_verb_opened o rest (by decide) (by decide) ?_
  rintro w u span finish body w' u' span' finish' body' - rfl hu hu' hb
  rw [Command.ofBody_run (by rw [hu]; decide), Command.ofBody_run (by rw [hu']; decide)]
  exact Command.alike_run o _ _ hb

theorem alike_create_opened (m m' : Manager) :
    Alike (fun _ => True) m' (convert o (opened [m.name, "create".toList] rest))
      (convert o (opened [m'.name, "create".toList] rest)) := by
  refine alike_verb_opened o rest (by decide) (by decide) ?_
  rintro w u span finish body w' u' span' finish' body' - rfl hu hu' hb
  rw [Command.ofBody_create (by rw [hu]; decide), Command.ofBody_create (by rw [hu']; decide)]
  exact Command.alike_create o _ _ hb

theorem alike_install_opened (m m' : Manager) {verb verb' : Text} (hv : verb ∈ Command.Verb.install.words)
    (hv' : verb' ∈ Command.Verb.install.words) :
    Alike (fun k => k.keepsFlags = true → m'.keepsFlags = m.keepsFlags) m'
      (convert o (opened [m.name, verb] rest)) (convert o (opened [m'.name, verb'] rest)) := by
  have hall : ∀ v ∈ Command.Verb.install.words, v ∈ openingWords ∧ v ≠ "dlx".toList := by decide
  refine alike_verb_opened o rest (hall verb hv) (hall verb' hv') ?_
  rintro w u span finish body w' u' span' finish' body' rfl rfl hu hu' hb
  rw [Command.ofBody_install (by rw [hu]; exact hv), Command.ofBody_install (by rw [hu']; exact hv')]
  exact Command.alike_install o _ _ hb rfl (by simp) fun _ => rfl

theorem alike_global_opened {header header' : List Text} (h : header ∈ Command.globalHeaders)
    (h' : header' ∈ Command.globalHeaders) :
    Alike (fun _ => True) .yarn (convert o (opened header rest)) (convert o (opened header' rest)) := by
  have hr := breaks_remainder rest
  have hopens : ∀ ws ∈ Command.globalHeaders, Opens .standard ws := by
    intro ws hws
    simp only [Command.globalHeaders, List.mem_cons, List.not_mem_nil, or_false] at hws
    rcases hws with rfl | rfl | rfl <;> exact .verb .yarn (by decide) (by decide)
  apply (hopens header h).alike (hopens header' h')
  obtain ⟨w, s, flag, span, body, hm, hf, hb, hp⟩ := Command.parse_global_opening hr h
  obtain ⟨w', s', flag', span', body', hm', hf', hb', hp'⟩ := Command.parse_global_opening hr h'
  have hcategory : [flag'].map Flag.category = [flag].map Flag.category := by
    rw [List.map_singleton, List.map_singleton, hf, hf']
  have hknown : ∀ k ∈ [flag].map Flag.category, k ≠ .unknown := by
    rw [List.map_singleton, hf]
    decide
  have hyarn : ¬ (w.manager.keepsFlags = true ∨ w'.manager.keepsFlags = true) := by
    rw [hm, hm']
    decide
  rw [hp, hp', ← hm']
  refine (Command.alike_install o s s' (hb'.trans hb.symm) hcategory hknown fun h => absurd h hyarn).mono ?_
  intro k _ _
  rw [hm, hm']

end Families

theorem keepsFlags_congr {m m' : Manager} (h : m = .npm ∨ m = .pnpm ↔ m' = .npm ∨ m' = .pnpm) :
    m'.keepsFlags = m.keepsFlags := by
  rw [Bool.eq_iff_iff, Manager.keepsFlags_iff, Manager.keepsFlags_iff]
  exact h.symm

/-- Whatever text follows them, headers that ask for the same are converted alike. The four ways to run a package,
    the runs and the creates have all lines in common. Installs have those for yarn and bun in common, and the
    others if npm or pnpm was asked by both or by neither. To yarn a global install is the same by the header and
    by either flag. -/
theorem convert_synonyms (o : Options) (rest : Text) :
    (∀ m m' : Manager, Alike (fun _ => True) m' (convert o (opened (execWords m) rest))
      (convert o (opened (execWords m') rest))) ∧
    (∀ verb ∈ ["run".toList, "create".toList], ∀ m m' : Manager, Alike (fun _ => True) m'
      (convert o (opened [m.name, verb] rest)) (convert o (opened [m'.name, verb] rest))) ∧
    (∀ verb ∈ ["install".toList, "i".toList, "add".toList], ∀ verb' ∈ ["install".toList, "i".toList, "add".toList],
      ∀ m m' : Manager, Alike (fun k => k = .yarn ∨ k = .bun ∨ (m = .npm ∨ m = .pnpm ↔ m' = .npm ∨ m' = .pnpm)) m'
        (convert o (opened [m.name, verb] rest)) (convert o (opened [m'.name, verb'] rest))) ∧
    (∀ flag ∈ ["--global".toList, "-g".toList],
      convert o (opened ["yarn".toList, "add".toList, flag] rest) =
        convert o (opened ["yarn".toList, "global".toList, "add".toList] rest)) := by
  refine ⟨alike_exec_opened o rest, ?_, ?_, ?_⟩
  · intro verb hv m m'
    simp only [List.mem_cons, List.not_mem_nil, or_false] at hv
    rcases hv with rfl | rfl
    · exact alike_run_opened o rest m m'
    · exact alike_create_opened o rest m m'
  · intro verb hv verb' hv' m m'
    refine (alike_install_opened o rest m m' hv hv').mono fun k hk hkeeps => ?_
    rcases hk with rfl | rfl | hk
    · cases hkeeps
    · cases hkeeps
    · exact keepsFlags_congr hk
  · intro flag hf
    have hall : ∀ flag ∈ ["--global".toList, "-g".toList],
        ["yarn".toList, "add".toList, flag] ∈ Command.globalHeaders := by decide
    have hword : ["yarn".toList, "global".toList, "add".toList] ∈ Command.globalHeaders := by decide
    exact (alike_global_opened o rest hword (hall flag hf)).eq (alike_global_opened o rest hword hword)

example : Manager.all.map (fun m => opened (execWords m) "vite".toList) =
    ["npx vite".toList, "pnpm dlx vite".toList, "yarn dlx vite".toList, "bunx vite".toList] := by decide

end CommandBridge
