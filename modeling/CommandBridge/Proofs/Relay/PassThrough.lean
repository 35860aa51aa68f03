/-
  CommandBridge.Proofs.Relay.PassThrough — execs, runs and creates on a path of managers.

  Such a command is written from the tokens of its body as they are, so what is read again on a hop
  is the same body under another header. Only a create without arguments changes: the separator that
  the user wrote after its template is kept by npm alone.
  - `passThrough_relay`: every hop reads a command of the same kind, and the last one has the same
    lines and says the same, but for its manager and that separator.
-/

import CommandBridge.Proofs.Body
import CommandBridge.Proofs.Relay
import Mathlib.Control.Monad.Basic

namespace CommandBridge.Command

open Token (Item)

/-! ## Tokens that say the same -/

theorem map_write_congr {us vs : List Token} (h : us.map Token.item = vs.map Token.item) :
    (us.map Leaf.argumentOf).map Leaf.write = (vs.map Leaf.argumentOf).map Leaf.write := by
  have hv := congrArg (List.map Item.write) h
  rw [List.map_map, List.map_map] at hv
  rw [List.map_map, List.map_map]
  exact hv

theorem write_flagOf {t : Token} (h : t.isFlag = true) : (Leaf.flagOf t).write = t.item.write := by
  have hk : t.kind = .flag := beq_iff_eq.1 h
  simp [Leaf.flagOf, Leaf.write, Flag.ofToken, Token.item, Item.write, Item.quoting, hk, CommandLine.writeArgument]

/-! ## Execs -/

variable {w w' : ManagerWord} {span span' : Span} {finish finish' : Token} {body us : List Token}

/-- An exec is written from its body as it is. -/
theorem parts_exec {s : Option Subcommand} {c : Exec} (h : execOfBody w s span finish body = .ok c) (m : Manager) :
    c.parts m = Exec.header m ++ (body.map Token.item).map Item.write := by
  obtain ⟨flags, package, args, rfl, hf, -, rfl⟩ := execOfBody_eq_ok_iff.1 h
  have hw : (flags.map Leaf.flagOf).map Leaf.write = (flags.map Token.item).map Item.write := by
    rw [List.map_map, List.map_map]
    exact List.map_congr_left fun f hm => write_flagOf (hf f hm)
  simp only [Exec.parts, hw, List.map_append, List.map_cons, List.map_map, List.append_assoc]
  rfl

/-- Tokens that say the same make the same exec, but for its manager. -/
theorem exec_congr {s s' : Option Subcommand} {c : Exec} (h : execOfBody w s span finish body = .ok c)
    (hu : us.map Token.item = body.map Token.item) :
    ∃ d, execOfBody w' s' span' finish' us = .ok d ∧ d.summary = { c.summary with manager := w'.manager } := by
  obtain ⟨flags, package, args, rfl, hf, hp, rfl⟩ := execOfBody_eq_ok_iff.1 h
  rw [List.map_append, List.map_cons] at hu
  obtain ⟨flags', rest, rfl, hflags, hrest⟩ := List.map_eq_append_iff.1 hu
  obtain ⟨package', args', rfl, hpackage, hargs⟩ := List.map_eq_cons_iff.1 hrest
  have hf' : ∀ f ∈ flags', f.isFlag = true :=
    forall_mem_of_map_item (P := fun i => (i.kind == .flag) = true) hflags (List.forall_mem_map.mpr hf)
  have hp' : package'.isFlag = false := by
    show (package'.item.kind == .flag) = false
    rw [hpackage]
    exact hp
  refine ⟨_, execOfBody_eq_ok_iff.2 ⟨flags', package', args', rfl, hf', hp', rfl⟩, ?_⟩
  have hpv : package'.value = package.value := congrArg Item.value hpackage
  have hav := map_value_congr hargs
  have hfv := map_value_congr hflags
  simp only [Exec.summary, List.map_map, ExecSummary.mk.injEq]
  exact ⟨trivial, hpv, hav, hfv⟩

theorem parse_dlx_line {m : Manager} (hd : m.hasDlx = true) {items : List Item} (hi : ∀ i ∈ items, i.Legible) :
    ∃ finish w s span us, us.map Token.item = items ∧ w.manager = m ∧
      ∀ c, parse (CommandLine.join ([m.name, "dlx".toList] ++ items.map Item.write)) = .ok c ↔
        (execOfBody w s span finish us).map exec = .ok c := by
  obtain ⟨finish, w, u, span, us, hv, hu, hm, hp⟩ := parse_named_line m "dlx".toList (by decide) hi
  refine ⟨finish, w, some ⟨u.value, u.span⟩, span, us, hu, hm, fun c => ?_⟩
  rw [hp, ofBody_dlx (by rw [hv]; decide) (by rw [hm]; exact hd)]

/-- The line of an exec is read as one, whichever manager it is for. -/
theorem parse_exec_line (m : Manager) {items : List Item} (hne : items ≠ []) (hi : ∀ i ∈ items, i.Legible) :
    ∃ finish w s span us, us.map Token.item = items ∧ w.manager = m ∧
      ∀ c, parse (CommandLine.join (Exec.header m ++ items.map Item.write)) = .ok c ↔
        (execOfBody w s span finish us).map exec = .ok c := by
  cases m with
  | npm =>
    obtain ⟨finish, w, span, us, hu, hm, hp⟩ := parse_short_line (by decide) (by decide)
      (rfl : Manager.ofInvocation? "npx".toList = some .npm) hne hi
    exact ⟨finish, w, none, span, us, hu, hm, hp⟩
  | pnpm => exact parse_dlx_line rfl hi
  | yarn => exact parse_dlx_line rfl hi
  | bun =>
    obtain ⟨finish, w, span, us, hu, hm, hp⟩ := parse_short_line (by decide) (by decide)
      (rfl : Manager.ofInvocation? "bunx".toList = some .bun) hne hi
    exact ⟨finish, w, none, span, us, hu, hm, hp⟩

theorem exec_hop {t : Text} {c : Exec} (h : parse t = .ok (.exec c)) (m : Manager) :
    ∃ d, parse ((exec c).lineFor m) = .ok (.exec d) ∧ (∀ k, d.parts k = c.parts k) ∧
      d.summary = { c.summary with manager := m } := by
  obtain ⟨finish, body, hl, hr⟩ := readFrom_of_parse h
  cases hr with
  | exec hc =>
    have hi : ∀ i ∈ body.map Token.item, i.Legible := List.forall_mem_map.2 hl
    have hne : body.map Token.item ≠ [] := by
      obtain ⟨flags, package, args, rfl, -, -, -⟩ := execOfBody_eq_ok_iff.1 hc
      simp
    obtain ⟨finish', w', s', span', us, hu, hm, hp⟩ := parse_exec_line m hne hi
    obtain ⟨d, hd, hs⟩ := exec_congr hc hu
    refine ⟨d, ?_, fun k => ?_, hm ▸ hs⟩
    · show parse (CommandLine.join (c.parts m)) = _
      rw [parts_exec hc, hp, hd]
      rfl
    · rw [parts_exec hd, parts_exec hc, hu]

/-! ## Runs -/

/-- A run is written from its body as it is. -/
theorem parts_run {s : Subcommand} {c : Run} (h : runOfBody w s span finish body = .ok c) (m : Manager) :
    c.parts m = [m.name, "run".toList] ++ (body.map Token.item).map Item.write := by
  obtain ⟨script, args, rfl, rfl⟩ := runOfBody_eq_ok_iff.1 h
  simp only [Run.parts, List.map_cons, List.map_map]
  rfl

/-- Tokens that say the same make the same run, but for its manager. -/
theorem run_congr {s s' : Subcommand} {c : Run} (h : runOfBody w s span finish body = .ok c)
    (hu : us.map Token.item = body.map Token.item) :
    ∃ d, runOfBody w' s' span' finish' us = .ok d ∧ d.summary = { c.summary with manager := w'.manager } := by
  obtain ⟨script, args, rfl, rfl⟩ := runOfBody_eq_ok_iff.1 h
  obtain ⟨script', args', rfl, hscript, hargs⟩ := List.map_eq_cons_iff.1 hu
  refine ⟨_, rfl, ?_⟩
  have hsv : script'.value = script.value := congrArg Item.value hscript
  have hav := map_value_congr hargs
  simp only [Run.summary, List.map_map, RunSummary.mk.injEq]
  exact ⟨trivial, hsv, hav⟩

theorem run_hop {t : Text} {c : Run} (h : parse t = .ok (.run c)) (m : Manager) :
    ∃ d, parse ((run c).lineFor m) = .ok (.run d) ∧ (∀ k, d.parts k = c.parts k) ∧
      d.summary = { c.summary with manager := m } := by
  obtain ⟨finish, body, hl, hr⟩ := readFrom_of_parse h
  cases hr with
  | run hc =>
    have hi : ∀ i ∈ body.map Token.item, i.Legible := List.forall_mem_map.2 hl
    obtain ⟨finish', w', u, span', us, hv, hu, hm, hp⟩ := parse_named_line m "run".toList (by decide) hi
    obtain ⟨d, hd, hs⟩ := run_congr hc hu
    refine ⟨d, ?_, fun k => ?_, hm ▸ hs⟩
    · show parse (CommandLine.join (c.parts m)) = _
      rw [parts_run hc, hp, ofBody_run (by rw [hv]; decide), hd]
      rfl
    · rw [parts_run hd, parts_run hc, hu]

/-! ## Creates -/

def separatorItem : Item := ⟨.separator, Token.separatorText⟩

/-- The separator as it stands in a line. -/
def separatorItems (c : Create) (m : Manager) : List Item := if (c.separator m).isEmpty then [] else [separatorItem]

theorem map_write_separatorItems (c : Create) (m : Manager) : (separatorItems c m).map Item.write = c.separator m := by
  unfold separatorItems Create.separator
  split <;> rfl

theorem isEmpty_separatorItems (c : Create) (m : Manager) : (separatorItems c m).isEmpty = (c.separator m).isEmpty := by
  rw [← map_write_separatorItems, List.isEmpty_map]

theorem eq_separatorItem {c : Create} {m : Manager} {i : Item} (h : i ∈ separatorItems c m) : i = separatorItem := by
  unfold separatorItems at h
  split at h
  · cases h
  · exact List.mem_singleton.1 h

/-- A create whose body holds separators and then arguments. -/
theorem createOfBody_separated {s : Subcommand} {template : Token} {seps args : List Token}
    (hs : ∀ u ∈ seps, u.isSeparator = true) (ha : ∀ u ∈ args, u.isSeparator = false) :
    createOfBody w s span finish (template :: (seps ++ args)) =
      .ok ⟨w, some s, Leaf.argumentOf template, args.map Leaf.argumentOf, !seps.isEmpty, span⟩ := by
  have hfs : (seps.filter fun t => !t.isSeparator) = [] := by
    apply List.filter_eq_nil_iff.mpr
    intro u hu
    simp [hs u hu]
  have hfa : (args.filter fun t => !t.isSeparator) = args := by
    apply List.filter_eq_self.mpr
    intro u hu
    simp [ha u hu]
  have has : args.any Token.isSeparator = false := by
    apply List.any_eq_false.mpr
    intro u hu
    simp [ha u hu]
  have hss : seps.any Token.isSeparator = !seps.isEmpty := by
    cases seps with
    | nil => rfl
    | cons u seps => simp [hs u (List.mem_cons_self ..)]
  rw [createOfBody, List.filter_append, hfs, hfa, List.any_append, has, hss, List.nil_append, Bool.or_false]

/-- What the line of a create says after its header. -/
def createItems (c : Create) (m : Manager) (template : Token) (args : List Token) : List Item :=
  template.item :: (separatorItems c m ++ args.map Token.item)

theorem legible_createItems {c : Create} {m : Manager} {template : Token} {args : List Token}
    (ht : template.item.Legible) (ha : ∀ u ∈ args, u.item.Legible) :
    ∀ i ∈ createItems c m template args, i.Legible := by
  intro i hi
  rcases List.mem_cons.1 hi with rfl | hi
  · exact ht
  rcases List.mem_append.1 hi with hi | hi
  · rw [eq_separatorItem hi]
    exact .separator
  · obtain ⟨u, hu, rfl⟩ := List.mem_map.1 hi
    exact ha u hu

/-- Tokens that say what stands in the line of a create make that create, but for its manager and for
    the separator, which is there if the line has one. -/
theorem create_congr {s : Subcommand} {c : Create} {template : Token} {args : List Token} {m : Manager}
    (ht : c.template = Leaf.argumentOf template) (hc : c.args = args.map Leaf.argumentOf)
    (hns : ∀ u ∈ args, u.isSeparator = false) (hu : us.map Token.item = createItems c m template args) :
    ∃ d, createOfBody w' s span' finish' us = .ok d ∧ d.template.write = c.template.write ∧
      d.args.map Leaf.write = c.args.map Leaf.write ∧ d.hasSeparator = !(c.separator m).isEmpty ∧
      d.summary = { c.summary with manager := w'.manager } := by
  obtain ⟨template', rest', rfl, htemplate, hrest⟩ := List.map_eq_cons_iff.1 hu
  obtain ⟨seps', args', rfl, hseps, hargs⟩ := List.map_eq_append_iff.1 hrest
  have hs : ∀ u ∈ seps', u.isSeparator = true := by
    apply forall_mem_of_map_item (P := fun i => (i.kind == .separator) = true) hseps
    intro i hi
    rw [eq_separatorItem hi]
    rfl
  have ha : ∀ u ∈ args', u.isSeparator = false :=
    forall_mem_of_map_item (P := fun i => (i.kind == .separator) = false) hargs (List.forall_mem_map.mpr hns)
  refine ⟨_, createOfBody_separated hs ha, ?_, ?_, ?_, ?_⟩
  · rw [ht]
    exact congrArg Item.write htemplate
  · rw [hc]
    exact map_write_congr hargs
  · rw [← isEmpty_separatorItems, ← hseps, List.isEmpty_map]
  · have htv : template'.value = template.value := congrArg Item.value htemplate
    have hav := map_value_congr hargs
    simp only [Create.summary, ht, hc, List.map_map, CreateSummary.mk.injEq]
    exact ⟨trivial, htv, hav⟩

theorem create_hop {t : Text} {c : Create} (h : parse t = .ok (.create c)) (m : Manager) :
    ∃ d, parse ((create c).lineFor m) = .ok (.create d) ∧ d.template.write = c.template.write ∧
      d.args.map Leaf.write = c.args.map Leaf.write ∧ d.hasSeparator = !(c.separator m).isEmpty ∧
      d.summary = { c.summary with manager := m } := by
  obtain ⟨finish, body, hl, hr⟩ := readFrom_of_parse h
  cases hr with
  | create hc =>
    obtain ⟨template, rest, rfl, hform⟩ := createOfBody_eq_ok_iff.1 hc
    obtain ⟨args, hargs⟩ : ∃ args, args = rest.filter fun t => !t.isSeparator := ⟨_, rfl⟩
    rw [← hargs] at hform
    have hmem : ∀ u ∈ args, u ∈ rest ∧ u.isSeparator = false := by simp [hargs]
    have ht : c.template = Leaf.argumentOf template := by rw [hform]
    have ha : c.args = args.map Leaf.argumentOf := by rw [hform]
    have hi : ∀ i ∈ createItems c m template args, i.Legible :=
      legible_createItems (hl _ (List.mem_cons_self ..)) fun u hu => hl u (List.mem_cons_of_mem _ (hmem u hu).1)
    have hline : c.parts m = [m.name, "create".toList] ++ (createItems c m template args).map Item.write := by
      rw [Create.parts, ht, ha, createItems, List.map_cons, List.map_append, map_write_separatorItems, List.map_map,
        List.map_map]
      rfl
    obtain ⟨finish', w', u, span', us, hv, hu, hm, hp⟩ := parse_named_line m "create".toList (by decide) hi
    obtain ⟨d, hd, hdt, hda, hds, hsum⟩ := create_congr ht ha (fun u hu => (hmem u hu).2) hu
    refine ⟨d, ?_, hdt, hda, hds, hm ▸ hsum⟩
    show parse (CommandLine.join (c.parts m)) = _
    rw [hline, hp, ofBody_create (by rw [hv]; decide), hd]
    rfl

/-! ## Lines that end with a separator -/

/-- A create without arguments after whose template the user wrote a separator. -/
def endsBare : Command → Bool
  | create c => c.args.isEmpty && c.hasSeparator
  | _ => false

theorem joinWords_concat (w : Text) (ws : List Text) (last : Text) :
    Text.joinWords (w :: ws ++ [last]) = Text.joinWords (w :: ws) ++ ' ' :: last := by
  unfold Text.joinWords
  induction ws generalizing w with
  | nil => simp
  | cons v ws ih =>
    rw [List.cons_append, List.cons_append, List.intercalate_cons_cons, ← List.cons_append, ih,
      List.intercalate_cons_cons, List.append_assoc, List.append_assoc, List.append_assoc]

theorem join_concat {w last : Text} (hw : w ≠ []) (hl : last ≠ []) (ws : List Text) :
    CommandLine.join (w :: ws ++ [last]) = CommandLine.join (w :: ws) ++ ' ' :: last := by
  have hwe : (!w.isEmpty) = true := by simpa using hw
  have hle : (!last.isEmpty) = true := by simpa using hl
  unfold CommandLine.join
  rw [List.filter_append, List.filter_cons_of_pos (p := fun p : Text => !p.isEmpty) hwe,
    List.filter_cons_of_pos (p := fun p : Text => !p.isEmpty) hle]
  exact joinWords_concat ..

/-- The word of npm's separator, where npm's line has one. -/
theorem parts_npm_create (c : Create) : c.parts .npm = ["npm".toList, "create".toList, c.template.write] ++
    (if c.args.isEmpty && !c.hasSeparator then [] else ["--".toList]) ++ c.args.map Leaf.write := by
  unfold Create.parts Create.separator
  cases c.args.isEmpty <;> cases c.hasSeparator <;> rfl

/-! ## Every path -/

/-- How a command that passed along a path differs from the one it was. -/
structure Repeats (path : List Manager) (c d : Command) : Prop where
  summary : d.summary = c.summary.withManager (path.getLastD c.manager)
  lines : ∀ m ≠ .npm, d.lineFor m = c.lineFor m
  npm : c.lineFor .npm = d.lineFor .npm ++ (if c.endsBare && !path.all (· == .npm) then " --".toList else [])
  endsBare : d.endsBare = (c.endsBare && path.all (· == .npm))

namespace Repeats

variable {m : Manager} {path : List Manager}

theorem start (c : Command) : Repeats [] c c where
  summary := by
    rw [List.getLastD_nil, ← manager_summary]
    cases c.summary <;> rfl
  lines _ _ := rfl
  npm := by simp
  endsBare := by simp

theorem along {c d e : Command} (hd : Repeats [m] c d) (he : Repeats path d e) : Repeats (m :: path) c e where
  summary := by
    have hm : d.manager = m := by
      rw [← manager_summary, hd.summary]
      cases c.summary <;> rfl
    rw [he.summary, hd.summary, hm, List.getLastD_cons, List.getLastD_cons, List.getLastD_nil]
    cases c.summary <;> rfl
  lines k hk := (he.lines k hk).trans (hd.lines k hk)
  npm := by
    -- The separator is lost once at most: what has lost it does not end bare.
    rw [hd.npm, he.npm, hd.endsBare, List.append_assoc, List.all_cons, List.all_cons, List.all_nil]
    cases c.endsBare <;> cases m == .npm <;> cases path.all (· == .npm) <;> rfl
  endsBare := by
    rw [he.endsBare, hd.endsBare, List.all_cons, List.all_cons, List.all_nil, Bool.and_true, Bool.and_assoc]

/-- A hop that keeps every word. -/
theorem of_parts {c d : Command} (hp : ∀ k, d.parts k = c.parts k) (hs : d.summary = c.summary.withManager m)
    (hc : c.endsBare = false) (hd : d.endsBare = false) : Repeats [m] c d where
  summary := hs
  lines k _ := congrArg CommandLine.join (hp k)
  npm := by rw [hc, lineFor, lineFor, hp]; simp
  endsBare := by rw [hc, hd, Bool.false_and]

/-- A hop that keeps the words of a create but for the separator of a bare end. -/
theorem of_create {c d : Create} (ht : d.template.write = c.template.write)
    (ha : d.args.map Leaf.write = c.args.map Leaf.write) (hs : d.hasSeparator = !(c.separator m).isEmpty)
    (hsum : d.summary = { c.summary with manager := m }) : Repeats [m] (create c) (create d) := by
  have he : d.args.isEmpty = c.args.isEmpty := by simpa using congrArg List.isEmpty ha
  have hsep : d.hasSeparator = (m == .npm && (!c.args.isEmpty || c.hasSeparator)) := by
    rw [hs, Create.separator]
    split <;> simp_all
  refine ⟨congrArg Summary.create hsum, fun k hk => ?_, ?_, ?_⟩
  · show CommandLine.join (d.parts k) = CommandLine.join (c.parts k)
    simp [Create.parts, Create.separator, hk, ht, ha]
  · show CommandLine.join (c.parts .npm) = CommandLine.join (d.parts .npm) ++ _
    have hall : [m].all (· == .npm) = (m == .npm) := by simp
    rw [parts_npm_create, parts_npm_create, ht, ha, he, hsep, hall, Command.endsBare]
    -- With arguments npm's line has the separator before and after, whoever the hop led to.
    by_cases hargs : c.args = []
    · rw [hargs]
      cases c.hasSeparator <;> cases m == .npm
      · exact (List.append_nil _).symm
      · exact (List.append_nil _).symm
      · show CommandLine.join (["npm".toList, "create".toList, c.template.write] ++ ["--".toList]) =
          CommandLine.join ["npm".toList, "create".toList, c.template.write] ++ ' ' :: "--".toList
        exact join_concat (by decide) (by decide) _
      · exact (List.append_nil _).symm
    · have hf : c.args.isEmpty = false := by simpa using hargs
      simp [hf]
  · simp only [Command.endsBare, he, hsep, List.all_cons, List.all_nil, Bool.and_true]
    cases c.args.isEmpty <;> cases c.hasSeparator <;> cases m <;> rfl

theorem npm_kept {c d : Command} (h : Repeats path c d) (hb : c.endsBare = false ∨ ∀ m ∈ path, m = .npm) :
    d.lineFor .npm = c.lineFor .npm := by
  have hf : (c.endsBare && !path.all (· == .npm)) = false := by
    rcases hb with hb | hb
    · rw [hb, Bool.false_and]
    · have hn : path.all (· == .npm) = true := by
        apply List.all_eq_true.mpr
        intro m hm
        simp [hb m hm]
      rw [hn, Bool.not_true, Bool.and_false]
  have hn := h.npm
  rw [hf] at hn
  rw [hn]
  exact (List.append_nil _).symm

theorem npm_lost {c d : Command} (h : Repeats path c d) (hb : c.endsBare = true) (hm : m ∈ path) (hne : m ≠ .npm) :
    c.lineFor .npm = d.lineFor .npm ++ " --".toList := by
  have hf : path.all (· == .npm) = false := by
    apply List.all_eq_false.mpr
    exact ⟨m, hm, by simpa using hne⟩
  have hn := h.npm
  rw [hb, hf] at hn
  exact hn

end Repeats

theorem repeats_hop {t : Text} {c : Command} (m : Manager) (h : parse t = .ok c) (hk : c.kind ≠ .install) :
    ∃ d, parse (c.translate.commandFor m) = .ok d ∧ d.kind = c.kind ∧ Repeats [m] c d := by
  rw [commandFor_translate]
  cases c with
  | install c => exact absurd rfl hk
  | exec c =>
    obtain ⟨d, hd, hp, hs⟩ := exec_hop h m
    exact ⟨exec d, hd, rfl, .of_parts hp (congrArg Summary.exec hs) rfl rfl⟩
  | run c =>
    obtain ⟨d, hd, hp, hs⟩ := run_hop h m
    exact ⟨run d, hd, rfl, .of_parts hp (congrArg Summary.run hs) rfl rfl⟩
  | create c =>
    obtain ⟨d, hd, ht, ha, hs, hsum⟩ := create_hop h m
    exact ⟨create d, hd, rfl, .of_create ht ha hs hsum⟩

/-- On every path an exec, a run or a create is read again at every hop, as a command of its kind. At the
    end it says the same, but for its manager, and has the same lines; only a separator after which
    nothing stands is lost from npm's line on a path that leaves npm. -/
theorem passThrough_relay {t : Text} {c : Command} (h : parse t = .ok c) (hk : c.kind ≠ .install)
    (path : List Manager) :
    ∃ cs : List Command, relay t path = cs.map .ok ∧ cs.length = path.length + 1 ∧ (∀ d ∈ cs, d.kind = c.kind) ∧
      ∃ d ∈ cs.getLast?, d.translate.summary = c.translate.summary.withManager (path.getLastD c.manager) ∧
        (∀ m ≠ .npm, d.translate.commandFor m = c.translate.commandFor m) ∧
        (c.endsBare = false ∨ (∀ m ∈ path, m = .npm) → d.translate.commandFor .npm = c.translate.commandFor .npm) ∧
        (c.endsBare = true ∧ (∃ m ∈ path, m ≠ .npm) →
          c.translate.commandFor .npm = d.translate.commandFor .npm ++ " --".toList) := by
  obtain ⟨cs, hcs, hlen, hall, d, hd, hr⟩ := relay_of_hop Repeats.start Repeats.along
    (P := fun d => d.kind = c.kind) (fun {_ d} m hp hd => by
      obtain ⟨e, he, hk', hr⟩ := repeats_hop m hp (hd ▸ hk)
      exact ⟨e, he, hk'.trans hd, hr⟩) h rfl path
  refine ⟨cs, hcs, hlen, hall, d, hd, hr.summary, ?_, ?_, ?_⟩ <;> simp only [commandFor_translate]
  · exact hr.lines
  · exact hr.npm_kept
  · intro h
    obtain ⟨hb, m, hm, hne⟩ := h
    exact hr.npm_lost hb hm hne

/-- The separator of a create without arguments is lost at pnpm, and npm does not put it back. -/
theorem passThrough_relay_bareEnd :
    ∃ c, parse "npm create 'a b' --".toList = .ok c ∧ c.kind = .create ∧ c.endsBare = true ∧
      ∃ cs : List Command, relay "npm create 'a b' --".toList [.pnpm, .npm] = cs.map .ok ∧
        ∃ d ∈ cs.getLast?, c.translate.commandFor .npm = d.translate.commandFor .npm ++ " --".toList := by
  let c : Command := create ⟨⟨.npm, "npm".toList, ⟨0, 3⟩⟩, some ⟨"create".toList, ⟨4, 10⟩⟩,
    .argument ⟨"a b".toList, .quoted ['\''], ⟨11, 16⟩⟩, [], true, ⟨0, 19⟩⟩
  have h : parse "npm create 'a b' --".toList = .ok c := by decide +kernel
  obtain ⟨cs, hcs, -, -, d, hd, -, -, -, hbare⟩ := passThrough_relay h (by decide) [.pnpm, .npm]
  exact ⟨c, h, rfl, rfl, cs, hcs, d, hd, hbare (by decide)⟩

end CommandBridge.Command
