/-
  CommandBridge.Proofs.Relay — commands said to one manager after another.

  On a path of managers a text is read and said to the first manager; what was said is read again
  and said to the next, and so on.
  - `relay_of_hop`: what one hop keeps, and how it changes a command, decides every path.
  - `parse_line`: a line that is written from words and items is read from tokens that say them.
-/

import CommandBridge.Proofs.Dispatch
import CommandBridge.Proofs.Layout
import CommandBridge.Translation

namespace CommandBridge.Command

/-! ## Paths -/

/-- What the text says, and then what the line for each manager says; it ends where one does not parse. -/
def relay (t : Text) : List Manager → List (Except SyntaxError Command)
  | [] => [parse t]
  | m :: path =>
    match parse t with
    | .ok c => .ok c :: relay (c.translate.commandFor m) path
    | .error e => [.error e]

theorem relay_cons {t : Text} {c : Command} (h : parse t = .ok c) (m : Manager) (path : List Manager) :
    relay t (m :: path) = .ok c :: relay (c.translate.commandFor m) path := by
  rw [relay, h]

/-- If from commands of a class a hop leads to a command of the class, then every path can be taken to
    its end; and a relation along paths holds of the first and the last command if it holds over one hop. -/
theorem relay_of_hop {P : Command → Prop} {R : List Manager → Command → Command → Prop}
    (start : ∀ c, R [] c c)
    (along : ∀ {m path c d e}, R [m] c d → R path d e → R (m :: path) c e)
    (hop : ∀ {t c} m, parse t = .ok c → P c → ∃ d, parse (c.translate.commandFor m) = .ok d ∧ P d ∧ R [m] c d)
    {t : Text} {c : Command} (h : parse t = .ok c) (hc : P c) (path : List Manager) :
    ∃ cs : List Command, relay t path = cs.map .ok ∧ cs.length = path.length + 1 ∧ (∀ d ∈ cs, P d) ∧
      ∃ d ∈ cs.getLast?, R path c d := by
  -- The next line is a text of its own, so the hypothesis must hold for every text and command.
  induction path generalizing t c with
  | nil =>
    refine ⟨[c], by rw [relay, h]; rfl, rfl, ?_, c, rfl, start c⟩
    intro d hd
    rw [List.mem_singleton.mp hd]
    exact hc
  | cons m path ih =>
    obtain ⟨d, hp, hd, hr⟩ := hop m h hc
    obtain ⟨cs, hcs, hlen, hall, e, he, hre⟩ := ih hp hd
    refine ⟨c :: cs, by rw [relay_cons h, hcs]; rfl, by simp [hlen], ?_, e, ?_, along hr hre⟩
    · intro x hx
      rcases List.mem_cons.1 hx with rfl | hx
      · exact hc
      · exact hall x hx
    · rw [List.getLast?_cons, he]
      rfl

/-! ## Lines -/

theorem forall_mem_of_map_item {P : Token.Item → Prop} {us : List Token} {items : List Token.Item}
    (h : us.map Token.item = items) (hi : ∀ i ∈ items, P i) : ∀ u ∈ us, P u.item := by
  intro u hu
  apply hi
  rw [← h]
  exact List.mem_map_of_mem hu

theorem map_value_congr {us vs : List Token} (h : us.map Token.item = vs.map Token.item) :
    us.map Token.value = vs.map Token.value := by
  have hv := congrArg (List.map Token.Item.value) h
  rw [List.map_map, List.map_map] at hv
  exact hv

/-- The words that stand in the headers of lines. -/
def headerWords : List Text :=
  ["npm", "pnpm", "yarn", "bun", "npx", "bunx", "install", "add", "global", "dlx", "run", "create"].map String.toList

def wordItem (w : Text) : Token.Item := ⟨.argument .bare, w⟩

theorem legible_wordItem {w : Text} (h : w ∈ headerWords) : (wordItem w).Legible := by
  have hall : ∀ w ∈ headerWords, w ≠ [] ∧ Token.Item.SpaceFree w ∧
      w.head?.all (fun c => c != '-' && !Token.isMark c) = true := by decide
  obtain ⟨hne, hs, hh⟩ := hall w h
  apply Token.Item.Legible.word hne hs
  intro c hc
  simpa using (Option.all_eq_true _ _).mp hh c hc

theorem name_mem_headerWords (m : Manager) : m.name ∈ headerWords := by cases m <;> decide

theorem parse_line (words : List Text) {body : List Token.Item} (hw : ∀ w ∈ words, w ∈ headerWords)
    (hb : ∀ i ∈ body, i.Legible) :
    ∃ finish header us, header.map Token.value = words ∧ us.map Token.item = body ∧
      ∀ c, parse (CommandLine.join (words ++ body.map Token.Item.write)) = .ok c ↔
        ofTokens finish (header ++ us) = .ok c := by
  have hl : ∀ i ∈ words.map wordItem ++ body, i.Legible := by
    intro i hi
    rcases List.mem_append.1 hi with hi | hi
    · obtain ⟨w, hmem, rfl⟩ := List.mem_map.1 hi
      exact legible_wordItem (hw w hmem)
    · exact hb i hi
  have hwords : (words.map wordItem).map Token.Item.write = words := by
    rw [List.map_map]
    exact List.map_id words
  have hs := Token.scan_join hl 0
  rw [List.map_append, hwords] at hs
  obtain ⟨header, us, hts, hh, hu⟩ := List.map_eq_append_iff.1 hs
  refine ⟨Token.lineEnd (CommandLine.join (words ++ body.map Token.Item.write)), header, us, ?_, hu, fun c => ?_⟩
  · rw [show Token.value = Token.Item.value ∘ Token.item from rfl, ← List.map_map, hh, List.map_map]
    exact List.map_id words
  · rw [parse_eq_ok_iff, hts]

/-- After a manager's name and a verb stands the body. -/
theorem parse_named_line (m : Manager) (verb : Text) (hv : verb ∈ headerWords) {body : List Token.Item}
    (hb : ∀ i ∈ body, i.Legible) :
    ∃ finish w u span us, u.value = verb ∧ us.map Token.item = body ∧ w.manager = m ∧
      ∀ c, parse (CommandLine.join ([m.name, verb] ++ body.map Token.Item.write)) = .ok c ↔
        ofBody w u span finish us = .ok c := by
  obtain ⟨finish, header, us, hh, hu, hp⟩ := parse_line [m.name, verb]
    (List.forall_mem_cons.2 ⟨name_mem_headerWords m, List.forall_mem_singleton.2 hv⟩) hb
  obtain ⟨t, rest, rfl, ht, hrest⟩ := List.map_eq_cons_iff.1 hh
  obtain ⟨u, rfl, hv⟩ := List.map_eq_singleton_iff.1 hrest
  refine ⟨finish, ⟨m, t.value, t.span⟩, u, t.spanTo ((u :: us).getLastD t), us, hv, hu, rfl, fun c => ?_⟩
  rw [hp, List.cons_append, List.singleton_append, ofTokens_named _ ht]

/-- After a shorthand stands the body of an exec. -/
theorem parse_short_line {m : Manager} {word : Text} (hw : word ∈ headerWords) (hs : Manager.isShorthand word = true)
    (hm : Manager.ofInvocation? word = some m) {body : List Token.Item} (hne : body ≠ []) (hb : ∀ i ∈ body, i.Legible) :
    ∃ finish w span us, us.map Token.item = body ∧ w.manager = m ∧
      ∀ c, parse (CommandLine.join ([word] ++ body.map Token.Item.write)) = .ok c ↔
        (execOfBody w none span finish us).map exec = .ok c := by
  obtain ⟨finish, header, us, hh, hu, hp⟩ := parse_line [word] (List.forall_mem_singleton.2 hw) hb
  obtain ⟨t, rfl, rfl⟩ := List.map_eq_singleton_iff.1 hh
  have hus : us ≠ [] := by
    intro e
    rw [e] at hu
    exact hne hu.symm
  obtain ⟨u, us, rfl⟩ := List.exists_cons_of_ne_nil hus
  refine ⟨finish, ⟨m, t.value, t.span⟩, t.spanTo ((u :: us).getLastD t), u :: us, hu, rfl, fun c => ?_⟩
  rw [hp, List.singleton_append, ofTokens_short _ hs hm]

end CommandBridge.Command
