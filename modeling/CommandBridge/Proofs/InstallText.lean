/-
  CommandBridge.Proofs.InstallText — what an install takes from its text.

  The header of an install calls a manager by its name and holds no flag. All else that the install asks for
  stands in the body, but for the flag that the header with `global` implies.
  - `exists_installHeader`: the header and the body that an install was read from.
  - `takenFrom_of_parse`: its manager, spellings and packages, as they are said by the text.
  - `spellings_of_parse`: its spellings are the flags of the whole text, after the one that is implied.
-/

import CommandBridge.Proofs.Distribution
import CommandBridge.Proofs.Relay.Install

namespace CommandBridge

open Token (Item)

/-! ## Leaves without places -/

namespace Leaf

def quoting : Leaf → Quoting
  | flag _ => .bare
  | argument a => a.quoting

/-- What a leaf says and how it is quoted, wherever it stands. -/
def content (l : Leaf) : Text × Quoting := (l.value, l.quoting)

theorem write_eq (l : Leaf) : l.write = CommandLine.writeArgument l.content.1 l.content.2 := by cases l <;> rfl

theorem map_value_of_content {ls ks : List Leaf} (h : ks.map content = ls.map content) :
    ks.map value = ls.map value := by
  have hvalue : value = Prod.fst ∘ content := rfl
  rw [hvalue, ← List.map_map, ← List.map_map, h]

theorem map_write_of_content {ls ks : List Leaf} (h : ks.map content = ls.map content) :
    ks.map write = ls.map write := by
  have hwrite : write = (fun p => CommandLine.writeArgument p.1 p.2) ∘ content := funext write_eq
  rw [hwrite, ← List.map_map, ← List.map_map, h]

end Leaf

/-! ## Texts -/

/-- The spellings of the flags among some items. -/
def flagValues (is : List Item) : List Text := (is.filter fun i => i.kind == .flag).map Item.value

/-- The spellings of the flags of a text. -/
def flagWords (t : Text) : List Text := ((Token.tokenize t).filter Token.isFlag).map Token.value

namespace Command

/-- The words before the body of a text. -/
def headerValues (t : Text) : List Text := ((Token.ofLine t).take (headerLength (Token.ofLine t))).map Token.value

/-- What the tokens of the body say. -/
def bodyItems (t : Text) : List Item := ((Token.ofLine t).drop (headerLength (Token.ofLine t))).map Token.item

/-- The spellings that a header implies. -/
def impliedWords (header : List Text) : List Text := if header = globalHeader then ["--global".toList] else []

/-- The install has the manager that the header of the text names, and what the body says. -/
structure TakenFrom (t : Text) (c : Install) : Prop where
  manager : (headerValues t).head? = some c.manager.manager.name
  spellings : c.spellings = impliedWords (headerValues t) ++ flagValues (bodyItems t)
  packages : c.packages.map Leaf.content = ((bodyItems t).filter Item.isPackage).map fun i => (i.value, i.quoting)

section Headers

variable {finish : Token} {ts : List Token} {c : Install}

/-- An install is read from the body behind a header that calls for one. -/
theorem exists_installHeader (h : ofTokens finish ts = .ok (.install c)) :
    ∃ header body, ts = header ++ body ∧ header.length = headerLength ts ∧ InstallHeader header ∧
      header.head?.map Token.value = some c.manager.manager.name ∧
      ∃ m s span, installOfBody m s (impliedBy header) span body = .ok c := by
  have hj : Judged finish ts (.command .install) := judged_iff.2 (by rw [h]; rfl)
  cases hj with
  | @install header body hh =>
    cases hh with
    | @verb t u ht hu =>
      obtain ⟨m, e⟩ := names_iff.1 ht
      have hs : Manager.isShorthand t.value = false := by rw [e, Manager.isShorthand_name]
      have hv : Verb.ofText? u.value ≠ some .global := by
        rw [Verb.ofText?_of_mem (v := .install) hu]
        decide
      rw [List.cons_append, List.cons_append, List.nil_append] at h ⊢
      rw [ofTokens_named finish e, ofBody_install hu] at h
      obtain ⟨i, hi, hc⟩ := map_eq_ok_iff.1 h
      cases hc
      refine ⟨[t, u], body, rfl, (headerLength_verb hs hv body).symm, .verb ht hu, ?_, _, _, _, hi⟩
      obtain ⟨-, rfl⟩ := installOfBody_eq_ok_iff.1 hi
      exact congrArg some e
    | @global t u v ht hu hv =>
      have e : t.value = Manager.yarn.name := says_iff.1 ht
      have ha : v.value = addWord := says_iff.1 hv
      rw [List.cons_append, List.cons_append, List.cons_append, List.nil_append] at h ⊢
      rw [ofTokens_named finish e, ofBody_global hu rfl, globalOfBody, if_pos ha] at h
      obtain ⟨i, hi, hc⟩ := map_eq_ok_iff.1 h
      cases hc
      refine ⟨[t, u, v], body, rfl, (headerLength_global e (says_iff.1 hu) ha body).symm, .global ht hu hv, ?_, _, _, _, hi⟩
      obtain ⟨-, rfl⟩ := installOfBody_eq_ok_iff.1 hi
      exact congrArg some e

theorem impliedBy_of_installHeader {header : List Token} (h : InstallHeader header) :
    (impliedBy header).map Flag.spelling = impliedWords (header.map Token.value) := by
  cases h with
  | verb => simp [impliedBy, impliedWords, globalHeader]
  | global ht hu hv => simp [impliedBy, impliedWords, globalHeader, says_iff.1 ht, says_iff.1 hu, says_iff.1 hv]

theorem callingWords_of_installHeader {header : List Token} (h : InstallHeader header) :
    ∀ u ∈ header, u.value ∈ callingWords := by
  have hcalls {words : List String} {u : Token} (hu : SaysOneOf words u)
      (hw : ∀ w ∈ words.map String.toList, w ∈ callingWords) : u.value ∈ callingWords := hw _ hu
  cases h with
  | verb ht hu =>
    simp only [List.forall_mem_cons]
    exact ⟨hcalls ht (by decide), hcalls hu (by decide), nofun⟩
  | global ht hu hv =>
    simp only [List.forall_mem_cons]
    exact ⟨hcalls ht (by decide), hcalls hu (by decide), hcalls hv (by decide), nofun⟩

/-- Flags begin with a hyphen, and calling words do not. -/
theorem isFlag_of_mem_callingWords {u : Token} (hl : (Token.unmark u).item.Legible) (hu : u.value ∈ callingWords) :
    u.isFlag = false := by
  have hall : ∀ w ∈ callingWords, w.head? ≠ some '-' := by decide
  obtain ⟨kind, value, start, stop⟩ := u
  cases kind with
  | flag =>
    cases hl with
    | flag hd => exact absurd hd (hall value hu)
  | _ => rfl

end Headers

section Parsed

variable {t : Text} {c : Install}

theorem legible_of_mem_ofLine {u : Token} (hu : u ∈ Token.ofLine t) : (Token.unmark u).item.Legible :=
  Token.legible_of_mem_scan (Token.mem_scan_iff.2 ⟨u, hu, rfl⟩)

/-- All that counts of a text that an install is read from. -/
theorem takenFrom_of_parse (h : parse t = .ok (.install c)) : TakenFrom t c := by
  obtain ⟨header, body, hts, hlen, hh, hm, m, s, span, hi⟩ := exists_installHeader h
  have hheader : headerValues t = header.map Token.value := by rw [headerValues, ← hlen, hts, List.take_left]
  have hbody : bodyItems t = body.map Token.item := by rw [bodyItems, ← hlen, hts, List.drop_left]
  obtain ⟨-, hc⟩ := installOfBody_eq_ok_iff.1 hi
  refine ⟨?_, ?_, ?_⟩
  · rw [hheader, List.head?_map, hm]
  · rw [hheader, hbody, ← impliedBy_of_installHeader hh, hc, Install.spellings, flagValues, List.map_append,
      List.map_map, List.filter_map, List.map_map]
    rfl
  · rw [hbody, hc, List.map_map, List.filter_map, List.map_map]
    rfl

/-- No flag stands in the header. -/
theorem flagWords_of_parse (h : parse t = .ok (.install c)) : flagWords t = flagValues (bodyItems t) := by
  obtain ⟨header, body, hts, hlen, hh, -, -⟩ := exists_installHeader h
  have hbody : bodyItems t = body.map Token.item := by rw [bodyItems, ← hlen, hts, List.drop_left]
  have hflags : header.filter Token.isFlag = [] := by
    apply List.filter_eq_nil_iff.2
    intro u hu
    have hl := legible_of_mem_ofLine (hts ▸ List.mem_append_left body hu)
    rw [isFlag_of_mem_callingWords hl (callingWords_of_installHeader hh u hu)]
    exact Bool.false_ne_true
  have hend : [Token.atEnd t.length].filter Token.isFlag = [] := rfl
  rw [flagWords, Token.tokenize_eq, hts, List.filter_append, List.filter_append, hflags, hend, List.nil_append,
    List.append_nil, hbody, flagValues, List.filter_map, List.map_map]
  rfl

theorem spellings_of_parse (h : parse t = .ok (.install c)) : c.spellings = impliedWords (headerValues t) ++ flagWords t := by
  rw [(takenFrom_of_parse h).spellings, flagWords_of_parse h]

/-- Only a header that names yarn implies a flag. -/
theorem impliedWords_of_parse (h : parse t = .ok (.install c)) (hm : c.manager.manager ≠ .yarn) :
    impliedWords (headerValues t) = [] := by
  apply if_neg
  intro e
  have hhead := (takenFrom_of_parse h).manager
  rw [e] at hhead
  have hname : Manager.yarn.name = c.manager.manager.name := Option.some.inj hhead
  exact hm (Manager.eq_of_name_eq hname).symm

end Parsed

end Command

end CommandBridge
