/-
  CommandBridge.Proofs.Vocabulary — where the words and the characters of a written line come from.

  A line holds words of the library's own, in headers and as flags, and the words of the text that the
  command was read from, written as they were quoted.
  - `mem_of_mem_value`: the value of a token is made of characters of the text.
  - `forall_mem_parts`: what holds of the library's own words and of the tokens of a text holds of every
    word that the command in it is written with.
  - `mem_text_or_ownChars`: so no line has a character that neither the text nor the library brings.
-/

import CommandBridge.Proofs.Relay.Install
import CommandBridge.Proofs.Relay.PassThrough

namespace CommandBridge

/-! ## Characters of joined words -/

namespace Text

theorem mem_joinWords {c : Char} {ws : List Text} (h : c ∈ joinWords ws) : c = ' ' ∨ ∃ w ∈ ws, c ∈ w := by
  induction ws with
  | nil => cases h
  | cons w ws ih =>
    cases ws with
    | nil => exact .inr ⟨w, List.mem_cons_self .., by simpa [joinWords] using h⟩
    | cons v ws =>
      rw [joinWords_cons_cons, List.mem_append, List.mem_cons] at h
      rcases h with h | h | h
      · exact .inr ⟨w, List.mem_cons_self .., h⟩
      · exact .inl h
      · rcases ih h with h | ⟨u, hu, h⟩
        · exact .inl h
        · exact .inr ⟨u, List.mem_cons_of_mem _ hu, h⟩

end Text

/-! ## Characters of tokens -/

namespace Token

namespace Lexeme

theorem mem_source_of_mem_body {mark c : Char} {t : Text} (h : c ∈ (quotedBody mark t).value) :
    c ∈ (quotedBody mark t).source := by
  fun_induction quotedBody mark t with
  | case1 => cases h
  | case2 => cases h
  | case3 d rest ih =>
    rcases List.mem_cons.1 h with rfl | h
    · simp [push]
    · simp [push, ih h]
  | case4 => cases h
  | case5 d rest _ _ _ ih =>
    rcases List.mem_cons.1 h with rfl | h
    · simp [push]
    · simp [push, ih h]

theorem mem_source_of_mem_value {c d : Char} {rest : Text} (h : d ∈ (read c rest).value) :
    d ∈ (read c rest).source := by
  unfold read at h ⊢
  split
  case isTrue hm =>
    rw [if_pos hm] at h
    exact List.mem_cons_of_mem _ (mem_source_of_mem_body h)
  case isFalse hm =>
    rw [if_neg hm] at h
    exact h

end Lexeme

theorem mem_of_mem_value {n : Nat} {s : Text} {u : Token} (h : u ∈ scan n s) {c : Char} (hc : c ∈ u.value) :
    c ∈ s := by
  obtain ⟨d, rest, hs, -, hi⟩ := exists_read_of_mem_scan h
  have hv : u.value = (Lexeme.read d rest).value := congrArg Item.value hi
  rw [hv] at hc
  apply hs.subset
  rw [← Lexeme.source_append_rest d rest]
  exact List.mem_append_left _ (Lexeme.mem_source_of_mem_value hc)

/-- Writing an item adds nothing but marks and backslashes. -/
theorem mem_of_mem_write {i : Item} (h : i.Legible) {c : Char} (hc : c ∈ i.write) :
    c ∈ i.value ∨ c = '\\' ∨ isMark c = true := by
  cases h with
  | word => exact .inl hc
  | flag => exact .inl hc
  | separator => exact .inl hc
  | @quoted mark value hm =>
    rw [write_quoted hm, List.cons_append, List.mem_cons, List.mem_append, List.mem_singleton] at hc
    rcases hc with rfl | hc | rfl
    · exact .inr (.inr hm)
    · obtain ⟨d, hd, hc⟩ := List.mem_flatMap.1 hc
      split at hc
      · rcases List.mem_cons.1 hc with rfl | hc
        · exact .inr (.inl rfl)
        · rw [List.mem_singleton.1 hc]
          exact .inl hd
      · rw [List.mem_singleton.1 hc]
        exact .inl hd
    · exact .inr (.inr hm)

end Token

/-! ## Words of lines -/

namespace Command

/-- The words that lines are written with whatever the text says. -/
def ownWords : List Text :=
  headerWords ++ Flag.rules.flatMap Flag.Rule.words ++ [Flag.frozenLockfile, Token.separatorText]

/-- The characters that lines are written with whatever the text says. -/
def ownChars : Text := [' ', '\\', Text.doubleQuote, Text.singleQuote] ++ ownWords.flatten

section Parts

variable {P : Text → Prop} {finish : Token} {body : List Token}

theorem forall_mem_parts_install (hown : ∀ w ∈ ownWords, P w) {w : ManagerWord} {s : Subcommand} {implied : List Flag}
    {span : Span} {c : Install} (himplied : ∀ f ∈ implied, f.category ≠ .unknown)
    (hc : installOfBody w s implied span body = .ok c) (hb : ∀ u ∈ body, P u.item.write) (m : Manager) :
    ∀ w ∈ c.parts m, P w := by
  obtain ⟨-, rfl⟩ := installOfBody_eq_ok_iff.1 hc
  intro w hw
  rw [Install.parts, List.mem_append, List.mem_append] at hw
  rcases hw with (hw | hw) | hw
  · exact hown w (by simp [ownWords, (Install.headed_header _ m).subset w hw])
  · rcases Install.mem_writtenFlags hw with ⟨r, hr, hw⟩ | rfl | hw
    · exact hown w (by simp only [ownWords, List.mem_append, List.mem_flatMap]; exact .inl (.inr ⟨r, hr, hw⟩))
    · exact hown _ (by simp [ownWords])
    · -- The flags that a header stands for are known, so an unknown flag was written by the user.
      obtain ⟨f, hf, rfl⟩ := List.mem_map.1 hw
      obtain ⟨hf, hu⟩ := List.mem_filter.1 hf
      rcases List.mem_append.1 hf with hf | hf
      · exact absurd (beq_iff_eq.1 hu) (himplied f hf)
      · obtain ⟨u, hmem, rfl⟩ := List.mem_map.1 hf
        obtain ⟨hmem, hflag⟩ := List.mem_filter.1 hmem
        show P (Leaf.flagOf u).write
        rw [write_flagOf hflag]
        exact hb u hmem
  · obtain ⟨l, hl, rfl⟩ := List.mem_map.1 hw
    obtain ⟨u, hu, rfl⟩ := List.mem_map.1 hl
    exact hb u (List.mem_filter.1 hu).1

theorem forall_mem_parts_create (hown : ∀ w ∈ ownWords, P w) {w : ManagerWord} {s : Subcommand} {span : Span} {c : Create}
    (hc : createOfBody w s span finish body = .ok c) (hb : ∀ u ∈ body, P u.item.write) (m : Manager) :
    ∀ w ∈ c.parts m, P w := by
  obtain ⟨template, rest, rfl, rfl⟩ := createOfBody_eq_ok_iff.1 hc
  obtain ⟨ht, hrest⟩ := List.forall_mem_cons.1 hb
  intro w hw
  rw [Create.parts, List.mem_append, List.mem_append] at hw
  rcases hw with (hw | hw) | hw
  · rw [List.mem_cons, List.mem_cons, List.mem_singleton] at hw
    rcases hw with rfl | rfl | rfl
    · exact hown _ (by simp [ownWords, name_mem_headerWords m])
    · exact hown _ (by decide)
    · exact ht
  · unfold Create.separator at hw
    split at hw
    · rw [List.mem_singleton.1 hw]
      exact hown _ (by decide)
    · cases hw
  · obtain ⟨l, hl, rfl⟩ := List.mem_map.1 hw
    obtain ⟨u, hu, rfl⟩ := List.mem_map.1 hl
    exact hrest u (List.mem_filter.1 hu).1

theorem header_exec_subset (m : Manager) : ∀ w ∈ Exec.header m, w ∈ ownWords := by cases m <;> decide

/-- What holds of the library's own words and of what the tokens of a text say holds of every word that
    the command in the text is written with. -/
theorem forall_mem_parts (hown : ∀ w ∈ ownWords, P w) {t : Text} (hs : ∀ u ∈ Token.scan 0 t, P u.item.write)
    {c : Command} (h : parse t = .ok c) (m : Manager) : ∀ w ∈ c.parts m, P w := by
  obtain ⟨header, body, hts, -, hr⟩ := readFrom_of_ofTokens (parse_eq_ok_iff.1 h)
  have hb : ∀ u ∈ body, P u.item.write := fun u hu => hs u (hts ▸ List.mem_append_right header hu)
  have hitems : ∀ w ∈ (body.map Token.item).map Token.Item.write, P w := by
    rw [List.map_map]
    exact List.forall_mem_map.2 hb
  cases hr with
  | install himplied hc =>
    exact forall_mem_parts_install hown (fun f hf => by rw [(himplied f hf).2]; decide) hc hb m
  | @exec _ _ _ c hc =>
    show ∀ w ∈ c.parts m, P w
    rw [parts_exec hc]
    exact List.forall_mem_append.2 ⟨fun w hw => hown w (header_exec_subset m w hw), hitems⟩
  | @run _ _ _ c hc =>
    show ∀ w ∈ c.parts m, P w
    rw [parts_run hc]
    refine List.forall_mem_append.2 ⟨List.forall_mem_cons.2 ⟨?_, List.forall_mem_singleton.2 ?_⟩, hitems⟩
    · exact hown _ (by simp [ownWords, name_mem_headerWords m])
    · exact hown _ (by decide)
  | create hc => exact forall_mem_parts_create hown hc hb m

end Parts

/-! ## Characters of lines -/

theorem mem_ownChars_of_isMark {c : Char} (h : Token.isMark c = true) : c ∈ ownChars := by
  rcases Bool.or_eq_true_iff.1 h with h | h <;> rw [beq_iff_eq.1 h] <;> decide

/-- Every character of a line stands in the text that the command was read from, or is the library's own. -/
theorem mem_text_or_ownChars {t : Text} {c : Command} (h : parse t = .ok c) (m : Manager) :
    ∀ x ∈ c.lineFor m, x ∈ t ∨ x ∈ ownChars := by
  have hparts : ∀ w ∈ c.parts m, ∀ x ∈ w, x ∈ t ∨ x ∈ ownChars := by
    refine forall_mem_parts ?_ ?_ h m
    · intro w hw x hx
      exact .inr (List.mem_append_right _ (List.mem_flatten.2 ⟨w, hw, hx⟩))
    · intro u hu x hx
      rcases Token.mem_of_mem_write (Token.legible_of_mem_scan hu) hx with hx | rfl | hx
      · exact .inl (Token.mem_of_mem_value hu hx)
      · exact .inr (by decide)
      · exact .inr (mem_ownChars_of_isMark hx)
  intro x hx
  rcases Text.mem_joinWords hx with rfl | ⟨w, hw, hx⟩
  · exact .inr (by decide)
  · exact hparts w (List.mem_filter.1 hw).1 x hx

end Command

end CommandBridge
