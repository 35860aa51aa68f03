/-
  CommandBridge.Proofs.Tiling.Append — two texts with a gap between them.

  The scanner has no memory at a space, unless it is inside a quoted token: there it reads on into
  whatever follows. So the tokens of two texts with a gap between them are those of the first and
  then those of the second, further on, exactly if the first does not end inside a quoted token.
  - `scan_shift`: the tokens of a text that stands further on.
  - `Lexeme.read_append`: a whole lexeme is read alike whatever comes behind it after a space.
  - `Lexeme.length_source_lt`: a quoted lexeme without its closing mark takes up what follows.
  - `scan_append_iff`: when a text is scanned up to its end before what follows.
  - `unmarkedTokens_append_iff`: the tokens of two texts with a gap between them.
-/

import CommandBridge.Proofs.Layout
import CommandBridge.Proofs.Tiling.Quoted

namespace CommandBridge.Token

/-! ## Further on -/

/-- The token, `k` characters further on. -/
def shift (k : Nat) (u : Token) : Token := { u with start := u.start + k, stop := u.stop + k }

theorem scan_shift (n k : Nat) (t : Text) : scan (n + k) t = (scan n t).map (shift k) := by
  fun_induction scanFrom n t with
  | case1 =>
    rw [scan_nil, scan_nil]
    rfl
  | case2 n c rest hc ih => rw [scan_space hc, scan_space hc, Nat.add_right_comm, ih]
  | case3 n c rest hc ih =>
    have hhead : (Lexeme.read c rest).token (n + k) = shift k ((Lexeme.read c rest).token n) := by
      simp only [Lexeme.token, shift, Nat.add_right_comm]
    rw [scan_lexeme hc, scan_lexeme hc, Nat.add_right_comm, ih, hhead]
    rfl

/-! ## What follows a lexeme -/

theorem Breaks.append {r s : Text} (hr : Breaks r) (hs : Breaks s) : Breaks (r ++ s) := by
  cases r with
  | nil => exact hs
  | cons c r => exact hr

namespace Lexeme

/-- The lexeme that starts with `c` shows its end: it is no quoted one, or it has its closing mark. -/
def Whole (c : Char) (rest : Text) : Prop :=
  isMark c = true → ∃ body, (read c rest).source = c :: body ++ [c] ∧ Spells c body (read c rest).value

/-- After an opening mark, what spells a value is read before what follows. -/
theorem quotedBody_append {mark : Char} {body value : Text} (h : Spells mark body value) (rest : Text) :
    quotedBody mark (body ++ rest) = { quotedBody mark rest with
      value := value ++ (quotedBody mark rest).value
      source := body ++ (quotedBody mark rest).source } := by
  induction h with
  | nil => rfl
  | plain hc hm _ ih =>
    rw [List.cons_append, quotedBody_plain hc hm, ih]
    rfl
  | escape c _ ih =>
    rw [List.cons_append, List.cons_append, quotedBody_backslash, ih]
    rfl

theorem read_closed {mark : Char} (hm : isMark mark = true) {body value : Text} (h : Spells mark body value) (rest : Text) :
    read mark (body ++ mark :: rest) = ⟨.argument (.quoted (some [mark])), value, mark :: body ++ [mark], rest⟩ := by
  rw [read, if_pos hm, quoted, quotedBody_append h, quotedBody_mark (ne_backslash_of_isMark hm), List.append_nil]
  rfl

/-- A whole lexeme is read alike whatever comes behind it after a space. -/
theorem read_append {c : Char} {rest s : Text} (hs : Breaks s) (h : Whole c rest) :
    read c (rest ++ s) = { read c rest with rest := (read c rest).rest ++ s } := by
  by_cases hm : isMark c = true
  · obtain ⟨body, hsource, hspells⟩ := h hm
    have hall := source_append_rest c rest
    rw [hsource] at hall
    generalize (read c rest).value = value at hspells
    obtain ⟨r, rfl⟩ : ∃ r, rest = body ++ c :: r := ⟨_, by simpa using (List.cons.inj hall).2.symm⟩
    rw [List.append_assoc, List.cons_append, read_closed hm hspells, read_closed hm hspells]
  · have hp : ∀ d ∈ rest.takeWhile fun d => !isSpace d, isSpace d = false := by
      intro d hd
      simpa using List.all_eq_true.1 List.all_takeWhile d hd
    have hr := breaks_dropWhile rest
    generalize hw : (rest.takeWhile fun d => !isSpace d) = w at hp
    generalize hd : (rest.dropWhile fun d => !isSpace d) = r at hr
    obtain rfl : w ++ r = rest := by rw [← hw, ← hd, List.takeWhile_append_dropWhile]
    rw [List.append_assoc, read, read, if_neg hm, if_neg hm, word_append hp hr, word_append hp (hr.append hs)]

/-- What follows is taken up, whether or not a backslash stands before it. -/
theorem length_lt_source_quotedBody (mark : Char) {close s : Text} (hclose : close = [] ∨ close = ['\\']) (hs : s ≠ []) :
    close.length < (quotedBody mark (close ++ s)).source.length := by
  obtain ⟨d, s, rfl⟩ := List.exists_cons_of_ne_nil hs
  rcases hclose with rfl | rfl
  · apply List.length_pos_iff.2
    by_cases hd : d = '\\'
    · subst hd
      cases s <;> exact List.cons_ne_nil _ _
    · by_cases hm : d = mark
      · rw [List.nil_append, ← hm, quotedBody_mark hd]
        exact List.cons_ne_nil _ _
      · rw [List.nil_append, quotedBody_plain hd hm]
        exact List.cons_ne_nil _ _
  · rw [List.singleton_append, quotedBody_backslash, push]
    simp

/-- A quoted lexeme without its closing mark takes up what follows the text. -/
theorem length_source_lt {c : Char} {rest s : Text} (hs : s ≠ []) (h : ¬ Whole c rest) :
    (read c rest).source.length < (read c (rest ++ s)).source.length := by
  obtain ⟨hm, hopen⟩ := Classical.not_imp.1 h
  obtain ⟨body, close, hsource, hspells, hclose⟩ := spells_quotedBody c rest
  have hread (t : Text) : read c t = quoted c t := if_pos hm
  rw [hread] at hopen
  rw [hread, hread]
  have hall := body_source_append_rest c rest
  have hend : (quotedBody c rest).rest = [] ∧ (close = [] ∨ close = ['\\']) := by
    cases hclose with
    | closed => exact absurd ⟨body, congrArg (c :: ·) hsource, hspells⟩ hopen
    | unclosed hr => exact ⟨hr, .inl rfl⟩
    | dangling hr => exact ⟨hr, .inr rfl⟩
  rw [hend.1, List.append_nil, hsource] at hall
  have hmore : (quotedBody c (rest ++ s)).source = body ++ (quotedBody c (close ++ s)).source := by
    rw [← hall, List.append_assoc, quotedBody_append hspells]
  have hlt := length_lt_source_quotedBody c hend.2 hs
  simp only [quoted, hsource, hmore, List.length_cons, List.length_append]
  omega

end Lexeme

/-! ## What follows a text -/

/-- The text breaks off in a quoted token: one that runs to its end lacks the closing mark. -/
def EndsOpen (t : Text) : Prop := ∃ u ∈ ofLine t, u.stop = t.length ∧ u.quoting ≠ .bare ∧ ¬ u.IsClosed t

/-- A token shows its end as its lexeme does. -/
theorem bare_or_isClosed_iff (before : Text) (c : Char) (rest : Text) :
    (((Lexeme.read c rest).token before.length).quoting = .bare ∨
      ((Lexeme.read c rest).token before.length).IsClosed (before ++ c :: rest)) ↔ Lexeme.Whole c rest := by
  by_cases hm : isMark c = true
  · have hq : ((Lexeme.read c rest).token before.length).quoting = .quoted (some [c]) := by rw [quoting_token, if_pos hm]
    constructor
    · rintro (hb | ⟨hq', hs, hspells⟩) _
      · rw [hq] at hb
        cases hb
      · rw [hq] at hq'
        cases hq'
        rw [slice_token] at hs
        exact ⟨_, hs, hspells⟩
    · intro h
      obtain ⟨body, hs, hspells⟩ := h hm
      exact .inr (.between hq (slice_token.trans hs) hspells)
  · exact iff_of_true (.inl (by rw [quoting_token, if_neg hm])) fun h => absurd h hm

/-- A text is scanned up to its end before what follows after a space, exactly if none of its quoted tokens lacks
    the closing mark. -/
theorem scan_append_iff {s : Text} (hs : Breaks s) (hne : s ≠ []) {n : Nat} (before t : Text)
    (hn : before.length = n) : scan n (t ++ s) = scan n t ++ scan (n + t.length) s ↔
      ∀ u ∈ scan n t, u.quoting = .bare ∨ u.IsClosed (before ++ t) := by
  -- What a token covers is read off the whole text, so the part that has been scanned is carried along.
  fun_induction scanFrom n t generalizing before with
  | case1 n => simp [scan_nil]
  | case2 n c rest hc ih =>
    have h := ih (before ++ [c]) (by rw [List.length_append, hn]; rfl)
    rw [List.append_assoc, List.singleton_append, Nat.add_right_comm] at h
    rw [List.cons_append, scan_space hc, scan_space hc]
    exact h
  | case3 n c rest hc ih =>
    subst hn
    have hl := congrArg List.length (Lexeme.source_append_rest c rest)
    rw [List.length_append] at hl
    rw [List.cons_append, scan_lexeme hc, scan_lexeme hc, List.forall_mem_cons, bare_or_isClosed_iff]
    by_cases hw : Lexeme.Whole c rest
    · have h := ih (before ++ (Lexeme.read c rest).source) List.length_append
      rw [List.append_assoc, Lexeme.source_append_rest, Nat.add_assoc, hl] at h
      rw [Lexeme.read_append hs hw, and_iff_right hw, ← h]
      exact List.cons_inj_right _
    · -- The token of the longer text stops further on.
      refine iff_of_false (fun e => ?_) fun h => hw h.1
      have hlt := Lexeme.length_source_lt hne hw
      have hstop := congrArg Token.stop (List.cons.inj e).1
      simp only [Lexeme.token] at hstop
      omega

/-- A quoted token that lacks its closing mark runs to the end of the text. -/
theorem stop_of_not_isClosed {t : Text} {u : Token} (h : u ∈ ofLine t) (hq : u.quoting ≠ .bare) (hc : ¬ u.IsClosed t) :
    u.stop = t.length := by
  have hwithin := (tiles_ofLine t).within u h
  have hend : t.drop u.stop = [] := by
    cases stands_of_mem_ofLine h with
    | bare hb => exact absurd hb hq
    | quoted _ hm hs hspells hclose =>
      cases hclose with
      | closed => exact absurd (.between hm hs hspells) hc
      | unclosed hr => exact hr
      | dangling hr => exact hr
  have := List.drop_eq_nil_iff.1 hend
  omega

theorem isClosed_unmark {t : Text} {u : Token} : (unmark u).IsClosed t ↔ u.IsClosed t := by
  constructor
  · rintro ⟨hq, hs, hspells⟩
    rw [quoting_unmark] at hq
    rw [slice_unmark] at hs
    rw [value_unmark] at hspells
    exact .between hq hs hspells
  · rintro ⟨hq, hs, hspells⟩
    rw [← quoting_unmark] at hq
    rw [← slice_unmark] at hs
    rw [← value_unmark] at hspells
    exact .between hq hs hspells

theorem not_endsOpen_iff (t : Text) : ¬ EndsOpen t ↔ ∀ u ∈ scan 0 t, u.quoting = .bare ∨ u.IsClosed t := by
  rw [← map_unmark_ofLine, List.forall_mem_map]
  simp only [quoting_unmark, isClosed_unmark]
  constructor
  · intro h u hu
    by_contra hopen
    rw [not_or] at hopen
    exact h ⟨u, hu, stop_of_not_isClosed hu hopen.1 hopen.2, hopen⟩
  · rintro h ⟨u, hu, -, hq, hc⟩
    exact (h u hu).elim hq hc

/-! ## Two texts -/

/-- The tokens of a text without the one at its end, with the marks of the header off. -/
def unmarkedTokens (t : Text) : List Token := ((tokenize t).filter fun u => !u.isEnd).map unmark

theorem unmarkedTokens_eq_scan (t : Text) : unmarkedTokens t = scan 0 t := by
  rw [unmarkedTokens, filter_tokenize, map_unmark_ofLine]

/-- The tokens of two texts with a gap between them are those of the first and then those of the second, as far on as it
    stands, exactly if the first text does not end inside a quoted token. -/
theorem unmarkedTokens_append_iff {w : Text} (hw : IsGap w) (hne : w ≠ []) (a b : Text) :
    unmarkedTokens (a ++ w ++ b) = unmarkedTokens a ++ (unmarkedTokens b).map (shift (a.length + w.length)) ↔
      ¬ EndsOpen a := by
  obtain ⟨c, w, rfl⟩ := List.exists_cons_of_ne_nil hne
  have hbreaks : Breaks (c :: w ++ b) := by
    intro d hd
    cases hd
    exact isSpace_iff.2 (hw _ List.mem_cons_self)
  have hiff := scan_append_iff (n := 0) hbreaks (List.cons_ne_nil _ _) [] a rfl
  rw [scan_gap hw, Nat.add_assoc, scan_shift] at hiff
  rw [unmarkedTokens_eq_scan, unmarkedTokens_eq_scan, unmarkedTokens_eq_scan, List.append_assoc, hiff, not_endsOpen_iff]
  rfl

/-- A text that ends outside quotes, and one that breaks off in a quoted token. -/
theorem unmarkedTokens_append_outside :
    (IsGap "\t\n".toList ∧ ¬ EndsOpen "npm '\\' -'".toList ∧ unmarkedTokens "npm '\\' -'\t\n-- b".toList =
      unmarkedTokens "npm '\\' -'".toList ++ (unmarkedTokens "-- b".toList).map (shift 12)) ∧
    EndsOpen "npm 'x\\'".toList := by
  have hw : IsGap "\t\n".toList := by decide
  have houtside := unmarkedTokens_append_iff hw (by decide) "npm '\\' -'".toList "-- b".toList
  have hinside := unmarkedTokens_append_iff hw (by decide) "npm 'x\\'".toList "-- b".toList
  have hclosed : ¬ EndsOpen "npm '\\' -'".toList := houtside.1 (by decide +kernel)
  refine ⟨⟨hw, hclosed, houtside.2 hclosed⟩, ?_⟩
  by_contra h
  exact absurd (hinside.2 h) (by decide +kernel)

end CommandBridge.Token
