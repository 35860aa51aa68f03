/-
  CommandBridge.Proofs.Tiling — where the tokens of a text stand in it.

  The tokens of a text cover it from left to right, all but the spaces between them. What a token says
  can be read off the characters that it covers: a bare one says them as they are, a quoted one what
  they spell between its marks.
  - `Tiles.isSpace_outside`: nothing but spaces stands before the first token and after the last.
  - `tiles_scan`: the scanned tokens tile the text that they are scanned from.
  - `spells_quotedBody`: what is read after an opening mark spells the value, up to the closing mark.
  - `stands_of_mem_ofLine`: every token stands in the text with the value that it has.
  - `marked_markHeader`: only the first two tokens are ever marked.
  - `tokenize_tiles`: all this of the tokens of a text, and what a scanner gives when asked again.
-/

import CommandBridge.Command.Parse
import CommandBridge.Proofs.Item
import Mathlib.Logic.Function.Iterate

namespace CommandBridge.Token

/-! ## Tokens tile their text -/

/-- The tokens cover the text, whose first character stands at `n`, from left to right, and all of it but spaces. -/
structure Tiles (n : Nat) (t : Text) (ts : List Token) : Prop where
  within : ∀ u ∈ ts, n ≤ u.start ∧ u.start < u.stop ∧ u.stop ≤ n + t.length
  ordered : ts.Pairwise fun u v => u.stop ≤ v.start
  gaps : ∀ i c, t[i]? = some c → (∀ u ∈ ts, ¬ (u.start ≤ n + i ∧ n + i < u.stop)) → isSpace c = true

namespace Tiles

variable {n : Nat} {t : Text} {ts : List Token}

theorem nil (n : Nat) : Tiles n [] [] := ⟨nofun, .nil, nofun⟩

theorem space {c : Char} (hc : isSpace c = true) (h : Tiles (n + 1) t ts) : Tiles n (c :: t) ts where
  within u hu := by
    have := h.within u hu
    rw [List.length_cons]
    omega
  ordered := h.ordered
  gaps i d hd hu := by
    cases i with
    | zero =>
      cases hd
      exact hc
    | succ i =>
      refine h.gaps i d hd fun u hmem => ?_
      rw [Nat.add_assoc, Nat.add_comm 1 i]
      exact hu u hmem

/-- A token that covers the head of the text is put in front of the tokens of the rest. -/
theorem cons {source : Text} {u : Token} (hne : source ≠ []) (hstart : u.start = n) (hstop : u.stop = n + source.length)
    (h : Tiles (n + source.length) t ts) : Tiles n (source ++ t) (u :: ts) := by
  have hpos : 0 < source.length := List.length_pos_iff.2 hne
  refine ⟨?_, ?_, ?_⟩
  · rw [List.length_append]
    refine List.forall_mem_cons.2 ⟨by omega, fun v hv => ?_⟩
    have := h.within v hv
    omega
  · refine List.pairwise_cons.2 ⟨fun v hv => ?_, h.ordered⟩
    have := h.within v hv
    omega
  · intro i c hc hu
    obtain ⟨hhead, htail⟩ := List.forall_mem_cons.1 hu
    have hi : source.length ≤ i := by omega
    rw [List.getElem?_append_right hi] at hc
    refine h.gaps (i - source.length) c hc fun v hv => ?_
    rw [show n + source.length + (i - source.length) = n + i by omega]
    exact htail v hv

/-- All tokens stand between the start of the first and the end of the last. -/
theorem between (h : Tiles n t ts) {first last u : Token} (hf : ts.head? = some first) (hl : ts.getLast? = some last)
    (hu : u ∈ ts) : first.start ≤ u.start ∧ u.stop ≤ last.stop := by
  obtain ⟨rest, rfl⟩ := List.head?_eq_some_iff.1 hf
  constructor
  · rcases List.mem_cons.1 hu with rfl | hu
    · exact Nat.le_refl _
    · have := (List.pairwise_cons.1 h.ordered).1 u hu
      have := h.within first List.mem_cons_self
      omega
  · obtain ⟨before, hts⟩ := List.getLast?_eq_some_iff.1 hl
    have hordered := h.ordered
    rw [hts] at hu hordered
    rcases List.mem_append.1 hu with hu | hu
    · have := (List.pairwise_append.1 hordered).2.2 u hu last (List.mem_singleton_self last)
      have := h.within last (List.mem_of_getLast? hl)
      omega
    · obtain rfl := List.mem_singleton.1 hu
      exact Nat.le_refl _

theorem isSpace_outside (h : Tiles n t ts) {first last : Token} (hf : ts.head? = some first)
    (hl : ts.getLast? = some last) {i : Nat} {c : Char} (hc : t[i]? = some c)
    (ho : n + i < first.start ∨ last.stop ≤ n + i) : isSpace c = true := by
  refine h.gaps i c hc fun u hu hcover => ?_
  have := h.between hf hl hu
  omega

/-- Marks of the header change no places. -/
theorem of_unmark (h : Tiles n t (ts.map unmark)) : Tiles n t ts := by
  obtain ⟨hwithin, hordered, hgaps⟩ := h
  simp only [List.forall_mem_map, List.pairwise_map, start_unmark, stop_unmark] at hwithin hordered hgaps
  exact ⟨hwithin, hordered, hgaps⟩

end Tiles

theorem tiles_scan (n : Nat) (t : Text) : Tiles n t (scan n t) := by
  fun_induction scanFrom n t with
  | case1 n =>
    rw [scan_nil]
    exact .nil n
  | case2 n c rest hc ih =>
    rw [scan_space hc]
    exact .space hc ih
  | case3 n c rest hc ih =>
    rw [scan_lexeme hc]
    have h := Tiles.cons (u := (Lexeme.read c rest).token n) (Lexeme.source_ne_nil c rest) rfl rfl ih
    rw [Lexeme.source_append_rest] at h
    exact h

theorem tiles_ofLine (t : Text) : Tiles 0 t (ofLine t) := by
  apply Tiles.of_unmark
  rw [map_unmark_ofLine]
  exact tiles_scan 0 t

/-! ## Quoted values -/

/-- What stands between two marks spells a value: a backslash gives way to the character after it, and neither a
    mark nor a backslash stands for itself without one. -/
inductive Spells (mark : Char) : Text → Text → Prop
  | nil : Spells mark [] []
  | plain {c : Char} {body value : Text} : c ≠ '\\' → c ≠ mark → Spells mark body value →
      Spells mark (c :: body) (c :: value)
  | escape (c : Char) {body value : Text} : Spells mark body value → Spells mark ('\\' :: c :: body) (c :: value)

/-- How the characters after an opening mark end: with the closing mark, or else with the text, which may break off
    after a backslash. -/
inductive Closes (mark : Char) (rest : Text) : Text → Prop
  | closed : Closes mark rest [mark]
  | unclosed : rest = [] → Closes mark rest []
  | dangling : rest = [] → Closes mark rest ['\\']

theorem spells_quotedBody (mark : Char) (t : Text) : ∃ body close,
    (Lexeme.quotedBody mark t).source = body ++ close ∧ Spells mark body (Lexeme.quotedBody mark t).value ∧
      Closes mark (Lexeme.quotedBody mark t).rest close := by
  fun_induction Lexeme.quotedBody mark t with
  | case1 => exact ⟨[], [], rfl, .nil, .unclosed rfl⟩
  | case2 => exact ⟨[], ['\\'], rfl, .nil, .dangling rfl⟩
  | case3 c rest ih =>
    obtain ⟨body, close, hs, hspells, hclose⟩ := ih
    exact ⟨'\\' :: c :: body, close, congrArg ('\\' :: c :: ·) hs, .escape c hspells, hclose⟩
  | case4 rest => exact ⟨[], [mark], rfl, .nil, .closed⟩
  | case5 c rest hend hescape hm ih =>
    obtain ⟨body, close, hs, hspells, hclose⟩ := ih
    have hc : c ≠ '\\' := by
      rintro rfl
      cases rest with
      | nil => exact hend rfl rfl
      | cons d rest => exact hescape d rest rfl rfl
    exact ⟨c :: body, close, congrArg (c :: ·) hs, .plain hc hm hspells, hclose⟩

/-! ## Tokens show their values -/

/-- The value of a token can be read off the text. -/
inductive Stands (t : Text) (u : Token) : Prop
  /-- A bare token says what it covers, and runs to a space or to the end. -/
  | bare : u.quoting = .bare → u.value = u.slice t → Item.SpaceFree u.value → Breaks (t.drop u.stop) → Stands t u
  | quoted {mark : Char} {body close : Text} : isMark mark = true → u.quoting = .quoted (some [mark]) →
      u.slice t = mark :: body ++ close → Spells mark body u.value → Closes mark (t.drop u.stop) close → Stands t u

theorem breaks_dropWhile (t : Text) : Breaks (t.dropWhile fun d => !isSpace d) := by
  intro c hc
  have h := List.head?_dropWhile_not (fun d => !isSpace d) t
  rw [Option.mem_def.1 hc] at h
  simpa using h

theorem quoting_of_not_isQuoted {u : Token} (h : u.item.isQuoted = false) : u.quoting = .bare := by
  have hq : u.item.quoting = u.quoting := rfl
  simpa [Item.isQuoted, hq] using h

theorem quoting_token (c : Char) (rest : Text) (n : Nat) :
    ((Lexeme.read c rest).token n).quoting = if isMark c then .quoted (some [c]) else .bare := by
  by_cases hm : isMark c = true
  · have hkind : (Lexeme.quoted c rest).kind = .argument (.quoted (some [c])) := Lexeme.kind_quotedBody c rest
    rw [if_pos hm, Lexeme.read, if_pos hm]
    simp [quoting, Lexeme.token, hkind]
  · rw [if_neg hm, Lexeme.read, if_neg hm]
    exact quoting_of_not_isQuoted (isQuoted_wordKind _ _)

theorem stands_of_mem_scan {t : Text} {u : Token} (h : u ∈ scan 0 t) : Stands t u := by
  obtain ⟨before, c, rest, rfl, hc, rfl⟩ := eq_token_of_mem_scan h
  have hslice : slice (before ++ c :: rest) ((Lexeme.read c rest).token before.length) = (Lexeme.read c rest).source :=
    slice_token
  have hdrop : (before ++ c :: rest).drop ((Lexeme.read c rest).token before.length).stop = (Lexeme.read c rest).rest := by
    rw [← Lexeme.source_append_rest c rest, ← List.append_assoc]
    exact List.drop_left' List.length_append
  rw [Nat.zero_add]
  have hquoting := quoting_token c rest before.length
  by_cases hm : isMark c = true
  · have hread : Lexeme.read c rest = Lexeme.quoted c rest := if_pos hm
    rw [if_pos hm] at hquoting
    rw [hread] at hslice hdrop hquoting ⊢
    obtain ⟨body, close, hsource, hspells, hclose⟩ := spells_quotedBody c rest
    refine .quoted hm hquoting ?_ hspells (hdrop ▸ hclose)
    rw [hslice]
    exact congrArg (c :: ·) hsource
  · have hread : Lexeme.read c rest = Lexeme.word c rest := if_neg hm
    rw [if_neg hm] at hquoting
    rw [hread] at hslice hdrop hquoting ⊢
    refine .bare hquoting hslice.symm (Lexeme.spaceFree_word hc rest) ?_
    rw [hdrop]
    exact breaks_dropWhile rest

theorem stands_of_mem_ofLine {t : Text} {u : Token} (h : u ∈ ofLine t) : Stands t u := by
  cases stands_of_mem_scan (mem_scan_iff.2 ⟨u, h, rfl⟩) with
  | bare hq hv hfree hbreaks =>
    rw [quoting_unmark] at hq
    rw [value_unmark] at hv hfree
    rw [slice_unmark] at hv
    rw [stop_unmark] at hbreaks
    exact .bare hq hv hfree hbreaks
  | quoted hm hq hs hspells hclose =>
    rw [quoting_unmark] at hq
    rw [slice_unmark] at hs
    rw [value_unmark] at hspells
    rw [stop_unmark] at hclose
    exact .quoted hm hq hs hspells hclose

/-! ## Marked tokens -/

theorem kind_of_legible {u : Token} (h : u.item.Legible) : u.kind ≠ .manager ∧ u.kind ≠ .subcommand := by
  obtain ⟨kind, value, start, stop⟩ := u
  cases h <;> exact ⟨nofun, nofun⟩

theorem marked_markSubcommand {ts : List Token} (h : ∀ u ∈ ts, u.kind ≠ .manager ∧ u.kind ≠ .subcommand) {i : Nat}
    {u : Token} (hu : (markSubcommand ts)[i]? = some u) : u.kind ≠ .manager ∧ (u.kind = .subcommand → i = 0) := by
  have hplain {i : Nat} {u : Token} (hu : ts[i]? = some u) : u.kind ≠ .manager ∧ (u.kind = .subcommand → i = 0) := by
    obtain ⟨hm, hs⟩ := h u (List.mem_of_getElem? hu)
    exact ⟨hm, fun e => absurd e hs⟩
  cases ts with
  | nil => cases hu
  | cons t ts =>
    rw [markSubcommand] at hu
    split at hu
    case isFalse => exact hplain hu
    case isTrue =>
      cases i with
      | zero =>
        cases hu
        exact ⟨by simp, fun _ => rfl⟩
      | succ i => exact ⟨(hplain (i := i + 1) hu).1, fun e => absurd ((hplain (i := i + 1) hu).2 e) (Nat.succ_ne_zero i)⟩

/-- Only the first token is marked as a manager, and only the one after it as its subcommand. -/
theorem marked_markHeader {ts : List Token} (h : ∀ u ∈ ts, u.kind ≠ .manager ∧ u.kind ≠ .subcommand) {i : Nat} {u : Token}
    (hu : (markHeader ts)[i]? = some u) :
    (u.kind = .manager → i = 0) ∧
      (u.kind = .subcommand → i = 1 ∧ ∃ m, (markHeader ts)[0]? = some m ∧ m.kind = .manager) := by
  have hplain {i : Nat} (hu : ts[i]? = some u) : u.kind ≠ .manager ∧ u.kind ≠ .subcommand :=
    h u (List.mem_of_getElem? hu)
  cases ts with
  | nil => cases hu
  | cons t ts =>
    rw [markHeader] at hu ⊢
    split at hu
    case isFalse =>
      obtain ⟨hm, hs⟩ := hplain hu
      exact ⟨fun e => absurd e hm, fun e => absurd e hs⟩
    case isTrue hc =>
      rw [if_pos hc]
      cases i with
      | zero =>
        cases hu
        exact ⟨fun _ => rfl, by simp⟩
      | succ i =>
        rw [List.getElem?_cons_succ] at hu
        split at hu
        case isTrue =>
          obtain ⟨hm, hs⟩ := hplain (i := i + 1) hu
          exact ⟨fun e => absurd e hm, fun e => absurd e hs⟩
        case isFalse =>
          obtain ⟨hm, hs⟩ := marked_markSubcommand (fun v hv => h v (List.mem_cons_of_mem _ hv)) hu
          exact ⟨fun e => absurd e hm, fun e => ⟨congrArg (· + 1) (hs e), _, rfl, rfl⟩⟩

theorem marked_tokenize {t : Text} {i : Nat} {u : Token} (hu : (tokenize t)[i]? = some u) :
    (u.kind = .manager → i = 0) ∧
      (u.kind = .subcommand → i = 1 ∧ ∃ m, (tokenize t)[0]? = some m ∧ m.kind = .manager) := by
  by_cases hi : i < (ofLine t).length
  · rw [tokenize_eq, List.getElem?_append_left hi] at hu
    obtain ⟨hm, hs⟩ := marked_markHeader (fun v hv => kind_of_legible (legible_of_mem_scan hv)) hu
    refine ⟨hm, fun e => ?_⟩
    obtain ⟨hone, m, hfirst, hkind⟩ := hs e
    refine ⟨hone, m, ?_, hkind⟩
    rw [tokenize_eq, List.getElem?_append_left (Nat.zero_lt_of_lt hi)]
    exact hfirst
  · rw [tokenize_eq, List.getElem?_append_right (Nat.le_of_not_lt hi)] at hu
    rw [List.mem_singleton.1 (List.mem_of_getElem? hu)]
    simp [atEnd]

/-! ## Asking again -/

/-- However often a scanner has been asked, once more leaves it at the end. -/
theorem Scanner.finish_iterate (t : Text) (k : Nat) : (Scanner.finish^[k] (.ofText t)).finish = ⟨t.length, []⟩ := by
  induction k with
  | zero => simp [finish_eq, ofText]
  | succ k ih => rw [Function.iterate_succ_apply', finish_finish, ih]

/-- The tokens of a text end with the one at its end. All others tile the text, show their values in it, and are
    marked only as its header. A scanner that has given them gives the token at the end from then on, and a parser
    that has used the scanner fails there. -/
theorem tokenize_tiles (t : Text) :
    (∃ ts, tokenize t = ts ++ [atEnd t.length] ∧ (∀ u ∈ ts, u.kind ≠ .eof) ∧ Tiles 0 t ts ∧ ∀ u ∈ ts, Stands t u) ∧
    (∀ i u, (tokenize t)[i]? = some u → (u.kind = .manager → i = 0) ∧
      (u.kind = .subcommand → i = 1 ∧ ∃ m, (tokenize t)[0]? = some m ∧ m.kind = .manager)) ∧
    (Scanner.ofText t).run = (tokenize t, ⟨t.length, []⟩) ∧
    (∀ k, ((fun s : Scanner => s.run.2)^[k + 1] (.ofText t)).run = ([atEnd t.length], ⟨t.length, []⟩)) ∧
    ∀ k, ∃ e, (Command.parseNext ((fun s => (Command.parseNext s).2)^[k + 1] (.ofText t))).1 = .error e ∧
      e.reason = .notSupported ∧ e.token = atEnd t.length := by
  have hend : ∀ u ∈ ofLine t, u.kind ≠ .eof := by
    intro u hu
    simpa [isEnd] using isEnd_of_mem_ofLine hu
  refine ⟨⟨ofLine t, tokenize_eq t, hend, tiles_ofLine t, fun u hu => stands_of_mem_ofLine hu⟩, fun i u => marked_tokenize, ?_, ?_, ?_⟩
  · rw [← Scanner.run_ofText]
    exact Prod.ext rfl (Scanner.finish_iterate t 0)
  · intro k
    rw [Function.iterate_succ_apply', Scanner.run_run]
    exact Prod.ext (congrArg (fun s => [atEnd s.offset]) (Scanner.finish_iterate t k)) (Scanner.finish_iterate t k)
  · intro k
    rw [Function.iterate_succ_apply', Command.parseNext_again]
    exact ⟨_, rfl, rfl, congrArg (fun s => atEnd s.offset) (Scanner.finish_iterate t k)⟩

example : (tokenize "npm i 'a\\'b' c\"d".toList).map (slice "npm i 'a\\'b' c\"d".toList) =
    ["npm".toList, "i".toList, "'a\\'b'".toList, "c\"d".toList, []] := by decide +kernel

end CommandBridge.Token
