/-
  CommandBridge.Proofs.Item — what a token says, and how that is written and read again.

  An item is the kind and the value of a token, without its place. It is written as the arguments of
  a command line are. The legible items are the words, the flags, the separator and the quoted
  arguments; a quoted item shows where it ends, any other runs to the next space.
  - `read_write`: a legible item that is written is the next lexeme.
  - `eq_token_of_mem_scan`: every token that is scanned is the lexeme that is read where it starts.
  - `legible_of_mem_scan`: so it says a legible item.
  - `map_unmark_markHeader`: marking the header changes nothing but the kinds of bare words.
  - `map_unmark_ofLine`: with the marks off, the tokens of a line are the scanned ones.
-/

import CommandBridge.CommandLine
import CommandBridge.Token.Scan

namespace CommandBridge.Token

/-! ## Items -/

structure Item where
  kind : Kind
  value : Text
  deriving DecidableEq, Repr

def item (t : Token) : Item := ⟨t.kind, t.value⟩

namespace Item

def quoting (i : Item) : Quoting :=
  match i.kind with
  | .argument q => q
  | _ => .bare

def isQuoted (i : Item) : Bool := i.quoting != .bare

def write (i : Item) : Text := CommandLine.writeArgument i.value i.quoting

def SpaceFree (w : Text) : Prop := ∀ c ∈ w, isSpace c = false

instance (w : Text) : Decidable (SpaceFree w) := List.decidableBAll _ w

/-- The items that can stand in a command line. -/
inductive Legible : Item → Prop
  | word {w : Text} : w ≠ [] → SpaceFree w → (∀ c ∈ w.head?, c ≠ '-' ∧ isMark c = false) → Legible ⟨.argument .bare, w⟩
  | flag {w : Text} : w.head? = some '-' → SpaceFree w → w ≠ separatorText → Legible ⟨.flag, w⟩
  | separator : Legible ⟨.separator, separatorText⟩
  | quoted {mark : Char} (value : Text) : isMark mark = true → Legible ⟨.argument (.quoted (some [mark])), value⟩

end Item

theorem isQuoted_wordKind (w value : Text) : Item.isQuoted ⟨Lexeme.wordKind w, value⟩ = false := by
  unfold Lexeme.wordKind
  split
  · rfl
  · split <;> rfl

theorem write_of_bare {i : Item} (h : i.isQuoted = false) : i.write = i.value := by
  have hq : i.quoting = .bare := by simpa [Item.isQuoted] using h
  rw [Item.write, hq]
  rfl

/-! ## Escapes -/

theorem ne_backslash_of_isMark {mark : Char} (h : isMark mark = true) : mark ≠ '\\' := by
  intro e
  rw [e] at h
  exact absurd h (by decide)

theorem isSpace_of_isMark {mark : Char} (h : isMark mark = true) : isSpace mark = false := by
  rcases isMark_iff.1 h with rfl | rfl <;> rfl

/-- A value between two marks, with a backslash before every backslash and every mark. -/
def escaped (mark : Char) (value : Text) : Text :=
  value.flatMap fun c => if c = '\\' ∨ c = mark then ['\\', c] else [c]

theorem escaped_special {mark c : Char} (h : c = '\\' ∨ c = mark) (value : Text) :
    escaped mark (c :: value) = '\\' :: c :: escaped mark value := by
  rw [escaped, List.flatMap_cons, if_pos h]
  rfl

theorem escaped_plain {mark c : Char} (h : ¬ (c = '\\' ∨ c = mark)) (value : Text) :
    escaped mark (c :: value) = c :: escaped mark value := by
  rw [escaped, List.flatMap_cons, if_neg h]
  rfl

theorem write_quoted {mark : Char} (h : isMark mark = true) (value : Text) :
    Item.write ⟨.argument (.quoted (some [mark])), value⟩ = mark :: escaped mark value ++ [mark] :=
  CommandLine.writeQuoted_single (ne_backslash_of_isMark h) value

namespace Lexeme

theorem quotedBody_backslash (mark c : Char) (rest : Text) :
    quotedBody mark ('\\' :: c :: rest) = (quotedBody mark rest).push c ['\\', c] := rfl

theorem quotedBody_mark {mark : Char} (h : mark ≠ '\\') (rest : Text) :
    quotedBody mark (mark :: rest) = ⟨.argument (.quoted (some [mark])), [], [mark], rest⟩ := by
  rw [quotedBody.eq_4 mark mark rest (fun e _ => h e) (fun _ _ e _ => h e), if_pos rfl]

theorem quotedBody_plain {mark c : Char} (h : c ≠ '\\') (hm : c ≠ mark) (rest : Text) :
    quotedBody mark (c :: rest) = (quotedBody mark rest).push c [c] := by
  rw [quotedBody.eq_4 mark c rest (fun e _ => h e) (fun _ _ e _ => h e), if_neg hm]

/-- Reading undoes escaping: the body ends at the closing mark and has the value. -/
theorem quotedBody_escaped {mark : Char} (h : mark ≠ '\\') (value rest : Text) :
    quotedBody mark (escaped mark value ++ mark :: rest) =
      ⟨.argument (.quoted (some [mark])), value, escaped mark value ++ [mark], rest⟩ := by
  induction value with
  | nil => exact quotedBody_mark h rest
  | cons c value ih =>
    by_cases hc : c = '\\' ∨ c = mark
    · rw [escaped_special hc, List.cons_append, List.cons_append, quotedBody_backslash, ih]
      rfl
    · rw [escaped_plain hc, List.cons_append]
      rw [not_or] at hc
      rw [quotedBody_plain hc.1 hc.2, ih]
      rfl

theorem kind_quotedBody (mark : Char) (t : Text) :
    (quotedBody mark t).kind = .argument (.quoted (some [mark])) := by
  fun_induction quotedBody mark t with
  | case1 => rfl
  | case2 => rfl
  | case3 c rest ih => exact ih
  | case4 rest => rfl
  | case5 c rest _ _ _ ih => exact ih

end Lexeme

/-! ## A written item is read again -/

/-- What follows cannot continue a word: it is empty or begins with a space. -/
def Breaks (rest : Text) : Prop := ∀ c ∈ rest.head?, isSpace c = true

theorem breaks_nil : Breaks [] := fun _ h => by cases h

theorem takeWhile_of_breaks {rest : Text} (h : Breaks rest) : (rest.takeWhile fun c => !isSpace c) = [] := by
  cases rest with
  | nil => rfl
  | cons c rest => exact List.takeWhile_cons_of_neg (by simp [h c rfl])

theorem dropWhile_of_breaks {rest : Text} (h : Breaks rest) : (rest.dropWhile fun c => !isSpace c) = rest := by
  cases rest with
  | nil => rfl
  | cons c rest => exact List.dropWhile_cons_of_neg (by simp [h c rfl])

namespace Lexeme

theorem word_append {c : Char} {w rest : Text} (hw : Item.SpaceFree w) (h : Breaks rest) :
    word c (w ++ rest) = ⟨wordKind (c :: w), c :: w, c :: w, rest⟩ := by
  have hp : ∀ d ∈ w, (!isSpace d) = true := by
    intro d hd
    simp [hw d hd]
  simp only [word, List.takeWhile_append_of_pos hp, List.dropWhile_append_of_pos hp, takeWhile_of_breaks h,
    dropWhile_of_breaks h, List.append_nil]

/-- A word, whatever its kind, is read back when what follows breaks it off. -/
theorem read_bare {w rest : Text} (hne : w ≠ []) (hw : Item.SpaceFree w) (hm : ∀ c ∈ w.head?, isMark c = false)
    (h : Breaks rest) :
    ∃ c body, w ++ rest = c :: body ∧ isSpace c = false ∧ read c body = ⟨wordKind w, w, w, rest⟩ := by
  cases w with
  | nil => exact absurd rfl hne
  | cons c w =>
    refine ⟨c, w ++ rest, rfl, hw c (List.mem_cons_self ..), ?_⟩
    rw [read, if_neg (by simp [hm c rfl])]
    exact word_append (fun d hd => hw d (List.mem_cons_of_mem _ hd)) h

/-- A legible item that is written is the next lexeme; unless it is quoted, a space or the end must follow. -/
theorem read_write {i : Item} (hi : i.Legible) {rest : Text} (h : i.isQuoted = true ∨ Breaks rest) :
    ∃ c body, i.write ++ rest = c :: body ∧ isSpace c = false ∧ read c body = ⟨i.kind, i.value, i.write, rest⟩ := by
  cases hi with
  | @word w hne hw hc =>
    have hk : wordKind w = .argument .bare := by
      have hd : w.head? ≠ some '-' := fun e => (hc '-' e).1 rfl
      rw [wordKind, if_neg (fun e => hd (by rw [e]; rfl)), if_neg hd]
    have hr := read_bare hne hw (fun c hd => (hc c hd).2) (h.resolve_left Bool.false_ne_true)
    rw [hk] at hr
    exact hr
  | @flag w hd hw hs =>
    have hk : wordKind w = .flag := by rw [wordKind, if_neg hs, if_pos hd]
    have hne : w ≠ [] := by
      intro e
      rw [e] at hd
      cases hd
    have hm : ∀ c ∈ w.head?, isMark c = false := by
      intro c hc
      rw [hd] at hc
      cases hc
      rfl
    have hr := read_bare hne hw hm (h.resolve_left Bool.false_ne_true)
    rw [hk] at hr
    exact hr
  | separator =>
    have hm : ∀ c ∈ separatorText.head?, isMark c = false := by
      intro c hc
      cases hc
      rfl
    exact read_bare (by decide) (by decide) hm (h.resolve_left (by decide))
  | @quoted mark value hm =>
    refine ⟨mark, escaped mark value ++ mark :: rest, ?_, isSpace_of_isMark hm, ?_⟩
    · simp [write_quoted hm]
    · rw [read, if_pos hm, write_quoted hm, quoted, quotedBody_escaped (ne_backslash_of_isMark hm)]
      rfl

theorem spaceFree_word {c : Char} (h : isSpace c = false) (rest : Text) : Item.SpaceFree (word c rest).value := by
  refine List.forall_mem_cons.2 ⟨h, fun d hd => ?_⟩
  simpa using List.all_eq_true.1 List.all_takeWhile d hd

/-- Every lexeme says a legible item. -/
theorem legible_read {c : Char} (h : isSpace c = false) (rest : Text) :
    Item.Legible ⟨(read c rest).kind, (read c rest).value⟩ := by
  unfold read
  split
  case isTrue hm =>
    have hk : (quoted c rest).kind = .argument (.quoted (some [c])) := kind_quotedBody c rest
    rw [hk]
    exact .quoted _ hm
  case isFalse hm =>
    have hw := spaceFree_word h rest
    show Item.Legible ⟨wordKind (word c rest).value, (word c rest).value⟩
    unfold wordKind
    split
    case isTrue hs => rw [hs]; exact .separator
    case isFalse hs =>
      split
      case isTrue hd => exact .flag hd hw hs
      case isFalse hd =>
        refine .word (List.cons_ne_nil _ _) hw ?_
        intro d hc
        cases hc
        exact ⟨fun e => hd (by rw [← e]; rfl), by simpa using hm⟩

end Lexeme

/-- A token is the lexeme that is read where it starts. -/
theorem eq_token_of_mem_scan {n : Nat} {s : Text} {t : Token} (h : t ∈ scan n s) :
    ∃ before c rest, s = before ++ c :: rest ∧ isSpace c = false ∧
      t = (Lexeme.read c rest).token (n + before.length) := by
  fun_induction scanFrom n s with
  | case1 n =>
    rw [scan_nil] at h
    cases h
  | case2 n d rest hd ih =>
    rw [scan_space hd] at h
    obtain ⟨before, c, body, rfl, hc, rfl⟩ := ih h
    refine ⟨d :: before, c, body, rfl, hc, ?_⟩
    rw [List.length_cons, Nat.add_right_comm, Nat.add_assoc]
  | case3 n d rest hd ih =>
    rw [scan_lexeme hd] at h
    rcases List.mem_cons.1 h with rfl | h
    · exact ⟨[], d, rest, rfl, by simpa using hd, rfl⟩
    · obtain ⟨before, c, body, hs, hc, rfl⟩ := ih h
      refine ⟨(Lexeme.read d rest).source ++ before, c, body, ?_, hc, ?_⟩
      · rw [List.append_assoc, ← hs, Lexeme.source_append_rest]
      · rw [List.length_append, Nat.add_assoc]

/-- The characters of the text that the token covers. -/
def slice (t : Text) (u : Token) : Text := (t.drop u.start).take (u.stop - u.start)

theorem slice_token {before rest : Text} {c : Char} :
    ((Lexeme.read c rest).token before.length).slice (before ++ c :: rest) = (Lexeme.read c rest).source := by
  simp [slice, Lexeme.token, ← Lexeme.source_append_rest c rest]

/-- A token is read where a word or a quote begins in the text. -/
theorem exists_read_of_mem_scan {n : Nat} {s : Text} {t : Token} (h : t ∈ scan n s) :
    ∃ c rest, c :: rest <:+ s ∧ isSpace c = false ∧
      t.item = ⟨(Lexeme.read c rest).kind, (Lexeme.read c rest).value⟩ := by
  obtain ⟨before, c, rest, hs, hc, rfl⟩ := eq_token_of_mem_scan h
  exact ⟨c, rest, ⟨before, hs.symm⟩, hc, rfl⟩

theorem legible_of_mem_scan {n : Nat} {s : Text} {t : Token} (h : t ∈ scan n s) : t.item.Legible := by
  obtain ⟨c, rest, -, hc, hi⟩ := exists_read_of_mem_scan h
  rw [hi]
  exact Lexeme.legible_read hc rest

/-! ## The header -/

/-- Reads the words that the header marks as the bare words they are. -/
def unmark (t : Token) : Token :=
  match t.kind with
  | .manager | .subcommand => { t with kind := .argument .bare }
  | _ => t

theorem unmark_of_isBareWord {t : Token} (h : t.isBareWord = true) {k : Kind} (hk : k = .manager ∨ k = .subcommand) :
    unmark { t with kind := k } = unmark t := by
  have ht : t.kind = .argument .bare := by simpa [isBareWord] using h
  rcases hk with rfl | rfl <;> simp [unmark, ht] <;> rw [← ht]

theorem map_unmark_markSubcommand (ts : List Token) : (markSubcommand ts).map unmark = ts.map unmark := by
  cases ts with
  | nil => rfl
  | cons t ts =>
    rw [markSubcommand]
    split
    case isTrue h => rw [List.map_cons, List.map_cons, unmark_of_isBareWord h (.inr rfl)]
    case isFalse => rfl

theorem map_unmark_markHeader (ts : List Token) : (markHeader ts).map unmark = ts.map unmark := by
  cases ts with
  | nil => rfl
  | cons t ts =>
    rw [markHeader]
    split
    case isTrue h =>
      rw [List.map_cons, List.map_cons, unmark_of_isBareWord h.1 (.inl rfl)]
      split
      case isTrue => rfl
      case isFalse => rw [map_unmark_markSubcommand]
    case isFalse => rfl

@[simp] theorem quoting_unmark (u : Token) : (unmark u).quoting = u.quoting := by
  obtain ⟨kind, value, start, stop⟩ := u
  cases kind <;> rfl

@[simp] theorem value_unmark (u : Token) : (unmark u).value = u.value := by
  obtain ⟨kind, value, start, stop⟩ := u
  cases kind <;> rfl

@[simp] theorem start_unmark (u : Token) : (unmark u).start = u.start := by
  obtain ⟨kind, value, start, stop⟩ := u
  cases kind <;> rfl

@[simp] theorem stop_unmark (u : Token) : (unmark u).stop = u.stop := by
  obtain ⟨kind, value, start, stop⟩ := u
  cases kind <;> rfl

theorem slice_unmark (t : Text) (u : Token) : (unmark u).slice t = u.slice t := by
  rw [slice, slice, start_unmark, stop_unmark]

theorem isEnd_unmark (t : Token) : (unmark t).isEnd = t.isEnd := by
  obtain ⟨kind, value, start, stop⟩ := t
  cases kind <;> rfl

/-- Legible items have no marked kind. -/
theorem unmark_of_legible {t : Token} (h : t.item.Legible) : unmark t = t := by
  obtain ⟨kind, value, start, stop⟩ := t
  cases h <;> rfl

theorem isEnd_of_legible {t : Token} (h : t.item.Legible) : t.isEnd = false := by
  obtain ⟨kind, value, start, stop⟩ := t
  cases h <;> rfl

/-- With the marks off, the tokens of a line are the scanned ones. -/
theorem map_unmark_ofLine (t : Text) : (ofLine t).map unmark = scan 0 t := by
  rw [ofLine, map_unmark_markHeader, List.map_congr_left fun u hu => unmark_of_legible (legible_of_mem_scan hu),
    List.map_id']

theorem mem_scan_iff {t : Text} {v : Token} : v ∈ scan 0 t ↔ ∃ u ∈ ofLine t, unmark u = v := by
  rw [← map_unmark_ofLine, List.mem_map]

theorem isEnd_of_mem_ofLine {t : Text} {u : Token} (h : u ∈ ofLine t) : u.isEnd = false := by
  rw [← isEnd_unmark]
  exact isEnd_of_legible (legible_of_mem_scan (mem_scan_iff.2 ⟨u, h, rfl⟩))

theorem filter_tokenize (t : Text) : ((tokenize t).filter fun u => !u.isEnd) = ofLine t := by
  have hl : ((ofLine t).filter fun u => !u.isEnd) = ofLine t := by
    apply List.filter_eq_self.mpr
    intro u hu
    simp [isEnd_of_mem_ofLine hu]
  rw [tokenize_eq, List.filter_append, hl]
  exact List.append_nil _

end CommandBridge.Token
