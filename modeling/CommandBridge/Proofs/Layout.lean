/-
  CommandBridge.Proofs.Layout — items laid out in a text with gaps of spaces.

  A layout has a leading gap and then items, each with the gap after it. A gap is any run of spaces.
  Between two items it may be empty only if the first is quoted.
  - `tokenize_layout`: the tokens of a layout's text are its items, in order and at their places.
  - `scan_join`: so are the items of a line whose words are joined by single spaces.
  - `scan_join_append`: and so they are if something follows that breaks the line off.
-/

import CommandBridge.Proofs.Item

namespace CommandBridge.Token

def IsGap (gap : Text) : Prop := ∀ c ∈ gap, c = ' ' ∨ c = '\t' ∨ c = '\r' ∨ c = '\n'

instance (gap : Text) : Decidable (IsGap gap) := List.decidableBAll _ gap

theorem scan_gap {gap : Text} (h : IsGap gap) (n : Nat) (rest : Text) :
    scan n (gap ++ rest) = scan (n + gap.length) rest := by
  induction gap generalizing n with
  | nil => rfl
  | cons c gap ih =>
    rw [List.cons_append, scan_space (isSpace_iff.2 (h c (List.mem_cons_self ..))), ih fun d hd => h d (List.mem_cons_of_mem _ hd),
      List.length_cons, Nat.add_right_comm, Nat.add_assoc]

/-! ## One item -/

namespace Item

/-- The token of an item that is written from a place on. -/
def placed (i : Item) (offset : Nat) : Token := ⟨i.kind, i.value, offset, offset + i.write.length⟩

@[simp] theorem item_placed (i : Item) (n : Nat) : (i.placed n).item = i := rfl

end Item

theorem scan_write {i : Item} (hi : i.Legible) {rest : Text} (h : i.isQuoted = true ∨ Breaks rest) (n : Nat) :
    scan n (i.write ++ rest) = i.placed n :: scan (n + i.write.length) rest := by
  obtain ⟨c, body, hs, hc, hr⟩ := Lexeme.read_write hi h
  rw [hs, scan_lexeme (by simp [hc]), hr]
  rfl

/-! ## Layouts -/

/-- Every gap is one, and unless it ends a quoted item or the text, it is not empty. -/
def Spaced : List (Item × Text) → Prop
  | [] => True
  | (i, gap) :: rest => i.Legible ∧ IsGap gap ∧ (gap = [] → i.isQuoted = true ∨ rest = []) ∧ Spaced rest

structure Layout where
  lead : Text
  pieces : List (Item × Text)
  isGap_lead : IsGap lead
  spaced : Spaced pieces

def layOut (pieces : List (Item × Text)) : Text := pieces.flatMap fun p => p.1.write ++ p.2

/-- The tokens of the pieces, the first of which is written at `offset`. -/
def place (offset : Nat) : List (Item × Text) → List Token
  | [] => []
  | (i, gap) :: rest => i.placed offset :: place (offset + i.write.length + gap.length) rest

namespace Layout

def text (l : Layout) : Text := l.lead ++ layOut l.pieces

def tokens (l : Layout) : List Token := place l.lead.length l.pieces

end Layout

theorem layOut_cons (i : Item) (gap : Text) (rest : List (Item × Text)) :
    layOut ((i, gap) :: rest) = i.write ++ (gap ++ layOut rest) := by
  rw [layOut, List.flatMap_cons, List.append_assoc]
  rfl

/-- A layout is scanned up to its end whatever breaks it off there. -/
theorem scan_layOut_append {pieces : List (Item × Text)} (h : Spaced pieces) {rest : Text} (hr : Breaks rest) (n : Nat) :
    scan n (layOut pieces ++ rest) = place n pieces ++ scan (n + (layOut pieces).length) rest := by
  induction pieces generalizing n with
  | nil => rfl
  | cons p tail ih =>
    obtain ⟨i, gap⟩ := p
    obtain ⟨hi, hg, he, htail⟩ := h
    -- A quoted item ends itself; any other is broken off by its gap, which is empty only at the end.
    have hb : i.isQuoted = true ∨ Breaks (gap ++ (layOut tail ++ rest)) := by
      cases gap with
      | nil =>
        rcases he rfl with hq | rfl
        · exact .inl hq
        · exact .inr hr
      | cons g gap =>
        right
        intro c hc
        cases hc
        exact isSpace_iff.2 (hg _ (List.mem_cons_self ..))
    rw [layOut_cons, List.append_assoc, List.append_assoc, scan_write hi hb, scan_gap hg, ih htail, List.length_append,
      List.length_append, ← Nat.add_assoc, ← Nat.add_assoc]
    rfl

theorem scan_layOut {pieces : List (Item × Text)} (h : Spaced pieces) (n : Nat) :
    scan n (layOut pieces) = place n pieces := by
  have hs := scan_layOut_append h breaks_nil n
  rw [List.append_nil, scan_nil, List.append_nil] at hs
  exact hs

/-- Tokenizing undoes laying out. The first two words may be marked as the header; with the marks
    off, every token is the item that was written at its place. -/
theorem tokenize_layout (l : Layout) :
    tokenize l.text = markHeader l.tokens ++ [atEnd l.text.length] ∧
      (tokenize l.text).map unmark = l.tokens ++ [atEnd l.text.length] := by
  have hs : scan 0 l.text = l.tokens := by
    rw [Layout.text, scan_gap l.isGap_lead, scan_layOut l.spaced, Nat.zero_add, Layout.tokens]
  have ht : tokenize l.text = markHeader l.tokens ++ [atEnd l.text.length] := by rw [tokenize_eq, ofLine, hs]
  refine ⟨ht, ?_⟩
  have hu : l.tokens.map unmark = l.tokens := by
    rw [← hs, List.map_congr_left fun t ht => unmark_of_legible (legible_of_mem_scan ht), List.map_id']
  rw [ht, List.map_append, map_unmark_markHeader, hu]
  rfl

/-- Two quoted items side by side, a separator, a flag and a word. -/
def Layout.adjacent : Layout where
  lead := "\t".toList
  pieces :=
    [(⟨.argument (.quoted (some [Text.singleQuote])), "--".toList⟩, []),
     (⟨.argument (.quoted (some [Text.doubleQuote])), "\\".toList⟩, "\r\n".toList),
     (⟨.separator, "--".toList⟩, " ".toList), (⟨.flag, "--x".toList⟩, " ".toList), (⟨.argument .bare, "a'b".toList⟩, [])]
  isGap_lead := by decide
  spaced := by
    have hflag : Item.Legible ⟨.flag, "--x".toList⟩ := .flag rfl (by decide) (by decide)
    have hword : Item.Legible ⟨.argument .bare, "a'b".toList⟩ := by
      refine .word (by decide) (by decide) ?_
      intro c hc
      cases hc
      decide
    refine ⟨.quoted _ (by decide), by decide, fun _ => .inl rfl, ?_⟩
    refine ⟨.quoted _ (by decide), by decide, nofun, .separator, by decide, nofun, ?_⟩
    exact ⟨hflag, by decide, nofun, hword, by decide, fun _ => .inr rfl, trivial⟩

theorem tokenize_layout_adjacent :
    Layout.adjacent.text = "\t'--'\"\\\\\"\r\n-- --x a'b".toList ∧
    (tokenize "\t'--'\"\\\\\"\r\n-- --x a'b".toList).map unmark =
      [⟨.argument (.quoted (some [Text.singleQuote])), "--".toList, 1, 5⟩,
       ⟨.argument (.quoted (some [Text.doubleQuote])), "\\".toList, 5, 9⟩, ⟨.separator, "--".toList, 11, 13⟩,
       ⟨.flag, "--x".toList, 14, 17⟩, ⟨.argument .bare, "a'b".toList, 18, 21⟩, ⟨.eof, [], 21, 21⟩] := by
  have htext : Layout.adjacent.text = "\t'--'\"\\\\\"\r\n-- --x a'b".toList := by decide +kernel
  refine ⟨htext, ?_⟩
  rw [← htext, (tokenize_layout Layout.adjacent).2]
  decide +kernel

/-! ## Joined lines -/

/-- A space after every item but the last. -/
def spread : List Item → List (Item × Text)
  | [] => []
  | [i] => [(i, [])]
  | i :: j :: rest => (i, [' ']) :: spread (j :: rest)

theorem write_ne_nil {i : Item} (h : i.Legible) : i.write ≠ [] := by
  cases h with
  | word hne _ _ => exact hne
  | @flag w hd _ _ =>
    intro (e : w = [])
    rw [e] at hd
    cases hd
  | separator => decide
  | quoted value hm => rw [write_quoted hm]; exact List.cons_ne_nil _ _

theorem spaced_spread {items : List Item} (h : ∀ i ∈ items, i.Legible) : Spaced (spread items) := by
  fun_induction spread items with
  | case1 => trivial
  | case2 i => exact ⟨h i (List.mem_cons_self ..), nofun, fun _ => .inr rfl, trivial⟩
  | case3 i j rest ih =>
    exact ⟨h i (List.mem_cons_self ..), by decide, nofun, ih fun k hk => h k (List.mem_cons_of_mem _ hk)⟩

theorem layOut_spread (items : List Item) : layOut (spread items) = Text.joinWords (items.map Item.write) := by
  fun_induction spread items with
  | case1 => rfl
  | case2 i => simp [layOut, Text.joinWords]
  | case3 i j rest ih =>
    rw [layOut_cons, ih]
    simp [Text.joinWords, List.intercalate_cons_cons]

theorem map_item_place (n : Nat) (pieces : List (Item × Text)) : (place n pieces).map item = pieces.map Prod.fst := by
  induction pieces generalizing n with
  | nil => rfl
  | cons p rest ih => simp [place, ih]

theorem map_fst_spread (items : List Item) : (spread items).map Prod.fst = items := by
  fun_induction spread items with
  | case1 => rfl
  | case2 => rfl
  | case3 i j rest ih => rw [List.map_cons, ih]

/-- What a token says does not hang on where the text stands. -/
theorem map_item_scan (n k : Nat) (t : Text) : (scan n t).map item = (scan k t).map item := by
  fun_induction scanFrom n t generalizing k with
  | case1 => rw [scan_nil, scan_nil]
  | case2 n c rest hc ih => rw [scan_space hc, scan_space hc, ih]
  | case3 n c rest hc ih =>
    rw [scan_lexeme hc, scan_lexeme hc, List.map_cons, List.map_cons, ih]
    rfl

/-- A line that joins written items says these items, and then what follows says. -/
theorem scan_join_append {items : List Item} (h : ∀ i ∈ items, i.Legible) {rest : Text} (hr : Breaks rest) (n : Nat) :
    (scan n (CommandLine.join (items.map Item.write) ++ rest)).map item = items ++ (scan 0 rest).map item := by
  have hne : ∀ w ∈ items.map Item.write, w ≠ [] := List.forall_mem_map.2 fun i hi => write_ne_nil (h i hi)
  rw [CommandLine.join_eq_joinWords hne, ← layOut_spread, scan_layOut_append (spaced_spread h) hr, List.map_append,
    map_item_place, map_fst_spread, map_item_scan _ 0]

/-- A line that joins written items says these items. -/
theorem scan_join {items : List Item} (h : ∀ i ∈ items, i.Legible) (n : Nat) :
    (scan n (CommandLine.join (items.map Item.write))).map item = items := by
  have hs := scan_join_append h breaks_nil n
  rw [List.append_nil, scan_nil, List.map_nil, List.append_nil] at hs
  exact hs

/-- Words each of which an item of a class is written as are written from items of the class. -/
theorem exists_items {P : Item → Prop} {ws : List Text} (h : ∀ w ∈ ws, ∃ i : Item, P i ∧ i.write = w) :
    ∃ items : List Item, (∀ i ∈ items, P i) ∧ items.map Item.write = ws := by
  induction ws with
  | nil => exact ⟨[], List.forall_mem_nil _, rfl⟩
  | cons w ws ih =>
    obtain ⟨⟨i, hi, rfl⟩, hws⟩ := List.forall_mem_cons.1 h
    obtain ⟨items, hitems, rfl⟩ := ih hws
    exact ⟨i :: items, List.forall_mem_cons.2 ⟨hi, hitems⟩, rfl⟩

end CommandBridge.Token
