/-
  CommandBridge.Proofs.Guard.Selection — the pattern that the guard selects, and the command that is read.

  The guard cuts a text into words at every blank and knows no quotes. The scanner cuts at its four spaces only, and
  a quoted argument runs past them. So the two can see different words, but a calling word that stands bare is a word
  for both. If the header stands bare, the guard selects the pattern of the command that is read.
  - `words_of_scan`: a bare token without blanks is the first word of its text, and both go on behind it.
  - `calls_of_judged`: the words that call a command, and when they call an exec.
  - `select_iff_kind`: the selected pattern against the kind of the command.
-/

import CommandBridge.Proofs.Grammar
import CommandBridge.Proofs.Opening
import CommandBridge.Proofs.Tiling

namespace CommandBridge

/-! ## Words and tokens -/

namespace Token

variable {n : Nat} {t : Text} {u : Token} {us : List Token}

theorem read_of_isBareWord {c : Char} {rest : Text} (h : ((Lexeme.read c rest).token n).isBareWord = true) :
    Lexeme.read c rest = Lexeme.word c rest := by
  apply if_neg
  intro hm
  have hread : Lexeme.read c rest = Lexeme.quoted c rest := if_pos hm
  have hkind : ((Lexeme.read c rest).token n).kind = .argument (.quoted (some [c])) := by
    rw [hread]
    exact Lexeme.kind_quotedBody c rest
  rw [isBareWord, hkind] at h
  cases h

/-- A bare token without blanks is the first word, and behind it the same text is scanned and cut into words. -/
theorem words_of_scan (h : scan n t = u :: us) (hu : u.isBareWord = true)
    (hs : ∀ c ∈ u.value, Text.isBlank c = false) :
    ∃ k rest, us = scan k rest ∧ Text.words t = u.value :: Text.words rest := by
  fun_induction scanFrom n t with
  | case1 =>
    rw [scan_nil] at h
    cases h
  | case2 n c rest hc ih =>
    rw [scan_space hc] at h
    rw [Text.words_cons_of_isBlank (isBlank_of_isSpace hc)]
    exact ih h
  | case3 n c rest hc =>
    rw [scan_lexeme hc] at h
    cases h
    let w := c :: rest.takeWhile fun d => !isSpace d
    let behind := rest.dropWhile fun d => !isSpace d
    have hread := read_of_isBareWord hu
    have hvalue : ((Lexeme.read c rest).token n).value = w := congrArg Lexeme.value hread
    have hrest : (Lexeme.read c rest).rest = behind := congrArg Lexeme.rest hread
    have hcut : w ++ behind = c :: rest := congrArg (c :: ·) List.takeWhile_append_dropWhile
    have hbehind : ∀ d ∈ behind.head?, Text.isBlank d = true := fun d hd => isBlank_of_isSpace (breaks_dropWhile rest d hd)
    rw [hvalue] at hs ⊢
    refine ⟨_, behind, by rw [hrest], ?_⟩
    rw [← hcut, Text.words_append hbehind, Text.words_eq_singleton (List.cons_ne_nil c _) hs]
    rfl

/-- With the marks off, a marked token is a bare word. -/
theorem isBareWord_unmark (h : u.kind = .manager ∨ u.kind = .subcommand) :
    (unmark u).isBareWord = true ∧ (unmark u).value = u.value := by
  obtain ⟨kind, value, start, stop⟩ := u
  rcases h with h | h <;> cases h <;> exact ⟨rfl, rfl⟩

end Token

/-! ## Calls -/

namespace Command

/-- The first words of a line call a command of the kind. -/
inductive Calls : List Token → Kind → Prop
  | short {t : Token} {rest : List Token} : t.value ∈ callingWords → Manager.isShorthand t.value = true →
      Calls (t :: rest) .exec
  | verb {t u : Token} {rest : List Token} {k : Kind} : t.value ∈ callingWords → Manager.isShorthand t.value = false →
      u.value ∈ callingWords → (k = .exec ↔ u.value = "dlx".toList) → Calls (t :: u :: rest) k

theorem calls_of_judged {finish : Token} {ts : List Token} {k : Kind} (h : Judged finish ts (.command k)) : Calls ts k := by
  have hverb {names words : List String} {t u : Token} {k : Kind} (ht : SaysOneOf names t) (hu : SaysOneOf words u)
      (hn : ∀ w ∈ names.map String.toList, w ∈ callingWords ∧ Manager.isShorthand w = false)
      (hw : ∀ w ∈ words.map String.toList, w ∈ callingWords ∧ (k = .exec ↔ w = "dlx".toList)) (rest : List Token) :
      Calls (t :: u :: rest) k :=
    .verb (hn _ ht).1 (hn _ ht).2 (hw _ hu).1 (hw _ hu).2
  cases h with
  | @exec header body hh =>
    cases hh with
    | short ht =>
      have hshort : ∀ w ∈ ["npx", "bunx"].map String.toList, w ∈ callingWords := by decide
      exact .short (hshort _ ht) (isShort_iff.1 ht)
    | dlx ht hu => exact hverb ht hu (by decide) (by decide) body
  | @install header body hh =>
    cases hh with
    | verb ht hu => exact hverb ht hu (by decide) (by decide) body
    | @global _ _ v ht hu _ => exact hverb ht hu (by decide) (by decide) (v :: body)
  | run ht hu => exact hverb ht hu (by decide) (by decide) _
  | create ht hu => exact hverb ht hu (by decide) (by decide) _

theorem calls_of_parse {t : Text} {c : Command} (h : parse t = .ok c) : Calls (Token.ofLine t) c.kind := by
  have hj : Judged (Token.atEnd t.length) (Token.ofLine t) (.command c.kind) := by
    rw [judged_iff, ← parse_eq, h]
    rfl
  exact calls_of_judged hj

theorem solid_of_mem_callingWords {w : Text} (h : w ∈ callingWords) : ∀ c ∈ w, Text.isBlank c = false := by
  have hsub : ∀ w ∈ callingWords, w ∈ openingWords := by decide
  exact (isOpening_of_mem (hsub w h)).solid

/-- The word that calls the manager is marked as such, and so is the subcommand, unless the first is a shorthand. So
    neither is quoted. -/
def HasBareHeader (t : Text) : Prop :=
  ∃ u, (Token.tokenize t)[0]? = some u ∧ u.kind = .manager ∧
    (Manager.isShorthand u.value = false → ∃ v, (Token.tokenize t)[1]? = some v ∧ v.kind = .subcommand)

/-- The guard sees the calling words of a bare header as the first words of the text. -/
theorem words_of_calls {t : Text} {k : Kind} (h : Calls (Token.ofLine t) k) (hb : HasBareHeader t) :
    ∃ w ws, Text.words t = w :: ws ∧ (k = .exec ↔ Manager.isShorthand w = true ∨ ws.head? = some "dlx".toList) := by
  obtain ⟨first, hfirst, hmanager, hsecond⟩ := hb
  have hscan := Token.map_unmark_ofLine t
  rw [Token.tokenize_eq] at hfirst hsecond
  generalize Token.ofLine t = line at h hscan hfirst hsecond
  cases h with
  | @short u rest hu hshort =>
    cases hfirst
    obtain ⟨hbare, hvalue⟩ := Token.isBareWord_unmark (.inl hmanager)
    obtain ⟨n, behind, -, hwords⟩ := Token.words_of_scan hscan.symm hbare (hvalue ▸ solid_of_mem_callingWords hu)
    rw [hvalue] at hwords
    exact ⟨_, _, hwords, iff_of_true rfl (.inl hshort)⟩
  | @verb u v rest _ hu hshort hv hk =>
    cases hfirst
    obtain ⟨second, hsecond, hsubcommand⟩ := hsecond hshort
    cases hsecond
    obtain ⟨hbare, hvalue⟩ := Token.isBareWord_unmark (.inl hmanager)
    obtain ⟨hbare', hvalue'⟩ := Token.isBareWord_unmark (.inr hsubcommand)
    obtain ⟨n, behind, hrest, hwords⟩ := Token.words_of_scan hscan.symm hbare (hvalue ▸ solid_of_mem_callingWords hu)
    obtain ⟨_, behind', -, hwords'⟩ := Token.words_of_scan hrest.symm hbare' (hvalue' ▸ solid_of_mem_callingWords hv)
    rw [hwords', hvalue, hvalue'] at hwords
    refine ⟨_, _, hwords, ?_⟩
    simp [hk, hshort]

end Command

/-- If the header stands bare, the guard selects the exec pattern for execs and the standard pattern for the rest. -/
theorem Guard.select_iff_kind {t : Text} {c : Command} (h : Command.parse t = .ok c) (hb : Command.HasBareHeader t) :
    (select t = .exec ↔ c.kind = .exec) ∧
      (select t = .standard ↔ c.kind = .install ∨ c.kind = .run ∨ c.kind = .create) := by
  obtain ⟨w, ws, hwords, hk⟩ := Command.words_of_calls (Command.calls_of_parse h) hb
  have hselect : select t = if c.kind = .exec then .exec else .standard := by
    simp only [select, hwords, hk]
  rw [hselect]
  cases c.kind <;> decide

/-- Behind the header the guard sees four words, and the scanner three tokens. -/
theorem Guard.select_iff_kind_blank :
    ∃ c, Command.parse "\tyarn  dlx\n'a dlx'\u00a0-- x".toList = .ok c ∧
      select "\tyarn  dlx\n'a dlx'\u00a0-- x".toList = .exec ∧ ¬ (c.kind = .install ∨ c.kind = .run ∨ c.kind = .create) := by
  let c : Command := .exec ⟨⟨.yarn, "yarn".toList, ⟨1, 5⟩⟩, some ⟨"dlx".toList, ⟨7, 10⟩⟩, [],
    .argument ⟨"a dlx".toList, .quoted ['\''], ⟨11, 18⟩⟩,
    [.argument ⟨"\u00a0--".toList, .bare, ⟨18, 21⟩⟩, .argument ⟨"x".toList, .bare, ⟨22, 23⟩⟩], ⟨1, 23⟩⟩
  have h : Command.parse "\tyarn  dlx\n'a dlx'\u00a0-- x".toList = .ok c := by decide +kernel
  have hb : Command.HasBareHeader "\tyarn  dlx\n'a dlx'\u00a0-- x".toList :=
    ⟨⟨.manager, "yarn".toList, 1, 5⟩, by decide +kernel, rfl, fun _ =>
      ⟨⟨.subcommand, "dlx".toList, 7, 10⟩, by decide +kernel, rfl⟩⟩
  obtain ⟨hexec, hstandard⟩ := select_iff_kind h hb
  refine ⟨c, h, hexec.2 rfl, fun hk => ?_⟩
  rw [hexec.2 rfl] at hstandard
  exact absurd (hstandard.2 hk) (by decide)

/-- Quotes hide a calling word from the guard, but not from the parser. -/
example : Guard.select "pnpm 'dlx' a".toList = .standard ∧
    (Command.parse "pnpm 'dlx' a".toList).toOption.map Command.kind = some .exec := by decide +kernel

end CommandBridge
