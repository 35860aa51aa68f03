/-
  CommandBridge.Proofs.Guard.Search — the search of the guard, and one scan from the first parenthesis.

  The guard searches for a regular expression with a look-ahead: it tries every place of the text, and at an opening
  parenthesis every closing one behind it on the line. What refuses a closing parenthesis is what follows it, not
  where its group was opened. So what is refused behind some opening parenthesis is refused behind the first one,
  and one scan is enough.
  - `isComposed_iff_foundIn`: the guard finds what matches the expression somewhere, however its parts are cut.
  - `foundIn_composition_iff`: without operators, the closing parentheses behind the first opening one decide.
  - `refusal?_eq_none_iff`: the guard accepts what the search does not find, and that is what the scan lets pass.
-/

import CommandBridge.Proofs.Operators

namespace CommandBridge.Guard

/-! ## Regular expressions -/

/-- Regular expressions with a negative look-ahead. -/
inductive Regex
  | oneOf (ws : List Text)
  | many (accepts : Char → Bool)
  | seq (r s : Regex)
  | alt (r s : Regex)
  | notAhead (r : Regex)

namespace Regex

/-- The expression can match `m` where `after` follows. Parts match in any way that there is, as if all ways were tried. -/
def Matches : Regex → Text → Text → Prop
  | oneOf ws, m, _ => m ∈ ws
  | many accepts, m, _ => ∀ c ∈ m, accepts c = true
  | seq r s, m, after => ∃ m₁ m₂, m = m₁ ++ m₂ ∧ r.Matches m₁ (m₂ ++ after) ∧ s.Matches m₂ after
  | alt r s, m, after => r.Matches m after ∨ s.Matches m after
  | notAhead r, m, after => m = [] ∧ ¬ ∃ k rest, after = k ++ rest ∧ r.Matches k rest

/-- The expression matches at the head of the text. -/
def Starts (r : Regex) (t : Text) : Prop := ∃ m after, t = m ++ after ∧ r.Matches m after

/-- The expression matches somewhere in the text. -/
def FoundIn (r : Regex) (t : Text) : Prop := ∃ s, s <:+ t ∧ r.Starts s

variable {r s : Regex} {t : Text}

theorem starts_oneOf {ws : List Text} : (oneOf ws).Starts t ↔ ∃ w ∈ ws, w <+: t := by
  constructor
  · intro h
    obtain ⟨m, after, rfl, hm⟩ := h
    exact ⟨m, hm, List.prefix_append ..⟩
  · intro h
    obtain ⟨w, hw, after, rfl⟩ := h
    exact ⟨w, after, rfl, hw⟩

theorem starts_alt : (alt r s).Starts t ↔ r.Starts t ∨ s.Starts t := by
  simp only [Starts, Matches, and_or_left, exists_or]

theorem starts_seq : (seq r s).Starts t ↔ ∃ m rest, t = m ++ rest ∧ r.Matches m rest ∧ s.Starts rest := by
  constructor
  · intro h
    obtain ⟨_, after, rfl, m, k, rfl, hr, hs⟩ := h
    exact ⟨m, k ++ after, List.append_assoc .., hr, k, after, rfl, hs⟩
  · intro h
    obtain ⟨m, _, rfl, hr, k, after, rfl, hs⟩ := h
    exact ⟨m ++ k, after, (List.append_assoc ..).symm, m, k, rfl, hr, hs⟩

theorem starts_seq_char {c : Char} : (seq (oneOf [[c]]) r).Starts t ↔ ∃ rest, t = c :: rest ∧ r.Starts rest := by
  simp [starts_seq, Matches]

theorem starts_notAhead : (notAhead r).Starts t ↔ ¬ r.Starts t := by
  simp [Starts, Matches]

end Regex

/-! ## The expressions of the guard -/

namespace Pattern

variable {p : Pattern} {t : Text}

/-- One of the names stands at the head, after blanks. -/
def BeginsWith (names : List String) (t : Text) : Prop := ∃ name ∈ names.map String.toList, name <+: Text.trimLeft t

/-- What may follow a group: the name of a manager, or the word by which each manager runs a package. -/
def Follows : Pattern → Text → Prop
  | standard => BeginsWith ["npm", "pnpm", "yarn", "bun"]
  | exec => BeginsWith ["npx", "pnpm", "yarn", "bunx"]

def blanksThen (names : List String) : Regex := .seq (.many Text.isBlank) (.oneOf (names.map String.toList))

def follower : Pattern → Regex
  | standard => blanksThen ["npm", "pnpm", "yarn", "bun"]
  | exec => blanksThen ["npx", "pnpm", "yarn", "bunx"]

/-- An operator, or a group behind which none of the names stands. -/
def composition (p : Pattern) : Regex :=
  .alt (.oneOf operators)
    (.seq (.oneOf [['(']]) (.seq (.many fun c => c != '\n') (.seq (.oneOf [[')']]) (.notAhead p.follower))))

theorem follows_iff : p.follows t = true ↔ p.Follows t := by
  cases p <;> simp [follows, followers, Follows, BeginsWith]

/-- If no name begins with a blank, all blanks are behind before a name is read. -/
theorem starts_blanksThen_iff {names : List String}
    (hsolid : ∀ name ∈ names.map String.toList, name.head?.any (fun c => !Text.isBlank c) = true) :
    (blanksThen names).Starts t ↔ BeginsWith names t := by
  rw [blanksThen, Regex.starts_seq]
  constructor
  · intro h
    obtain ⟨gap, rest, rfl, hgap, hrest⟩ := h
    obtain ⟨name, hname, hp⟩ := Regex.starts_oneOf.1 hrest
    have hhead : ∀ c ∈ rest.head?, Text.isBlank c = false := by
      have hfirst := hsolid name hname
      obtain ⟨more, rfl⟩ := hp
      intro c hc
      cases name with
      | nil => cases hfirst
      | cons d tail =>
        cases hc
        simpa using hfirst
    have htrim : Text.trimLeft (gap ++ rest) = rest :=
      (List.dropWhile_append_of_pos hgap).trans (Text.trimLeft_eq_self hhead)
    refine ⟨name, hname, ?_⟩
    rw [htrim]
    exact hp
  · intro h
    obtain ⟨name, hname, hp⟩ := h
    refine ⟨Text.lead t, Text.trimLeft t, (Text.lead_append_trimLeft t).symm, ?_, Regex.starts_oneOf.2 ⟨name, hname, hp⟩⟩
    intro c hc
    exact Text.isBlank_of_mem_lead hc

theorem starts_follower_iff : p.follower.Starts t ↔ p.Follows t := by
  cases p with
  | standard => exact starts_blanksThen_iff (by decide)
  | exec => exact starts_blanksThen_iff (by decide)

theorem starts_composition_iff : p.composition.Starts t ↔ (∃ op ∈ operators, op <+: t) ∨
    ∃ inside after, t = '(' :: (inside ++ ')' :: after) ∧ '\n' ∉ inside ∧ ¬ p.Follows after := by
  rw [composition, Regex.starts_alt, Regex.starts_oneOf]
  refine or_congr_right ?_
  simp only [Regex.starts_seq_char, Regex.starts_seq (r := .many _), Regex.starts_notAhead, starts_follower_iff,
    Regex.Matches, bne_iff_ne]
  constructor
  · intro h
    obtain ⟨_, rfl, inside, _, rfl, hn, after, rfl, hf⟩ := h
    exact ⟨inside, after, rfl, fun hc => hn _ hc rfl, hf⟩
  · intro h
    obtain ⟨inside, after, rfl, hn, hf⟩ := h
    exact ⟨_, rfl, inside, _, rfl, fun c hc e => hn (e ▸ hc), after, rfl, hf⟩

end Pattern

/-! ## What the guard finds -/

section Search

variable {p : Pattern} {t : Text}

theorem mem_closings_iff {after : Text} :
    after ∈ closings t ↔ ∃ inside, t = inside ++ ')' :: after ∧ '\n' ∉ inside := by
  induction t with
  | nil => simp [closings]
  | cons c rest ih =>
    have hcons : (∃ inside, c :: rest = inside ++ ')' :: after ∧ '\n' ∉ inside) ↔
        (c = ')' ∧ rest = after) ∨ (c ≠ '\n' ∧ ∃ inside, rest = inside ++ ')' :: after ∧ '\n' ∉ inside) := by
      constructor
      · intro h
        obtain ⟨inside, he, hn⟩ := h
        cases inside with
        | nil =>
          cases he
          exact .inl ⟨rfl, rfl⟩
        | cons d inside =>
          cases he
          rw [List.mem_cons, not_or] at hn
          exact .inr ⟨Ne.symm hn.1, inside, rfl, hn.2⟩
      · intro h
        rcases h with ⟨rfl, rfl⟩ | ⟨hc, inside, rfl, hn⟩
        · exact ⟨[], rfl, List.not_mem_nil⟩
        · refine ⟨c :: inside, rfl, ?_⟩
          rw [List.mem_cons, not_or]
          exact ⟨hc.symm, hn⟩
    rw [hcons, ← ih, closings]
    split
    case isTrue hc => simp [hc]
    case isFalse hn =>
      split
      case isTrue hc => simp [hc, eq_comm]
      case isFalse hc => simp [hn, hc]

theorem composes_iff_starts : composes p t = true ↔ p.composition.Starts t := by
  rw [Pattern.starts_composition_iff]
  fun_cases composes p t
  case case5 rest =>
    have hop : ¬ ∃ op ∈ operators, op <+: '(' :: rest := by simp [operators]
    simp only [or_iff_right hop, List.any_eq_true, mem_closings_iff, Bool.not_eq_true', ← Pattern.follows_iff,
      Bool.not_eq_true, List.cons.injEq, true_and]
    constructor
    · intro h
      obtain ⟨after, ⟨inside, ht, hn⟩, hf⟩ := h
      exact ⟨inside, after, ht, hn, hf⟩
    · intro h
      obtain ⟨inside, after, ht, hn, hf⟩ := h
      exact ⟨after, ⟨inside, ht, hn⟩, hf⟩
  case case6 hsemicolon hfeed hand hor hgroup =>
    refine ⟨fun h => absurd h Bool.false_ne_true, fun h => ?_⟩
    rcases h with ⟨op, hop, rest, rfl⟩ | ⟨inside, after, rfl, -⟩
    · simp only [operators, List.mem_cons, List.not_mem_nil, or_false] at hop
      rcases hop with rfl | rfl | rfl | rfl
      · exact (hsemicolon rest rfl).elim
      · exact (hfeed rest rfl).elim
      · exact (hand rest rfl).elim
      · exact (hor rest rfl).elim
    · exact (hgroup _ rfl).elim
  all_goals simp [operators]

/-- The guard finds what matches the expression somewhere. -/
theorem isComposed_iff_foundIn : isComposed p t = true ↔ p.composition.FoundIn t := by
  constructor
  · intro h
    induction t with
    | nil => cases h
    | cons c rest ih =>
      rw [isComposed, Bool.or_eq_true] at h
      rcases h with h | h
      · exact ⟨c :: rest, List.suffix_refl _, composes_iff_starts.1 h⟩
      · obtain ⟨s, hs, hstarts⟩ := ih h
        exact ⟨s, hs.trans (List.suffix_cons ..), hstarts⟩
  · intro h
    obtain ⟨s, hs, hstarts⟩ := h
    exact isComposed_of_suffix hs (composes_iff_starts.2 hstarts)

theorem holdsOperator_iff : HoldsOperator t ↔ ∃ s, s <:+ t ∧ ∃ op ∈ operators, op <+: s := by
  simp only [HoldsOperator, List.infix_iff_prefix_suffix]
  constructor
  · intro h
    obtain ⟨op, hop, s, hp, hs⟩ := h
    exact ⟨s, hs, op, hop, hp⟩
  · intro h
    obtain ⟨s, hs, op, hop, hp⟩ := h
    exact ⟨op, hop, s, hp, hs⟩

/-- Each closing parenthesis behind the first opening one is followed by one of the names, blanks aside. -/
def GroupsFollowed (p : Pattern) (t : Text) : Prop :=
  ∀ before rest, t = before ++ '(' :: rest → '(' ∉ before →
    ∀ inside after, rest = inside ++ ')' :: after → p.Follows after

/-- Behind a later opening parenthesis there is no closing one that is not behind the first. -/
theorem GroupsFollowed.follows (h : GroupsFollowed p t) {inside after : Text} (hs : '(' :: (inside ++ ')' :: after) <:+ t) :
    p.Follows after := by
  obtain ⟨pre, rfl⟩ := hs
  have hparen : '(' ∈ pre ++ ['('] := List.mem_concat_self
  obtain ⟨before, skipped, he, hfirst⟩ := List.eq_append_cons_of_mem hparen
  have ht : pre ++ '(' :: (inside ++ ')' :: after) = before ++ '(' :: (skipped ++ (inside ++ ')' :: after)) := by
    rw [List.append_cons, he, List.append_assoc]
    rfl
  exact h before _ ht hfirst (skipped ++ inside) after (List.append_assoc ..).symm

/-- The search finds an operator, or the scan from the first opening parenthesis finds what is not followed. -/
theorem foundIn_composition_iff : ¬ p.composition.FoundIn t ↔ ¬ HoldsOperator t ∧ GroupsFollowed p t := by
  simp only [Regex.FoundIn, Pattern.starts_composition_iff]
  constructor
  · intro h
    have hop : ¬ HoldsOperator t := by
      intro ho
      obtain ⟨s, hs, ho⟩ := holdsOperator_iff.1 ho
      exact h ⟨s, hs, .inl ho⟩
    refine ⟨hop, ?_⟩
    intro before rest ht _ inside after hr
    by_contra hf
    -- The search stops at a line feed, but a line feed is an operator itself.
    have hfeed : '\n' ∉ inside := by
      intro hn
      refine hop ⟨['\n'], by decide, (List.singleton_infix_iff _ _).2 ?_⟩
      simp [ht, hr, hn]
    exact h ⟨'(' :: rest, ⟨before, ht.symm⟩, .inr ⟨inside, after, by rw [hr], hfeed, hf⟩⟩
  · intro h
    obtain ⟨hop, hgroups⟩ := h
    intro hfound
    obtain ⟨s, hs, ho | ⟨inside, after, rfl, -, hf⟩⟩ := hfound
    · exact hop (holdsOperator_iff.2 ⟨s, hs, ho⟩)
    · exact hf (hgroups.follows hs)

end Search

/-- The guard accepts a text that is not blank if the search finds nothing in it. That is so if it holds no operator
    and each closing parenthesis behind the first opening one is followed by a name. -/
theorem refusal?_eq_none_iff (t : Text) (p : Option Pattern) :
    (refusal? t p = none ↔
        Text.trim t ≠ [] ∧ ¬ (p.getD (select (Text.trim t))).composition.FoundIn (Text.trim t)) ∧
      (refusal? t p = none ↔
        Text.trim t ≠ [] ∧ ¬ HoldsOperator (Text.trim t) ∧ GroupsFollowed (p.getD (select (Text.trim t))) (Text.trim t)) := by
  have hsearch : refusal? t p = none ↔
      Text.trim t ≠ [] ∧ ¬ (p.getD (select (Text.trim t))).composition.FoundIn (Text.trim t) := by
    rw [← isComposed_iff_foundIn, refusal?]
    by_cases he : Text.trim t = []
    · simp [he]
    · cases isComposed (p.getD (select (Text.trim t))) (Text.trim t) <;> simp [he]
  refine ⟨hsearch, ?_⟩
  rw [hsearch, foundIn_composition_iff]

/-- A name of each pattern behind a group; the pattern that is selected is the standard one. -/
example : refusal? "(cd app) npm install".toList none = none ∧
    refusal? "(cd app) npx prettier".toList none = some .notSupported ∧
    refusal? "(cd app) npx prettier".toList (some .exec) = none := by decide +kernel

end CommandBridge.Guard
