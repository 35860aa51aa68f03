/-
  CommandBridge.Text.Basic — text as a list of code points.

  A place in a text is a position in the list, so lengths and offsets count code points.
  Lines are split at line feeds and joined by them, words are joined by one space, and
  `replaceAll` replaces every occurrence of a pattern, from the left and without overlaps:
  - `joinLines_lines`: splitting into lines and joining them gives the text back.
  - `lines_joinLines`: lines that hold no line feed come back from their join.
  - `newline_not_mem_of_mem_lines`: lines hold no line feed.
  - `lines_append`, `joinLines_append`: a line feed between two texts ends the lines of the first.
  - `replaceAll_single`: with a pattern of one character, each such character is replaced.
-/

namespace CommandBridge

abbrev Text := List Char

namespace Text

/-! ## Lines and words -/

/-- The lines of a text: one more than it has line feeds. -/
def lines (t : Text) : List Text := t.splitOn '\n'

def joinLines (ls : List Text) : Text := ['\n'].intercalate ls

def joinWords (ws : List Text) : Text := [' '].intercalate ws

def joinCommas (ts : List Text) : Text := ", ".toList.intercalate ts

theorem joinLines_lines (t : Text) : joinLines (lines t) = t := List.intercalate_splitOn '\n'

theorem lines_joinLines {ls : List Text} (h : ∀ l ∈ ls, '\n' ∉ l) (hne : ls ≠ []) :
    lines (joinLines ls) = ls := List.splitOn_intercalate '\n' h hne

theorem newline_not_mem_of_mem_lines {t l : Text} (h : l ∈ lines t) : '\n' ∉ l := by
  induction t generalizing l with
  | nil =>
    rw [lines, List.splitOn_nil, List.mem_singleton] at h
    rw [h]
    exact List.not_mem_nil
  | cons c t ih =>
    rw [lines, List.splitOn_cons_eq_if_modifyHead, ← lines] at h
    split at h
    case isTrue =>
      rcases List.mem_cons.1 h with rfl | h
      · exact List.not_mem_nil
      · exact ih h
    case isFalse hc =>
      obtain ⟨first, others, e⟩ := List.exists_cons_of_ne_nil (List.splitOn_ne_nil '\n' t)
      rw [← lines] at e
      rw [e, List.modifyHead_cons] at h
      rcases List.mem_cons.1 h with rfl | h
      · intro hn
        rcases List.mem_cons.1 hn with rfl | hn
        · exact hc (beq_self_eq_true _)
        · exact ih (by rw [e]; exact List.mem_cons_self ..) hn
      · exact ih (by rw [e]; exact List.mem_cons_of_mem _ h)

theorem lines_append (t u : Text) : lines (t ++ '\n' :: u) = lines t ++ lines u :=
  List.splitOnP_append_cons t u (beq_self_eq_true '\n')

theorem joinLines_append {ls ks : List Text} (hl : ls ≠ []) (hk : ks ≠ []) :
    joinLines (ls ++ ks) = joinLines ls ++ '\n' :: joinLines ks := by
  induction ls with
  | nil => exact absurd rfl hl
  | cons l ls ih =>
    cases ls with
    | nil =>
      obtain ⟨k, ks, rfl⟩ := List.exists_cons_of_ne_nil hk
      simp [joinLines, List.intercalate_cons_cons]
    | cons l' ls =>
      have h := ih (List.cons_ne_nil _ _)
      simp only [joinLines, List.cons_append, List.intercalate_cons_cons] at h ⊢
      rw [h]
      simp

theorem joinWords_cons_cons (w v : Text) (ws : List Text) :
    joinWords (w :: v :: ws) = w ++ ' ' :: joinWords (v :: ws) := by
  rw [joinWords, List.intercalate_cons_cons, List.append_assoc]
  rfl

theorem joinWords_ne_nil {w : Text} (h : w ≠ []) (ws : List Text) : joinWords (w :: ws) ≠ [] := by
  cases ws with
  | nil => simpa [joinWords] using h
  | cons v ws => rw [joinWords_cons_cons]; simp

/-! ## Order -/

/-- Texts in the order of their code points, a text before its extensions. -/
def le : Text → Text → Bool
  | [], _ => true
  | _ :: _, [] => false
  | a :: s, b :: t => if a = b then le s t else a.toNat ≤ b.toNat

/-! ## Numbers -/

def ofNat (n : Nat) : Text := Nat.toDigits 10 n

def ofInt : Int → Text
  | .ofNat n => ofNat n
  | .negSucc n => '-' :: ofNat (n + 1)

/-! ## Replacement -/

/-- Puts `new` for every occurrence of `first :: others`, from the left and without overlaps. -/
def replaceAll (first : Char) (others new : Text) : Text → Text
  | [] => []
  | c :: rest =>
    if c = first ∧ others.isPrefixOf rest then new ++ replaceAll first others new (rest.drop others.length)
    else c :: replaceAll first others new rest
termination_by t => t.length
decreasing_by all_goals simp only [List.length_cons, List.length_drop]; omega

theorem replaceAll_single (first : Char) (new t : Text) :
    replaceAll first [] new t = t.flatMap fun c => if c = first then new else [c] := by
  induction t with
  | nil => simp [replaceAll]
  | cons c rest ih => by_cases h : c = first <;> simp [replaceAll, h, ih]

end Text

end CommandBridge
