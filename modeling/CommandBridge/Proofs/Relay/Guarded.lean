/-
  CommandBridge.Proofs.Relay.Guarded — whole conversions on a path of managers, from the guard on.

  A conversion guards, trims, parses and asks the options before it translates. On a path of managers
  each command that comes out goes in again. If the first text is plain (no escape, no group, no blank
  that the scanner does not know), nothing on the way is refused.
  - `harmless_line`: a command in a harmless text is written as harmless lines.
  - `exists_hop`: the line of such a command converts again, to a command of its kind.
  - `convertAlong_plain`: so does every line on every path.
-/

import CommandBridge.Conversion
import CommandBridge.Proofs.Guard

namespace CommandBridge

/-! ## One hop -/

namespace Command

/-- Whatever its kind, a command is read again from the line for any manager, as one of its kind to that manager. -/
theorem exists_parse_line {t : Text} {c : Command} (h : parse t = .ok c) (m : Manager) :
    ∃ d, parse (c.lineFor m) = .ok d ∧ d.kind = c.kind ∧ d.manager = m := by
  by_cases hk : c.kind = .install
  · cases c with
    | install c =>
      obtain ⟨d, hd, hm, -⟩ := install_hop h m
      exact ⟨install d, hd, rfl, hm⟩
    | exec c => cases hk
    | run c => cases hk
    | create c => cases hk
  · obtain ⟨d, hd, hkind, hr⟩ := repeats_hop m h hk
    rw [commandFor_translate] at hd
    refine ⟨d, hd, hkind, ?_⟩
    rw [← manager_summary, hr.summary]
    cases c.summary <;> rfl

theorem ne_nil_of_parse {t : Text} {c : Command} (h : parse t = .ok c) : t ≠ [] := by
  obtain ⟨u, us, hs, -⟩ := invocation_of_parse h
  intro e
  rw [e, Token.scan_nil] at hs
  cases hs

theorem harmless_line {t : Text} (ht : Guard.Harmless t) {c : Command} (h : parse t = .ok c) (m : Manager) :
    Guard.Harmless (c.lineFor m) :=
  Guard.harmless_join (forall_mem_parts Guard.harmless_of_mem_ownWords (fun _ hu => Guard.harmless_write ht hu) h m)

theorem read_of_harmless {t : Text} (ht : Guard.Harmless t) {c : Command} (h : parse t = .ok c) : read t = .ok c := by
  rw [read_eq_ok_iff, Text.trim_eq_self ht.trimmed]
  exact ⟨Guard.refusal?_of_harmless ht (ne_nil_of_parse h), h⟩

end Command

/-- The command of `r` for `m` converts to `s`: nothing is trimmed off it, it is read as a command of the same
    kind to `m`, and `s` is that command's translation. -/
structure Hop (o : Options) (r : Translation) (m : Manager) (s : Translation) : Prop where
  trimmed : Text.trim (r.commandFor m) = r.commandFor m
  converted : convert o (r.commandFor m) = .ok s
  parsed : ∃ c, Command.parse (r.commandFor m) = .ok c ∧ c.translate = s
  kind : s.kind = r.kind
  manager : s.manager = m

/-- The hops along a path, with the translation that each one ends in. -/
inductive Hops (o : Options) : Translation → List Manager → List Translation → Prop
  | stay (r : Translation) : Hops o r [] []
  | hop {r s : Translation} {m : Manager} {path : List Manager} {ss : List Translation} :
      Hop o r m s → Hops o s path ss → Hops o r (m :: path) (s :: ss)

theorem exists_hop {o : Options} {t : Text} (ht : Guard.Harmless t) {c : Command} (h : Command.parse t = .ok c)
    (ho : o.isEnabled c.kind = true) (m : Manager) :
    ∃ d, Command.parse (c.lineFor m) = .ok d ∧ d.kind = c.kind ∧ Hop o c.translate m d.translate := by
  obtain ⟨d, hd, hk, hm⟩ := Command.exists_parse_line h m
  have hline := Command.harmless_line ht h m
  have hc : convert o (c.lineFor m) = .ok d.translate :=
    convert_eq_ok_iff.2 ⟨d, Command.read_of_harmless hline hd, by rw [hk, ho], rfl⟩
  refine ⟨d, hd, hk, ?_, ?_, ?_, ?_, ?_⟩
  · rw [Command.commandFor_translate, Text.trim_eq_self hline.trimmed]
  · rw [Command.commandFor_translate, hc]
  · exact ⟨d, by rw [Command.commandFor_translate, hd], rfl⟩
  · exact (Command.kind_summary d).trans (hk.trans (Command.kind_summary c).symm)
  · exact (Command.manager_summary d).trans hm

/-! ## Every path -/

theorem convertAlong_harmless {o : Options} {t : Text} (ht : Guard.Harmless t) {c : Command}
    (h : Command.parse t = .ok c) (ho : o.isEnabled c.kind = true) (path : List Manager) :
    ∃ ss : List Translation, convertAlong o t path = (c.translate :: ss).map .ok ∧ Hops o c.translate path ss := by
  -- The induction is on the path, for every harmless text: each line on the way is one.
  induction path generalizing t c with
  | nil =>
    have hc : convert o t = .ok c.translate := convert_eq_ok_iff.2 ⟨c, Command.read_of_harmless ht h, ho, rfl⟩
    exact ⟨[], by rw [convertAlong, hc]; rfl, .stay _⟩
  | cons m path ih =>
    have hc : convert o t = .ok c.translate := convert_eq_ok_iff.2 ⟨c, Command.read_of_harmless ht h, ho, rfl⟩
    obtain ⟨d, hd, hk, hhop⟩ := exists_hop ht h ho m
    obtain ⟨ss, hss, hhops⟩ := ih (Command.harmless_line ht h m) hd (hk ▸ ho)
    refine ⟨d.translate :: ss, ?_, .hop hhop hhops⟩
    rw [convertAlong, hc]
    dsimp only
    rw [Command.commandFor_translate, hss]
    rfl

theorem convertAlong_trim (o : Options) (t : Text) (path : List Manager) :
    convertAlong o (Text.trim t) path = convertAlong o t path := by
  cases path <;> rw [convertAlong, convertAlong, convert_trim]

/-- If a plain text converts, then on every path each command that comes out converts in its turn, as it is
    and to a command of the same kind. -/
theorem convertAlong_plain {o : Options} {t : Text} {r : Translation} (ht : ∀ c ∈ t, Guard.IsPlain c)
    (h : convert o t = .ok r) (path : List Manager) :
    ∃ ss : List Translation, convertAlong o t path = (r :: ss).map .ok ∧ Hops o r path ss := by
  obtain ⟨c, hread, ho, rfl⟩ := convert_eq_ok_iff.1 h
  obtain ⟨hrefusal, hparse⟩ := Command.read_eq_ok_iff.1 hread
  rw [← convertAlong_trim]
  exact convertAlong_harmless (Guard.harmless_trim ht hrefusal) hparse ho path

/-- Line ends around the text are cut off once, and an open quote is closed by the first hop. -/
theorem convertAlong_plain_open : ∃ r : Translation, r.commands.yarn = "yarn add --dev vite 'a  b'".toList ∧
    convert .standard "\tnpm i -D vite 'a  b\r\n".toList = .ok r ∧
      ∃ ss : List Translation, convertAlong .standard "\tnpm i -D vite 'a  b\r\n".toList [.yarn, .bun] =
        (r :: ss).map .ok ∧ Hops .standard r [.yarn, .bun] ss := by
  let r : Translation :=
    ⟨⟨"npm install -D vite 'a  b'".toList, "pnpm add -D vite 'a  b'".toList, "yarn add --dev vite 'a  b'".toList,
      "bun add --dev vite 'a  b'".toList⟩,
      .install ⟨.npm, ["vite".toList, "a  b".toList], true, false, false, false, false, false, []⟩⟩
  have h : convert .standard "\tnpm i -D vite 'a  b\r\n".toList = .ok r := by decide +kernel
  exact ⟨r, rfl, h, convertAlong_plain (Guard.plain_of_all (by decide)) h [.yarn, .bun]⟩

end CommandBridge
