/-
  CommandBridge.Conversion — one command, from its text to the four commands it becomes.

  A text is guarded, trimmed, parsed, checked against the options and translated. The verdict keeps
  what happened; the outcome is what a caller is told.
  - `read_eq_ok_iff`: a text is read when it is not refused and its trimmed form parses.
  - `convert_eq_ok_iff`: it is converted when, besides, its class is enabled.
  - `convert_trim`: blanks around a text do not matter.
-/

import CommandBridge.Command.Parse
import CommandBridge.Guard
import CommandBridge.Options
import CommandBridge.Translation

namespace CommandBridge

/-- Why a text could not be read as a command. -/
inductive Rejection
  | refused (reason : Reason)
  | malformed (error : SyntaxError)
  deriving DecidableEq, Repr

namespace Rejection

def reason : Rejection → Reason
  | refused r => r
  | malformed e => e.reason

def message : Rejection → Text
  | refused _ => "Command rejected before tokenizing".toList
  | malformed e => e.message

/-- The token where it shows; none if nothing was scanned. -/
def token? : Rejection → Option Token
  | refused _ => none
  | malformed e => some e.token

end Rejection

/-- Guards a text and parses its trimmed form. -/
def Command.read (t : Text) : Except Rejection Command :=
  match Guard.refusal? t none with
  | some r => .error (.refused r)
  | none => (Command.parse (Text.trim t)).mapError .malformed

theorem Command.read_eq_ok_iff {t : Text} {c : Command} :
    Command.read t = .ok c ↔ Guard.refusal? t none = none ∧ Command.parse (Text.trim t) = .ok c := by
  unfold Command.read
  cases Guard.refusal? t none with
  | some r => simp
  | none =>
    cases Command.parse (Text.trim t) with
    | ok d =>
      constructor
      · intro h
        cases h
        exact ⟨rfl, rfl⟩
      · rintro ⟨-, h⟩
        cases h
        rfl
    | error e =>
      constructor
      · intro h
        cases h
      · rintro ⟨-, h⟩
        cases h

inductive Verdict
  | rejected (why : Rejection)
  | disabled (kind : Command.Kind)
  | converted (t : Translation)
  deriving DecidableEq, Repr

namespace Verdict

def outcome : Verdict → Except Reason Translation
  | rejected why => .error why.reason
  | disabled _ => .error .disabled
  | converted t => .ok t

/-- Settles what was read: it is translated if its class is enabled. -/
def of (o : Options) : Except Rejection Command → Verdict
  | .error why => rejected why
  | .ok c => if o.isEnabled c.kind then converted c.translate else disabled c.kind

end Verdict

def verdict (o : Options) (t : Text) : Verdict := Verdict.of o (Command.read t)

def convert (o : Options) (t : Text) : Except Reason Translation := (verdict o t).outcome

theorem convert_eq_ok_iff {o : Options} {t : Text} {r : Translation} :
    convert o t = .ok r ↔ ∃ c, Command.read t = .ok c ∧ o.isEnabled c.kind ∧ c.translate = r := by
  unfold convert verdict
  cases h : Command.read t with
  | error e => simp [Verdict.of, Verdict.outcome]
  | ok c => by_cases he : o.isEnabled c.kind <;> simp [Verdict.of, Verdict.outcome, he]

theorem convert_trim (o : Options) (t : Text) : convert o (Text.trim t) = convert o t := by
  have hr : Command.read (Text.trim t) = Command.read t := by
    unfold Command.read Guard.refusal?
    rw [Text.trim_trim]
  rw [convert, verdict, hr]
  rfl

/-- Converts a text, then the command for each manager of the path in turn, up to the first failure. -/
def convertAlong (o : Options) (t : Text) : List Manager → List (Except Reason Translation)
  | [] => [convert o t]
  | m :: path =>
    match convert o t with
    | .ok r => .ok r :: convertAlong o (r.commandFor m) path
    | .error e => [.error e]

/-! ## Traces -/

example : (convert Options.standard "npm i -D vitest".toList).toOption.map (fun r => r.commands.yarn) =
    some "yarn add --dev vitest".toList := by decide +kernel

example : (convert Options.allEnabled "(cd app) npx prettier .".toList).toOption = none := by decide +kernel

end CommandBridge
