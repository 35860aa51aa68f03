/-
  CommandBridge.Manager — the four package managers and the words that call them.

  A manager is called by its name; npm and bun also by a shorthand that runs a package, npx and
  bunx. `PerManager` holds one value for each manager.
  - `ofName?_name`: a manager is found by its name.
  - `get_ofFn`: a table built from a function answers with that function.
-/

import CommandBridge.Text.Basic

namespace CommandBridge

inductive Manager
  | npm | pnpm | yarn | bun
  deriving DecidableEq, Repr

namespace Manager

def all : List Manager := [npm, pnpm, yarn, bun]

def name : Manager → Text
  | npm => "npm".toList
  | pnpm => "pnpm".toList
  | yarn => "yarn".toList
  | bun => "bun".toList

def ofName? (t : Text) : Option Manager := all.find? fun m => m.name = t

theorem ofName?_name (m : Manager) : ofName? m.name = some m := by cases m <;> rfl

/-! ## Calling words -/

/-- The words that call a manager, in alphabetical order. -/
def invocations : List (Text × Manager) :=
  [("bun".toList, bun), ("bunx".toList, bun), ("npm".toList, npm), ("npx".toList, npm),
   ("pnpm".toList, pnpm), ("yarn".toList, yarn)]

def ofInvocation? (t : Text) : Option Manager := invocations.lookup t

/-- The words that run a package without a subcommand. -/
def shorthands : List Text := ["bunx".toList, "npx".toList]

def isShorthand (t : Text) : Bool := shorthands.contains t

/-- The managers that run a package by the subcommand `dlx`. -/
def withDlx : List Manager := [pnpm, yarn]

def hasDlx (m : Manager) : Bool := withDlx.contains m

theorem ofInvocation?_name (m : Manager) : ofInvocation? m.name = some m := by cases m <;> rfl

theorem ofInvocation?_of_isShorthand {t : Text} (h : isShorthand t) : (ofInvocation? t).isSome := by
  have : t ∈ shorthands := List.contains_iff_mem.1 h
  simp only [shorthands, List.mem_cons, List.not_mem_nil, or_false] at this
  rcases this with rfl | rfl <;> rfl

end Manager

/-! ## One value per manager -/

structure PerManager (α : Type) where
  npm : α
  pnpm : α
  yarn : α
  bun : α
  deriving DecidableEq, Repr

namespace PerManager

variable {α β : Type}

def get (p : PerManager α) : Manager → α
  | .npm => p.npm
  | .pnpm => p.pnpm
  | .yarn => p.yarn
  | .bun => p.bun

def ofFn (f : Manager → α) : PerManager α := ⟨f .npm, f .pnpm, f .yarn, f .bun⟩

@[simp] theorem get_ofFn (f : Manager → α) (m : Manager) : (ofFn f).get m = f m := by cases m <;> rfl

theorem ext_get {p q : PerManager α} (h : ∀ m, p.get m = q.get m) : p = q := by
  obtain ⟨a, b, c, d⟩ := p
  simp only [show a = q.npm from h .npm, show b = q.pnpm from h .pnpm, show c = q.yarn from h .yarn,
    show d = q.bun from h .bun]

end PerManager

end CommandBridge
