/-
  CommandBridge.Flag — what the flags of an install mean and how each manager spells them.

  A flag belongs to a category by its exact spelling, as a table says. Each rule gives the spellings
  of a category that are kept, the one npm and pnpm are given when the user's own is not kept, and
  the fixed spellings of yarn and bun, where they have one. The rules stand in the order in which
  flags are written.
  - `mem_spellings_iff`: the table of what is read and the rules of what is written cover each other.
-/

import CommandBridge.Token.Basic

namespace CommandBridge

inductive Flag.Category
  | dev | global | exact | optional | peer | frozen | unknown
  deriving DecidableEq, Repr

/-- A flag as it is spelled, with its category settled when it is read. -/
structure Flag where
  spelling : Text
  category : Flag.Category
  span : Span
  deriving DecidableEq, Repr

namespace Flag

namespace Category

def all : List Category := [dev, global, exact, optional, peer, frozen, unknown]

def name : Category → Text
  | dev => "dev".toList
  | global => "global".toList
  | exact => "exact".toList
  | optional => "optional".toList
  | peer => "peer".toList
  | frozen => "frozen".toList
  | unknown => "unknown".toList

def ofName? (t : Text) : Option Category := all.find? fun c => c.name = t

theorem ofName?_name (c : Category) : ofName? c.name = some c := by cases c <;> rfl

end Category

/-! ## Rules -/

/-- How the flags of one category are written. -/
structure Rule where
  category : Category
  /-- The spellings that are kept; of several the user gave, the first one here. -/
  variants : List Text
  fallback : Text
  yarn : Option Text
  bun : Option Text
  deriving DecidableEq, Repr

/-- The rules in the order in which flags are written. -/
def rules : List Rule :=
  [⟨.dev, ["-D".toList, "--save-dev".toList, "--dev".toList, "-d".toList], "-D".toList,
      some "--dev".toList, some "--dev".toList⟩,
   ⟨.global, ["-g".toList, "--global".toList], "-g".toList, none, some "-g".toList⟩,
   ⟨.exact, ["-E".toList, "--save-exact".toList, "--exact".toList], "-E".toList,
      some "--exact".toList, some "--exact".toList⟩,
   ⟨.optional, ["-O".toList, "--save-optional".toList, "--optional".toList], "-O".toList, none, none⟩,
   ⟨.peer, ["-P".toList, "--save-peer".toList, "--peer".toList], "-P".toList, none, none⟩]

/-- The flag that pins the lock file; where it goes hangs on the packages, so it has no rule. -/
def frozenLockfile : Text := "--frozen-lockfile".toList

/-- The spelling for npm and pnpm: the user's own, if it is kept and known, else the fallback. -/
def Rule.spelling (r : Rule) (given : List Text) (keep : Bool) : Text :=
  if keep then (r.variants.find? fun v => given.contains v).getD r.fallback else r.fallback

/-! ## Categories of spellings -/

/-- Every known spelling with its category. -/
def spellings : List (Text × Category) :=
  [("-D".toList, .dev), ("--save-dev".toList, .dev), ("--dev".toList, .dev), ("-d".toList, .dev),
   ("-g".toList, .global), ("--global".toList, .global),
   ("-E".toList, .exact), ("--save-exact".toList, .exact), ("--exact".toList, .exact),
   ("-O".toList, .optional), ("--save-optional".toList, .optional), ("--optional".toList, .optional),
   ("-P".toList, .peer), ("--save-peer".toList, .peer), ("--peer".toList, .peer),
   ("--frozen-lockfile".toList, .frozen)]

def classify (t : Text) : Category := (spellings.lookup t).getD .unknown

theorem classify_of_mem_spellings : ∀ p ∈ spellings, classify p.1 = p.2 := by decide

/-- The spellings that are read are the variants of the rules, each under the category of its rule, and the flag that
    pins the lock file. -/
theorem mem_spellings_iff {v : Text} {k : Category} : (v, k) ∈ spellings ↔
    (∃ r ∈ rules, v ∈ r.variants ∧ r.category = k) ∨ (v = frozenLockfile ∧ k = .frozen) := by
  constructor
  · have hread : ∀ p ∈ spellings, (∃ r ∈ rules, p.1 ∈ r.variants ∧ r.category = p.2) ∨
        (p.1 = frozenLockfile ∧ p.2 = .frozen) := by decide
    exact hread (v, k)
  · have hwritten : ∀ r ∈ rules, ∀ w ∈ r.variants, (w, r.category) ∈ spellings := by decide
    rintro (⟨r, hr, hv, rfl⟩ | ⟨rfl, rfl⟩)
    · exact hwritten r hr v hv
    · decide

theorem classify_of_mem {r : Rule} (hr : r ∈ rules) {v : Text} (hv : v ∈ r.variants) : classify v = r.category :=
  classify_of_mem_spellings _ (mem_spellings_iff.2 (.inl ⟨r, hr, hv, rfl⟩))

theorem classify_frozenLockfile : classify frozenLockfile = .frozen :=
  classify_of_mem_spellings _ (mem_spellings_iff.2 (.inr ⟨rfl, rfl⟩))

/-- A flag token with the category of its spelling. -/
def ofToken (t : Token) : Flag := ⟨t.value, classify t.value, t.span⟩

end Flag

end CommandBridge
