/-
  CommandBridge.Translation — a command said to each of the four managers.

  - An install is written with the manager's own subcommand, then the flags in the order of the
    rules, then the packages. npm and pnpm keep the user's spelling, if the user wrote to one of
    them, and flags that are not known; yarn and bun get their own spellings and lose the rest.
  - An exec is written with the manager's way to run a package, all else as it is.
  - A run is the same for all managers but for the name.
  - A create needs a separator for npm as soon as there are arguments, or when the user wrote one.
-/

import CommandBridge.CommandLine
import CommandBridge.Summary

namespace CommandBridge

structure Translation where
  commands : PerManager Text
  summary : Summary
  deriving DecidableEq, Repr

namespace Translation

def kind (t : Translation) : Command.Kind := t.summary.kind

/-- The manager that the command was written to. -/
def manager (t : Translation) : Manager := t.summary.manager

def commandFor (t : Translation) (m : Manager) : Text := t.commands.get m

end Translation

/-- A flag is written as it is spelled, an argument as it was quoted. -/
def Leaf.write : Leaf → Text
  | flag f => f.spelling
  | argument a => CommandLine.writeArgument a.value a.quoting

/-! ## Install -/

namespace Install

/-- npm and pnpm share their spellings, so what was written for one of them is kept. -/
def keepsSpelling (c : Install) : Bool := c.manager.manager == .npm || c.manager.manager == .pnpm

def hasPackages (c : Install) : Bool := !c.packages.isEmpty

/-- The rules of the categories that are asked for. -/
def rules (c : Install) : List Flag.Rule := Flag.rules.filter fun r => c.has r.category

def header (c : Install) : Manager → List Text
  | .npm => ["npm".toList, "install".toList]
  | .pnpm => ["pnpm".toList, if c.hasPackages then "add".toList else "install".toList]
  | .yarn =>
    if !c.hasPackages then ["yarn".toList, "install".toList]
    else if c.has .global then ["yarn".toList, "global".toList, "add".toList]
    else ["yarn".toList, "add".toList]
  | .bun => ["bun".toList, if c.hasPackages then "add".toList else "install".toList]

/-- The lock file flag, when it is asked for and has a place. -/
def frozenFlag (c : Install) (allowed : Bool) : List Text :=
  if c.has .frozen && allowed then [Flag.frozenLockfile] else []

/-- The flags of npm and pnpm. -/
def fullFlags (c : Install) : List Text :=
  c.rules.map (fun r => r.spelling c.spellings c.keepsSpelling) ++ c.frozenFlag true ++ c.unknownFlags

def writtenFlags (c : Install) : Manager → List Text
  | .npm => c.fullFlags
  | .pnpm => c.fullFlags
  | .yarn => c.rules.filterMap Flag.Rule.yarn ++ c.frozenFlag !c.hasPackages
  | .bun => c.rules.filterMap Flag.Rule.bun

def parts (c : Install) (m : Manager) : List Text := c.header m ++ c.writtenFlags m ++ c.packages.map Leaf.write

end Install

/-! ## Exec, run and create -/

namespace Exec

def header : Manager → List Text
  | .npm => ["npx".toList]
  | .pnpm => ["pnpm".toList, "dlx".toList]
  | .yarn => ["yarn".toList, "dlx".toList]
  | .bun => ["bunx".toList]

def parts (c : Exec) (m : Manager) : List Text :=
  header m ++ c.flags.map Leaf.write ++ c.package.write :: c.args.map Leaf.write

end Exec

def Run.parts (c : Run) (m : Manager) : List Text :=
  [m.name, "run".toList, c.script.write] ++ c.args.map Leaf.write

namespace Create

/-- npm takes what follows a separator as meant for the template. -/
def separator (c : Create) (m : Manager) : List Text :=
  if m = .npm ∧ (!c.args.isEmpty || c.hasSeparator) then ["--".toList] else []

def parts (c : Create) (m : Manager) : List Text :=
  [m.name, "create".toList, c.template.write] ++ c.separator m ++ c.args.map Leaf.write

end Create

/-! ## Translation -/

namespace Command

/-- The words of the command as it is said to a manager; empty words are dropped when written. -/
def parts : Command → Manager → List Text
  | install c => c.parts
  | exec c => c.parts
  | run c => c.parts
  | create c => c.parts

def lineFor (c : Command) (m : Manager) : Text := CommandLine.join (c.parts m)

def translate (c : Command) : Translation := ⟨PerManager.ofFn c.lineFor, c.summary⟩

@[simp] theorem commandFor_translate (c : Command) (m : Manager) : c.translate.commandFor m = c.lineFor m :=
  PerManager.get_ofFn _ m

end Command

/-! ## Parts that are no commands -/

/-- What is said of an install built by hand with an argument among its flags, which has no category. -/
def argumentAmongFlags : Text := "'ArgumentNode' object has no attribute 'category'".toList

/-- The kinds of parts that cannot be said to a manager on their own. -/
inductive Untranslatable
  | manager | subcommand | flag | argument
  deriving DecidableEq, Repr

def Untranslatable.message (u : Untranslatable) : Text :=
  "Cannot transform ".toList ++ match u with
    | manager => "ManagerNode".toList
    | subcommand => "SubcommandNode".toList
    | flag => "FlagNode".toList
    | argument => "ArgumentNode".toList

def Node.translate : Node → Except Untranslatable Translation
  | command c => .ok c.translate
  | manager _ => .error .manager
  | subcommand _ => .error .subcommand
  | leaf (.flag _) => .error .flag
  | leaf (.argument _) => .error .argument

end CommandBridge
