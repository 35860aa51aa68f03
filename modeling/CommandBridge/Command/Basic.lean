/-
  CommandBridge.Command.Basic — commands as trees.

  A command installs packages, runs a package, runs a script, or creates a project from a template.
  Its parts are the words of the command line, each with its place. A command that was read has a
  subcommand unless a shorthand stands for it; one that is built by hand may do without.
-/

import CommandBridge.Flag
import CommandBridge.Manager

namespace CommandBridge

/-- The word that calls a manager: for npm, `npm` or `npx`. -/
structure ManagerWord where
  manager : Manager
  invocation : Text
  span : Span
  deriving DecidableEq, Repr

structure Subcommand where
  value : Text
  span : Span
  deriving DecidableEq, Repr

structure Argument where
  value : Text
  quoting : Quoting
  span : Span
  deriving DecidableEq, Repr

inductive Leaf
  | flag (f : Flag)
  | argument (a : Argument)
  deriving DecidableEq, Repr

structure Install where
  manager : ManagerWord
  subcommand : Option Subcommand
  flags : List Flag
  packages : List Leaf
  hasSeparator : Bool
  span : Span
  deriving DecidableEq, Repr

structure Exec where
  manager : ManagerWord
  subcommand : Option Subcommand
  flags : List Leaf
  package : Leaf
  args : List Leaf
  span : Span
  deriving DecidableEq, Repr

structure Run where
  manager : ManagerWord
  subcommand : Option Subcommand
  script : Leaf
  args : List Leaf
  span : Span
  deriving DecidableEq, Repr

structure Create where
  manager : ManagerWord
  subcommand : Option Subcommand
  template : Leaf
  args : List Leaf
  hasSeparator : Bool
  span : Span
  deriving DecidableEq, Repr

inductive Command
  | install (c : Install)
  | exec (c : Exec)
  | run (c : Run)
  | create (c : Create)
  deriving DecidableEq, Repr

/-- The classes of commands, which are converted or not as the options say. -/
inductive Command.Kind
  | install | exec | run | create
  deriving DecidableEq, Repr

/-- A part of a tree, or the whole tree. -/
inductive Node
  | command (c : Command)
  | manager (m : ManagerWord)
  | subcommand (s : Subcommand)
  | leaf (l : Leaf)
  deriving DecidableEq, Repr

namespace Argument

def ofToken (t : Token) : Argument := ⟨t.value, t.quoting, t.span⟩

end Argument

namespace Leaf

def value : Leaf → Text
  | flag f => f.spelling
  | argument a => a.value

def span : Leaf → Span
  | flag f => f.span
  | argument a => a.span

def flag? : Leaf → Option Flag
  | flag f => some f
  | argument _ => none

def flagOf (t : Token) : Leaf := flag (Flag.ofToken t)

def argumentOf (t : Token) : Leaf := argument (Argument.ofToken t)

end Leaf

namespace Command

namespace Kind

def all : List Kind := [install, exec, run, create]

def name : Kind → Text
  | install => "install".toList
  | exec => "exec".toList
  | run => "run".toList
  | create => "create".toList

def ofName? (t : Text) : Option Kind := all.find? fun k => k.name = t

theorem ofName?_name (k : Kind) : ofName? k.name = some k := by cases k <;> rfl

end Kind

def kind : Command → Kind
  | install _ => .install
  | exec _ => .exec
  | run _ => .run
  | create _ => .create

def managerWord : Command → ManagerWord
  | install c => c.manager
  | exec c => c.manager
  | run c => c.manager
  | create c => c.manager

def subcommand : Command → Option Subcommand
  | install c => c.subcommand
  | exec c => c.subcommand
  | run c => c.subcommand
  | create c => c.subcommand

def manager (c : Command) : Manager := c.managerWord.manager

/-- The flags of an install from its leaves; there are none if an argument stands among them. -/
def flagsOf? (leaves : List Leaf) : Option (List Flag) := leaves.mapM Leaf.flag?

def span : Command → Span
  | install c => c.span
  | exec c => c.span
  | run c => c.span
  | create c => c.span

end Command

namespace Node

def span : Node → Span
  | command c => c.span
  | manager m => m.span
  | subcommand s => s.span
  | leaf l => l.span

end Node

end CommandBridge
