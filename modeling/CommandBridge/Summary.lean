/-
  CommandBridge.Summary — what a command says, apart from how it is written.

  A summary has the values of the command's words, without quotes and places, and for an install the
  categories of its flags as switches.
-/

import CommandBridge.Command.Basic

namespace CommandBridge

structure InstallSummary where
  manager : Manager
  packages : List Text
  dev : Bool
  global : Bool
  exact : Bool
  optional : Bool
  peer : Bool
  frozen : Bool
  unknownFlags : List Text
  deriving DecidableEq, Repr

structure ExecSummary where
  manager : Manager
  package : Text
  args : List Text
  flags : List Text
  deriving DecidableEq, Repr

structure RunSummary where
  manager : Manager
  script : Text
  args : List Text
  deriving DecidableEq, Repr

structure CreateSummary where
  manager : Manager
  template : Text
  args : List Text
  deriving DecidableEq, Repr

inductive Summary
  | install (s : InstallSummary)
  | exec (s : ExecSummary)
  | run (s : RunSummary)
  | create (s : CreateSummary)
  deriving DecidableEq, Repr

namespace Summary

def kind : Summary → Command.Kind
  | install _ => .install
  | exec _ => .exec
  | run _ => .run
  | create _ => .create

def manager : Summary → Manager
  | install s => s.manager
  | exec s => s.manager
  | run s => s.manager
  | create s => s.manager

/-- The same command said to another manager. -/
def withManager (m : Manager) : Summary → Summary
  | install s => install { s with manager := m }
  | exec s => exec { s with manager := m }
  | run s => run { s with manager := m }
  | create s => create { s with manager := m }

end Summary

/-! ## Summaries of commands -/

namespace Install

/-- Some flag has the category. -/
def has (c : Install) (k : Flag.Category) : Bool := c.flags.any fun f => f.category == k

def spellings (c : Install) : List Text := c.flags.map Flag.spelling

def unknownFlags (c : Install) : List Text := (c.flags.filter fun f => f.category == .unknown).map Flag.spelling

def summary (c : Install) : InstallSummary where
  manager := c.manager.manager
  packages := c.packages.map Leaf.value
  dev := c.has .dev
  global := c.has .global
  exact := c.has .exact
  optional := c.has .optional
  peer := c.has .peer
  frozen := c.has .frozen
  unknownFlags := c.unknownFlags

end Install

def Exec.summary (c : Exec) : ExecSummary where
  manager := c.manager.manager
  package := c.package.value
  args := c.args.map Leaf.value
  flags := c.flags.map Leaf.value

def Run.summary (c : Run) : RunSummary where
  manager := c.manager.manager
  script := c.script.value
  args := c.args.map Leaf.value

def Create.summary (c : Create) : CreateSummary where
  manager := c.manager.manager
  template := c.template.value
  args := c.args.map Leaf.value

def Command.summary : Command → Summary
  | install c => .install c.summary
  | exec c => .exec c.summary
  | run c => .run c.summary
  | create c => .create c.summary

theorem Command.kind_summary (c : Command) : c.summary.kind = c.kind := by cases c <;> rfl

theorem Command.manager_summary (c : Command) : c.summary.manager = c.manager := by cases c <;> rfl

end CommandBridge
