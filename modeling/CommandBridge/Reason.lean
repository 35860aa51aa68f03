/-
  CommandBridge.Reason — why a conversion fails.
-/

import CommandBridge.Text.Basic

namespace CommandBridge

inductive Reason
  | notSupported | parseError | disabled | mixedManagers
  deriving DecidableEq, Repr

namespace Reason

def all : List Reason := [notSupported, parseError, disabled, mixedManagers]

def name : Reason → Text
  | notSupported => "not-supported-command".toList
  | parseError => "parse-error".toList
  | disabled => "disabled-command-type".toList
  | mixedManagers => "mixed-package-managers".toList

end Reason

end CommandBridge
