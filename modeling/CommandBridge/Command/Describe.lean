/-
  CommandBridge.Command.Describe — trees shown on one line.

  Every part is shown by its kind with its words in parentheses; places are left out, and a quoted
  argument stands between its marks as it is, without escapes.
-/

import CommandBridge.Command.Basic

namespace CommandBridge

/-- A kind with its parts in parentheses. -/
def shown (kind : String) (parts : List Text) : Text :=
  kind.toList ++ '(' :: Text.joinCommas parts ++ [')']

def bracketed (parts : List Text) : Text := '[' :: Text.joinCommas parts ++ [']']

def ManagerWord.describe (m : ManagerWord) : Text := shown "Manager" [m.invocation]

def Subcommand.describe (s : Subcommand) : Text := shown "Subcommand" [s.value]

def Flag.describe (f : Flag) : Text := shown "Flag" [f.spelling, f.category.name]

def Argument.describe (a : Argument) : Text :=
  match a.quoting with
  | .bare => shown "Argument" [a.value]
  | .quoted mark =>
    let m := mark.getD "None".toList
    shown "Argument" [m ++ a.value ++ m]

def Leaf.describe : Leaf → Text
  | flag f => f.describe
  | argument a => a.describe

def Install.describe (c : Install) : Text :=
  shown "InstallCommand" ([c.manager.describe, (c.subcommand.map Subcommand.describe).getD "None".toList] ++
    c.flags.map Flag.describe ++ c.packages.map Leaf.describe)

def Exec.describe (c : Exec) : Text :=
  shown "ExecCommand" (c.manager.describe :: c.subcommand.toList.map Subcommand.describe ++
    c.flags.map Leaf.describe ++ c.package.describe :: c.args.map Leaf.describe)

def Run.describe (c : Run) : Text :=
  shown "RunCommand" [c.manager.describe, c.script.describe, bracketed (c.args.map Leaf.describe)]

def Create.describe (c : Create) : Text :=
  shown "CreateCommand" [c.manager.describe, c.template.describe, bracketed (c.args.map Leaf.describe)]

def Command.describe : Command → Text
  | install c => c.describe
  | exec c => c.describe
  | run c => c.describe
  | create c => c.describe

def Node.describe : Node → Text
  | command c => c.describe
  | manager m => m.describe
  | subcommand s => s.describe
  | leaf l => l.describe

end CommandBridge
