/-
  CommandBridge.Catalogue — what the library offers, by name.
-/

import CommandBridge.Command.Parse
import CommandBridge.Request

namespace CommandBridge.Catalogue

def version : Text := "0.1.0".toList

/-- The public names in alphabetical order, capitals first. -/
def publicNames : List Text :=
  ["CommandConverter".toList, "CommandType".toList, "CreateMeta".toList, "ErrorReason".toList,
   "ErrorResult".toList, "ExecMeta".toList, "InstallMeta".toList, "LineConversion".toList,
   "MultiLineConverter".toList, "MultiLineResult".toList, "PackageManager".toList, "PackmorphOptions".toList,
   "RunMeta".toList, "SuccessResult".toList, "packmorph".toList, "parse_and_transform".toList]

def isPublic (name : Text) : Bool := publicNames.contains name

def unknownName (name : Text) : Text := "module 'packmorph' has no attribute ".toList ++ Text.literal name

def managers : List Text := Manager.all.map Manager.name

def kinds : List Text := Command.Kind.all.map Command.Kind.name

def reasons : List Text := Reason.all.map Reason.name

def categories : List Text := Flag.Category.all.map Flag.Category.name

def tokenKinds : List Text := Token.Kind.all.map Token.Kind.name

def invocations : List (Text × Text) := Manager.invocations.map fun p => (p.1, p.2.name)

def shorthands : List Text := Manager.shorthands

def dlxManagers : List Text := Manager.withDlx.map Manager.name

def installWords : List Text := Command.installWords

/-- The known flags with their categories, in the order of their code points. -/
def flags : List (Text × Text) :=
  (Flag.spellings.map fun p => (p.1, p.2.name)).mergeSort fun a b => Text.le a.1 b.1

def flagRules : List Flag.Rule := Flag.rules

end CommandBridge.Catalogue
