/-
  CommandBridge.Options — which classes of commands are converted, and whether line by line.

  A switch holds a datum and counts by its truth. Options are built from named values: a name is the
  switch's own or its camel-case form, every value must be a truth value, and the last value for a
  switch stands. Overriding takes only the switches' own names, and any value; the name by which the
  options themselves are handed over is taken.
-/

import CommandBridge.Command.Basic
import CommandBridge.Datum

namespace CommandBridge

inductive Switch
  | install | exec | run | create | multiLine
  deriving DecidableEq, Repr

namespace Switch

def all : List Switch := [install, exec, run, create, multiLine]

def name : Switch → Text
  | install => "parse_install".toList
  | exec => "parse_exec".toList
  | run => "parse_run".toList
  | create => "parse_create".toList
  | multiLine => "parse_multi_line".toList

def camelName : Switch → Text
  | install => "parseInstall".toList
  | exec => "parseExec".toList
  | run => "parseRun".toList
  | create => "parseCreate".toList
  | multiLine => "parseMultiLine".toList

def ofName? (t : Text) : Option Switch := all.find? fun s => s.name = t

/-- The switch that either form of a name stands for. -/
def ofKey? (t : Text) : Option Switch := all.find? fun s => s.name = t ∨ s.camelName = t

def ofKind : Command.Kind → Switch
  | .install => install
  | .exec => exec
  | .run => run
  | .create => create

/-- Only installs are converted unless more is asked for. -/
def byDefault : Switch → Bool
  | install => true
  | _ => false

theorem ofName?_name (s : Switch) : ofName? s.name = some s := by cases s <;> rfl

theorem ofKey?_name (s : Switch) : ofKey? s.name = some s := by cases s <;> rfl

theorem ofKey?_camelName (s : Switch) : ofKey? s.camelName = some s := by cases s <;> rfl

end Switch

structure Options where
  install : Datum
  exec : Datum
  run : Datum
  create : Datum
  multiLine : Datum
  deriving Repr, Inhabited

inductive OptionError
  | unknownKey (key : Text)
  | notBoolean (key : Text) (value : Datum)
  | unknownName (name : Text)
  /-- The name of what is handed over anyway, to the function that is named. -/
  | givenTwice (function name : Text)
  /-- Options are never changed in place. -/
  | frozen (name : Text)
  | notKind (value : Datum)
  deriving Repr

def OptionError.message : OptionError → Text
  | unknownKey key => "Unknown option: ".toList ++ key
  | notBoolean key value => "Option ".toList ++ key ++ " must be a boolean, got ".toList ++ value.literal
  | unknownName name =>
    "PackmorphOptions.__init__() got an unexpected keyword argument '".toList ++ name ++ [Text.singleQuote]
  | givenTwice function name =>
    function ++ "() got multiple values for argument '".toList ++ name ++ [Text.singleQuote]
  | frozen name => "cannot assign to field ".toList ++ Text.literal name
  | notKind value => value.literal ++ " is not a valid CommandType".toList

namespace Options

def get (o : Options) : Switch → Datum
  | .install => o.install
  | .exec => o.exec
  | .run => o.run
  | .create => o.create
  | .multiLine => o.multiLine

def put (o : Options) (s : Switch) (d : Datum) : Options :=
  match s with
  | .install => { o with install := d }
  | .exec => { o with exec := d }
  | .run => { o with run := d }
  | .create => { o with create := d }
  | .multiLine => { o with multiLine := d }

@[simp] theorem get_put (o : Options) (s s' : Switch) (d : Datum) :
    (o.put s d).get s' = if s = s' then d else o.get s' := by
  cases s <;> cases s' <;> rfl

theorem ext_get {o o' : Options} (h : ∀ s, o.get s = o'.get s) : o = o' := by
  obtain ⟨a, b, c, d, e⟩ := o
  simp only [show a = o'.install from h .install, show b = o'.exec from h .exec,
    show c = o'.run from h .run, show d = o'.create from h .create,
    show e = o'.multiLine from h .multiLine]

def ofFn (f : Switch → Datum) : Options := ⟨f .install, f .exec, f .run, f .create, f .multiLine⟩

def standard : Options := ofFn fun s => .bool s.byDefault

/-- Every class of commands, one line at a time. -/
def allEnabled : Options := ofFn fun s => .bool (s != .multiLine)

/-! ## Building options -/

/-- Stores one named value. -/
def store (o : Options) (key : Text) (value : Datum) : Except OptionError Options :=
  match Switch.ofKey? key, value with
  | none, _ => .error (.unknownKey key)
  | some s, .bool b => .ok (o.put s (.bool b))
  | some _, value => .error (.notBoolean key value)

def storeAll (o : Options) : List (Text × Datum) → Except OptionError Options
  | [] => .ok o
  | (key, value) :: pairs =>
    match o.store key value with
    | .ok o' => storeAll o' pairs
    | .error e => .error e

/-- The default options with the named values stored one after the other. -/
def ofPairs (pairs : List (Text × Datum)) : Except OptionError Options := storeAll standard pairs

/-- Fails at the first of the names that is taken. -/
def checkNames (function : Text) (taken : List Text) (pairs : List (Text × Datum)) : Except OptionError Unit :=
  match (pairs.map Prod.fst).find? taken.contains with
  | some name => .error (.givenTwice function name)
  | none => .ok ()

/-- Puts values of any kind for switches given by their own names. -/
def putAll (o : Options) : List (Text × Datum) → Except OptionError Options
  | [] => .ok o
  | (name, value) :: pairs =>
    match Switch.ofName? name with
    | none => .error (.unknownName name)
    | some s => (o.put s value).putAll pairs

def override (o : Options) (pairs : List (Text × Datum)) : Except OptionError Options :=
  match checkNames "PackmorphOptions.replace".toList ["self".toList] pairs with
  | .error e => .error e
  | .ok _ => o.putAll pairs

def assign (_ : Options) (name : Text) : OptionError := .frozen name

/-! ## Asking options -/

/-- What is stored for a class of commands. -/
def stored (o : Options) (k : Command.Kind) : Datum := o.get (Switch.ofKind k)

def isEnabled (o : Options) (k : Command.Kind) : Bool := (o.stored k).isTrue

def storedFor (o : Options) (d : Datum) : Except OptionError Datum :=
  match d with
  | .text t =>
    match Command.Kind.ofName? t with
    | some k => .ok (o.stored k)
    | none => .error (.notKind d)
  | d => .error (.notKind d)

def enabledKinds (o : Options) : List Command.Kind := Command.Kind.all.filter o.isEnabled

def isMultiLine (o : Options) : Bool := o.multiLine.isTrue

/-- Equal to the default options, numbers counting as the truth value they equal. -/
def isStandard (o : Options) : Bool := Switch.all.all fun s => (o.get s).equalsBool s.byDefault

end Options

end CommandBridge
