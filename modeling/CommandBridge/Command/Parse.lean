/-
  CommandBridge.Command.Parse — from the tokens of a command line to the command.

  The first token calls a manager and the second is the subcommand, unless the first is a shorthand;
  only their values count, not how they are quoted. The rest is the body:
  - an install keeps flags and packages, drops separators, and may not end with one;
  - an exec has flags, then the package, then arguments of any kind;
  - a run has a script and arguments of any kind;
  - a create has a template and arguments of any kind, without separators.
  An error names its cause and the token where it shows.
  - `parseNext_ofText`: a fresh scanner gives what the text gives.
  - `parseNext_again`: a scanner that was used once has no command left.
-/

import CommandBridge.Command.Basic
import CommandBridge.Reason
import CommandBridge.Token.Scan

namespace CommandBridge

inductive SyntaxError.Cause
  | expectedManager
  | unknownManager (word : Text)
  | expectedSubcommand
  | noDlx (m : Manager)
  | unsupportedSubcommand (word : Text)
  | danglingSeparator
  | expectedAdd
  | expectedPackage
  | expectedScript
  | expectedTemplate
  deriving DecidableEq, Repr

structure SyntaxError where
  cause : SyntaxError.Cause
  token : Token
  deriving DecidableEq, Repr

namespace SyntaxError

/-- What is not one of the known shapes is not supported; a shape that breaks off is a parse error. -/
def Cause.reason : Cause → Reason
  | expectedManager | unknownManager _ | noDlx _ | unsupportedSubcommand _ | expectedAdd => .notSupported
  | expectedSubcommand | danglingSeparator | expectedPackage | expectedScript | expectedTemplate => .parseError

def Cause.message : Cause → Text
  | expectedManager => "Expected package manager".toList
  | unknownManager word => "Unknown package manager ".toList ++ Text.literal word
  | expectedSubcommand => "Expected subcommand".toList
  | noDlx m => m.name ++ " has no dlx subcommand".toList
  | unsupportedSubcommand word => "Unsupported subcommand ".toList ++ Text.literal word
  | danglingSeparator => "Dangling separator".toList
  | expectedAdd => "Expected 'add' after 'yarn global'".toList
  | expectedPackage => "Expected package name".toList
  | expectedScript => "Expected script name".toList
  | expectedTemplate => "Expected template name".toList

def reason (e : SyntaxError) : Reason := e.cause.reason

def message (e : SyntaxError) : Text :=
  e.cause.message ++ " at position ".toList ++ Text.ofNat e.token.start

/-- How many of a line's tokens have been read when the error shows. -/
def tokensRead (e : SyntaxError) (line : List Token) : Nat :=
  match e.cause with
  | .expectedManager | .unknownManager _ => 0
  | .expectedSubcommand => 1
  | .noDlx _ | .unsupportedSubcommand _ | .expectedAdd => 2
  | .danglingSeparator | .expectedPackage | .expectedScript | .expectedTemplate => line.length

end SyntaxError

namespace Command

/-- The subcommands that are known, by what they ask for. -/
inductive Verb
  | dlx | install | run | create | global
  deriving DecidableEq, Repr

def installWords : List Text := ["add".toList, "i".toList, "install".toList]

def addWord : Text := "add".toList

def Verb.ofText? (t : Text) : Option Verb :=
  if t = "dlx".toList then some .dlx
  else if installWords.contains t then some .install
  else if t = "run".toList then some .run
  else if t = "create".toList then some .create
  else if t = "global".toList then some .global
  else none

/-! ## Bodies -/

def isPackage (t : Token) : Bool := !t.isFlag && !t.isSeparator

/-- An install from its body; `implied` are flags that the header stands for. -/
def installOfBody (m : ManagerWord) (s : Subcommand) (implied : List Flag) (span : Span) (body : List Token) :
    Except SyntaxError Install :=
  match body.getLast?.filter Token.isSeparator with
  | some last => .error ⟨.danglingSeparator, last⟩
  | none => .ok
    { manager := m
      subcommand := some s
      flags := implied ++ (body.filter Token.isFlag).map Flag.ofToken
      packages := (body.filter isPackage).map Leaf.argumentOf
      hasSeparator := body.any Token.isSeparator
      span := span }

def execOfBody (m : ManagerWord) (s : Option Subcommand) (span : Span) (finish : Token) (body : List Token) :
    Except SyntaxError Exec :=
  match body.dropWhile Token.isFlag with
  | [] => .error ⟨.expectedPackage, finish⟩
  | package :: args => .ok
    { manager := m
      subcommand := s
      flags := (body.takeWhile Token.isFlag).map Leaf.flagOf
      package := Leaf.argumentOf package
      args := args.map Leaf.argumentOf
      span := span }

def runOfBody (m : ManagerWord) (s : Subcommand) (span : Span) (finish : Token) : List Token → Except SyntaxError Run
  | [] => .error ⟨.expectedScript, finish⟩
  | script :: args => .ok ⟨m, some s, Leaf.argumentOf script, args.map Leaf.argumentOf, span⟩

def createOfBody (m : ManagerWord) (s : Subcommand) (span : Span) (finish : Token) :
    List Token → Except SyntaxError Create
  | [] => .error ⟨.expectedTemplate, finish⟩
  | template :: rest => .ok
    { manager := m
      subcommand := some s
      template := Leaf.argumentOf template
      args := (rest.filter fun t => !t.isSeparator).map Leaf.argumentOf
      hasSeparator := rest.any Token.isSeparator
      span := span }

/-- After `yarn global`: the word `add`, then an install for which `global` stands for a flag. -/
def globalOfBody (m : ManagerWord) (globalWord : Token) (span : Span) (finish : Token) :
    List Token → Except SyntaxError Install
  | [] => .error ⟨.expectedAdd, finish⟩
  | t :: body =>
    if t.value = addWord then
      installOfBody m ⟨t.value, t.span⟩ [⟨"--global".toList, .global, globalWord.span⟩] span body
    else .error ⟨.expectedAdd, t⟩

/-! ## Commands -/

/-- A command after its manager word and its subcommand `verb`. -/
def ofBody (m : ManagerWord) (verb : Token) (span : Span) (finish : Token) (body : List Token) :
    Except SyntaxError Command :=
  let s : Subcommand := ⟨verb.value, verb.span⟩
  let unsupported : SyntaxError := ⟨.unsupportedSubcommand verb.value, verb⟩
  match Verb.ofText? verb.value with
  | some .dlx =>
    if m.manager.hasDlx then (execOfBody m (some s) span finish body).map exec
    else .error ⟨.noDlx m.manager, verb⟩
  | some .install => (installOfBody m s [] span body).map install
  | some .run => (runOfBody m s span finish body).map run
  | some .create => (createOfBody m s span finish body).map create
  | some .global =>
    if m.manager = .yarn then (globalOfBody m verb span finish body).map install else .error unsupported
  | none => .error unsupported

/-- The command that the tokens of a line make; `finish` is the token at its end. -/
def ofTokens (finish : Token) : List Token → Except SyntaxError Command
  | [] => .error ⟨.expectedManager, finish⟩
  | t :: rest =>
    match Manager.ofInvocation? t.value with
    | none => .error ⟨.unknownManager t.value, t⟩
    | some manager =>
      let m : ManagerWord := ⟨manager, t.value, t.span⟩
      let span : Span := t.spanTo (rest.getLastD t)
      match rest with
      | [] => .error ⟨.expectedSubcommand, finish⟩
      | verb :: body =>
        if Manager.isShorthand t.value then (execOfBody m none span finish (verb :: body)).map exec
        else ofBody m verb span finish body

def parse (t : Text) : Except SyntaxError Command := ofTokens (Token.lineEnd t) (Token.ofLine t)

theorem parse_eq (t : Text) : parse t = ofTokens (Token.atEnd t.length) (Token.ofLine t) := by
  rw [parse, Token.lineEnd_eq]

/-- How many of a line's tokens the parser has read when it answers: all, unless an error shows before. -/
def tokensRead (line : List Token) : Except SyntaxError Command → Nat
  | .ok _ => line.length
  | .error e => e.tokensRead line

/-! ## Asking again -/

/-- The command in what a scanner still has, and the scanner after it. -/
def parseNext (s : Token.Scanner) : Except SyntaxError Command × Token.Scanner :=
  (ofTokens (Token.atEnd s.finish.offset) s.pending, s.finish)

theorem parseNext_ofText (t : Text) : (parseNext (Token.Scanner.ofText t)).1 = parse t := by
  rfl

theorem parseNext_again (s : Token.Scanner) :
    parseNext (parseNext s).2 = (.error ⟨.expectedManager, Token.atEnd s.finish.offset⟩, s.finish) := by
  rw [parseNext, parseNext, Token.Scanner.pending_finish, Token.Scanner.finish_finish, ofTokens]

end Command

end CommandBridge
