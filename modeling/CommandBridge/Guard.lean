/-
  CommandBridge.Guard — refusing text that composes a command with others.

  Before a text is scanned, it is searched for what a shell takes as composition: `;`, a line feed,
  `&&`, `||`, or a group in parentheses. A group is fine only if each closing parenthesis after the
  opening one, on the same line, is followed by the name of a manager, blanks aside; which names
  count hangs on whether the command runs a package. The search looks at every place of the text.
-/

import CommandBridge.Manager
import CommandBridge.Reason
import CommandBridge.Text.Blank

namespace CommandBridge.Guard

/-- The two lists of names that may follow a group. -/
inductive Pattern
  | standard | exec
  deriving DecidableEq, Repr

namespace Pattern

def name : Pattern → Text
  | standard => "standard".toList
  | exec => "exec".toList

def ofName? (t : Text) : Option Pattern := [standard, exec].find? fun p => p.name = t

/-- The names that may follow a group. -/
def followers : Pattern → List Text
  | standard => ["npm".toList, "pnpm".toList, "yarn".toList, "bun".toList]
  | exec => ["npx".toList, "pnpm".toList, "yarn".toList, "bunx".toList]

/-- One of the names stands at the head, after blanks. -/
def follows (p : Pattern) (t : Text) : Bool := p.followers.any fun n => n.isPrefixOf (Text.trimLeft t)

end Pattern

/-- What follows each closing parenthesis on the line. -/
def closings : Text → List Text
  | [] => []
  | c :: rest => if c = '\n' then [] else if c = ')' then rest :: closings rest else closings rest

/-- A composition starts at the head of the text. -/
def composes (p : Pattern) : Text → Bool
  | ';' :: _ => true
  | '\n' :: _ => true
  | '&' :: '&' :: _ => true
  | '|' :: '|' :: _ => true
  | '(' :: rest => (closings rest).any fun after => !p.follows after
  | _ => false

/-- A composition starts somewhere in the text. -/
def isComposed (p : Pattern) : Text → Bool
  | [] => false
  | c :: rest => composes p (c :: rest) || isComposed p rest

/-- The pattern for a command: exec after a shorthand, or when the second word is `dlx`. -/
def select (t : Text) : Pattern :=
  match Text.words t with
  | [] => .standard
  | w :: ws => if Manager.isShorthand w ∨ ws.head? = some "dlx".toList then .exec else .standard

/-- Why a command may not be scanned: it is blank, or composed by the pattern. Without a pattern the
    selected one counts. -/
def refusal? (t : Text) (p : Option Pattern) : Option Reason :=
  let trimmed := Text.trim t
  if trimmed.isEmpty then some .notSupported
  else if isComposed (p.getD (select trimmed)) trimmed then some .notSupported
  else none

end CommandBridge.Guard
