import ActorAsm.Token

/-!
Failures: what went wrong and the token it went wrong at. Every stage stops at its first failure.
-/

namespace ActorAsm

/-- What can go wrong while reading a module or generating its document. -/
inductive Fault where
  | endOfStream
  | rejected
  | noAlternative
  | trailingToken
  | redefinition (name : String)
  | notDefined
  | notImported
  | expectedName
  | expectedLiteral
  | expectedType
  | expectedFixnum
  | badLabel
  | badOp
  | tooFewOperands
  | unexpectedOperand
  | unexpectedAfterTerminal
  | unexpectedStatement
  | missingContinuation
  | expectedInstruction
  | cyclicReference
  deriving DecidableEq

namespace Fault

/-- The message shown to the user. -/
def message : Fault → String
  | .endOfStream => "Unexpected end of stream."
  | .rejected => "Unexpected."
  | .noAlternative => "Unexpected"
  | .trailingToken => "Unexpected token."
  | .redefinition name => "Redefinition of '" ++ name ++ "'"
  | .notDefined => "Not defined"
  | .notImported => "Not imported"
  | .expectedName => "Expected a name"
  | .expectedLiteral => "Expected a literal"
  | .expectedType => "Expected a type"
  | .expectedFixnum => "Expected a fixnum"
  | .badLabel => "Bad label"
  | .badOp => "Bad op"
  | .tooFewOperands => "Too few operands"
  | .unexpectedOperand => "Unexpected operand"
  | .unexpectedAfterTerminal => "Unexpected"
  | .unexpectedStatement => "Unexpected statement"
  | .missingContinuation => "Missing continuation"
  | .expectedInstruction => "Expected an instruction, not data"
  | .cyclicReference => "Cyclic reference"

/-- The name of the fault, without its details. -/
def name : Fault → String
  | .endOfStream => "EndOfStream"
  | .rejected => "Rejected"
  | .noAlternative => "NoAlternative"
  | .trailingToken => "TrailingToken"
  | .redefinition _ => "Redefinition"
  | .notDefined => "NotDefined"
  | .notImported => "NotImported"
  | .expectedName => "ExpectedName"
  | .expectedLiteral => "ExpectedLiteral"
  | .expectedType => "ExpectedType"
  | .expectedFixnum => "ExpectedFixnum"
  | .badLabel => "BadLabel"
  | .badOp => "BadOp"
  | .tooFewOperands => "TooFewOperands"
  | .unexpectedOperand => "UnexpectedOperand"
  | .unexpectedAfterTerminal => "UnexpectedAfterTerminal"
  | .unexpectedStatement => "UnexpectedStatement"
  | .missingContinuation => "MissingContinuation"
  | .expectedInstruction => "ExpectedInstruction"
  | .cyclicReference => "CyclicReference"

/-- The name of the fault with its details. -/
def description (fault : Fault) : String :=
  match fault with
  | .redefinition name => fault.name ++ "(" ++ Text.quoted name ++ ")"
  | _ => fault.name

end Fault

/-- The token is absent when the input ran out. -/
structure Failure where
  fault : Fault
  token : Option Token
  deriving DecidableEq

namespace Failure

def onToken (fault : Fault) (token : Token) : Failure := ⟨fault, some token⟩

/-- Stop at a token. -/
def raise {α : Type} (fault : Fault) (token : Token) : Except Failure α :=
  .error (.onToken fault token)

def endOfStream : Failure := ⟨.endOfStream, none⟩

def message (failure : Failure) : String := failure.fault.message

def line? (failure : Failure) : Option Nat := failure.token.map Token.line

def column? (failure : Failure) : Option Nat := failure.token.map Token.column

/-- The failure in full, on one line. -/
def description (failure : Failure) : String :=
  let token := match failure.token with
    | some token => "Some(" ++ token.description ++ ")"
    | none => "None"
  "Failure \x7b kind: " ++ failure.fault.description ++ ", token: " ++ token ++ " \x7d"

end Failure

end ActorAsm
