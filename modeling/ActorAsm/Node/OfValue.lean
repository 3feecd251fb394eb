import ActorAsm.Failure
import ActorAsm.Module.Basic
import ActorAsm.Node.Basic

/-!
The nodes that operands stand for. Names are checked against the labels and imports of the
module. A bare name where only an instruction may go is recorded, because its label may be defined
further down; whether an instruction is there can be told only at the end.
-/

namespace ActorAsm

/-- What operands can refer to, and the file that nodes say they come from. -/
structure Scope where
  file : String
  labels : List String
  moduleNames : List String

namespace Scope

def ofModule (m : Module) (file : String) : Scope :=
  ⟨file, m.labels.map Token.text, m.imports.map (·.moduleName.text)⟩

def debug (scope : Scope) (token : Token) : Debug := ⟨scope.file, token.line⟩

end Scope

/-- What may stand in a place. -/
inductive Demand where
  | anything
  | instruction
  deriving DecidableEq

/-- Computations that record names standing for instructions and stop at the first failure. -/
abbrev Recording := StateT (Array Token) (Except Failure)

/-- Record a name. -/
def Recording.record (name : Token) : Recording Unit := modify (·.push name)

namespace Node

open Failure (raise)

/-- The type that a literal names. -/
def ofType : Value → Except Failure TypeTag
  | .literal token =>
    match TypeTag.ofName? token.literalName with
    | some tag => .ok tag
    | none => raise .expectedType token
  | value => raise .expectedType value.token

def ofFixnum : Value → Except Failure Int
  | .number value _ => .ok value
  | value => raise .expectedFixnum value.token

/-- Types are spelled with a suffix of their own. -/
def isTypeName (name : String) : Bool := ['_', 't'].isSuffixOf name.toList

/-- A constant, or a type if the literal is spelled like one. -/
def ofLiteral (token : Token) : Except Failure Node :=
  if isTypeName token.literalName then (ofType (.literal token)).map .typeTag
  else
    match Literal.ofSymbol? token.literalName with
    | some value => .ok (.literal value)
    | none => raise .expectedLiteral token

/-- A bare name out of a list of mnemonics. -/
def ofMnemonic (mnemonics : List String) : Value → Except Failure String
  | .reference (.bare name) =>
    if name.text ∈ mnemonics then .ok name.text else raise .badLabel name
  | value => raise .badLabel value.token

/-- A reference. Definitions of other modules are trusted to be what is demanded. -/
def ofReference (scope : Scope) (demand : Demand) : Value → Recording Node
  | .reference (.bare name) =>
    if name.text ∈ scope.labels then do
      if demand = .instruction then Recording.record name
      return .reference (.label name.text) (scope.debug name)
    else raise .notDefined name
  | .reference (.qualified moduleName name) =>
    if moduleName.text ∈ scope.moduleNames then
      return .reference (.external moduleName.text name.text) (scope.debug moduleName)
    else raise .notImported moduleName
  | value => raise .expectedName value.token

def ofExpression (scope : Scope) : Value → Recording Node
  | .number value _ => return .fixnum value
  | .literal token => ofLiteral token
  | .reference target => ofReference scope .anything (.reference target)

/-- What a chain goes on with: any expression, but a reference if an instruction is demanded. -/
def ofContinuation (scope : Scope) : Demand → Value → Recording Node
  | .anything, value => ofExpression scope value
  | .instruction, value => ofReference scope .instruction value

end Node

end ActorAsm
