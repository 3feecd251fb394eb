import ActorAsm.Module.Basic
import ActorAsm.Operator

/-! Well-formed modules, told from the module alone: what each operand must look like, how
statements follow one another, and which names lead to an instruction. -/

namespace ActorAsm

/-- What the place of a required operand asks for. -/
inductive Place where
  | expression
  | type
  | fixnum
  | reference
  | mnemonic (names : List String)

namespace Operator

/-- The places of the required operands. The operand of `ref` is missing among them: it is what
the chain goes on with, and is judged as such. -/
def places : Operator → List Place
  | .pair => [.expression]
  | .dict => [.expression, .expression]
  | .ref => []
  | .typeq => [.type]
  | .fixnum _ => [.fixnum]
  | .expr _ => [.expression]
  | .depth => []
  | .branch _ => [.reference]
  | .mnemonic op => [.mnemonic op.mnemonics]
  | .finish => [.mnemonic endMnemonics]

/-- Whatever is neither data nor a mere reference. -/
def isInstruction : Operator → Bool
  | .pair | .dict | .ref => false
  | _ => true

end Operator

namespace Value

/-- A bare name must be a label of the module, a qualified one must name an import. -/
def IsReference (m : Module) : Value → Prop
  | .reference (.bare name) => name.text ∈ m.labels.map Token.text
  | .reference (.qualified moduleName _) => moduleName.text ∈ m.imports.map (·.moduleName.text)
  | _ => False

/-- A number, a constant, a type or a reference. -/
def IsExpression (m : Module) : Value → Prop
  | .number _ _ => True
  | .literal token =>
    (∃ value : Literal, value.symbol = token.literalName) ∨
      ∃ tag : TypeTag, tag.name = token.literalName
  | .reference target => (Value.reference target).IsReference m

/-- The bare name of a value, if it is one. -/
def bareNames : Value → List Token
  | .reference (.bare name) => [name]
  | _ => []

end Value

namespace Place

/-- Whether a value may stand in a place. -/
def Fits (m : Module) : Place → Value → Prop
  | .expression, value => value.IsExpression m
  | .type, .literal token => ∃ tag : TypeTag, tag.name = token.literalName
  | .fixnum, .number _ _ => True
  | .reference, value => value.IsReference m
  | .mnemonic names, .reference (.bare name) => name.text ∈ names
  | _, _ => False

end Place

namespace Statement

/-- What the statement does, if its operator is known. -/
def operation? (s : Statement) : Option Operator := Operator.ofName? s.operator.text

def isInstruction (s : Statement) : Bool := s.operation?.any Operator.isInstruction

def isData (s : Statement) : Bool := s.operation?.any Operator.isData

/-- The operator is known, and the required operands fit their places. -/
def Fits (m : Module) (s : Statement) : Prop :=
  ∃ op, s.operation? = some op ∧ ∀ operand ∈ op.places.zip s.operands, operand.1.Fits m operand.2

/-- A statement that goes on with the next one has exactly the required operands. -/
def Links (s : Statement) : Prop :=
  ∃ op, s.operation? = some op ∧ op.continues ∧ s.operands.length = op.required

/-- The last statement has all operands that its operator can have. -/
def Ends (s : Statement) : Prop :=
  ∃ op, s.operation? = some op ∧ s.operands.length = op.limit

/-- The operand that the chain goes on with. -/
def continuation? (s : Statement) : Option Value :=
  s.operation?.bind fun op => s.operands[op.places.length]?

/-- The name that a conditional jump goes to. -/
def branchNames (s : Statement) : List Token :=
  match s.operation?, s.operands with
  | some (.branch _), target :: _ => target.bareNames
  | _, _ => []

end Statement

namespace Definition

def last (d : Definition) : Statement := d.statements.getLast (List.cons_ne_nil _ _)

/-- Whether there is an instruction among the statements. -/
def isCode (d : Definition) : Bool := d.statements.any Statement.isInstruction

/-- Data stand in front of instructions only, and behind an instruction the chain can go on with
nothing but a reference. -/
structure WellFormed (m : Module) (d : Definition) : Prop where
  operands : ∀ s ∈ d.statements, s.Fits m
  front : ∀ s ∈ d.statements.dropLast, s.Links
  last : d.last.Ends
  order : d.statements.Pairwise fun s t => s.isInstruction → ¬ t.isData
  continuation : ∀ value, d.last.continuation? = some value →
    if d.isCode then value.IsReference m else value.IsExpression m

/-- The bare names that stand where only an instruction may go: targets of conditional jumps, and
the name that a chain with an instruction in it goes on with. -/
def instructionNames (d : Definition) : List Token :=
  d.statements.flatMap Statement.branchNames ++
    if d.isCode then d.last.continuation?.toList.flatMap Value.bareNames else []

end Definition

namespace Module

/-- A label leads to an instruction if its chain begins with one, or is a reference that leads to
one. Definitions of other modules are trusted to be instructions. -/
inductive LeadsToInstruction (m : Module) : String → Prop where
  | instruction {d : Definition} : d ∈ m.definitions → d.statement.isInstruction →
      LeadsToInstruction m d.label.text
  | external {d : Definition} {moduleName name : Token} : d ∈ m.definitions →
      d.statement.operation? = some .ref →
      d.statement.continuation? = some (.reference (.qualified moduleName name)) →
      LeadsToInstruction m d.label.text
  | reference {d : Definition} {name : Token} : d ∈ m.definitions →
      d.statement.operation? = some .ref →
      d.statement.continuation? = some (.reference (.bare name)) →
      LeadsToInstruction m name.text → LeadsToInstruction m d.label.text
  | grouped {d : Definition} {other : Token} : d ∈ m.definitions → other ∈ d.aliases →
      LeadsToInstruction m d.label.text → LeadsToInstruction m other.text

/-- Names are distinct, definitions are well formed, the names that have to stand for instructions
lead to some, and only labels are exported. -/
structure WellFormed (m : Module) : Prop where
  names : (m.imports.map (·.moduleName.text) ++ m.labels.map Token.text).Nodup
  definitions : ∀ d ∈ m.definitions, d.WellFormed m
  instructions : ∀ d ∈ m.definitions, ∀ name ∈ d.instructionNames, m.LeadsToInstruction name.text
  exports : ∀ name ∈ m.exports, name.text ∈ m.labels.map Token.text

end Module

end ActorAsm
