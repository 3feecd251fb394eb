import ActorAsm.Token

/-!
Modules as they are written: imports, groups of labelled statements, and exports.
-/

namespace ActorAsm

/-- The name under which a module is imported, and where it is found. -/
structure Importation where
  moduleName : Token
  specifier : String
  deriving DecidableEq

/-- A name of this module, or a name of an imported one. -/
inductive Reference where
  | bare (name : Token)
  | qualified (moduleName name : Token)
  deriving DecidableEq

/-- An operand of a statement. -/
inductive Value where
  | literal (token : Token)
  | number (value : Int) (token : Token)
  | reference (target : Reference)
  deriving DecidableEq

/-- The token at which an operand is blamed. -/
def Value.token : Value → Token
  | .literal token => token
  | .number _ token => token
  | .reference (.bare name) => name
  | .reference (.qualified moduleName _) => moduleName

structure Statement where
  operator : Token
  operands : List Value
  deriving DecidableEq

/-- Labels that share a chain of statements. The first label names it, the others are aliases; the
first statement heads it and the others continue it. -/
structure Definition where
  label : Token
  aliases : List Token
  statement : Statement
  following : List Statement
  deriving DecidableEq

def Definition.labels (d : Definition) : List Token := d.label :: d.aliases

def Definition.statements (d : Definition) : List Statement := d.statement :: d.following

structure Module where
  imports : List Importation
  definitions : List Definition
  exports : List Token
  deriving DecidableEq

/-- All labels in source order. -/
def Module.labels (m : Module) : List Token := m.definitions.flatMap Definition.labels

end ActorAsm
