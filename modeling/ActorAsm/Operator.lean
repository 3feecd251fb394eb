/-!
The vocabulary of statements: operators, the constants and types that literals name, and the
mnemonics that some operators take.
-/

namespace ActorAsm

/-- Constants with a symbol of their own. -/
inductive Literal where
  | undef
  | nil
  | unit
  | true
  | false
  deriving DecidableEq

namespace Literal

def all : List Literal := [.undef, .nil, .unit, .true, .false]

/-- How the constant is written in a source, behind the number sign. -/
def symbol : Literal → String
  | .undef => "?"
  | .nil => "nil"
  | .unit => "unit"
  | .true => "t"
  | .false => "f"

/-- How the constant is written in a document. -/
def text : Literal → String
  | .undef => "undef"
  | .nil => "nil"
  | .unit => "unit"
  | .true => "true"
  | .false => "false"

def ofSymbol? (symbol : String) : Option Literal := all.find? (·.symbol = symbol)

end Literal

/-- The types of values. -/
inductive TypeTag where
  | literal
  | fixnum
  | type
  | pair
  | dict
  | instr
  | actor
  deriving DecidableEq

namespace TypeTag

def all : List TypeTag := [.literal, .fixnum, .type, .pair, .dict, .instr, .actor]

/-- The name of the type, in sources and documents alike. -/
def name : TypeTag → String
  | .literal => "literal_t"
  | .fixnum => "fixnum_t"
  | .type => "type_t"
  | .pair => "pair_t"
  | .dict => "dict_t"
  | .instr => "instr_t"
  | .actor => "actor_t"

def ofName? (name : String) : Option TypeTag := all.find? (·.name = name)

end TypeTag

/-- Instructions whose immediate is a fixnum. -/
inductive FixnumOp where
  | pair
  | part
  | nth
  | drop
  | pick
  | dup
  | roll
  | eq
  | msg
  | send
  | new
  | beh
  deriving DecidableEq

namespace FixnumOp

def all : List FixnumOp :=
  [.pair, .part, .nth, .drop, .pick, .dup, .roll, .eq, .msg, .send, .new, .beh]

def name : FixnumOp → String
  | .pair => "pair"
  | .part => "part"
  | .nth => "nth"
  | .drop => "drop"
  | .pick => "pick"
  | .dup => "dup"
  | .roll => "roll"
  | .eq => "eq"
  | .msg => "msg"
  | .send => "send"
  | .new => "new"
  | .beh => "beh"

def ofName? (name : String) : Option FixnumOp := all.find? (·.name = name)

end FixnumOp

/-- Instructions whose immediate is any expression. -/
inductive ExprOp where
  | push
  | isEq
  | isNe
  deriving DecidableEq

namespace ExprOp

def all : List ExprOp := [.push, .isEq, .isNe]

def name : ExprOp → String
  | .push => "push"
  | .isEq => "is_eq"
  | .isNe => "is_ne"

def ofName? (name : String) : Option ExprOp := all.find? (·.name = name)

end ExprOp

/-- Instructions whose immediate is a mnemonic out of a fixed list. -/
inductive MnemonicOp where
  | dict
  | deque
  | alu
  | cmp
  | my
  deriving DecidableEq

namespace MnemonicOp

def all : List MnemonicOp := [.dict, .deque, .alu, .cmp, .my]

def name : MnemonicOp → String
  | .dict => "dict"
  | .deque => "deque"
  | .alu => "alu"
  | .cmp => "cmp"
  | .my => "my"

def mnemonics : MnemonicOp → List String
  | .dict => ["has", "get", "add", "set", "del"]
  | .deque => ["new", "empty", "push", "pop", "put", "pull", "len"]
  | .alu => ["not", "and", "or", "xor", "add", "sub", "mul"]
  | .cmp => ["eq", "ge", "gt", "lt", "le", "ne"]
  | .my => ["self", "beh", "state"]

def ofName? (name : String) : Option MnemonicOp := all.find? (·.name = name)

end MnemonicOp

/-- The mnemonics of the instruction that ends a chain. -/
def endMnemonics : List String := ["abort", "stop", "commit", "release"]

/-- What a statement can do. -/
inductive Operator where
  | pair
  | dict
  | ref
  | typeq
  | fixnum (op : FixnumOp)
  | expr (op : ExprOp)
  | depth
  | branch (negated : Bool)
  | mnemonic (op : MnemonicOp)
  | finish
  deriving DecidableEq

namespace Operator

def all : List Operator :=
  [.pair, .dict, .ref, .typeq] ++ FixnumOp.all.map .fixnum ++ ExprOp.all.map .expr ++
    [.depth, .branch false, .branch true] ++ MnemonicOp.all.map .mnemonic ++ [.finish]

def name : Operator → String
  | .pair => "pair_t"
  | .dict => "dict_t"
  | .ref => "ref"
  | .typeq => "typeq"
  | .fixnum op => op.name
  | .expr op => op.name
  | .depth => "depth"
  | .branch negated => if negated then "if_not" else "if"
  | .mnemonic op => op.name
  | .finish => "end"

def ofName? (name : String) : Option Operator := all.find? (·.name = name)

/-- How many operands the operator must have. -/
def required : Operator → Nat
  | .depth => 0
  | .dict => 2
  | _ => 1

/-- Whether something follows: one more operand, or else the next statement. -/
def continues : Operator → Bool
  | .ref | .finish => false
  | _ => true

/-- How many operands the operator can have. -/
def limit (op : Operator) : Nat := op.required + if op.continues then 1 else 0

/-- Pairs and dictionaries are data; they have no place behind an instruction. -/
def isData : Operator → Bool
  | .pair | .dict => true
  | _ => false

end Operator

end ActorAsm
