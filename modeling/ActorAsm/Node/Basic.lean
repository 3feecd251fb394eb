import ActorAsm.Operator

/-!
Nodes of the intermediate representation: values, references, pairs and dictionaries, and
instructions with the nodes they continue with.
-/

namespace ActorAsm

/-- Where in the source a node comes from. Lines count from zero. -/
structure Debug where
  file : String
  line : Nat
  deriving DecidableEq

/-- What a reference names: a definition of the same module, or one of an imported module. -/
inductive Target where
  | label (name : String)
  | external (moduleName name : String)
  deriving DecidableEq

/-- In instructions, `k` is the continuation. A conditional jump has two of them. -/
inductive Node where
  | literal (value : Literal)
  | typeTag (tag : TypeTag)
  | fixnum (value : Int)
  | reference (target : Target) (debug : Debug)
  | pair (head tail : Node) (debug : Debug)
  | dict (key value next : Node) (debug : Debug)
  | typeq (imm : TypeTag) (k : Node) (debug : Debug)
  | fixnumOp (op : FixnumOp) (imm : Int) (k : Node) (debug : Debug)
  | exprOp (op : ExprOp) (imm k : Node) (debug : Debug)
  | depth (k : Node) (debug : Debug)
  | branch (onTrue onFalse : Node) (debug : Debug)
  | mnemonicOp (op : MnemonicOp) (imm : String) (k : Node) (debug : Debug)
  | finish (imm : String) (debug : Debug)
  deriving DecidableEq

namespace Node

/-- The word for the kind of a node. -/
def kind : Node → String
  | .literal _ => "literal"
  | .typeTag _ => "type"
  | .fixnum _ => "fixnum"
  | .reference _ _ => "ref"
  | .pair _ _ _ => "pair"
  | .dict _ _ _ _ => "dict"
  | _ => "instr"

def isInstruction : Node → Bool
  | .literal _ | .typeTag _ | .fixnum _ | .reference _ _ | .pair _ _ _ | .dict _ _ _ _ => false
  | _ => true

end Node

namespace Target

def summary : Target → String
  | .label name => name
  | .external moduleName name => moduleName ++ "." ++ name

end Target

namespace Node

/-- The node on one line, without its origin. -/
def summary : Node → String
  | .literal value => "#" ++ value.text
  | .typeTag tag => "#" ++ tag.name
  | .fixnum value => toString value
  | .reference target _ => target.summary
  | .pair head tail _ => "(" ++ head.summary ++ " . " ++ tail.summary ++ ")"
  | .dict key value next _ =>
    "\x7b" ++ key.summary ++ ": " ++ value.summary ++ "\x7d " ++ next.summary
  | .typeq imm k _ => "typeq #" ++ imm.name ++ " -> " ++ k.summary
  | .fixnumOp op imm k _ => op.name ++ " " ++ toString imm ++ " -> " ++ k.summary
  | .exprOp op imm k _ => op.name ++ " " ++ imm.summary ++ " -> " ++ k.summary
  | .depth k _ => "depth -> " ++ k.summary
  | .branch onTrue onFalse _ => "if " ++ onTrue.summary ++ " else " ++ onFalse.summary
  | .mnemonicOp op imm k _ => op.name ++ " " ++ imm ++ " -> " ++ k.summary
  | .finish imm _ => "end " ++ imm

end Node

end ActorAsm
