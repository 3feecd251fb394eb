import ActorAsm.Json.Basic
import ActorAsm.Node.Basic

/-!
Nodes as JSON. A fixnum is a bare number, any other node an object that begins with its kind.
-/

namespace ActorAsm

def TypeTag.toJson (tag : TypeTag) : Json :=
  .object [("kind", .string "type"), ("name", .string tag.name)]

def Debug.toJson (debug : Debug) : Json :=
  .object [("file", .string debug.file), ("line", .number debug.line)]

def Target.fields : Target → List (String × Json)
  | .label name => [("name", .string name)]
  | .external moduleName name => [("module", .string moduleName), ("name", .string name)]

namespace Node

/-- An instruction's own fields stand between its operator and its origin. -/
def instructionJson (op : String) (fields : List (String × Json)) (debug : Debug) : Json :=
  .object ([("kind", .string "instr"), ("op", .string op)] ++ fields ++ [("debug", debug.toJson)])

def toJson : Node → Json
  | .literal value => .object [("kind", .string "literal"), ("value", .string value.text)]
  | .typeTag tag => tag.toJson
  | .fixnum value => .number value
  | .reference target debug =>
    .object ([("kind", .string "ref")] ++ target.fields ++ [("debug", debug.toJson)])
  | .pair head tail debug =>
    .object [("kind", .string "pair"), ("head", head.toJson), ("tail", tail.toJson),
      ("debug", debug.toJson)]
  | .dict key value next debug =>
    .object [("kind", .string "dict"), ("key", key.toJson), ("value", value.toJson),
      ("next", next.toJson), ("debug", debug.toJson)]
  | .typeq imm k debug => instructionJson "typeq" [("imm", imm.toJson), ("k", k.toJson)] debug
  | .fixnumOp op imm k debug =>
    instructionJson op.name [("imm", .number imm), ("k", k.toJson)] debug
  | .exprOp op imm k debug =>
    instructionJson op.name [("imm", imm.toJson), ("k", k.toJson)] debug
  | .depth k debug => instructionJson "depth" [("k", k.toJson)] debug
  | .branch onTrue onFalse debug =>
    instructionJson "if" [("t", onTrue.toJson), ("f", onFalse.toJson)] debug
  | .mnemonicOp op imm k debug =>
    instructionJson op.name [("imm", .string imm), ("k", k.toJson)] debug
  | .finish imm debug => instructionJson "end" [("imm", .string imm)] debug

end Node

end ActorAsm
