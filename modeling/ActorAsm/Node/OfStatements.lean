import ActorAsm.Node.OfValue

/-!
The node of a chain of statements. Statements are taken front to back, each one left as a link
that waits for its continuation, and the links are then closed from the back.
-/

namespace ActorAsm

/-- A node without its continuation. -/
inductive Link where
  | pair (head : Node) (debug : Debug)
  | dict (key value : Node) (debug : Debug)
  | typeq (imm : TypeTag) (debug : Debug)
  | fixnumOp (op : FixnumOp) (imm : Int) (debug : Debug)
  | exprOp (op : ExprOp) (imm : Node) (debug : Debug)
  | depth (debug : Debug)
  | branch (target : Node) (negated : Bool) (debug : Debug)
  | mnemonicOp (op : MnemonicOp) (imm : String) (debug : Debug)

namespace Link

/-- Give a link its continuation. A conditional jump goes to its target when the condition holds,
a negated one when it does not. -/
def close (k : Node) : Link → Node
  | .pair head debug => .pair head k debug
  | .dict key value debug => .dict key value k debug
  | .typeq imm debug => .typeq imm k debug
  | .fixnumOp op imm debug => .fixnumOp op imm k debug
  | .exprOp op imm debug => .exprOp op imm k debug
  | .depth debug => .depth k debug
  | .branch target false debug => .branch target k debug
  | .branch target true debug => .branch k target debug
  | .mnemonicOp op imm debug => .mnemonicOp op imm k debug

end Link

/-- What one statement gives: the end of the chain, or a link, the operand it continues with if it
has one, and what is demanded of the continuation. -/
inductive Stage where
  | complete (node : Node)
  | partway (link : Link) (continuation : Option Value) (demand : Demand)

/-- A chain with its node. The length is one more than the number of its links. -/
structure Chain where
  node : Node
  length : Nat

open Failure (raise)

/-- Judge the number of operands. An operator that does not continue must be the last one. -/
def Statement.checkOperands (s : Statement) (op : Operator) (following : List Statement) :
    Except Failure Unit :=
  if s.operands.length < op.required then raise .tooFewOperands s.operator
  else
    match s.operands[op.limit]? with
    | some excess => raise .unexpectedOperand excess.token
    | none =>
      match following with
      | next :: _ => if op.continues then .ok () else raise .unexpectedAfterTerminal next.operator
      | [] => .ok ()

namespace Stage

open Node (ofType ofFixnum ofReference ofExpression ofContinuation ofMnemonic)

/-- The stage of a known operator with enough operands. -/
def ofOperator (scope : Scope) (demand : Demand) (s : Statement) (op : Operator) :
    Recording Stage :=
  let debug := scope.debug s.operator
  let continuation := s.operands[op.required]?
  match op, s.operands with
  | .pair, head :: _ => do
    let head ← ofExpression scope head
    return .partway (.pair head debug) continuation .anything
  | .dict, key :: value :: _ => do
    let key ← ofExpression scope key
    let value ← ofExpression scope value
    return .partway (.dict key value debug) continuation .anything
  | .ref, value :: _ => do
    return .complete (← ofContinuation scope demand value)
  | .typeq, imm :: _ => do
    return .partway (.typeq (← ofType imm) debug) continuation .instruction
  | .fixnum op, imm :: _ => do
    return .partway (.fixnumOp op (← ofFixnum imm) debug) continuation .instruction
  | .expr op, imm :: _ => do
    return .partway (.exprOp op (← ofExpression scope imm) debug) continuation .instruction
  | .depth, _ => return .partway (.depth debug) continuation .instruction
  | .branch negated, target :: _ => do
    let target ← ofReference scope .instruction target
    return .partway (.branch target negated debug) continuation .instruction
  | .mnemonic op, imm :: _ => do
    return .partway (.mnemonicOp op (← ofMnemonic op.mnemonics imm) debug) continuation
      .instruction
  | .finish, imm :: _ => do
    return .complete (.finish (← ofMnemonic endMnemonics imm) debug)
  | _, _ => raise .tooFewOperands s.operator

/-- The stage of a statement. The operator is judged first, then the number of operands, and only
then the operands themselves. -/
def ofStatement (scope : Scope) (demand : Demand) (s : Statement) (following : List Statement) :
    Recording Stage :=
  match Operator.ofName? s.operator.text with
  | none => raise .badOp s.operator
  | some op =>
    if demand = .instruction ∧ op.isData then raise .expectedInstruction s.operator
    else do
      s.checkOperands op following
      ofOperator scope demand s op

end Stage

namespace Chain

/-- Close links, the last one first, around the end of the chain. -/
def close (links : List Link) (last : Node) : Node := links.foldl Link.close last

/-- The chain of a statement and those behind it, with the links so far, the last one first. The
continuation comes from an operand or from the next statement, never from both. -/
def ofStatements (scope : Scope) (demand : Demand) (s : Statement) :
    List Statement → List Link → Recording Chain
  | [], links => do
    match ← Stage.ofStatement scope demand s [] with
    | .complete node => return ⟨close links node, links.length + 1⟩
    | .partway link (some value) demand =>
      let last ← Node.ofContinuation scope demand value
      return ⟨close (link :: links) last, (link :: links).length + 1⟩
    | .partway _ none _ => raise .missingContinuation s.operator
  | next :: rest, links => do
    match ← Stage.ofStatement scope demand s (next :: rest) with
    | .complete node => return ⟨close links node, links.length + 1⟩
    | .partway _ (some _) _ => raise .unexpectedStatement next.operator
    | .partway link none demand => ofStatements scope demand next rest (link :: links)

/-- The chain of a definition. It may begin with data. -/
def ofDefinition (scope : Scope) (d : Definition) : Recording Chain :=
  ofStatements scope .anything d.statement d.following []

end Chain

end ActorAsm
