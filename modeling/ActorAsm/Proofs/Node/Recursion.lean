import ActorAsm.Node.OfStatements

/-! Chains without links. A statement stands for a node around the node of what it goes on with, so
the node of a chain can be told by recursion, from the front. Collecting links and closing them from
the back comes to the same. -/

namespace ActorAsm

namespace Node

open Failure (raise)

/-- The node of a known operator with enough operands. It goes on with what `behind` makes of the
demand on it; where nothing goes on, `behind` is not asked. -/
def ofOperator (scope : Scope) (demand : Demand) (s : Statement) (behind : Demand → Recording Node)
    (op : Operator) : Recording Node :=
  let debug := scope.debug s.operator
  match op, s.operands with
  | .pair, head :: _ => do
    let head ← ofExpression scope head
    return .pair head (← behind .anything) debug
  | .dict, key :: value :: _ => do
    let key ← ofExpression scope key
    let value ← ofExpression scope value
    return .dict key value (← behind .anything) debug
  | .ref, value :: _ => ofContinuation scope demand value
  | .typeq, imm :: _ => do
    let imm ← ofType imm
    return .typeq imm (← behind .instruction) debug
  | .fixnum op, imm :: _ => do
    let imm ← ofFixnum imm
    return .fixnumOp op imm (← behind .instruction) debug
  | .expr op, imm :: _ => do
    let imm ← ofExpression scope imm
    return .exprOp op imm (← behind .instruction) debug
  | .depth, _ => return .depth (← behind .instruction) debug
  | .branch negated, target :: _ => do
    let target ← ofReference scope .instruction target
    let k ← behind .instruction
    return if negated then .branch k target debug else .branch target k debug
  | .mnemonic op, imm :: _ => do
    let imm ← ofMnemonic op.mnemonics imm
    return .mnemonicOp op imm (← behind .instruction) debug
  | .finish, imm :: _ => return .finish (← ofMnemonic endMnemonics imm) debug
  | _, _ => raise .tooFewOperands s.operator

/-- The node of a statement and those behind it. The statement is judged before its operands are,
and its operands before anything behind it is. -/
def ofStatements (scope : Scope) (demand : Demand) (s : Statement) (following : List Statement) :
    Recording Node :=
  match Operator.ofName? s.operator.text with
  | none => raise .badOp s.operator
  | some op =>
    if demand = .instruction ∧ op.isData then raise .expectedInstruction s.operator
    else do
      s.checkOperands op following
      let behind (demand : Demand) : Recording Node :=
        match s.operands[op.required]?, following with
        | some value, [] => ofContinuation scope demand value
        | some _, next :: _ => raise .unexpectedStatement next.operator
        | none, next :: rest => ofStatements scope demand next rest
        | none, [] => raise .missingContinuation s.operator
      ofOperator scope demand s behind op

end Node

namespace Stage
variable {scope : Scope} {demand : Demand} {s : Statement} {op : Operator}
  {behind : Option Value → Demand → Recording Node}

/-- The node of a stage, its link closed around what `behind` makes of the operand it continues
with, if it has one, and of the demand on it. -/
def finish (behind : Option Value → Demand → Recording Node) : Stage → Recording Node
  | .complete node => pure node
  | .partway link continuation demand => (link.close ·) <$> behind continuation demand

/-- Operator by operator, the recursion makes the node that the link is closed to. -/
theorem ofOperator_finish :
    ofOperator scope demand s op >>= finish behind =
      Node.ofOperator scope demand s (behind s.operands[op.required]?) op := by
  obtain ⟨operator, operands⟩ := s
  cases op with
  | depth => simp [ofOperator, Node.ofOperator, finish, Link.close]
  | dict =>
    rcases operands with - | ⟨key, - | ⟨value, rest⟩⟩
    · rfl
    · rfl
    · simp [ofOperator, Node.ofOperator, finish, Link.close]
  | branch negated =>
    rcases operands with - | ⟨target, rest⟩
    · rfl
    · cases negated <;> simp [ofOperator, Node.ofOperator, finish, Link.close]
  | _ =>
    rcases operands with - | ⟨imm, rest⟩
    · rfl
    · simp [ofOperator, Node.ofOperator, finish, Link.close]

end Stage

section Recursion
open Failure (raise)
variable {scope : Scope} {demand : Demand} {s : Statement} {following : List Statement}

namespace Node

/-- What a statement goes on with: the operand behind the required ones, or else the statement
behind it. -/
def behind (scope : Scope) (s : Statement) (following : List Statement)
    (continuation : Option Value) (demand : Demand) : Recording Node :=
  match continuation, following with
  | some value, [] => ofContinuation scope demand value
  | some _, next :: _ => raise .unexpectedStatement next.operator
  | none, next :: rest => ofStatements scope demand next rest
  | none, [] => raise .missingContinuation s.operator

/-- The recursion goes through the same stages as the loop, each one finished with the node of what
is behind it. -/
theorem ofStatements_eq_finish :
    ofStatements scope demand s following =
      Stage.ofStatement scope demand s following >>= Stage.finish (behind scope s following) := by
  rw [ofStatements.eq_def, Stage.ofStatement]
  cases Operator.ofName? s.operator.text with
  | none => rfl
  | some op =>
    dsimp only
    split
    · rfl
    · rw [bind_assoc, Stage.ofOperator_finish]
      rfl

end Node

namespace Chain

private theorem map_close_cons (link : Link) (links : List Link) (x : Recording Node) :
    close (link :: links) <$> x = close links <$> (link.close ·) <$> x :=
  (Functor.map_map (link.close ·) (close links) x).symm

/-- The links so far are closed around the node that the recursion makes of the rest. The induction
moves one link after another from the front of the statements to these links. -/
theorem node_ofStatements (links : List Link) :
    node <$> ofStatements scope demand s following links =
      close links <$> Node.ofStatements scope demand s following := by
  induction following generalizing demand s links with
  | nil =>
    rw [Node.ofStatements_eq_finish, ofStatements, map_bind, map_bind]
    refine bind_congr fun stage => ?_
    cases stage with
    | complete node => rfl
    | partway link continuation demand =>
      cases continuation with
      | none => rfl
      | some value =>
        rw [map_bind]
        exact map_close_cons link links (Node.ofContinuation scope demand value)
  | cons next rest ih =>
    rw [Node.ofStatements_eq_finish, ofStatements, map_bind, map_bind]
    refine bind_congr fun stage => ?_
    cases stage with
    | complete node => rfl
    | partway link continuation demand =>
      cases continuation with
      | none =>
        exact (ih (link :: links)).trans (map_close_cons link links _)
      | some value => rfl

/-- Collecting links from front to back and closing them from the back gives the node that the
recursion gives, and the same names are recorded in the same order; or both fail at the same token
for the same fault. -/
theorem ofStatements_eq_recursion (scope : Scope) (demand : Demand) (s : Statement)
    (following : List Statement) (recorded : Array Token) :
    ((ofStatements scope demand s following []).run recorded).map
        (fun (chain, names) => (chain.node, names)) =
      (Node.ofStatements scope demand s following).run recorded := by
  have h : node <$> ofStatements scope demand s following [] =
      Node.ofStatements scope demand s following := (node_ofStatements []).trans (id_map _)
  exact congrArg (StateT.run · recorded) h

end Chain

end Recursion

end ActorAsm
