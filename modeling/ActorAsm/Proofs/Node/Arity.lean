import ActorAsm.Proofs.Node.Blame

/-! The number of operands. It is judged before the operands are, and by nothing but the count, so
that every required operand is there when it is taken. A chain fails for a wrong number exactly at
the first statement that has one, if the statements in front of it are in order. -/

namespace ActorAsm

/-- Faults in the number of operands, or in what is behind an operator that must be the last one. -/
def Fault.ofArity : List Fault := [.tooFewOperands, .unexpectedOperand, .unexpectedAfterTerminal]

private theorem Place.Flaw.not_ofArity {m : Module} {place : Place} {value : Value} {fault : Fault}
    {token : Token} (h : place.Flaw m value fault token) : fault ∉ Fault.ofArity := by
  cases h <;> decide

namespace Statement
variable {s : Statement} {op : Operator} {following : List Statement}

/-- What is wrong with the number of operands, and at which token: the operator that has too few, the
first operand that is too many, or the operator of the statement that must not be there. -/
inductive Miscounted (s : Statement) (op : Operator) : List Statement → Fault → Token → Prop where
  | tooFew {following : List Statement} : s.operands.length < op.required →
      Miscounted s op following .tooFewOperands s.operator
  | tooMany {following : List Statement} {excess : Value} : s.operands[op.limit]? = some excess →
      Miscounted s op following .unexpectedOperand excess.token
  | behindTerminal {next : Statement} {rest : List Statement} :
      op.required ≤ s.operands.length → s.operands.length ≤ op.limit → op.continues = false →
      Miscounted s op (next :: rest) .unexpectedAfterTerminal next.operator

private theorem Miscounted.mem_ofArity {fault : Fault} {token : Token}
    (h : s.Miscounted op following fault token) : fault ∈ Fault.ofArity := by
  cases h <;> decide

private theorem checkOperands_of_miscounted {fault : Fault} {token : Token}
    (h : s.Miscounted op following fault token) :
    s.checkOperands op following = .error (.onToken fault token) := by
  cases h with
  | tooFew hfew => exact if_pos hfew
  | tooMany hexcess =>
    obtain ⟨hlength, -⟩ := List.getElem?_eq_some_iff.mp hexcess
    have henough : ¬ s.operands.length < op.required := by
      rw [Operator.limit] at hlength
      omega
    unfold checkOperands
    rw [if_neg henough, hexcess]
    rfl
  | behindTerminal hge hle hends =>
    unfold checkOperands
    rw [if_neg (Nat.not_lt.mpr hge), List.getElem?_eq_none hle, hends]
    rfl

/-- Nothing else is refused. -/
theorem exists_miscounted_of_checkOperands {failure : Failure}
    (h : s.checkOperands op following = .error failure) :
    ∃ fault token, failure = .onToken fault token ∧ s.Miscounted op following fault token := by
  unfold checkOperands at h
  split at h
  next hfew =>
    cases h
    exact ⟨_, _, rfl, .tooFew hfew⟩
  next henough =>
    split at h
    next excess hexcess =>
      cases h
      exact ⟨_, _, rfl, .tooMany hexcess⟩
    next hnone =>
      split at h
      next next rest =>
        split at h
        · cases h
        next hends =>
          cases h
          exact ⟨_, _, rfl, .behindTerminal (Nat.not_lt.mp henough)
            (List.getElem?_eq_none_iff.mp hnone) (Bool.not_eq_true _ ▸ hends)⟩
      · cases h

/-- A required operand. It is there if there are enough of them. -/
def operand (s : Statement) (h : op.required ≤ s.operands.length) (i : Fin op.required) : Value :=
  s.operands.get ⟨i, Nat.lt_of_lt_of_le i.isLt h⟩

end Statement

namespace Stage
variable {m : Module} {file : String} {scope : Scope} {demand : Demand} {s : Statement}
  {op : Operator} {following : List Statement}

open Node (ofType ofFixnum ofReference ofExpression ofContinuation ofMnemonic)
open Recording

/-- The stage of an operator that has enough operands. Each of them is taken from its place, and none
is looked for. -/
def ofOperands (scope : Scope) (demand : Demand) (s : Statement) (op : Operator)
    (h : op.required ≤ s.operands.length) : Recording Stage :=
  let debug := scope.debug s.operator
  let continuation := s.operands[op.required]?
  match op, h with
  | .pair, h => do
    let head ← ofExpression scope (s.operand h ⟨0, by decide⟩)
    return .partway (.pair head debug) continuation .anything
  | .dict, h => do
    let key ← ofExpression scope (s.operand h ⟨0, by decide⟩)
    let value ← ofExpression scope (s.operand h ⟨1, by decide⟩)
    return .partway (.dict key value debug) continuation .anything
  | .ref, h => do
    return .complete (← ofContinuation scope demand (s.operand h ⟨0, by decide⟩))
  | .typeq, h => do
    return .partway (.typeq (← ofType (s.operand h ⟨0, by decide⟩)) debug) continuation
      .instruction
  | .fixnum op, h => do
    return .partway (.fixnumOp op (← ofFixnum (s.operand h ⟨0, Nat.one_pos⟩)) debug) continuation
      .instruction
  | .expr op, h => do
    let imm ← ofExpression scope (s.operand h ⟨0, Nat.one_pos⟩)
    return .partway (.exprOp op imm debug) continuation .instruction
  | .depth, _ => return .partway (.depth debug) continuation .instruction
  | .branch negated, h => do
    let target ← ofReference scope .instruction (s.operand h ⟨0, Nat.one_pos⟩)
    return .partway (.branch target negated debug) continuation .instruction
  | .mnemonic op, h => do
    let imm ← ofMnemonic op.mnemonics (s.operand h ⟨0, Nat.one_pos⟩)
    return .partway (.mnemonicOp op imm debug) continuation .instruction
  | .finish, h => do
    return .complete (.finish (← ofMnemonic endMnemonics (s.operand h ⟨0, by decide⟩)) debug)

private theorem ofOperator_eq_ofOperands (h : op.required ≤ s.operands.length) :
    ofOperator scope demand s op = ofOperands scope demand s op h := by
  obtain ⟨operator, operands⟩ := s
  cases op with
  | depth => rfl
  | dict =>
    obtain ⟨key, value, rest, rfl⟩ := exists_cons_cons h
    rfl
  | _ =>
    obtain ⟨imm, rest, rfl⟩ := List.exists_cons_of_length_pos h
    rfl

/-- Whatever is wrong with an operand, it is not how many there are. -/
theorem ofOperands_blames (h : op.required ≤ s.operands.length) :
    (ofOperands (Scope.ofModule m file) demand s op h).Blames
      fun fault _ => fault ∉ Fault.ofArity := by
  have hflaw {place : Place} {value : Value} (fault : Fault) (token : Token)
      (h : place.Flaw m value fault token) : fault ∉ Fault.ofArity := h.not_ofArity
  cases op with
  | depth => exact blames_pure _
  | ref => exact (Node.ofContinuation_blames.mono hflaw).bind_pure _
  | pair | expr => exact (Node.ofExpression_blames.mono hflaw).bind_pure _
  | dict =>
    exact (Node.ofExpression_blames.mono hflaw).bind fun _ _ _ _ =>
      (Node.ofExpression_blames.mono hflaw).bind_pure _
  | typeq =>
    exact ((blames_lift fun _ => Node.blames_of_ofType (m := m)).mono hflaw).bind_pure _
  | fixnum =>
    exact ((blames_lift fun _ => Node.blames_of_ofFixnum (m := m)).mono hflaw).bind_pure _
  | mnemonic | finish =>
    exact ((blames_lift fun _ => Node.blames_of_ofMnemonic (m := m)).mono hflaw).bind_pure _
  | branch => exact (Node.ofReference_blames.mono hflaw).bind_pure _

private theorem ofStatement_of_unknown (hop : s.operation? = none) :
    ofStatement scope demand s following = Failure.raise .badOp s.operator := by
  have hname : Operator.ofName? s.operator.text = none := hop
  simp only [ofStatement, hname]

private theorem ofStatement_of_data (hop : s.operation? = some op)
    (hdata : demand = .instruction ∧ op.isData) :
    ofStatement scope demand s following = Failure.raise .expectedInstruction s.operator := by
  have hname : Operator.ofName? s.operator.text = some op := hop
  simp only [ofStatement, hname, if_pos hdata]

/-- Any other known operator is counted first. -/
theorem ofStatement_eq_counted (hop : s.operation? = some op)
    (hdata : ¬ (demand = .instruction ∧ op.isData)) :
    ofStatement scope demand s following = (do
      s.checkOperands op following
      ofOperator scope demand s op) := by
  have hname : Operator.ofName? s.operator.text = some op := hop
  simp only [ofStatement, hname, if_neg hdata]

private theorem ofStatement_of_miscounted (hop : s.operation? = some op)
    (hdata : ¬ (demand = .instruction ∧ op.isData)) {fault : Fault} {token : Token}
    (h : s.Miscounted op following fault token) :
    ofStatement scope demand s following = Failure.raise fault token := by
  rw [ofStatement_eq_counted hop hdata, Statement.checkOperands_of_miscounted h]
  rfl

/-- With nothing wrong in the number, all required operands are there. -/
theorem ofStatement_eq_ofOperands (scope : Scope) (hop : s.operation? = some op)
    (hdata : ¬ (demand = .instruction ∧ op.isData))
    (h : ∀ fault token, ¬ s.Miscounted op following fault token) :
    ∃ henough : op.required ≤ s.operands.length,
      ofStatement scope demand s following = ofOperands scope demand s op henough := by
  have henough : op.required ≤ s.operands.length := Nat.not_lt.mp fun hfew => h _ _ (.tooFew hfew)
  have hcheck : s.checkOperands op following = .ok () := by
    cases hresult : s.checkOperands op following with
    | ok => rfl
    | error failure =>
      obtain ⟨fault, token, -, hwrong⟩ := Statement.exists_miscounted_of_checkOperands hresult
      exact absurd hwrong (h fault token)
  refine ⟨henough, ?_⟩
  rw [ofStatement_eq_counted hop hdata, hcheck, ofOperator_eq_ofOperands henough]
  rfl

end Stage

/-- A turn of the loop over a chain: the statement it has come to with those behind it, what is
demanded of it, and the names recorded so far. -/
structure Turn where
  demand : Demand
  statement : Statement
  following : List Statement
  recorded : Array Token

namespace Turn
variable {scope : Scope} {turn turn' : Turn} {links : List Link} {failure : Failure}

/-- The stage of the statement, or its failure. -/
def stage (scope : Scope) (turn : Turn) : Except Failure (Stage × Array Token) :=
  (Stage.ofStatement scope turn.demand turn.statement turn.following).run turn.recorded

/-- The chain that begins here behind these links, or its failure. -/
def chain (scope : Scope) (links : List Link) (turn : Turn) :
    Except Failure (Chain × Array Token) :=
  (Chain.ofStatements scope turn.demand turn.statement turn.following links).run turn.recorded

/-- The loop comes to the next statement if this one leaves a link and has no operand to go on
with. -/
def next? (scope : Scope) (turn : Turn) : Option Turn :=
  match turn.stage scope, turn.following with
  | .ok (.partway _ none demand, recorded), next :: rest => some ⟨demand, next, rest, recorded⟩
  | _, _ => none

/-- The loop comes to a statement after any number of turns. -/
def Reaches (scope : Scope) : Turn → Turn → Prop :=
  Relation.ReflTransGen fun turn turn' => turn.next? scope = some turn'

/-- What the loop makes of a stage: the end of the chain, a failure, or the chain that goes on with
the operand or with the next statement. -/
def goOn (scope : Scope) (links : List Link) (turn : Turn) : Stage → Recording Chain
  | .complete node => pure ⟨Chain.close links node, links.length + 1⟩
  | .partway link continuation demand =>
    match continuation, turn.following with
    | some value, [] => do
      let last ← Node.ofContinuation scope demand value
      return ⟨Chain.close (link :: links) last, (link :: links).length + 1⟩
    | none, [] => Failure.raise .missingContinuation turn.statement.operator
    | some _, next :: _ => Failure.raise .unexpectedStatement next.operator
    | none, next :: rest => Chain.ofStatements scope demand next rest (link :: links)

private theorem chain_eq_bind :
    turn.chain scope links = turn.stage scope >>= fun (stage, recorded) =>
      (turn.goOn scope links stage).run recorded := by
  obtain ⟨demand, s, following, recorded⟩ := turn
  cases following with
  | nil | cons =>
    rw [chain, Chain.ofStatements, StateT.run_bind]
    refine bind_congr fun (stage, recorded) => ?_
    cases stage with
    | complete node => rfl
    | partway link continuation demand => cases continuation <;> rfl

private theorem chain_of_stage (h : turn.stage scope = .error failure) :
    turn.chain scope links = .error failure := by
  rw [chain_eq_bind, h]
  rfl

/-- One turn puts a link in front and leaves the chain as it is. -/
theorem chain_of_next? (h : turn.next? scope = some turn') :
    ∃ link, ∀ links, turn.chain scope links = turn'.chain scope (link :: links) := by
  obtain ⟨demand, s, following, recorded⟩ := turn
  unfold next? at h
  split at h
  next link demand' recorded' next rest hstage hfollowing =>
    cases h
    obtain rfl : following = next :: rest := hfollowing
    refine ⟨link, fun links => ?_⟩
    rw [chain_eq_bind, hstage]
    rfl
  · cases h

/-- So the chain ends as it does from any statement that the loop comes to. -/
theorem Reaches.exists_chain_eq (h : turn.Reaches scope turn') (links : List Link) :
    ∃ links', turn.chain scope links = turn'.chain scope links' := by
  induction h with
  | refl => exact ⟨links, rfl⟩
  | tail _ hnext ih =>
    obtain ⟨links', hchain⟩ := ih
    obtain ⟨link, hlink⟩ := chain_of_next? hnext
    exact ⟨link :: links', hchain.trans (hlink links')⟩

end Turn

namespace Turn
variable {m : Module} {file : String} {turn turn' : Turn} {links : List Link} {stage : Stage}
  {recorded : Array Token} {failure : Failure}

private theorem following_of_next? {scope : Scope} (h : turn.next? scope = some turn') :
    turn.following = turn'.statement :: turn'.following := by
  unfold next? at h
  split at h
  next hfollowing =>
    cases h
    exact hfollowing
  · cases h

private theorem exists_next?_of_goOn
    (hstage : turn.stage (Scope.ofModule m file) = .ok (stage, recorded))
    (h : (turn.goOn (Scope.ofModule m file) links stage).run recorded = .error failure)
    (hfault : failure.fault ∈ Fault.ofArity) :
    ∃ turn' links', turn.next? (Scope.ofModule m file) = some turn' ∧
      turn'.chain (Scope.ofModule m file) links' = .error failure := by
  obtain ⟨demand, s, following, _⟩ := turn
  cases stage with
  | complete node => cases h
  | partway link continuation demand' =>
    cases following with
    | nil =>
      cases continuation with
      | none =>
        cases h
        exact absurd hfault (show Fault.missingContinuation ∉ Fault.ofArity by decide)
      | some value =>
        have hvalue : (Node.ofContinuation (Scope.ofModule m file) demand' value).Blames
            (demand'.place.Flaw m value) := Node.ofContinuation_blames
        obtain ⟨fault, token, rfl, hflaw⟩ := hvalue.bind_pure
          (fun last => (⟨Chain.close (link :: links) last, (link :: links).length + 1⟩ : Chain))
          recorded failure h
        exact absurd hfault hflaw.not_ofArity
    | cons next rest =>
      cases continuation with
      | some value =>
        cases h
        exact absurd hfault (show Fault.unexpectedStatement ∉ Fault.ofArity by decide)
      | none => exact ⟨⟨demand', next, rest, recorded⟩, link :: links, by rw [next?, hstage], h⟩

private theorem stage_or_next?_of_chain
    (h : turn.chain (Scope.ofModule m file) links = .error failure)
    (hfault : failure.fault ∈ Fault.ofArity) :
    turn.stage (Scope.ofModule m file) = .error failure ∨
      ∃ turn' links', turn.next? (Scope.ofModule m file) = some turn' ∧
        turn'.chain (Scope.ofModule m file) links' = .error failure := by
  rw [chain_eq_bind] at h
  cases hstage : turn.stage (Scope.ofModule m file) with
  | error found =>
    rw [hstage] at h
    cases h
    exact .inl rfl
  | ok result =>
    rw [hstage] at h
    exact .inr (exists_next?_of_goOn hstage h hfault)

/-- A wrong number is found by some turn of the loop. The induction is on the statements behind the
first one. -/
theorem exists_reaches_of_chain (h : turn.chain (Scope.ofModule m file) links = .error failure)
    (hfault : failure.fault ∈ Fault.ofArity) :
    ∃ turn', turn.Reaches (Scope.ofModule m file) turn' ∧
      turn'.stage (Scope.ofModule m file) = .error failure := by
  induction hbehind : turn.following generalizing turn links with
  | nil =>
    rcases stage_or_next?_of_chain h hfault with hstage | ⟨turn', links', hnext, -⟩
    · exact ⟨turn, .refl, hstage⟩
    · cases hbehind.symm.trans (following_of_next? hnext)
  | cons next rest ih =>
    rcases stage_or_next?_of_chain h hfault with hstage | ⟨turn', links', hnext, hchain⟩
    · exact ⟨turn, .refl, hstage⟩
    · cases hbehind.symm.trans (following_of_next? hnext)
      obtain ⟨last, hreaches, hlast⟩ := ih hchain rfl
      exact ⟨last, hreaches.head hnext, hlast⟩

/-- Where the operator may stand, a turn finds a wrong number exactly if there is one. -/
theorem stage_eq_error_iff {op : Operator} (hop : turn.statement.operation? = some op)
    (hdata : ¬ (turn.demand = .instruction ∧ op.isData)) (hfault : failure.fault ∈ Fault.ofArity) :
    turn.stage (Scope.ofModule m file) = .error failure ↔ ∃ fault token,
      failure = .onToken fault token ∧
        turn.statement.Miscounted op turn.following fault token := by
  constructor
  · intro h
    by_cases hwrong : ∃ fault token, turn.statement.Miscounted op turn.following fault token
    · obtain ⟨fault, token, hwrong⟩ := hwrong
      rw [stage, Stage.ofStatement_of_miscounted hop hdata hwrong] at h
      cases h
      exact ⟨fault, token, rfl, hwrong⟩
    · obtain ⟨henough, heq⟩ := Stage.ofStatement_eq_ofOperands (Scope.ofModule m file) hop hdata
        fun fault token h => hwrong ⟨fault, token, h⟩
      rw [stage, heq] at h
      obtain ⟨fault, token, rfl, hother⟩ := Stage.ofOperands_blames henough _ _ h
      exact absurd hfault hother
  · rintro ⟨fault, token, rfl, hwrong⟩
    rw [stage, Stage.ofStatement_of_miscounted hop hdata hwrong]
    rfl

/-- The operator is judged first, then the number of operands, whatever the operands are, and only
then the operands, all of which are there. The first turn that fails decides about the chain, and
for a wrong number the chain fails in no other way. -/
theorem arity_judged_first (m : Module) (file : String) :
    (∀ turn : Turn,
      (turn.statement.operation? = none → turn.stage (Scope.ofModule m file) =
        .error (.onToken .badOp turn.statement.operator)) ∧
      ∀ op, turn.statement.operation? = some op →
        (turn.demand = .instruction ∧ op.isData → turn.stage (Scope.ofModule m file) =
          .error (.onToken .expectedInstruction turn.statement.operator)) ∧
        (¬ (turn.demand = .instruction ∧ op.isData) →
          (∀ failure : Failure, failure.fault ∈ Fault.ofArity →
            (turn.stage (Scope.ofModule m file) = .error failure ↔ ∃ fault token,
              failure = .onToken fault token ∧
                turn.statement.Miscounted op turn.following fault token)) ∧
          ((∀ fault token, ¬ turn.statement.Miscounted op turn.following fault token) →
            ∃ henough : op.required ≤ turn.statement.operands.length,
              turn.stage (Scope.ofModule m file) = (Stage.ofOperands (Scope.ofModule m file)
                turn.demand turn.statement op henough).run turn.recorded))) ∧
    ∀ (start : Turn) (links : List Link) (failure : Failure),
      (∀ turn, start.Reaches (Scope.ofModule m file) turn →
        turn.stage (Scope.ofModule m file) = .error failure →
        start.chain (Scope.ofModule m file) links = .error failure) ∧
      (start.chain (Scope.ofModule m file) links = .error failure →
        failure.fault ∈ Fault.ofArity → ∃ turn, start.Reaches (Scope.ofModule m file) turn ∧
          turn.stage (Scope.ofModule m file) = .error failure) := by
  refine ⟨fun turn => ⟨fun hop => ?_, fun op hop => ⟨fun hdata => ?_, fun hdata => ⟨?_, ?_⟩⟩⟩,
    fun start links failure => ⟨fun turn hreaches hstage => ?_, exists_reaches_of_chain⟩⟩
  · rw [stage, Stage.ofStatement_of_unknown hop]
    rfl
  · rw [stage, Stage.ofStatement_of_data hop hdata]
    rfl
  · exact fun failure => stage_eq_error_iff hop hdata
  · intro hcounted
    obtain ⟨henough, heq⟩ := Stage.ofStatement_eq_ofOperands (Scope.ofModule m file) hop hdata
      hcounted
    exact ⟨henough, by rw [stage, heq]⟩
  · obtain ⟨links', hchain⟩ := hreaches.exists_chain_eq links
    rw [hchain, chain_of_stage hstage]

private def overlong : Turn where
  demand := .anything
  statement := ⟨.named 1 "depth", []⟩
  following := [
    ⟨.named 2 "end", [.named 2 "never"]⟩,
    ⟨.named 3 "pair_t", []⟩]
  recorded := #[]

private def terminal : Turn where
  demand := .instruction
  statement := ⟨.named 2 "end", [.named 2 "never"]⟩
  following := [⟨.named 3 "pair_t", []⟩]
  recorded := #[]

/-- A chain with a statement behind the instruction that should have ended it. -/
theorem arity_judged_first_overlong : ∃ turn,
    overlong.Reaches (Scope.ofModule ⟨[], [], []⟩ "overlong") turn ∧
      turn.statement.Miscounted .finish turn.following .unexpectedAfterTerminal
        (.named 3 "pair_t") ∧
      turn.stage (Scope.ofModule ⟨[], [], []⟩ "overlong") =
        .error (.onToken .unexpectedAfterTerminal (.named 3 "pair_t")) ∧
      overlong.chain (Scope.ofModule ⟨[], [], []⟩ "overlong") [] =
        .error (.onToken .unexpectedAfterTerminal (.named 3 "pair_t")) := by
  obtain ⟨hturn, hchain⟩ := arity_judged_first ⟨[], [], []⟩ "overlong"
  have hreaches : overlong.Reaches (Scope.ofModule ⟨[], [], []⟩ "overlong") terminal :=
    .single rfl
  have hop : terminal.statement.operation? = some .finish := by decide
  have hwrong : terminal.statement.Miscounted .finish terminal.following .unexpectedAfterTerminal
      (.named 3 "pair_t") := .behindTerminal (by decide) (by decide) rfl
  have hstage := (((hturn terminal).2 _ hop).2 (by decide)).1
    (.onToken .unexpectedAfterTerminal (.named 3 "pair_t")) hwrong.mem_ofArity |>.mpr
      ⟨_, _, rfl, hwrong⟩
  exact ⟨terminal, hreaches, hwrong, hstage, (hchain overlong [] _).1 terminal hreaches hstage⟩

end Turn

end ActorAsm
