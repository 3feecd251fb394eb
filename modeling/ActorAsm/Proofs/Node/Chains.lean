import ActorAsm.Node.OfStatements
import ActorAsm.Proofs.Node.Operands

/-! What chains of statements stand for. Making a chain succeeds exactly when its statements are
well formed one by one; the node and the names recorded are functions of the statements. -/

namespace ActorAsm

/-- What is demanded behind a statement: once an instruction has come, instructions for good. -/
def Demand.behind (demand : Demand) (s : Statement) : Demand :=
  if s.isInstruction then .instruction else demand

theorem Demand.behind_of_ref {demand : Demand} {s : Statement} (hop : s.operation? = some .ref) :
    demand.behind s = demand := by
  rw [Demand.behind, Statement.isInstruction, hop]
  rfl

namespace Statement

/-- The link that a statement leaves. It means nothing for statements that leave none. -/
def link (file : String) (s : Statement) : Link :=
  let debug : Debug := ⟨file, s.operator.line⟩
  match s.operation?, s.operands with
  | some .pair, head :: _ => .pair (head.node file) debug
  | some .dict, key :: value :: _ => .dict (key.node file) (value.node file) debug
  | some .typeq, imm :: _ => .typeq imm.typeTag debug
  | some (.fixnum op), imm :: _ => .fixnumOp op imm.fixnum debug
  | some (.expr op), imm :: _ => .exprOp op (imm.node file) debug
  | some (.branch negated), target :: _ => .branch (target.node file) negated debug
  | some (.mnemonic op), imm :: _ => .mnemonicOp op imm.token.text debug
  | _, _ => .depth debug

/-- What the last statement of a chain stands for. -/
def endNode (file : String) (s : Statement) : Node :=
  match s.operation?, s.operands, s.continuation? with
  | some .finish, imm :: _, _ => .finish imm.token.text ⟨file, s.operator.line⟩
  | _, _, none => .literal .undef
  | some .ref, _, some value => value.node file
  | _, _, some value => (s.link file).close (value.node file)

/-- How far the last statement of a chain is counted: with an operand to go on with, twice. -/
def endLength (s : Statement) : Nat := if s.operation?.any Operator.continues then 2 else 1

/-- Data have no place where an instruction is demanded. -/
def Admissible (demand : Demand) (s : Statement) : Prop := demand = .instruction → ¬ s.isData

theorem Admissible.demand_eq {demand : Demand} {s : Statement} (h : s.Admissible demand)
    (hdata : s.isData) : demand = .anything := by
  cases demand with
  | anything => rfl
  | instruction => exact absurd hdata (h rfl)

end Statement

namespace Chain

/-- The node of a statement and those behind it. -/
def nodeOf (file : String) : Statement → List Statement → Node
  | s, [] => s.endNode file
  | s, next :: rest => (s.link file).close (nodeOf file next rest)

/-- The length of the chain of a statement and those behind it. -/
def lengthOf (s : Statement) (following : List Statement) : Nat :=
  following.length + ((s :: following).getLast (List.cons_ne_nil _ _)).endLength

/-- The names recorded for a statement and those behind it. -/
def namesOf : Demand → Statement → List Statement → List Token
  | demand, s, [] =>
    s.branchNames ++ s.continuation?.toList.flatMap (Value.recorded (demand.behind s))
  | demand, s, next :: rest => s.branchNames ++ namesOf (demand.behind s) next rest

/-- Statements of which each can be generated where it stands. -/
def Formed (m : Module) : Demand → Statement → List Statement → Prop
  | demand, s, [] => s.Admissible demand ∧ s.Fits m ∧ s.Ends ∧
      ∀ value, s.continuation? = some value → value.Continues m (demand.behind s)
  | demand, s, next :: rest => s.Admissible demand ∧ s.Fits m ∧ s.Links ∧
      Formed m (demand.behind s) next rest

end Chain

section Generation
variable {m : Module} {file : String} {demand : Demand} {s : Statement} {op : Operator}

open Failure (raise)
open Recording

namespace Statement

theorem checkOperands_eq_ok_iff {following : List Statement} :
    s.checkOperands op following = .ok () ↔
      op.required ≤ s.operands.length ∧ s.operands.length ≤ op.limit ∧
        (following ≠ [] → op.continues) := by
  unfold checkOperands
  by_cases hr : s.operands.length < op.required
  · simp only [hr, if_true, raise, reduceCtorEq, false_iff]
    omega
  · rw [if_neg hr]
    by_cases hl : s.operands.length ≤ op.limit
    · rw [List.getElem?_eq_none hl]
      cases following with
      | nil => simp [Nat.not_lt.mp hr, hl]
      | cons next rest => cases hc : op.continues <;> simp [Nat.not_lt.mp hr, hl, raise]
    · rw [List.getElem?_eq_getElem (Nat.not_le.mp hl)]
      simp [hl, raise]

end Statement

namespace Stage

/-- What is demanded behind an operator that continues. -/
def demandBehind (op : Operator) : Demand := if op.isInstruction then .instruction else .anything

/-- Two operands at least. -/
theorem exists_cons_cons {operands : List Value} (h : 2 ≤ operands.length) :
    ∃ first second rest, operands = first :: second :: rest := by
  obtain ⟨first, behind, rfl⟩ := List.exists_cons_of_length_pos (Nat.zero_lt_of_lt h)
  rw [List.length_cons] at h
  obtain ⟨second, rest, rfl⟩ := List.exists_cons_of_length_pos (Nat.lt_of_succ_lt_succ h)
  exact ⟨first, second, rest, rfl⟩

/-- An operator that continues leaves a link. -/
theorem ofOperator_yields (hop : s.operation? = some op) (hc : op.continues)
    (hn : op.required ≤ s.operands.length) :
    (ofOperator (Scope.ofModule m file) demand s op).Yields
      (∀ operand ∈ op.places.zip s.operands, operand.1.Fits m operand.2)
      (.partway (s.link file) s.operands[op.required]? (demandBehind op)) s.branchNames := by
  obtain ⟨operator, operands⟩ := s
  simp only [Statement.link, Statement.branchNames, hop]
  cases op with
  | ref | finish => cases hc
  | depth => exact (yields_pure _).iff (by simp [Operator.places])
  | pair | expr =>
    obtain ⟨imm, rest, rfl⟩ := List.exists_cons_of_length_pos hn
    exact (Node.ofExpression_yields.bind_pure _).iff (by simp [Operator.places, Place.Fits])
  | dict =>
    obtain ⟨key, value, rest, rfl⟩ := exists_cons_cons hn
    refine Yields.iff (Node.ofExpression_yields.bind fun _ =>
      Node.ofExpression_yields.bind_pure _) ?_
    simp [Operator.places, Place.Fits]
  | typeq =>
    obtain ⟨imm, rest, rfl⟩ := List.exists_cons_of_length_pos hn
    exact ((yields_lift fun _ => Node.ofType_eq_ok_iff (m := m)).bind_pure _).iff
      (by simp [Operator.places])
  | fixnum =>
    obtain ⟨imm, rest, rfl⟩ := List.exists_cons_of_length_pos hn
    exact ((yields_lift fun _ => Node.ofFixnum_eq_ok_iff (m := m)).bind_pure _).iff
      (by simp [Operator.places])
  | mnemonic =>
    obtain ⟨imm, rest, rfl⟩ := List.exists_cons_of_length_pos hn
    exact ((yields_lift fun _ => Node.ofMnemonic_eq_ok_iff (m := m)).bind_pure _).iff
      (by simp [Operator.places])
  | branch =>
    obtain ⟨target, rest, rfl⟩ := List.exists_cons_of_length_pos hn
    exact (Node.ofReference_yields.bind_pure _).iff (by simp [Operator.places, Place.Fits])

/-- The operand of `ref` ends the chain, with all that is demanded of it. -/
theorem ofOperator_ref_yields {value : Value} {rest : List Value}
    (hs : s.operands = value :: rest) :
    (ofOperator (Scope.ofModule m file) demand s .ref).Yields (value.Continues m demand)
      (.complete (value.node file)) (value.recorded demand) := by
  obtain ⟨operator, operands⟩ := s
  subst hs
  exact Node.ofContinuation_yields.bind_pure _

theorem ofOperator_finish_yields {imm : Value} {rest : List Value}
    (hs : s.operands = imm :: rest) :
    (ofOperator (Scope.ofModule m file) demand s .finish).Yields
      ((Place.mnemonic endMnemonics).Fits m imm)
      (.complete (.finish imm.token.text ⟨file, s.operator.line⟩)) [] := by
  obtain ⟨operator, operands⟩ := s
  subst hs
  exact (yields_lift fun _ => Node.ofMnemonic_eq_ok_iff (m := m)).bind_pure _

/-- What is judged before the operands themselves: the place of the operator, and the number of
operands. -/
def Counted (demand : Demand) (s : Statement) (op : Operator) (following : List Statement) : Prop :=
  s.Admissible demand ∧ op.required ≤ s.operands.length ∧ s.operands.length ≤ op.limit ∧
    (following ≠ [] → op.continues)

theorem ofStatement_yields {following : List Statement} {P : Prop} {stage : Stage}
    {names : List Token} (hop : s.operation? = some op)
    (hx : Counted demand s op following →
      (ofOperator (Scope.ofModule m file) demand s op).Yields P stage names) :
    (ofStatement (Scope.ofModule m file) demand s following).Yields
      (Counted demand s op following ∧ P) stage names := by
  have hd : s.isData = op.isData := by rw [Statement.isData, hop, Option.any_some]
  have hname : Operator.ofName? s.operator.text = some op := hop
  simp only [ofStatement, hname]
  by_cases ha : demand = .instruction ∧ op.isData
  · rw [if_pos ha]
    refine (yields_raise .expectedInstruction s.operator).iff ?_
    simp [Counted, Statement.Admissible, hd, ha]
  · rw [if_neg ha]
    have hadm : s.Admissible demand := fun hi hs => ha ⟨hi, hd ▸ hs⟩
    have hcheck : (liftM (s.checkOperands op following) : Recording Unit).Yields
        (Counted demand s op following) () [] := by
      refine yields_lift fun u => ?_
      cases u
      rw [Statement.checkOperands_eq_ok_iff]
      simp only [Counted, hadm, true_and, and_true]
    exact hcheck.bind hx

theorem ofStatement_unknown_yields {following : List Statement} (hop : s.operation? = none)
    (stage : Stage) (names : List Token) :
    (ofStatement (Scope.ofModule m file) demand s following).Yields False stage names := by
  have hname : Operator.ofName? s.operator.text = none := hop
  simp only [ofStatement, hname]
  exact yields_raise .badOp s.operator

end Stage

namespace Chain

open Stage (Counted demandBehind)

/-- Where the statement may stand, what is demanded behind its operator is what is demanded behind
the statement. -/
theorem demandBehind_eq (hop : s.operation? = some op) (hc : op.continues)
    (ha : s.Admissible demand) : demandBehind op = demand.behind s := by
  have hi : s.isInstruction = op.isInstruction := by
    rw [Statement.isInstruction, hop, Option.any_some]
  have hd : s.isData = op.isData := by rw [Statement.isData, hop, Option.any_some]
  unfold demandBehind Demand.behind
  rw [hi]
  split
  · rfl
  next hn =>
    cases demand with
    | anything => rfl
    | instruction =>
      refine absurd ?_ (ha rfl)
      rw [hd]
      cases op <;> simp_all [Operator.isInstruction, Operator.continues, Operator.isData]

theorem continuation?_eq (hop : s.operation? = some op) (hc : op.continues) :
    s.continuation? = s.operands[op.required]? := by
  have hl : op.places.length = op.required := by
    cases op with
    | ref | finish => cases hc
    | _ => rfl
  rw [Statement.continuation?, hop, Option.bind_some, hl]

theorem endNode_eq {value : Value} (hop : s.operation? = some op) (hc : op.continues)
    (hv : s.continuation? = some value) : s.endNode file = (s.link file).close (value.node file) := by
  rw [Statement.endNode, hop, hv]
  cases op with
  | ref | finish => cases hc
  | _ => rfl

theorem fits_iff (hop : s.operation? = some op) :
    s.Fits m ↔ ∀ operand ∈ op.places.zip s.operands, operand.1.Fits m operand.2 := by
  simp [Statement.Fits, hop]

theorem ends_iff (hop : s.operation? = some op) :
    s.Ends ↔ s.operands.length = op.limit := by
  simp [Statement.Ends, hop]

theorem links_iff (hop : s.operation? = some op) :
    s.Links ↔ op.continues ∧ s.operands.length = op.required := by
  simp [Statement.Links, hop]

private theorem ofStatements_nil_yields_of_continues (hop : s.operation? = some op)
    (hc : op.continues) (links : List Link) :
    (ofStatements (Scope.ofModule m file) demand s [] links).Yields (Formed m demand s [])
      ⟨close links (s.endNode file), links.length + s.endLength⟩ (namesOf demand s []) := by
  have hlimit : op.limit = op.required + 1 := by rw [Operator.limit, if_pos hc]
  have hstage : (Stage.ofStatement (Scope.ofModule m file) demand s []).Yields _ _ _ :=
    Stage.ofStatement_yields hop fun hn => Stage.ofOperator_yields hop hc hn.2.1
  unfold ofStatements
  simp only [Formed, fits_iff hop, ends_iff hop, namesOf, continuation?_eq hop hc]
  cases hv : s.operands[op.required]? with
  | none =>
    have hlen := List.getElem?_eq_none_iff.mp hv
    rw [hv] at hstage
    refine (hstage.bind fun _ => yields_raise .missingContinuation s.operator).iff ?_
    simp only [and_false, false_iff]
    rintro ⟨-, -, hend, -⟩
    omega
  | some value =>
    obtain ⟨hlen, -⟩ := List.getElem?_eq_some_iff.mp hv
    have hlength : s.endLength = 2 := by simp [Statement.endLength, hop, hc]
    have hnode : s.endNode file = (s.link file).close (value.node file) :=
      endNode_eq hop hc ((continuation?_eq hop hc).trans hv)
    rw [hv] at hstage
    rw [hnode, hlength, Option.toList_some, List.flatMap_singleton]
    refine (hstage.bind (Q := value.Continues m (demand.behind s)) fun hp => ?_).iff ?_
    · rw [demandBehind_eq hop hc hp.1.1]
      exact Node.ofContinuation_yields.bind_pure _
    · simp only [Counted, Option.some.injEq, forall_eq', hlimit]
      constructor
      · rintro ⟨⟨⟨hadm, -, hle, -⟩, hfit⟩, hcont⟩
        exact ⟨hadm, hfit, by omega, hcont⟩
      · rintro ⟨hadm, hfit, heq, hcont⟩
        exact ⟨⟨⟨hadm, by omega, by omega, fun h => absurd rfl h⟩, hfit⟩, hcont⟩

private theorem ofStatements_nil_yields_of_ref {operator : Token} {operand : Value}
    (hop : (Statement.mk operator [operand]).operation? = some .ref) (links : List Link) :
    (ofStatements (Scope.ofModule m file) demand ⟨operator, [operand]⟩ [] links).Yields
      (Formed m demand ⟨operator, [operand]⟩ [])
      ⟨close links (operand.node file), links.length + 1⟩
      (namesOf demand ⟨operator, [operand]⟩ []) := by
  have hstage : (Stage.ofStatement (Scope.ofModule m file) demand ⟨operator, [operand]⟩
      []).Yields _ _ _ :=
    Stage.ofStatement_yields hop fun _ => Stage.ofOperator_ref_yields rfl
  have hcont : (Statement.mk operator [operand]).continuation? = some operand := by
    rw [Statement.continuation?, hop]
    rfl
  have hbehind : demand.behind ⟨operator, [operand]⟩ = demand := Demand.behind_of_ref hop
  have hnames : namesOf demand ⟨operator, [operand]⟩ [] = operand.recorded demand ++ [] := by
    simp [namesOf, Statement.branchNames, hop, hcont, hbehind]
  rw [hnames]
  unfold ofStatements
  refine (hstage.bind (Q := True) fun _ => ?_).iff ?_
  · exact yields_pure _
  · simp [Formed, Counted, fits_iff hop, ends_iff hop, hcont, hbehind, Operator.places,
      Operator.limit, Operator.required, Operator.continues]

private theorem ofStatements_nil_yields_of_finish {operator : Token} {operand : Value}
    (hop : (Statement.mk operator [operand]).operation? = some .finish) (links : List Link) :
    (ofStatements (Scope.ofModule m file) demand ⟨operator, [operand]⟩ [] links).Yields
      (Formed m demand ⟨operator, [operand]⟩ [])
      ⟨close links (.finish operand.token.text ⟨file, operator.line⟩), links.length + 1⟩
      (namesOf demand ⟨operator, [operand]⟩ []) := by
  have hstage : (Stage.ofStatement (Scope.ofModule m file) demand ⟨operator, [operand]⟩
      []).Yields _ _ _ :=
    Stage.ofStatement_yields hop fun _ => Stage.ofOperator_finish_yields rfl
  have hcont : (Statement.mk operator [operand]).continuation? = none := by
    rw [Statement.continuation?, hop]
    rfl
  have hnames : namesOf demand ⟨operator, [operand]⟩ [] = [] ++ [] := by
    simp [namesOf, Statement.branchNames, hop, hcont]
  rw [hnames]
  unfold ofStatements
  refine (hstage.bind (Q := True) fun _ => ?_).iff ?_
  · exact yields_pure _
  · simp [Formed, Counted, fits_iff hop, ends_iff hop, hcont, Operator.places, Operator.limit,
      Operator.required, Operator.continues]

private theorem ofStatements_nil_yields_of_not_continues (hop : s.operation? = some op)
    (hc : op.continues = false) (links : List Link) :
    (ofStatements (Scope.ofModule m file) demand s [] links).Yields (Formed m demand s [])
      ⟨close links (s.endNode file), links.length + s.endLength⟩ (namesOf demand s []) := by
  have hlimit : op.limit = op.required := by rw [Operator.limit, hc]; rfl
  have hlength : s.endLength = 1 := by simp [Statement.endLength, hop, hc]
  rw [hlength]
  by_cases hn : s.operands.length = op.required
  · obtain ⟨operator, operands⟩ := s
    cases op with
    | ref =>
      obtain ⟨operand, rfl⟩ := List.length_eq_one_iff.mp hn
      have hnode : (Statement.mk operator [operand]).endNode file = operand.node file := by
        rw [Statement.endNode, Statement.continuation?, hop]
        rfl
      rw [hnode]
      exact ofStatements_nil_yields_of_ref hop links
    | finish =>
      obtain ⟨operand, rfl⟩ := List.length_eq_one_iff.mp hn
      have hnode : (Statement.mk operator [operand]).endNode file =
          .finish operand.token.text ⟨file, operator.line⟩ := by
        rw [Statement.endNode, hop]
      rw [hnode]
      exact ofStatements_nil_yields_of_finish hop links
    | _ => cases hc
  · have hstage : (Stage.ofStatement (Scope.ofModule m file) demand s []).Yields
        (Stage.Counted demand s op [] ∧ False) (.complete (s.endNode file)) [] :=
      Stage.ofStatement_yields hop fun hcount => absurd hcount.2 (by omega)
    unfold ofStatements
    refine (hstage.bind_of_not And.right).iff ?_
    simp [Formed, ends_iff hop, hlimit, hn]

private theorem ofStatements_cons_yields (hop : s.operation? = some op) {next : Statement}
    {rest : List Statement} (links : List Link)
    (ih : (ofStatements (Scope.ofModule m file) (demand.behind s) next rest
      (s.link file :: links)).Yields (Formed m (demand.behind s) next rest)
        ⟨close (s.link file :: links) (nodeOf file next rest),
          (s.link file :: links).length + lengthOf next rest⟩
        (namesOf (demand.behind s) next rest)) :
    (ofStatements (Scope.ofModule m file) demand s (next :: rest) links).Yields
      (Formed m demand s (next :: rest))
      ⟨close links (nodeOf file s (next :: rest)), links.length + lengthOf s (next :: rest)⟩
      (namesOf demand s (next :: rest)) := by
  have hlength : links.length + lengthOf s (next :: rest) =
      (s.link file :: links).length + lengthOf next rest := by
    simp only [lengthOf, List.length_cons, List.getLast_cons_cons]
    omega
  rw [hlength]
  unfold ofStatements
  simp only [Formed, fits_iff hop, links_iff hop, namesOf]
  cases hc : op.continues with
  | false =>
    have hstage : (Stage.ofStatement (Scope.ofModule m file) demand s (next :: rest)).Yields
        (Counted demand s op (next :: rest) ∧ False) (.complete (s.endNode file)) [] :=
      Stage.ofStatement_yields hop fun hn => absurd (hn.2.2.2 (by simp)) (by simp [hc])
    refine (hstage.bind_of_not And.right).iff ?_
    simp
  | true =>
    have hlimit : op.limit = op.required + 1 := by rw [Operator.limit, if_pos hc]
    have hstage : (Stage.ofStatement (Scope.ofModule m file) demand s (next :: rest)).Yields _ _ _ :=
      Stage.ofStatement_yields hop fun hn => Stage.ofOperator_yields hop hc hn.2.1
    cases hv : s.operands[op.required]? with
    | some value =>
      obtain ⟨hlen, -⟩ := List.getElem?_eq_some_iff.mp hv
      rw [hv] at hstage
      refine (hstage.bind fun _ => yields_raise .unexpectedStatement next.operator).iff ?_
      simp only [and_false, false_iff]
      rintro ⟨-, -, hend, -⟩
      omega
    | none =>
      have hlen := List.getElem?_eq_none_iff.mp hv
      rw [hv] at hstage
      refine (hstage.bind (Q := Formed m (demand.behind s) next rest) fun hp => ?_).iff ?_
      · rw [demandBehind_eq hop hc hp.1.1]
        exact ih
      · constructor
        · rintro ⟨⟨⟨hadm, hge, -, -⟩, hfit⟩, hrest⟩
          exact ⟨hadm, hfit, ⟨rfl, by omega⟩, hrest⟩
        · rintro ⟨hadm, hfit, ⟨-, heq⟩, hrest⟩
          exact ⟨⟨⟨hadm, by omega, by omega, fun _ => hc⟩, hfit⟩, hrest⟩

private theorem ofStatements_unknown_yields (hop : s.operation? = none)
    (following : List Statement) (links : List Link) (chain : Chain) (names : List Token) :
    (ofStatements (Scope.ofModule m file) demand s following links).Yields False chain names := by
  have hstage : (Stage.ofStatement (Scope.ofModule m file) demand s following).Yields False
      (.complete (s.endNode file)) [] := Stage.ofStatement_unknown_yields hop _ _
  cases following <;> exact hstage.bind_of_not id

private theorem not_formed_of_unknown (hop : s.operation? = none) (following : List Statement) :
    ¬ Formed m demand s following := by
  have hfit : ¬ s.Fits m := by
    rintro ⟨op, hs, -⟩
    rw [hop] at hs
    cases hs
  cases following <;> exact fun h => hfit h.2.1

/-- The chain of statements, with links in front of it. -/
theorem ofStatements_yields (following : List Statement) (links : List Link) :
    (ofStatements (Scope.ofModule m file) demand s following links).Yields
      (Formed m demand s following)
      ⟨close links (nodeOf file s following), links.length + lengthOf s following⟩
      (namesOf demand s following) := by
  induction following generalizing demand s links with
  | nil =>
    have hlength : lengthOf s [] = s.endLength := Nat.zero_add _
    rw [hlength]
    cases hop : s.operation? with
    | none =>
      exact (ofStatements_unknown_yields hop _ _ _ _).iff
        (iff_of_false id (not_formed_of_unknown hop _))
    | some op =>
      cases hc : op.continues with
      | true => exact ofStatements_nil_yields_of_continues hop hc links
      | false => exact ofStatements_nil_yields_of_not_continues hop hc links
  | cons next rest ih =>
    cases hop : s.operation? with
    | none =>
      exact (ofStatements_unknown_yields hop _ _ _ _).iff
        (iff_of_false id (not_formed_of_unknown hop _))
    | some op => exact ofStatements_cons_yields hop links (ih _)

end Chain

end Generation

end ActorAsm
