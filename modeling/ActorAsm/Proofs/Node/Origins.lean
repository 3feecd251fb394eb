import ActorAsm.Proofs.Node.Shape

/-! Where nodes come from. The rules below follow a chain from front to back and name, for every
kind of node, the one token whose line the node keeps; that chains make such nodes is proved
afterwards. -/

namespace ActorAsm

/-- What a node is made from: an operand, or statements in a row. -/
inductive Origin where
  | operand (value : Value)
  | chain (s : Statement) (following : List Statement)

/-- What a chain goes on with behind its first statement: the statements that follow, or else an
operand. -/
def Statement.behind? (s : Statement) : List Statement → Option Origin
  | [] => s.continuation?.map .operand
  | next :: rest => some (.chain next rest)

namespace Node

/-- Instructions, pairs and dictionaries keep the line of their operator, references to labels the
line of the name, and references to other modules the line of the module name. -/
inductive ComesFrom (file : String) : Origin → Node → Prop where
  | fixnum (n : Int) (token : Token) : ComesFrom file (.operand (.number n token)) (.fixnum n)
  | literal (token : Token) (value : Literal) :
      ComesFrom file (.operand (.literal token)) (.literal value)
  | typeTag (token : Token) (tag : TypeTag) :
      ComesFrom file (.operand (.literal token)) (.typeTag tag)
  | label (name : Token) : ComesFrom file (.operand (.reference (.bare name)))
      (.reference (.label name.text) ⟨file, name.line⟩)
  | external (moduleName name : Token) :
      ComesFrom file (.operand (.reference (.qualified moduleName name)))
        (.reference (.external moduleName.text name.text) ⟨file, moduleName.line⟩)
  | ref {s : Statement} {value : Value} {node : Node} : s.operation? = some .ref →
      s.continuation? = some value → ComesFrom file (.operand value) node →
      ComesFrom file (.chain s []) node
  | finish {s : Statement} {imm : String} : s.operation? = some .finish →
      ComesFrom file (.chain s []) (.finish imm ⟨file, s.operator.line⟩)
  | pair {s : Statement} {following : List Statement} {first : Value} {rest : List Value}
      {origin : Origin} {head tail : Node} : s.operation? = some .pair →
      s.operands = first :: rest → ComesFrom file (.operand first) head →
      s.behind? following = some origin → ComesFrom file origin tail →
      ComesFrom file (.chain s following) (.pair head tail ⟨file, s.operator.line⟩)
  | dict {s : Statement} {following : List Statement} {first second : Value} {rest : List Value}
      {origin : Origin} {key value next : Node} : s.operation? = some .dict →
      s.operands = first :: second :: rest → ComesFrom file (.operand first) key →
      ComesFrom file (.operand second) value →
      s.behind? following = some origin → ComesFrom file origin next →
      ComesFrom file (.chain s following) (.dict key value next ⟨file, s.operator.line⟩)
  | typeq {s : Statement} {following : List Statement} {imm : TypeTag} {origin : Origin}
      {k : Node} : s.operation? = some .typeq →
      s.behind? following = some origin → ComesFrom file origin k →
      ComesFrom file (.chain s following) (.typeq imm k ⟨file, s.operator.line⟩)
  | fixnumOp {s : Statement} {following : List Statement} {op : FixnumOp} {imm : Int}
      {origin : Origin} {k : Node} : s.operation? = some (.fixnum op) →
      s.behind? following = some origin → ComesFrom file origin k →
      ComesFrom file (.chain s following) (.fixnumOp op imm k ⟨file, s.operator.line⟩)
  | exprOp {s : Statement} {following : List Statement} {op : ExprOp} {first : Value}
      {rest : List Value} {origin : Origin} {imm k : Node} : s.operation? = some (.expr op) →
      s.operands = first :: rest → ComesFrom file (.operand first) imm →
      s.behind? following = some origin → ComesFrom file origin k →
      ComesFrom file (.chain s following) (.exprOp op imm k ⟨file, s.operator.line⟩)
  | depth {s : Statement} {following : List Statement} {origin : Origin} {k : Node} :
      s.operation? = some .depth → s.behind? following = some origin → ComesFrom file origin k →
      ComesFrom file (.chain s following) (.depth k ⟨file, s.operator.line⟩)
  | branch {s : Statement} {following : List Statement} {first : Value} {rest : List Value}
      {origin : Origin} {target k : Node} : s.operation? = some (.branch false) →
      s.operands = first :: rest → ComesFrom file (.operand first) target →
      s.behind? following = some origin → ComesFrom file origin k →
      ComesFrom file (.chain s following) (.branch target k ⟨file, s.operator.line⟩)
  | negatedBranch {s : Statement} {following : List Statement} {first : Value}
      {rest : List Value} {origin : Origin} {target k : Node} :
      s.operation? = some (.branch true) →
      s.operands = first :: rest → ComesFrom file (.operand first) target →
      s.behind? following = some origin → ComesFrom file origin k →
      ComesFrom file (.chain s following) (.branch k target ⟨file, s.operator.line⟩)
  | mnemonicOp {s : Statement} {following : List Statement} {op : MnemonicOp} {imm : String}
      {origin : Origin} {k : Node} : s.operation? = some (.mnemonic op) →
      s.behind? following = some origin → ComesFrom file origin k →
      ComesFrom file (.chain s following) (.mnemonicOp op imm k ⟨file, s.operator.line⟩)

/-- Where the node itself says it comes from. Constants, types and numbers do not say it. -/
def debug? : Node → Option Debug
  | .literal _ | .typeTag _ | .fixnum _ => none
  | .reference _ debug | .pair _ _ debug | .dict _ _ _ debug | .typeq _ _ debug
  | .fixnumOp _ _ _ debug | .exprOp _ _ _ debug | .depth _ debug | .branch _ _ debug
  | .mnemonicOp _ _ _ debug | .finish _ debug => some debug

/-- All records in a node name the same file. -/
theorem ComesFrom.file_of_mem_subnodes {file : String} {origin : Origin} {node part : Node}
    {debug : Debug} (h : node.ComesFrom file origin) (hpart : part ∈ node.subnodes)
    (hdebug : part.debug? = some debug) : debug.file = file := by
  induction h with
  | fixnum | literal | typeTag =>
    obtain rfl := List.mem_singleton.mp hpart
    cases hdebug
  | label | external | finish =>
    obtain rfl := List.mem_singleton.mp hpart
    cases hdebug
    rfl
  | ref _ _ _ ih => exact ih hpart
  | pair _ _ _ _ _ ihfirst ih | exprOp _ _ _ _ _ ihfirst ih | branch _ _ _ _ _ ihfirst ih =>
    rcases List.mem_cons.mp hpart with rfl | hpart
    · cases hdebug
      rfl
    · exact (List.mem_append.mp hpart).elim ihfirst ih
  | negatedBranch _ _ _ _ _ ihfirst ih =>
    rcases List.mem_cons.mp hpart with rfl | hpart
    · cases hdebug
      rfl
    · exact (List.mem_append.mp hpart).elim ih ihfirst
  | dict _ _ _ _ _ _ ihfirst ihsecond ih =>
    rcases List.mem_cons.mp hpart with rfl | hpart
    · cases hdebug
      rfl
    · rcases List.mem_append.mp hpart with hpart | hpart
      · exact (List.mem_append.mp hpart).elim ihfirst ihsecond
      · exact ih hpart
  | typeq _ _ _ ih | fixnumOp _ _ _ ih | depth _ _ _ ih | mnemonicOp _ _ _ ih =>
    rcases List.mem_cons.mp hpart with rfl | hpart
    · cases hdebug
      rfl
    · exact ih hpart

end Node

variable {m : Module} {file : String} {demand : Demand} {s : Statement} {op : Operator}
  {following : List Statement}

theorem Value.comesFrom_node (value : Value) :
    (value.node file).ComesFrom file (.operand value) := by
  cases value with
  | literal token =>
    cases h : Literal.ofSymbol? token.literalName with
    | some value =>
      simp only [Value.node, h]
      exact .literal token value
    | none =>
      simp only [Value.node, h]
      exact .typeTag token _
  | number n token => exact .fixnum n token
  | reference target =>
    cases target with
    | bare name => exact .label name
    | qualified moduleName name => exact .external moduleName name

/-- A link keeps the line of its operator, whatever it is closed around. -/
theorem Statement.comesFrom_link_close (hop : s.operation? = some op) (hc : op.continues)
    (hn : op.required ≤ s.operands.length) {origin : Origin} {k : Node}
    (hbehind : s.behind? following = some origin) (hk : k.ComesFrom file origin) :
    ((s.link file).close k).ComesFrom file (.chain s following) := by
  have hleaves := s.leaves_link file hop hc hn
  generalize s.link file = link at hleaves
  cases hleaves with
  | depth => exact .depth hop hbehind hk
  | dict hs => exact .dict hop hs (Value.comesFrom_node _) (Value.comesFrom_node _) hbehind hk
  | pair hs => exact .pair hop hs (Value.comesFrom_node _) hbehind hk
  | typeq => exact .typeq hop hbehind hk
  | fixnum => exact .fixnumOp hop hbehind hk
  | expr hs => exact .exprOp hop hs (Value.comesFrom_node _) hbehind hk
  | @branch negated _ _ hs =>
    cases negated with
    | false => exact .branch hop hs (Value.comesFrom_node _) hbehind hk
    | true => exact .negatedBranch hop hs (Value.comesFrom_node _) hbehind hk
  | mnemonic => exact .mnemonicOp hop hbehind hk

namespace Chain

private theorem Formed.comesFrom_nodeOf_nil (h : Formed m demand s []) :
    (nodeOf file s []).ComesFrom file (.chain s []) := by
  cases h.head file with
  | link hop hc hn hnode =>
    obtain ⟨value, hvalue⟩ := h.exists_continuation hop hc
    have hbehind : s.behind? [] = some (.operand value) := by
      rw [Statement.behind?, hvalue, Option.map_some]
    rw [hnode, behind_nil hvalue]
    exact Statement.comesFrom_link_close hop hc hn hbehind value.comesFrom_node
  | ref hop _ hvalue hnode =>
    rw [hnode]
    exact .ref hop hvalue (Value.comesFrom_node _)
  | finish hop _ hnode =>
    rw [hnode]
    exact .finish hop

theorem Formed.comesFrom_nodeOf (h : Formed m demand s following) :
    (nodeOf file s following).ComesFrom file (.chain s following) := by
  induction following generalizing demand s with
  | nil => exact h.comesFrom_nodeOf_nil
  | cons next rest ih =>
    obtain ⟨op, hop, -⟩ := h.fits
    have hc : op.continues := ((links_iff hop).mp h.2.2.1).1
    exact Statement.comesFrom_link_close hop hc (h.required_le hop) rfl (ih h.2.2.2)

end Chain

end ActorAsm
