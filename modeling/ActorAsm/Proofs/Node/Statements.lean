import ActorAsm.Proofs.Node.Shape

/-! Statements in nodes. Every statement of a chain has a node of its own, with its operator, its
operands and its line, and from node to node the chain goes on as it does from statement to
statement. -/

namespace ActorAsm

/-- What an operand stands for. -/
inductive Value.Denotes (file : String) : Value → Node → Prop where
  | number (n : Int) (token : Token) : Denotes file (.number n token) (.fixnum n)
  | constant {token : Token} {value : Literal} : value.symbol = token.literalName →
      Denotes file (.literal token) (.literal value)
  | type {token : Token} {tag : TypeTag} : tag.name = token.literalName →
      Denotes file (.literal token) (.typeTag tag)
  | label (name : Token) : Denotes file (.reference (.bare name))
      (.reference (.label name.text) ⟨file, name.line⟩)
  | external (moduleName name : Token) : Denotes file (.reference (.qualified moduleName name))
      (.reference (.external moduleName.text name.text) ⟨file, moduleName.line⟩)

/-- The node of an operator with its required operands, whatever it goes on with. A negated jump is
a jump with its two ways exchanged, and `ref` has no node but the one of its operand. -/
inductive Node.Realizes (debug : Debug) : Operator → List Value → Node → Prop where
  | pair {operand : Value} {head tail : Node} : operand.Denotes debug.file head →
      Realizes debug .pair [operand] (.pair head tail debug)
  | dict {first second : Value} {key value next : Node} : first.Denotes debug.file key →
      second.Denotes debug.file value →
      Realizes debug .dict [first, second] (.dict key value next debug)
  | ref {operand : Value} {node : Node} : operand.Denotes debug.file node →
      Realizes debug .ref [operand] node
  | typeq {token : Token} {imm : TypeTag} {k : Node} : imm.name = token.literalName →
      Realizes debug .typeq [.literal token] (.typeq imm k debug)
  | fixnum {op : FixnumOp} {imm : Int} {token : Token} {k : Node} :
      Realizes debug (.fixnum op) [.number imm token] (.fixnumOp op imm k debug)
  | expr {op : ExprOp} {operand : Value} {imm k : Node} : operand.Denotes debug.file imm →
      Realizes debug (.expr op) [operand] (.exprOp op imm k debug)
  | depth {k : Node} : Realizes debug .depth [] (.depth k debug)
  | branch {operand : Value} {target k : Node} : operand.Denotes debug.file target →
      Realizes debug (.branch false) [operand] (.branch target k debug)
  | negatedBranch {operand : Value} {target k : Node} : operand.Denotes debug.file target →
      Realizes debug (.branch true) [operand] (.branch k target debug)
  | mnemonic {op : MnemonicOp} {name : Token} {k : Node} :
      Realizes debug (.mnemonic op) [.reference (.bare name)] (.mnemonicOp op name.text k debug)
  | finish {name : Token} :
      Realizes debug .finish [.reference (.bare name)] (.finish name.text debug)

/-- What a node goes on with when it is the node of the operator. A jump goes on where its condition
does not hold, a negated jump where it does. -/
def Operator.next? : Operator → Node → Option Node
  | .pair, .pair _ tail _ => some tail
  | .dict, .dict _ _ next _ => some next
  | .typeq, .typeq _ k _ => some k
  | .fixnum _, .fixnumOp _ _ k _ => some k
  | .expr _, .exprOp _ _ k _ => some k
  | .depth, .depth k _ => some k
  | .branch false, .branch _ onFalse _ => some onFalse
  | .branch true, .branch onTrue _ _ => some onTrue
  | .mnemonic _, .mnemonicOp _ _ k _ => some k
  | _, _ => none

namespace Node

/-- The node behind some statements, stepping on from node to node. -/
def walk? : Node → List Statement → Option Node
  | node, [] => some node
  | node, s :: statements => do
    let op ← s.operation?
    let next ← op.next? node
    next.walk? statements

/-- Constants, types, numbers and references. -/
def isSimple : Node → Bool
  | .literal _ | .typeTag _ | .fixnum _ | .reference _ _ => true
  | _ => false

end Node

/-- What a statement is in the node that it begins, which depends on what is behind it. The last one
has an operand more to go on with, unless its operator ends the chain. -/
inductive Statement.Begins (file : String) (s : Statement) : List Statement → Node → Prop where
  | inner {op : Operator} {node : Node} (next : Statement) (rest : List Statement) :
      s.operation? = some op → op.continues →
      node.Realizes ⟨file, s.operator.line⟩ op s.operands → Begins file s (next :: rest) node
  | goesOn {op : Operator} {operands : List Value} {value : Value} {node k : Node} :
      s.operation? = some op → op.continues → s.operands = operands ++ [value] →
      node.Realizes ⟨file, s.operator.line⟩ op operands →
      op.next? node = some k → value.Denotes file k → Begins file s [] node
  | ends {op : Operator} {node : Node} :
      s.operation? = some op → op.continues = false →
      node.Realizes ⟨file, s.operator.line⟩ op s.operands → Begins file s [] node

namespace Value
variable {m : Module} {file : String} {value : Value}

private theorem denotes_node (h : value.IsExpression m) : value.Denotes file (value.node file) := by
  cases value with
  | number n token => exact .number n token
  | literal token =>
    cases hl : Literal.ofSymbol? token.literalName with
    | some value =>
      simp only [node, hl]
      exact .constant (Literal.ofSymbol?_eq_some_iff.mp hl)
    | none =>
      rcases h with ⟨value, hsymbol⟩ | ⟨tag, hname⟩
      · rw [Literal.ofSymbol?_eq_some_iff.mpr hsymbol] at hl
        cases hl
      · simp only [node, hl, typeTag, TypeTag.ofName?_eq_some_iff.mpr hname, Option.getD_some]
        exact .type hname
  | reference target =>
    cases target with
    | bare name => exact .label name
    | qualified moduleName name => exact .external moduleName name

theorem eq_bare_of_fits {names : List String} (h : (Place.mnemonic names).Fits m value) :
    ∃ name, value = .reference (.bare name) := by
  cases value with
  | reference target =>
    cases target with
    | bare name => exact ⟨name, rfl⟩
    | qualified => cases h
  | literal | number => cases h

theorem isSimple_node : (value.node file).isSimple := by
  unfold node
  split
  · rfl
  · split <;> rfl
  · rfl
  · rfl

end Value

namespace Link
variable {link : Link} {k : Node}

private theorem isSimple_close : (link.close k).isSimple = false := by
  unfold close
  split <;> rfl

end Link

namespace Statement
variable {m : Module} {file : String} {s : Statement} {op : Operator} {k : Node}

/-- A link goes on with the node that it is closed around. -/
theorem next?_link_close (hop : s.operation? = some op) (hc : op.continues)
    (hn : op.required ≤ s.operands.length) : op.next? ((s.link file).close k) = some k := by
  have hleaves := s.leaves_link file hop hc hn
  generalize s.link file = link at hleaves
  cases hleaves with
  | @branch negated => cases negated <;> rfl
  | _ => rfl

/-- A closed link is the node of its operator with the required operands. -/
theorem realizes_link_close (hop : s.operation? = some op) (hc : op.continues)
    (hn : op.required ≤ s.operands.length) (hfit : s.Fits m) :
    ((s.link file).close k).Realizes ⟨file, s.operator.line⟩ op (s.operands.take op.required) := by
  have hplaces := (Chain.fits_iff hop).mp hfit
  have hleaves := s.leaves_link file hop hc hn
  generalize s.link file = link at hleaves
  cases hleaves with
  | depth => exact .depth
  | @dict key value rest hs =>
    rw [hs] at hplaces ⊢
    simp only [Operator.places, List.zip_cons_cons, List.forall_mem_cons] at hplaces
    exact .dict (Value.denotes_node hplaces.1) (Value.denotes_node hplaces.2.1)
  | @pair head rest hs =>
    rw [hs] at hplaces ⊢
    exact .pair (Value.denotes_node (hplaces (.expression, head) List.mem_cons_self))
  | @expr op imm rest hs =>
    rw [hs] at hplaces ⊢
    exact .expr (Value.denotes_node (hplaces (.expression, imm) List.mem_cons_self))
  | @typeq imm rest hs =>
    rw [hs] at hplaces ⊢
    have hfits : Place.type.Fits m imm := hplaces (.type, imm) List.mem_cons_self
    cases imm with
    | literal token =>
      obtain ⟨tag, htag⟩ := hfits
      refine .typeq ?_
      rwa [Value.typeTag, TypeTag.ofName?_eq_some_iff.mpr htag]
    | number | reference => cases hfits
  | @fixnum op imm rest hs =>
    rw [hs] at hplaces ⊢
    have hfits : Place.fixnum.Fits m imm := hplaces (.fixnum, imm) List.mem_cons_self
    cases imm with
    | number n token => exact .fixnum
    | literal | reference => cases hfits
  | @branch negated target rest hs =>
    rw [hs] at hplaces ⊢
    have hfits : target.IsReference m := hplaces (.reference, target) List.mem_cons_self
    have htarget : target.Denotes file (target.node file) := Value.denotes_node hfits.isExpression
    cases negated with
    | false => exact .branch htarget
    | true => exact .negatedBranch htarget
  | @mnemonic op imm rest hs =>
    rw [hs] at hplaces ⊢
    have hfits := hplaces (.mnemonic op.mnemonics, imm) List.mem_cons_self
    obtain ⟨name, rfl⟩ := Value.eq_bare_of_fits hfits
    exact .mnemonic

/-- Closing the link of a statement makes one node that is no constant, type, number or reference:
what is in the link already is operands. -/
theorem countP_subnodes_link_close :
    ((s.link file).close k).subnodes.countP (!·.isSimple) =
      k.subnodes.countP (!·.isSimple) + 1 := by
  have hparts : ((s.link file).parts.flatMap Node.subnodes).countP (!·.isSimple) = 0 := by
    rw [List.countP_eq_zero]
    intro node hnode
    obtain ⟨part, hpart, hnode⟩ := List.mem_flatMap.mp hnode
    obtain ⟨value, rfl⟩ := exists_value_of_mem_parts hpart
    rw [Value.subnodes_node, List.mem_singleton] at hnode
    simp [hnode, Value.isSimple_node]
  rw [Link.subnodes_close_perm.countP_eq, List.countP_cons_of_pos (by simp [Link.isSimple_close]),
    List.countP_append, hparts, Nat.zero_add]

end Statement

namespace Chain
variable {m : Module} {file : String} {demand : Demand} {s t : Statement} {op : Operator}
  {following before behind : List Statement}

/-- The node of a chain is begun by its first statement. -/
theorem Formed.begins (h : Formed m demand s following) (file : String) :
    s.Begins file following (nodeOf file s following) := by
  cases h.head file with
  | @link op _ hop hc hn hnode =>
    have hrealizes : (nodeOf file s following).Realizes ⟨file, s.operator.line⟩ op
        (s.operands.take op.required) := by
      rw [hnode]
      exact Statement.realizes_link_close hop hc hn h.fits
    cases following with
    | cons next rest =>
      rw [List.take_of_length_le ((links_iff hop).mp h.2.2.1).2.le] at hrealizes
      exact .inner next rest hop hc hrealizes
    | nil =>
      obtain ⟨value, hvalue⟩ := h.exists_continuation hop hc
      have hnext : op.next? (nodeOf file s []) = some (value.node file) := by
        rw [hnode, Statement.next?_link_close hop hc hn, behind_nil hvalue]
      have hlimit : op.limit = op.required + 1 := by rw [Operator.limit, if_pos hc]
      have hoperands : s.operands = s.operands.take op.required ++ [value] := by
        rw [continuation?_eq hop hc] at hvalue
        obtain ⟨hlt, rfl⟩ := List.getElem?_eq_some_iff.mp hvalue
        rw [List.take_append_getElem hlt, List.take_of_length_le]
        rw [(ends_iff hop).mp h.2.2.1, hlimit]
      exact .goesOn hop hc hoperands hrealizes hnext
        (Value.denotes_node (h.2.2.2 value hvalue).isExpression)
  | ref hop hs hvalue hnode =>
    refine .ends hop rfl ?_
    rw [hnode, hs]
    exact .ref (Value.denotes_node (h.2.2.2 _ hvalue).isExpression)
  | @finish operand hop hs hnode =>
    have hplaces := (fits_iff hop).mp h.fits
    rw [hs] at hplaces
    obtain ⟨name, rfl⟩ := Value.eq_bare_of_fits
      (hplaces (.mnemonic endMnemonics, operand) List.mem_cons_self)
    refine .ends hop rfl ?_
    rw [hnode, hs]
    exact .finish

/-- From the node of a chain one gets to the node of each of its statements, by as many steps as
there are statements in front of it. -/
theorem Formed.exists_begins (h : Formed m demand s following)
    (hsplit : s :: following = before ++ t :: behind) :
    ∃ node, (nodeOf file s following).walk? before = some node ∧ t.Begins file behind node := by
  induction before generalizing demand s following with
  | nil =>
    cases hsplit
    exact ⟨_, rfl, h.begins file⟩
  | cons first before ih =>
    rw [List.cons_append, List.cons.injEq] at hsplit
    obtain ⟨rfl, hsplit⟩ := hsplit
    cases following with
    | nil => simp at hsplit
    | cons next rest =>
      obtain ⟨node, hwalk, hbegins⟩ := ih h.2.2.2 hsplit
      obtain ⟨op, hop, hc, hlength⟩ := h.2.2.1
      refine ⟨node, ?_, hbegins⟩
      rw [Node.walk?, hop, Option.bind_eq_bind, Option.bind_some, nodeOf,
        Statement.next?_link_close hop hc hlength.ge]
      exact hwalk

/-- There are as many nodes besides constants, types, numbers and references in the node of a chain
as statements that are no mere references. -/
theorem Formed.countP_subnodes (h : Formed m demand s following) (file : String) :
    (nodeOf file s following).subnodes.countP (!·.isSimple) =
      (s :: following).countP (·.operation? ≠ some .ref) := by
  induction following generalizing demand s with
  | nil =>
    cases h.head file with
    | @link op _ hop hc _ hnode =>
      obtain ⟨value, hvalue⟩ := h.exists_continuation hop hc
      have hr : op ≠ .ref := fun hr => by rw [hr] at hc; cases hc
      rw [hnode, Statement.countP_subnodes_link_close, behind_nil hvalue, Value.subnodes_node]
      simp [Value.isSimple_node, hop, hr]
    | ref hop _ _ hnode =>
      rw [hnode, Value.subnodes_node]
      simp [Value.isSimple_node, hop]
    | finish hop _ hnode =>
      rw [hnode, List.countP_cons_of_pos (by simp [hop])]
      rfl
  | cons next rest ih =>
    obtain ⟨op, hop, hc, -⟩ := h.2.2.1
    have hr : op ≠ .ref := fun hr => by rw [hr] at hc; cases hc
    rw [nodeOf, Statement.countP_subnodes_link_close, ih h.2.2.2]
    exact (List.countP_cons_of_pos (by simp [hop, hr])).symm

end Chain

end ActorAsm
