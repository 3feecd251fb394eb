import ActorAsm.Proofs.Document.Resolution
import ActorAsm.Proofs.Node.Definitions

/-! The shape of the node of a chain: which kind of node it is, and what stands in the continuations
of the instructions within it. Whatever stands there and is a label of the module has been
recorded. -/

namespace ActorAsm

namespace Node

/-- The node itself and all nodes within it, at any depth. -/
def subnodes : Node → List Node
  | .pair head tail debug => .pair head tail debug :: (head.subnodes ++ tail.subnodes)
  | .dict key value next debug =>
    .dict key value next debug :: (key.subnodes ++ value.subnodes ++ next.subnodes)
  | .typeq imm k debug => .typeq imm k debug :: k.subnodes
  | .fixnumOp op imm k debug => .fixnumOp op imm k debug :: k.subnodes
  | .exprOp op imm k debug => .exprOp op imm k debug :: (imm.subnodes ++ k.subnodes)
  | .depth k debug => .depth k debug :: k.subnodes
  | .branch onTrue onFalse debug =>
    .branch onTrue onFalse debug :: (onTrue.subnodes ++ onFalse.subnodes)
  | .mnemonicOp op imm k debug => .mnemonicOp op imm k debug :: k.subnodes
  | node => [node]

/-- The continuations of an instruction: two for a conditional jump, none for the instruction that
ends a chain, one for all others. -/
def slots : Node → List Node
  | .typeq _ k _ | .fixnumOp _ _ k _ | .exprOp _ _ k _ | .depth k _ | .mnemonicOp _ _ k _ => [k]
  | .branch onTrue onFalse _ => [onTrue, onFalse]
  | _ => []

/-- An instruction, a definition of another module, or a label among the names. -/
def Covered (names : List Token) (node : Node) : Prop :=
  node.isTarget ∨ ∃ name ∈ names, ∃ debug, node = .reference (.label name.text) debug

theorem Covered.mono {node : Node} {names names' : List Token} (h : node.Covered names)
    (hsub : names ⊆ names') : node.Covered names' := by
  rcases h with ht | ⟨name, hname, hnode⟩
  · exact .inl ht
  · exact .inr ⟨name, hsub hname, hnode⟩

theorem isTarget_of_isInstruction {node : Node} (h : node.isInstruction) : node.isTarget := by
  cases node with
  | reference target debug => cases h
  | _ => exact h

end Node

namespace Value
variable {m : Module} {file : String} {value : Value}

theorem subnodes_node : (value.node file).subnodes = [value.node file] := by
  unfold Value.node
  split
  · rfl
  · split <;> rfl
  · rfl
  · rfl

/-- An operand is no instruction, and there is none within it. -/
theorem slots_eq_nil_of_mem_subnodes {node : Node} (h : node ∈ (value.node file).subnodes) :
    node.slots = [] := by
  rw [subnodes_node, List.mem_singleton] at h
  rw [h]
  unfold Value.node
  split
  · rfl
  · split <;> rfl
  · rfl
  · rfl

private theorem covered_node (h : value.IsReference m) :
    (value.node file).Covered value.bareNames := by
  cases value with
  | literal token => cases h
  | number n token => cases h
  | reference target =>
    cases target with
    | bare name => exact .inr ⟨name, List.mem_singleton_self name, _, rfl⟩
    | qualified moduleName name => exact .inl rfl

end Value

namespace Link
variable {link : Link} {k node : Node}

/-- The nodes that are in a link already. -/
def parts : Link → List Node
  | .pair head _ => [head]
  | .dict key value _ => [key, value]
  | .exprOp _ imm _ => [imm]
  | .branch target _ _ => [target]
  | _ => []

/-- Where a conditional jump goes. -/
def targets : Link → List Node
  | .branch target _ _ => [target]
  | _ => []

def isInstruction : Link → Bool
  | .pair _ _ | .dict _ _ _ => false
  | _ => true

private theorem isInstruction_close : (link.close k).isInstruction = link.isInstruction := by
  unfold close
  split <;> rfl

theorem close_ne_reference {target : Target} {debug : Debug} :
    link.close k ≠ .reference target debug := by
  unfold close
  split <;> exact Node.noConfusion

/-- The nodes in a closed link, in some order. -/
theorem subnodes_close_perm :
    (link.close k).subnodes.Perm
      (link.close k :: (link.parts.flatMap Node.subnodes ++ k.subnodes)) := by
  cases link with
  | branch target negated debug =>
    cases negated with
    | false => simp [close, Node.subnodes, parts]
    | true => simpa [close, Node.subnodes, parts] using List.perm_append_comm
  | _ => simp [close, Node.subnodes, parts]

theorem mem_subnodes_close :
    node ∈ (link.close k).subnodes ↔
      node = link.close k ∨ (∃ part ∈ link.parts, node ∈ part.subnodes) ∨ node ∈ k.subnodes := by
  rw [subnodes_close_perm.mem_iff, List.mem_cons, List.mem_append, List.mem_flatMap]

private theorem mem_slots_close :
    node ∈ (link.close k).slots ↔ link.isInstruction ∧ (node = k ∨ node ∈ link.targets) := by
  cases link with
  | branch target negated debug =>
    cases negated <;> simp [close, Node.slots, isInstruction, targets, or_comm]
  | _ => simp [close, Node.slots, isInstruction, targets]

end Link

namespace Statement
variable {m : Module} {file : String} {s : Statement} {op : Operator}

theorem exists_value_of_mem_parts {part : Node} (h : part ∈ (s.link file).parts) :
    ∃ value : Value, part = value.node file := by
  unfold link at h
  split at h <;> simp [Link.parts] at h
  · exact ⟨_, h⟩
  · rcases h with h | h <;> exact ⟨_, h⟩
  · exact ⟨_, h⟩
  · exact ⟨_, h⟩

/-- The target of a conditional jump is a reference, and recorded. -/
theorem covered_of_mem_targets {target : Node} (hfit : s.Fits m)
    (h : target ∈ (s.link file).targets) : target.Covered s.branchNames := by
  obtain ⟨op, hop, hplaces⟩ := hfit
  unfold link at h
  split at h <;> simp [Link.targets] at h
  next negated operand rest hb hs =>
    subst h
    have hnames : s.branchNames = operand.bareNames := by simp [branchNames, hb, hs]
    rw [hnames]
    apply Value.covered_node (m := m)
    rw [hb] at hop
    cases hop
    exact hplaces (.reference, operand) (by simp [hs, Operator.places])

/-- The link of an operator that continues, and the operands that it is made of. -/
inductive Leaves (file : String) (s : Statement) : Operator → Link → Prop where
  | pair {head : Value} {rest : List Value} : s.operands = head :: rest →
      Leaves file s .pair (.pair (head.node file) ⟨file, s.operator.line⟩)
  | dict {key value : Value} {rest : List Value} : s.operands = key :: value :: rest →
      Leaves file s .dict (.dict (key.node file) (value.node file) ⟨file, s.operator.line⟩)
  | typeq {imm : Value} {rest : List Value} : s.operands = imm :: rest →
      Leaves file s .typeq (.typeq imm.typeTag ⟨file, s.operator.line⟩)
  | fixnum {op : FixnumOp} {imm : Value} {rest : List Value} : s.operands = imm :: rest →
      Leaves file s (.fixnum op) (.fixnumOp op imm.fixnum ⟨file, s.operator.line⟩)
  | expr {op : ExprOp} {imm : Value} {rest : List Value} : s.operands = imm :: rest →
      Leaves file s (.expr op) (.exprOp op (imm.node file) ⟨file, s.operator.line⟩)
  | depth : Leaves file s .depth (.depth ⟨file, s.operator.line⟩)
  | branch {negated : Bool} {target : Value} {rest : List Value} : s.operands = target :: rest →
      Leaves file s (.branch negated) (.branch (target.node file) negated ⟨file, s.operator.line⟩)
  | mnemonic {op : MnemonicOp} {imm : Value} {rest : List Value} : s.operands = imm :: rest →
      Leaves file s (.mnemonic op) (.mnemonicOp op imm.token.text ⟨file, s.operator.line⟩)

theorem leaves_link (file : String) (hop : s.operation? = some op) (hc : op.continues)
    (hn : op.required ≤ s.operands.length) : s.Leaves file op (s.link file) := by
  rw [link, hop]
  cases op with
  | ref | finish => cases hc
  | depth => exact .depth
  | dict =>
    obtain ⟨key, value, rest, hs⟩ := Stage.exists_cons_cons hn
    rw [hs]
    exact .dict hs
  | _ =>
    obtain ⟨imm, rest, hs⟩ := List.exists_cons_of_length_pos hn
    rw [hs]
    constructor
    exact hs

/-- With enough operands, the link of an operator is what the operator is. -/
theorem isInstruction_link (hop : s.operation? = some op) (hc : op.continues)
    (hn : op.required ≤ s.operands.length) : (s.link file).isInstruction = s.isInstruction := by
  have hleaves := s.leaves_link file hop hc hn
  rw [isInstruction, hop, Option.any_some]
  generalize s.link file = link at hleaves
  cases hleaves <;> rfl

end Statement

namespace Chain
variable {m : Module} {file : String} {demand : Demand} {s : Statement} {op : Operator}
  {following : List Statement}

/-- The node that a chain goes on with behind its first statement. -/
def behind (file : String) (s : Statement) : List Statement → Node
  | [] => (s.continuation?.map (Value.node file)).getD (.literal .undef)
  | next :: rest => nodeOf file next rest

theorem Formed.fits (h : Formed m demand s following) : s.Fits m := by
  cases following <;> exact h.2.1

theorem Formed.admissible (h : Formed m demand s following) : s.Admissible demand := by
  cases following <;> exact h.1

theorem Formed.required_le (h : Formed m demand s following)
    (hop : s.operation? = some op) : op.required ≤ s.operands.length := by
  cases following with
  | nil =>
    rw [(ends_iff hop).mp h.2.2.1]
    exact Nat.le_add_right _ _
  | cons next rest => exact Nat.le_of_eq ((links_iff hop).mp h.2.2.1).2.symm

/-- At the end of a chain an operator that continues has an operand to go on with. -/
theorem Formed.exists_continuation (h : Formed m demand s []) (hop : s.operation? = some op)
    (hc : op.continues) : ∃ value, s.continuation? = some value := by
  have hlen := (ends_iff hop).mp h.2.2.1
  have hlimit : op.limit = op.required + 1 := by rw [Operator.limit, if_pos hc]
  rw [continuation?_eq hop hc]
  exact ⟨_, List.getElem?_eq_getElem (show op.required < s.operands.length by omega)⟩

/-- An operator that continues closes its link around what is behind it. -/
theorem Formed.nodeOf_eq_close (h : Formed m demand s following) (hop : s.operation? = some op)
    (hc : op.continues) : nodeOf file s following = (s.link file).close (behind file s following) := by
  cases following with
  | cons next rest => rfl
  | nil =>
    obtain ⟨value, hvalue⟩ := h.exists_continuation hop hc
    simp [nodeOf, behind, hvalue, endNode_eq hop hc hvalue]

/-- An operator that does not continue ends the chain, with an operand. -/
theorem Formed.following_eq_nil (h : Formed m demand s following) (hop : s.operation? = some op)
    (hc : op.continues = false) : following = [] := by
  cases following with
  | nil => rfl
  | cons next rest =>
    have hcont := ((links_iff hop).mp h.2.2.1).1
    rw [hc] at hcont
    cases hcont

theorem behind_nil {value : Value} (hvalue : s.continuation? = some value) :
    behind file s [] = value.node file := by
  rw [behind, hvalue, Option.map_some, Option.getD_some]

/-- What the first statement makes of a chain: a link around what is behind it, a mere reference, or
the instruction that ends chains. -/
inductive Head (file : String) (s : Statement) : List Statement → Prop where
  | link {op : Operator} {following : List Statement} : s.operation? = some op → op.continues →
      op.required ≤ s.operands.length →
      nodeOf file s following = (s.link file).close (behind file s following) →
      Head file s following
  | ref {value : Value} : s.operation? = some .ref → s.operands = [value] →
      s.continuation? = some value → nodeOf file s [] = value.node file → Head file s []
  | finish {operand : Value} : s.operation? = some .finish → s.operands = [operand] →
      nodeOf file s [] = .finish operand.token.text ⟨file, s.operator.line⟩ → Head file s []

theorem Formed.head (h : Formed m demand s following) (file : String) : Head file s following := by
  obtain ⟨op, hop, -⟩ := h.fits
  cases hc : op.continues with
  | true => exact .link hop hc (h.required_le hop) (h.nodeOf_eq_close hop hc)
  | false =>
    obtain rfl := h.following_eq_nil hop hc
    have hlength := (ends_iff hop).mp h.2.2.1
    cases op with
    | ref =>
      obtain ⟨value, hs⟩ := List.length_eq_one_iff.mp hlength
      have hvalue : s.continuation? = some value := by
        rw [Statement.continuation?, hop, hs]
        rfl
      exact .ref hop hs hvalue (by rw [nodeOf, Statement.endNode, hop, hvalue])
    | finish =>
      obtain ⟨operand, hs⟩ := List.length_eq_one_iff.mp hlength
      exact .finish hop hs (by rw [nodeOf, Statement.endNode, hop, hs])
    | _ => cases hc

/-- A chain that is nothing but a reference stands for what its operand stands for. -/
theorem Formed.nodeOf_of_ref (h : Formed m demand s following) (hop : s.operation? = some .ref)
    (file : String) : ∃ value, s.continuation? = some value ∧ nodeOf file s following = value.node file := by
  cases h.head file with
  | link hop' hc =>
    cases hop.symm.trans hop'
    cases hc
  | ref _ _ hvalue hnode => exact ⟨_, hvalue, hnode⟩
  | finish hop' => cases hop.symm.trans hop'

/-- Unless it is a mere reference, a chain stands for an instruction if and only if it begins with
one. It never is a reference then. -/
theorem Formed.nodeOf_of_ne_ref (h : Formed m demand s following) (hop : s.operation? = some op)
    (hr : op ≠ .ref) (file : String) :
    (nodeOf file s following).isInstruction = s.isInstruction ∧
      ∀ target debug, nodeOf file s following ≠ .reference target debug := by
  cases h.head file with
  | link hop' hc hn hnode =>
    rw [hnode, Link.isInstruction_close, Statement.isInstruction_link hop' hc hn]
    exact ⟨rfl, fun target debug => Link.close_ne_reference⟩
  | ref hop' => exact absurd (Option.some.inj (hop.symm.trans hop')) hr
  | finish hop' _ hnode =>
    rw [hnode, Statement.isInstruction, hop']
    exact ⟨rfl, fun target debug => Node.noConfusion⟩

/-- Where an instruction is demanded, the chain stands for one, up to the names recorded. -/
theorem Formed.covered_nodeOf (h : Formed m .instruction s following) :
    (nodeOf file s following).Covered (namesOf .instruction s following) := by
  obtain ⟨op, hop, -⟩ := h.fits
  by_cases hr : op = .ref
  · subst hr
    obtain rfl := h.following_eq_nil hop rfl
    obtain ⟨value, hvalue, hnode⟩ := h.nodeOf_of_ref hop file
    have hbehind : Demand.instruction.behind s = .instruction := by
      unfold Demand.behind
      split <;> rfl
    have hcont := h.2.2.2 value hvalue
    rw [hbehind] at hcont
    rw [hnode]
    apply (Value.covered_node hcont).mono
    simp [namesOf, hvalue, hbehind, Value.recorded]
  · left
    apply Node.isTarget_of_isInstruction
    rw [(h.nodeOf_of_ne_ref hop hr file).1]
    have hdata := h.admissible rfl
    rw [Statement.isData, hop] at hdata
    rw [Statement.isInstruction, hop]
    cases op <;> first | rfl | contradiction

/-- Behind an instruction comes what has to be one, too. -/
theorem Formed.covered_behind (h : Formed m demand s following) (hop : s.operation? = some op)
    (hc : op.continues) (hi : s.isInstruction) :
    (behind file s following).Covered (namesOf demand s following) := by
  have hbehind : demand.behind s = .instruction := if_pos hi
  cases following with
  | cons next rest =>
    have hrest := h.2.2.2
    rw [hbehind] at hrest
    apply hrest.covered_nodeOf.mono
    simp [namesOf, hbehind]
  | nil =>
    obtain ⟨value, hvalue⟩ := h.exists_continuation hop hc
    have hcont := h.2.2.2 value hvalue
    rw [hbehind] at hcont
    rw [behind_nil hvalue]
    apply (Value.covered_node hcont).mono
    simp [namesOf, hvalue, hbehind, Value.recorded]

private theorem branchNames_subset : s.branchNames ⊆ namesOf demand s following := by
  cases following <;> exact List.subset_append_left _ _

private theorem Formed.mem_behind_of_slots (h : Formed m demand s following) {node slot : Node}
    (hnode : node ∈ (nodeOf file s following).subnodes) (hslot : slot ∈ node.slots) :
    slot.Covered (namesOf demand s following) ∨ node ∈ (behind file s following).subnodes := by
  cases h.head file with
  | ref _ _ _ heq =>
    rw [heq] at hnode
    rw [Value.slots_eq_nil_of_mem_subnodes hnode] at hslot
    cases hslot
  | finish _ _ heq =>
    rw [heq] at hnode
    obtain rfl := List.mem_singleton.mp hnode
    cases hslot
  | link hop hc hn heq =>
    rw [heq, Link.mem_subnodes_close] at hnode
    rcases hnode with rfl | ⟨part, hpart, hnode⟩ | hnode
    · obtain ⟨hi, hslot⟩ := Link.mem_slots_close.mp hslot
      rw [Statement.isInstruction_link hop hc hn] at hi
      rcases hslot with rfl | htarget
      · exact .inl (h.covered_behind hop hc hi)
      · exact .inl ((Statement.covered_of_mem_targets h.fits htarget).mono branchNames_subset)
    · obtain ⟨value, rfl⟩ := Statement.exists_value_of_mem_parts hpart
      rw [Value.slots_eq_nil_of_mem_subnodes hnode] at hslot
      cases hslot
    · exact .inr hnode

/-- Nothing but instructions stands in the slots of the node of a chain, up to the names recorded.
The induction takes one statement after another from the front of the chain. -/
theorem Formed.covered_slots (h : Formed m demand s following) :
    ∀ node ∈ (nodeOf file s following).subnodes, ∀ slot ∈ node.slots,
      slot.Covered (namesOf demand s following) := by
  induction following generalizing demand s with
  | nil =>
    intro node hnode slot hslot
    rcases h.mem_behind_of_slots hnode hslot with hcov | hbehind
    · exact hcov
    · unfold behind at hbehind
      cases hv : s.continuation? with
      | none =>
        rw [hv] at hbehind
        obtain rfl := List.mem_singleton.mp hbehind
        cases hslot
      | some value =>
        rw [hv, Option.map_some, Option.getD_some] at hbehind
        rw [Value.slots_eq_nil_of_mem_subnodes hbehind] at hslot
        cases hslot
  | cons next rest ih =>
    intro node hnode slot hslot
    rcases h.mem_behind_of_slots hnode hslot with hcov | hbehind
    · exact hcov
    · exact (ih h.2.2.2 node hbehind slot hslot).mono (List.subset_append_right _ _)

end Chain

end ActorAsm
