import ActorAsm.Proofs.Node.Statements

/-! Linear chains. Nodes could be nested in any way, but those of chains are made by one grammar:
pairs and dictionaries first, then instructions, and beside them nothing but simple nodes. -/

namespace ActorAsm

namespace Node
variable {root node input next k : Node} {demand : Demand}

/-- Pairs and dictionaries. -/
def isCell : Node → Bool
  | .pair _ _ _ | .dict _ _ _ _ => true
  | _ => false

def isReference : Node → Bool
  | .reference _ _ => true
  | _ => false

/-- The nodes directly within a node that it does not go on with. -/
def inputs : Node → List Node
  | .pair head _ _ => [head]
  | .dict key value _ _ => [key, value]
  | .exprOp _ imm _ _ => [imm]
  | _ => []

/-- What a node goes on with: the slots of an instruction, or what stands behind a pair or a
dictionary. -/
def continuations : Node → List Node
  | .pair _ tail _ => [tail]
  | .dict _ _ next _ => [next]
  | node => node.slots

/-- There are no other nodes within a node than its inputs, its continuations, and those within
them. -/
theorem subnodes_eq (node : Node) :
    node.subnodes = node :: (node.inputs ++ node.continuations).flatMap subnodes := by
  cases node <;> simp [subnodes, inputs, continuations, slots]

private theorem mem_subnodes_self (node : Node) : node ∈ node.subnodes := by
  rw [subnodes_eq]
  exact List.mem_cons_self

private theorem subnodes_subset_of_mem_continuations (h : next ∈ node.continuations) :
    next.subnodes ⊆ node.subnodes := by
  intro other hother
  rw [subnodes_eq node]
  exact List.mem_cons_of_mem _ (List.mem_flatMap_of_mem (List.mem_append_right _ h) hother)

/-- Induction over nodes, with what is directly within a node taken together. -/
theorem induction_on_direct {P : Node → Prop}
    (step : ∀ node : Node, (∀ direct ∈ node.inputs ++ node.continuations, P direct) → P node)
    (node : Node) : P node := by
  induction node <;> apply step <;> simp [inputs, continuations, slots, *]

/-- What holds of a node, and with each node also of those directly within it, holds of all nodes
within it. -/
theorem forall_mem_subnodes {P : Node → Prop}
    (hinputs : ∀ node, P node → ∀ input ∈ node.inputs, P input)
    (hcontinuations : ∀ node, P node → ∀ next ∈ node.continuations, P next) (hroot : P root) :
    ∀ node ∈ root.subnodes, P node := by
  induction root using induction_on_direct with
  | step root ih =>
    intro node hnode
    rw [subnodes_eq, List.mem_cons, List.mem_flatMap] at hnode
    rcases hnode with rfl | ⟨direct, hdirect, hnode⟩
    · exact hroot
    · have hholds : P direct := (List.mem_append.mp hdirect).elim (hinputs root hroot direct)
        (hcontinuations root hroot direct)
      exact ih direct hdirect hholds node hnode

/-- The grammar of chains, by what is demanded where the node stands. Behind an instruction only
instructions and references are left, and a jump has a reference for one of its two ways. -/
inductive Linear : Demand → Node → Prop where
  | simple {node : Node} : node.isSimple → Linear .anything node
  | reference (target : Target) (debug : Debug) : Linear .instruction (.reference target debug)
  | pair {head tail : Node} {debug : Debug} : head.isSimple → Linear .anything tail →
      Linear .anything (.pair head tail debug)
  | dict {key value next : Node} {debug : Debug} : key.isSimple → value.isSimple →
      Linear .anything next → Linear .anything (.dict key value next debug)
  | typeq {demand : Demand} {imm : TypeTag} {k : Node} {debug : Debug} : Linear .instruction k →
      Linear demand (.typeq imm k debug)
  | fixnumOp {demand : Demand} {op : FixnumOp} {imm : Int} {k : Node} {debug : Debug} :
      Linear .instruction k → Linear demand (.fixnumOp op imm k debug)
  | exprOp {demand : Demand} {op : ExprOp} {imm k : Node} {debug : Debug} : imm.isSimple →
      Linear .instruction k → Linear demand (.exprOp op imm k debug)
  | depth {demand : Demand} {k : Node} {debug : Debug} : Linear .instruction k →
      Linear demand (.depth k debug)
  | branch {demand : Demand} {target k : Node} {debug : Debug} : target.isReference →
      Linear .instruction k → Linear demand (.branch target k debug)
  | negatedBranch {demand : Demand} {target k : Node} {debug : Debug} : target.isReference →
      Linear .instruction k → Linear demand (.branch k target debug)
  | mnemonicOp {demand : Demand} {op : MnemonicOp} {imm : String} {k : Node} {debug : Debug} :
      imm ∈ op.mnemonics → Linear .instruction k → Linear demand (.mnemonicOp op imm k debug)
  | finish {demand : Demand} {imm : String} {debug : Debug} : imm ∈ endMnemonics →
      Linear demand (.finish imm debug)

private theorem isSimple_of_isReference (h : node.isReference) : node.isSimple := by
  cases node with
  | reference target debug => rfl
  | _ => cases h

private theorem linear_of_isReference (h : node.isReference) : node.Linear demand := by
  cases demand with
  | anything => exact .simple (isSimple_of_isReference h)
  | instruction =>
    cases node with
    | reference target debug => exact .reference target debug
    | _ => cases h

private theorem inputs_eq_nil_of_isSimple (h : node.isSimple) : node.inputs = [] := by
  cases node <;> first | rfl | cases h

private theorem continuations_eq_nil_of_isSimple (h : node.isSimple) : node.continuations = [] := by
  cases node <;> first | rfl | cases h

private theorem isData_eq_false_iff :
    node.isData = false ↔ node.isInstruction ∨ node.isReference := by
  cases node <;> simp [isData, isInstruction, isReference]

private theorem isCell_eq_false (h : node.isData = false) : node.isCell = false := by
  cases node <;> first | rfl | cases h

private theorem eq_exprOp_of_mem_inputs (hi : node.isInstruction) (hinput : input ∈ node.inputs) :
    ∃ op k debug, node = .exprOp op input k debug := by
  cases node with
  | exprOp op imm k debug =>
    rw [List.mem_singleton.mp hinput]
    exact ⟨op, k, debug, rfl⟩
  | pair | dict => cases hi
  | _ => cases hinput

namespace Linear

theorem not_isData (h : node.Linear .instruction) : node.isData = false := by
  cases h <;> rfl

/-- Whatever is no data can stand where an instruction is demanded. -/
theorem of_not_isData (h : node.Linear .anything) (hdata : node.isData = false) :
    node.Linear .instruction := by
  cases h with
  | simple hs =>
    cases node with
    | reference target debug => exact .reference target debug
    | literal | typeTag | fixnum => cases hdata
    | _ => cases hs
  | pair | dict => cases hdata
  | typeq hk => exact .typeq hk
  | fixnumOp hk => exact .fixnumOp hk
  | exprOp himm hk => exact .exprOp himm hk
  | depth hk => exact .depth hk
  | branch htarget hk => exact .branch htarget hk
  | negatedBranch htarget hk => exact .negatedBranch htarget hk
  | mnemonicOp himm hk => exact .mnemonicOp himm hk
  | finish himm => exact .finish himm

theorem isSimple_of_mem_inputs (h : node.Linear demand) (hinput : input ∈ node.inputs) :
    input.isSimple := by
  cases h with
  | simple hs =>
    rw [inputs_eq_nil_of_isSimple hs] at hinput
    cases hinput
  | pair hhead | exprOp hhead => rwa [List.mem_singleton.mp hinput]
  | dict hkey hvalue =>
    rcases List.mem_pair.mp hinput with rfl | rfl
    · exact hkey
    · exact hvalue
  | _ => cases hinput

/-- Once an instruction has come, instructions are demanded for good. -/
theorem of_mem_continuations (h : node.Linear demand) (hnext : next ∈ node.continuations) :
    next.Linear (if node.isInstruction then .instruction else demand) := by
  cases h with
  | simple hs =>
    rw [continuations_eq_nil_of_isSimple hs] at hnext
    cases hnext
  | reference | finish => cases hnext
  | pair _ hk | dict _ _ hk | typeq hk | fixnumOp hk | exprOp _ hk | depth hk | mnemonicOp _ hk =>
    rwa [List.mem_singleton.mp hnext]
  | branch htarget hk =>
    rcases List.mem_pair.mp hnext with rfl | rfl
    · exact linear_of_isReference htarget
    · exact hk
  | negatedBranch htarget hk =>
    rcases List.mem_pair.mp hnext with rfl | rfl
    · exact hk
    · exact linear_of_isReference htarget

/-- Behind an instruction there are no data, however far one goes on. -/
theorem of_mem_path {path : List Node} (h : node.Linear .instruction)
    (hpath : (node :: path).IsChain fun node next => next ∈ node.continuations) :
    ∀ later ∈ path, later.Linear .instruction := by
  induction path generalizing node with
  | nil => simp
  | cons next path ih =>
    rw [List.isChain_cons_cons] at hpath
    have hnext := h.of_mem_continuations hpath.1
    rw [ite_self] at hnext
    exact List.forall_mem_cons.mpr ⟨hnext, ih hnext hpath.2⟩

/-- On every way along continuations pairs and dictionaries come first. -/
theorem pairwise_path {path : List Node} (h : node.Linear demand)
    (hpath : (node :: path).IsChain fun node next => next ∈ node.continuations) :
    (node :: path).Pairwise fun earlier later => earlier.isInstruction → later.isCell = false := by
  induction path generalizing node demand with
  | nil => exact List.pairwise_singleton _ _
  | cons next path ih =>
    have hsteps := List.isChain_cons_cons.mp hpath
    have hnext := h.of_mem_continuations hsteps.1
    refine List.pairwise_cons.mpr ⟨fun later hlater hi => ?_, ih hnext hsteps.2⟩
    rw [if_pos hi] at hnext
    have hlinear : later.Linear .instruction :=
      List.forall_mem_cons.mpr ⟨hnext, hnext.of_mem_path hsteps.2⟩ later hlater
    exact isCell_eq_false hlinear.not_isData

end Linear

/-- What the grammar comes to, told of all nodes within a node. Whatever is below an instruction is
a continuation or an input of that instruction or of a node below it. -/
structure Chained (root : Node) : Prop where
  pair : ∀ head tail debug, .pair head tail debug ∈ root.subnodes → head.isSimple
  dict : ∀ key value next debug, .dict key value next debug ∈ root.subnodes →
    key.isSimple ∧ value.isSimple
  exprOp : ∀ op imm k debug, .exprOp op imm k debug ∈ root.subnodes → imm.isSimple
  branch : ∀ onTrue onFalse debug, .branch onTrue onFalse debug ∈ root.subnodes →
    onTrue.isReference ∨ onFalse.isReference
  mnemonicOp : ∀ op imm k debug, .mnemonicOp op imm k debug ∈ root.subnodes → imm ∈ op.mnemonics
  finish : ∀ imm debug, .finish imm debug ∈ root.subnodes → imm ∈ endMnemonics
  below : ∀ top ∈ root.subnodes, top.isInstruction → ∀ node ∈ top.subnodes,
    (∀ next ∈ node.continuations, next.isData = false) ∧
      ∀ input ∈ node.inputs, input.isSimple ∧ ∃ op k debug, node = .exprOp op input k debug
  order : ∀ first ∈ root.subnodes, ∀ path : List Node,
    (first :: path).IsChain (fun node next => next ∈ node.continuations) →
      (first :: path).Pairwise fun earlier later => earlier.isInstruction → later.isCell = false

theorem Chained.mono (h : root.Chained) (hsub : node.subnodes ⊆ root.subnodes) : node.Chained where
  pair head tail debug hmem := h.pair head tail debug (hsub hmem)
  dict key value next debug hmem := h.dict key value next debug (hsub hmem)
  exprOp op imm k debug hmem := h.exprOp op imm k debug (hsub hmem)
  branch onTrue onFalse debug hmem := h.branch onTrue onFalse debug (hsub hmem)
  mnemonicOp op imm k debug hmem := h.mnemonicOp op imm k debug (hsub hmem)
  finish imm debug hmem := h.finish imm debug (hsub hmem)
  below top hmem := h.below top (hsub hmem)
  order first hmem := h.order first (hsub hmem)

namespace Linear

theorem exists_of_mem_subnodes (h : root.Linear demand) :
    ∀ node ∈ root.subnodes, ∃ demand, node.Linear demand := by
  refine forall_mem_subnodes (P := fun node => ∃ demand, node.Linear demand) ?_ ?_ ⟨demand, h⟩
  · rintro node ⟨demand, h⟩ input hinput
    exact ⟨.anything, .simple (h.isSimple_of_mem_inputs hinput)⟩
  · rintro node ⟨demand, h⟩ next hnext
    exact ⟨_, h.of_mem_continuations hnext⟩

/-- Within an instruction there are instructions and simple nodes. -/
theorem simple_or_instruction (h : root.Linear demand) (hi : root.isInstruction) :
    ∀ node ∈ root.subnodes, node.isSimple ∨ node.isInstruction ∧ ∃ demand, node.Linear demand := by
  refine forall_mem_subnodes
    (P := fun node => node.isSimple ∨ node.isInstruction ∧ ∃ demand, node.Linear demand) ?_ ?_
    (.inr ⟨hi, demand, h⟩)
  · rintro node (hs | ⟨-, demand, h⟩) input hinput
    · rw [inputs_eq_nil_of_isSimple hs] at hinput
      cases hinput
    · exact .inl (h.isSimple_of_mem_inputs hinput)
  · rintro node (hs | ⟨hi, demand, h⟩) next hnext
    · rw [continuations_eq_nil_of_isSimple hs] at hnext
      cases hnext
    · have hlinear := h.of_mem_continuations hnext
      rw [if_pos hi] at hlinear
      rcases isData_eq_false_iff.mp hlinear.not_isData with hi | hr
      · exact .inr ⟨hi, _, hlinear⟩
      · exact .inl (isSimple_of_isReference hr)

theorem chained (h : root.Linear demand) : root.Chained where
  pair head tail debug hmem := by
    obtain ⟨demand, h⟩ := h.exists_of_mem_subnodes _ hmem
    exact h.isSimple_of_mem_inputs List.mem_cons_self
  dict key value next debug hmem := by
    obtain ⟨demand, h⟩ := h.exists_of_mem_subnodes _ hmem
    exact ⟨h.isSimple_of_mem_inputs (List.mem_pair.mpr (.inl rfl)),
      h.isSimple_of_mem_inputs (List.mem_pair.mpr (.inr rfl))⟩
  exprOp op imm k debug hmem := by
    obtain ⟨demand, h⟩ := h.exists_of_mem_subnodes _ hmem
    exact h.isSimple_of_mem_inputs List.mem_cons_self
  branch onTrue onFalse debug hmem := by
    obtain ⟨demand, h⟩ := h.exists_of_mem_subnodes _ hmem
    cases h with
    | simple hs => cases hs
    | branch htarget => exact .inl htarget
    | negatedBranch htarget => exact .inr htarget
  mnemonicOp op imm k debug hmem := by
    obtain ⟨demand, h⟩ := h.exists_of_mem_subnodes _ hmem
    cases h with
    | simple hs => cases hs
    | mnemonicOp himm => exact himm
  finish imm debug hmem := by
    obtain ⟨demand, h⟩ := h.exists_of_mem_subnodes _ hmem
    cases h with
    | simple hs => cases hs
    | finish himm => exact himm
  below top htop hi node hnode := by
    obtain ⟨demand, h⟩ := h.exists_of_mem_subnodes top htop
    rcases h.simple_or_instruction hi node hnode with hs | ⟨hi, demand, h⟩
    · simp [inputs_eq_nil_of_isSimple hs, continuations_eq_nil_of_isSimple hs]
    · refine ⟨fun next hnext => ?_, fun input hinput => ?_⟩
      · have hlinear := h.of_mem_continuations hnext
        rw [if_pos hi] at hlinear
        exact hlinear.not_isData
      · exact ⟨h.isSimple_of_mem_inputs hinput, eq_exprOp_of_mem_inputs hi hinput⟩
  order first hmem path hpath := by
    obtain ⟨demand, h⟩ := h.exists_of_mem_subnodes first hmem
    exact h.pairwise_path hpath

end Linear

/-- The other way round: no more is asked by the grammar. -/
theorem Chained.linear (h : root.Chained) : root.Linear .anything := by
  induction root using induction_on_direct with
  | step root ih =>
    have hanything : ∀ next ∈ root.continuations, next.Linear .anything := fun next hnext =>
      ih next (List.mem_append_right _ hnext) (h.mono (subnodes_subset_of_mem_continuations hnext))
    have hself := root.mem_subnodes_self
    have hk (hi : root.isInstruction) : ∀ next ∈ root.continuations, next.Linear .instruction :=
      fun next hnext => (hanything next hnext).of_not_isData
        ((h.below root hself hi root hself).1 next hnext)
    cases root with
    | literal | typeTag | fixnum | reference => exact .simple rfl
    | pair head tail debug =>
      exact .pair (h.pair _ _ _ hself) (hanything tail List.mem_cons_self)
    | dict key value next debug =>
      obtain ⟨hkey, hvalue⟩ := h.dict _ _ _ _ hself
      exact .dict hkey hvalue (hanything next List.mem_cons_self)
    | typeq imm k debug => exact .typeq (hk rfl k List.mem_cons_self)
    | fixnumOp op imm k debug => exact .fixnumOp (hk rfl k List.mem_cons_self)
    | exprOp op imm k debug =>
      exact .exprOp (h.exprOp _ _ _ _ hself) (hk rfl k List.mem_cons_self)
    | depth k debug => exact .depth (hk rfl k List.mem_cons_self)
    | branch onTrue onFalse debug =>
      rcases h.branch _ _ _ hself with htarget | htarget
      · exact .branch htarget (hk rfl onFalse (List.mem_pair.mpr (.inr rfl)))
      · exact .negatedBranch htarget (hk rfl onTrue List.mem_cons_self)
    | mnemonicOp op imm k debug =>
      exact .mnemonicOp (h.mnemonicOp _ _ _ _ hself) (hk rfl k List.mem_cons_self)
    | finish imm debug => exact .finish (h.finish _ _ hself)

/-- The grammar makes exactly the nodes that are chained. -/
theorem linear_iff_chained : root.Linear .anything ↔ root.Chained :=
  ⟨Linear.chained, Chained.linear⟩

end Node

namespace Value
variable {m : Module} {file : String} {demand : Demand} {value : Value}

private theorem isReference_node (h : value.IsReference m) : (value.node file).isReference := by
  cases value with
  | reference target => cases target <;> rfl
  | literal | number => cases h

private theorem linear_node (h : value.Continues m demand) : (value.node file).Linear demand := by
  cases demand with
  | anything => exact .simple isSimple_node
  | instruction => exact Node.linear_of_isReference (isReference_node h)

end Value

namespace Statement
variable {m : Module} {file : String} {demand : Demand} {s : Statement} {op : Operator} {k : Node}

/-- A statement adds one production: closed around what may stand behind the statement, its link may
stand where the statement does. -/
theorem linear_link_close (hop : s.operation? = some op) (hc : op.continues)
    (hn : op.required ≤ s.operands.length) (hfit : s.Fits m) (hadm : s.Admissible demand)
    (hk : k.Linear (demand.behind s)) : ((s.link file).close k).Linear demand := by
  have hplaces := (Chain.fits_iff hop).mp hfit
  have hdata : op.isData → demand = .anything := fun hdata =>
    hadm.demand_eq (by rwa [isData, hop, Option.any_some])
  rw [Demand.behind, isInstruction, hop, Option.any_some] at hk
  have hleaves := s.leaves_link file hop hc hn
  generalize s.link file = link at hleaves
  cases hleaves with
  | depth => exact .depth hk
  | pair =>
    obtain rfl := hdata rfl
    exact .pair Value.isSimple_node hk
  | dict =>
    obtain rfl := hdata rfl
    exact .dict Value.isSimple_node Value.isSimple_node hk
  | typeq => exact .typeq hk
  | fixnum => exact .fixnumOp hk
  | expr => exact .exprOp Value.isSimple_node hk
  | @branch negated target rest hs =>
    rw [hs] at hplaces
    have hfits : target.IsReference m := hplaces (.reference, target) List.mem_cons_self
    cases negated with
    | false => exact .branch (Value.isReference_node hfits) hk
    | true => exact .negatedBranch (Value.isReference_node hfits) hk
  | @mnemonic op imm rest hs =>
    rw [hs] at hplaces
    have hfits := hplaces (.mnemonic op.mnemonics, imm) List.mem_cons_self
    obtain ⟨name, rfl⟩ := Value.eq_bare_of_fits hfits
    exact .mnemonicOp hfits hk

end Statement

namespace Chain
variable {m : Module} {demand : Demand} {s : Statement} {following : List Statement}

/-- Chains make nodes by the grammar. The induction takes one statement after another from the front
of the chain, and with each of them what is demanded behind it. -/
theorem Formed.linear (h : Formed m demand s following) (file : String) :
    (nodeOf file s following).Linear demand := by
  induction following generalizing demand s with
  | nil =>
    cases h.head file with
    | link hop hc hn hnode =>
      obtain ⟨value, hvalue⟩ := h.exists_continuation hop hc
      rw [hnode, behind_nil hvalue]
      exact Statement.linear_link_close hop hc hn h.fits h.admissible
        (Value.linear_node (h.2.2.2 value hvalue))
    | ref hop _ hvalue hnode =>
      have hcont := h.2.2.2 _ hvalue
      rw [Demand.behind_of_ref hop] at hcont
      rw [hnode]
      exact Value.linear_node hcont
    | @finish operand hop hs hnode =>
      have hplaces := (fits_iff hop).mp h.fits
      rw [hs] at hplaces
      have hfits := hplaces (.mnemonic endMnemonics, operand) List.mem_cons_self
      obtain ⟨name, rfl⟩ := Value.eq_bare_of_fits hfits
      rw [hnode]
      exact .finish hfits
  | cons next rest ih =>
    obtain ⟨op, hop, hc, hlength⟩ := h.2.2.1
    exact Statement.linear_link_close hop hc hlength.ge h.fits h.admissible (ih h.2.2.2)

end Chain

end ActorAsm
