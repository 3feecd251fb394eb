import ActorAsm.Proofs.Node.Statements

/-! Labels in the slots of instructions. Taken statement by statement, and in each as its operands are
written, they are the names recorded for the chain, because exactly where a slot is filled an
instruction is demanded. -/

namespace ActorAsm

namespace Node

/-- A reference to a label of the module. -/
def isLabel : Node → Bool
  | .reference (.label _) _ => true
  | _ => false

/-- The labels in the slots of the node and of all nodes within it. -/
def labelSlots (node : Node) : List Node := (node.subnodes.flatMap slots).filter isLabel

/-- The reference that a name of the module becomes. -/
def ofName (file : String) (name : Token) : Node :=
  .reference (.label name.text) ⟨file, name.line⟩

/-- The node, if it is a label where an instruction is demanded. -/
def owed (node : Node) (demand : Demand) : List Node :=
  if demand = .instruction then [node].filter isLabel else []

private theorem owed_anything (node : Node) : node.owed .anything = [] := rfl

private theorem owed_eq_nil {node : Node} (h : node.isLabel = false) (demand : Demand) :
    node.owed demand = [] := by
  simp [owed, h]

end Node

/-- The slots of the node of a statement, as they are written. A jump is written with its target
first, which a negated jump has in its second slot. -/
def Statement.slots (s : Statement) (node : Node) : List Node :=
  if s.operation? = some (.branch true) then node.slots.reverse else node.slots

/-- The slots of the node of some statements, one statement after another. -/
def Node.slotsAlong : Node → List Statement → List Node
  | _, [] => []
  | node, s :: statements => s.slots node ++
    match s.operation?.bind (·.next? node) with
    | some next => next.slotsAlong statements
    | none => []

namespace Value
variable {file : String} {demand : Demand} {value : Value}

private theorem slots_subnodes_node : (value.node file).subnodes.flatMap Node.slots = [] :=
  List.flatMap_eq_nil_iff.mpr fun _ => slots_eq_nil_of_mem_subnodes

private theorem slots_node : (value.node file).slots = [] :=
  slots_eq_nil_of_mem_subnodes (by rw [subnodes_node, List.mem_singleton])

/-- A name is recorded exactly where it becomes a label that is owed. -/
theorem owed_node : (value.node file).owed demand = (value.recorded demand).map (Node.ofName file) := by
  cases demand with
  | anything => rfl
  | instruction =>
    cases value with
    | literal token =>
      rw [node]
      split <;> rfl
    | number n token => rfl
    | reference target => cases target <;> rfl

end Value

private theorem Link.isLabel_close {link : Link} {k : Node} : (link.close k).isLabel = false := by
  unfold close
  split <;> rfl

namespace Statement
variable {file : String} {s : Statement} {op : Operator} {k : Node}

private theorem slots_perm (s : Statement) (node : Node) : (s.slots node).Perm node.slots := by
  unfold slots
  split
  · exact List.reverse_perm _
  · exact .refl _

/-- An instruction has its target in its slots, if it is a jump, and what is behind it. -/
theorem slots_link_close (hop : s.operation? = some op) (hc : op.continues)
    (hn : op.required ≤ s.operands.length) :
    s.slots ((s.link file).close k) =
      (s.link file).targets ++ if s.isInstruction then [k] else [] := by
  have hleaves := s.leaves_link file hop hc hn
  rw [slots, isInstruction, hop]
  generalize s.link file = link at hleaves
  cases hleaves with
  | @branch negated => cases negated <;> rfl
  | _ => rfl

private theorem filter_targets_link :
    (s.link file).targets.filter Node.isLabel = s.branchNames.map (Node.ofName file) := by
  unfold link branchNames
  split <;> simp_all [Link.targets]
  next operand _ _ _ =>
    change (operand.node file).owed .instruction = _
    exact Value.owed_node

end Statement

namespace Chain
variable {m : Module} {file : String} {demand : Demand} {s : Statement} {op : Operator}
  {following : List Statement}

/-- The slots of a chain are those of its first statement and those of what is behind. -/
theorem Formed.slotsAlong_eq (h : Formed m demand s following)
    (hop : s.operation? = some op) (hc : op.continues) :
    (nodeOf file s following).slotsAlong (s :: following) =
      s.slots (nodeOf file s following) ++ (behind file s following).slotsAlong following := by
  have hnext : s.operation?.bind (·.next? (nodeOf file s following)) =
      some (behind file s following) := by
    rw [hop, Option.bind_some, h.nodeOf_eq_close hop hc]
    exact Statement.next?_link_close hop hc (h.required_le hop)
  rw [Node.slotsAlong, hnext]

private theorem Formed.owed_behind (h : Formed m demand s following)
    (hop : s.operation? = some op) (hc : op.continues) (k : Node) :
    (if s.isInstruction then [k] else []).filter Node.isLabel = k.owed (demand.behind s) := by
  by_cases hi : s.isInstruction
  · have hbehind : demand.behind s = .instruction := if_pos hi
    rw [if_pos hi, hbehind, Node.owed, if_pos rfl]
  -- What continues and is no instruction is data, which never stand where one is demanded.
  · have hdata : s.isData := by
      rw [Statement.isInstruction, hop] at hi
      rw [Statement.isData, hop]
      cases op <;> first | rfl | contradiction
    have hbehind : demand.behind s = .anything := by
      rw [Demand.behind, if_neg hi, h.admissible.demand_eq hdata]
    rw [if_neg hi, hbehind, Node.owed_anything, List.filter_nil]

private theorem Formed.filter_slotsAlong_of_continues (h : Formed m demand s following)
    (hop : s.operation? = some op) (hc : op.continues) :
    (nodeOf file s following).owed demand ++
        ((nodeOf file s following).slotsAlong (s :: following)).filter Node.isLabel =
      s.branchNames.map (Node.ofName file) ++
        ((behind file s following).owed (demand.behind s) ++
          ((behind file s following).slotsAlong following).filter Node.isLabel) := by
  rw [h.slotsAlong_eq hop hc, h.nodeOf_eq_close hop hc, Node.owed_eq_nil Link.isLabel_close,
    Statement.slots_link_close hop hc (h.required_le hop), List.filter_append, List.filter_append,
    Statement.filter_targets_link, h.owed_behind hop hc, List.nil_append, List.append_assoc]

private theorem slotsAlong_of_slots_eq_nil {node : Node} (hslots : node.slots = []) :
    node.slotsAlong [s] = [] := by
  have hwritten : s.slots node = [] := (hslots ▸ s.slots_perm node).eq_nil
  rw [Node.slotsAlong, hwritten, List.nil_append]
  split <;> rfl

/-- The labels in the slots of a chain, and its own label if the chain has to be an instruction
itself, are the names recorded for it. The induction is on the statements behind the first one: what
these owe is what the first one has in its slot. -/
theorem Formed.filter_slotsAlong (h : Formed m demand s following) (file : String) :
    (nodeOf file s following).owed demand ++
        ((nodeOf file s following).slotsAlong (s :: following)).filter Node.isLabel =
      (namesOf demand s following).map (Node.ofName file) := by
  induction following generalizing demand s with
  | nil =>
    cases h.head file with
    | link hop hc =>
      obtain ⟨value, hvalue⟩ := h.exists_continuation hop hc
      rw [h.filter_slotsAlong_of_continues hop hc, behind_nil hvalue, Value.owed_node]
      simp [namesOf, hvalue, Node.slotsAlong]
    | ref hop _ hvalue hnode =>
      have hbehind : demand.behind s = demand := Demand.behind_of_ref hop
      rw [hnode, slotsAlong_of_slots_eq_nil Value.slots_node, Value.owed_node]
      simp [namesOf, hvalue, hbehind, Statement.branchNames, hop]
    | finish hop _ hnode =>
      have hlast : s.continuation? = none := by
        rw [Statement.continuation?, hop]
        exact List.getElem?_eq_none ((ends_iff hop).mp h.2.2.1).le
      rw [hnode, slotsAlong_of_slots_eq_nil rfl, Node.owed_eq_nil rfl]
      simp [namesOf, hlast, Statement.branchNames, hop]
  | cons next rest ih =>
    obtain ⟨op, hop, hc, -⟩ := h.2.2.1
    have hbehind : behind file s (next :: rest) = nodeOf file next rest := rfl
    rw [h.filter_slotsAlong_of_continues hop hc, hbehind, ih h.2.2.2, namesOf, List.map_append]

private theorem Formed.slotsAlong_perm_of_behind (h : Formed m demand s following)
    (hop : s.operation? = some op) (hc : op.continues)
    (hbehind : ((behind file s following).slotsAlong following).Perm
      ((behind file s following).subnodes.flatMap Node.slots)) :
    ((nodeOf file s following).slotsAlong (s :: following)).Perm
      ((nodeOf file s following).subnodes.flatMap Node.slots) := by
  have hparts : ((s.link file).parts.flatMap Node.subnodes).flatMap Node.slots = [] := by
    rw [List.flatMap_assoc, List.flatMap_eq_nil_iff]
    intro part hpart
    obtain ⟨value, rfl⟩ := Statement.exists_value_of_mem_parts hpart
    exact Value.slots_subnodes_node
  rw [h.slotsAlong_eq hop hc, h.nodeOf_eq_close hop hc]
  refine .trans ?_ (Link.subnodes_close_perm.flatMap_right _).symm
  rw [List.flatMap_cons, List.flatMap_append, hparts, List.nil_append]
  exact (s.slots_perm _).append hbehind

/-- There are no other slots in the node of a chain. -/
theorem Formed.slotsAlong_perm (h : Formed m demand s following) (file : String) :
    ((nodeOf file s following).slotsAlong (s :: following)).Perm
      ((nodeOf file s following).subnodes.flatMap Node.slots) := by
  induction following generalizing demand s with
  | nil =>
    cases h.head file with
    | link hop hc =>
      obtain ⟨value, hvalue⟩ := h.exists_continuation hop hc
      refine h.slotsAlong_perm_of_behind hop hc ?_
      rw [behind_nil hvalue, Value.slots_subnodes_node]
      exact .nil
    | ref _ _ _ hnode =>
      rw [hnode, slotsAlong_of_slots_eq_nil Value.slots_node, Value.slots_subnodes_node]
    | finish _ _ hnode =>
      rw [hnode, slotsAlong_of_slots_eq_nil rfl]
      exact .nil
  | cons next rest ih =>
    obtain ⟨op, hop, hc, -⟩ := h.2.2.1
    exact h.slotsAlong_perm_of_behind hop hc (ih h.2.2.2)

end Chain

namespace Definition.WellFormed
variable {m : Module} {d : Definition}

theorem filter_slotsAlong (h : d.WellFormed m) (file : String) :
    ((d.node file).slotsAlong d.statements).filter Node.isLabel =
      d.instructionNames.map (Node.ofName file) := by
  have hslots := (formed_iff_wellFormed.mpr h).filter_slotsAlong file
  rwa [Node.owed_anything, List.nil_append, namesOf_eq_instructionNames] at hslots

theorem slotsAlong_perm (h : d.WellFormed m) (file : String) :
    ((d.node file).slotsAlong d.statements).Perm ((d.node file).subnodes.flatMap Node.slots) :=
  (formed_iff_wellFormed.mpr h).slotsAlong_perm file

/-- No more is recorded for a definition than stands in the slots of its node. -/
theorem length_labelSlots (h : d.WellFormed m) (file : String) :
    (d.node file).labelSlots.length = d.instructionNames.length := by
  rw [Node.labelSlots, ← ((h.slotsAlong_perm file).filter _).length_eq, h.filter_slotsAlong,
    List.length_map]

end Definition.WellFormed

end ActorAsm
