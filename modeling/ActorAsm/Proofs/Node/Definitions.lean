import ActorAsm.Proofs.Node.Chains

/-! Definitions as a whole. What is asked of the statements one by one, with a demand handed from
each to the next, is what well-formed definitions are; the names recorded for a definition are its
instruction names. -/

namespace ActorAsm

/-- What is demanded behind some statements. -/
def Demand.behindAll (demand : Demand) (statements : List Statement) : Demand :=
  if statements.any Statement.isInstruction then .instruction else demand

namespace Definition

/-- The node of the definition. -/
def node (file : String) (d : Definition) : Node := Chain.nodeOf file d.statement d.following

/-- How the length of the chain is counted. -/
def chainLength (d : Definition) : Nat := Chain.lengthOf d.statement d.following

end Definition

section Demands
variable {demand : Demand} {s : Statement}

private theorem behindAll_cons (statements : List Statement) :
    demand.behindAll (s :: statements) = (demand.behind s).behindAll statements := by
  simp only [Demand.behindAll, Demand.behind, List.any_cons]
  by_cases h : s.isInstruction <;> simp [h]

private theorem behindAll_singleton : demand.behindAll [s] = demand.behind s := by
  simp [Demand.behindAll, Demand.behind]

private theorem behind_eq_instruction_iff :
    demand.behind s = .instruction ↔ s.isInstruction ∨ demand = .instruction := by
  unfold Demand.behind
  split <;> simp_all

end Demands

namespace Chain
variable {m : Module} {demand : Demand} {s : Statement}

private theorem namesOf_eq (following : List Statement) :
    namesOf demand s following = (s :: following).flatMap Statement.branchNames ++
      ((s :: following).getLast (List.cons_ne_nil _ _)).continuation?.toList.flatMap
        (Value.recorded (demand.behindAll (s :: following))) := by
  induction following generalizing demand s with
  | nil => simp [namesOf, behindAll_singleton]
  | cons next rest ih =>
    simp only [namesOf, ih, behindAll_cons, List.getLast_cons_cons, List.flatMap_cons,
      List.append_assoc]

/-- Statements that can be generated one by one, told all at once. -/
structure FormedAtOnce (m : Module) (demand : Demand) (statements : List Statement)
    (final : Statement) : Prop where
  operands : ∀ s ∈ statements, s.Fits m
  front : ∀ s ∈ statements.dropLast, s.Links
  ends : final.Ends
  order : statements.Pairwise fun s t => s.isInstruction → ¬ t.isData
  admissible : ∀ s ∈ statements, s.Admissible demand
  continuation : ∀ value, final.continuation? = some value →
    value.Continues m (demand.behindAll statements)

private theorem formed_iff (following : List Statement) :
    Formed m demand s following ↔
      FormedAtOnce m demand (s :: following) ((s :: following).getLast (List.cons_ne_nil _ _)) := by
  induction following generalizing demand s with
  | nil =>
    constructor
    · rintro ⟨hadm, hfit, hend, hcont⟩
      refine ⟨by simpa using hfit, by simp, hend, List.pairwise_singleton _ _, by simpa using hadm, ?_⟩
      simpa [behindAll_singleton] using hcont
    · intro h
      refine ⟨h.admissible s (by simp), h.operands s (by simp), h.ends, ?_⟩
      simpa [behindAll_singleton] using h.continuation
  | cons next rest ih =>
    rw [Formed, ih]
    constructor
    · rintro ⟨hadm, hfit, hlink, h⟩
      refine ⟨?_, ?_, h.ends, ?_, ?_, ?_⟩
      · exact List.forall_mem_cons.mpr ⟨hfit, h.operands⟩
      · rw [List.dropLast_cons_cons]
        exact List.forall_mem_cons.mpr ⟨hlink, h.front⟩
      · refine List.pairwise_cons.mpr ⟨fun t ht hi => ?_, h.order⟩
        exact h.admissible t ht (behind_eq_instruction_iff.mpr (.inl hi))
      · refine List.forall_mem_cons.mpr ⟨hadm, fun t ht hi => ?_⟩
        exact h.admissible t ht (behind_eq_instruction_iff.mpr (.inr hi))
      · rw [behindAll_cons]
        exact h.continuation
    · intro h
      obtain ⟨hfit, hfits⟩ := List.forall_mem_cons.mp h.operands
      have hfront := h.front
      rw [List.dropLast_cons_cons] at hfront
      obtain ⟨hlink, hlinks⟩ := List.forall_mem_cons.mp hfront
      obtain ⟨hdata, horder⟩ := List.pairwise_cons.mp h.order
      obtain ⟨hadm, hadms⟩ := List.forall_mem_cons.mp h.admissible
      refine ⟨hadm, hfit, hlink, hfits, hlinks, h.ends, horder, ?_, ?_⟩
      · intro t ht hi
        rcases behind_eq_instruction_iff.mp hi with hs | hd
        · exact hdata t ht hs
        · exact hadms t ht hd
      · rw [← behindAll_cons]
        exact h.continuation

end Chain

namespace Definition
variable {m : Module} {file : String} {d : Definition}

theorem formed_iff_wellFormed :
    Chain.Formed m .anything d.statement d.following ↔ d.WellFormed m := by
  rw [Chain.formed_iff]
  have hcont (value : Value) : value.Continues m (Demand.anything.behindAll d.statements) ↔
      if d.isCode then value.IsReference m else value.IsExpression m := by
    unfold Demand.behindAll isCode
    split <;> rfl
  constructor
  · intro h
    exact ⟨h.operands, h.front, h.ends, h.order, fun value hv => (hcont value).mp (h.continuation value hv)⟩
  · intro h
    exact ⟨h.operands, h.front, h.last, h.order, fun s _ hs => Demand.noConfusion hs,
      fun value hv => (hcont value).mpr (h.continuation value hv)⟩

theorem namesOf_eq_instructionNames :
    Chain.namesOf .anything d.statement d.following = d.instructionNames := by
  rw [Chain.namesOf_eq]
  change d.statements.flatMap Statement.branchNames ++ d.last.continuation?.toList.flatMap
    (Value.recorded (Demand.anything.behindAll d.statements)) = _
  unfold instructionNames Demand.behindAll isCode
  split
  · rfl
  · congr 1
    exact List.flatMap_eq_nil_iff.mpr fun _ _ => rfl

/-- The chain of a definition is made exactly when the definition is well formed. -/
theorem chain_yields :
    (Chain.ofDefinition (Scope.ofModule m file) d).Yields (d.WellFormed m)
      ⟨d.node file, d.chainLength⟩ d.instructionNames := by
  have h : (Chain.ofDefinition (Scope.ofModule m file) d).Yields _ _ _ :=
    Chain.ofStatements_yields d.following []
  rw [namesOf_eq_instructionNames, List.length_nil, Nat.zero_add] at h
  exact h.iff formed_iff_wellFormed

end Definition

end ActorAsm
