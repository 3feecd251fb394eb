import ActorAsm.Proofs.Document.Resolution

/-! Searches that remember where they have been. A name is followed through the table until it stands
for something else than a label, or comes back to a name that has been looked up. Such a search comes
to an end, and what it finds is where the name leads. -/

namespace ActorAsm.DefineTable

open Relation (ReflTransGen TransGen)

variable {define : DefineTable} {seen : List String} {name : String}

section Searching

/-- The names of the entries that have not been looked up. -/
def unseen (define : DefineTable) (seen : List String) : List String :=
  (define.map Prod.fst).filter (· ∉ seen)

private theorem length_unseen_cons_lt (hdefined : name ∈ define.map Prod.fst)
    (hseen : name ∉ seen) : (define.unseen (name :: seen)).length < (define.unseen seen).length := by
  have hcons : define.unseen (name :: seen) = (define.unseen seen).filter (· ≠ name) := by
    simp [unseen, List.filter_filter]
  rw [hcons, List.length_filter_lt_length_iff_exists]
  exact ⟨name, List.mem_filter.mpr ⟨hdefined, by simpa using hseen⟩, by simp⟩

/-- Look up a name, and those that it leads to, until one has been seen before or stands for
something else than a label. The number counts the lookups. -/
def search (define : DefineTable) (seen : List String) (name : String) : Option Fault × Nat :=
  if name ∈ seen then (some .cyclicReference, 0)
  else
    match _hl : define.lookup name with
    | some (.reference (.label next) _) =>
      let (fault?, lookups) := search define (name :: seen) next
      (fault?, lookups + 1)
    | some (.reference (.external _ _) _) => (none, 1)
    | some node => (if node.isInstruction then none else some .expectedInstruction, 1)
    | none => (some .notDefined, 1)
termination_by (define.unseen seen).length
decreasing_by exact length_unseen_cons_lt (Follows.mem_keys ⟨_, ‹_›⟩) ‹_›

/-- Every lookup but the last one takes a new entry. -/
theorem lookups_search_le : (define.search seen name).2 ≤ (define.unseen seen).length + 1 := by
  fun_induction search define seen name with
  | case2 seen name hseen next debug hl fault? lookups hsearch ih =>
    have hlt := length_unseen_cons_lt (Follows.mem_keys ⟨debug, hl⟩) hseen
    rw [hsearch] at ih
    dsimp only at ih ⊢
    omega
  | _ => simp

end Searching

section Leading

/-- An entry leads on to one name at most. -/
theorem follows_rightUnique : Relator.RightUnique define.Follows := by
  rintro name next next' ⟨debug, hl⟩ ⟨debug', hl'⟩
  rw [hl] at hl'
  cases hl'
  rfl

/-- The name leads to an entry with this node. -/
def Reaches (define : DefineTable) (name : String) (node : Node) : Prop :=
  ∃ last, ReflTransGen define.Follows name last ∧ define.lookup last = some node

/-- The name leads on and on, from label to label. -/
def Circles (define : DefineTable) (name : String) : Prop :=
  ∀ last, ReflTransGen define.Follows name last → ∃ next, define.Follows last next

/-- Whatever is reached from a name that comes back to itself comes back to it, too. -/
theorem circles_of_transGen {start : String} (hstart : ReflTransGen define.Follows name start)
    (hround : TransGen define.Follows start start) : define.Circles name := by
  have hback {last : String} (hlast : ReflTransGen define.Follows start last) :
      TransGen define.Follows last start := by
    induction hlast with
    | refl => exact hround
    | tail _ hnext ih =>
      obtain ⟨next, hfirst, hrest⟩ := TransGen.head'_iff.mp ih
      rw [follows_rightUnique hnext hfirst]
      rcases Relation.reflTransGen_iff_eq_or_transGen.mp hrest with rfl | hrest
      · exact hround
      · exact hrest
  intro last hlast
  rcases ReflTransGen.total_of_right_unique follows_rightUnique hstart hlast with h | h
  · obtain ⟨next, hnext, -⟩ := TransGen.head'_iff.mp (hback h)
    exact ⟨next, hnext⟩
  · obtain ⟨next, hnext, -⟩ := TransGen.head'_iff.mp (TransGen.trans_right h hround)
    exact ⟨next, hnext⟩

/-- What is wrong with a name as an instruction, told by where it leads. -/
def Leads (define : DefineTable) (name : String) : Option Fault → Prop
  | none => ∃ node, define.Reaches name node ∧ node.isTarget
  | some .expectedInstruction => ∃ node, define.Reaches name node ∧ node.isData
  | some .cyclicReference => define.Circles name
  | some .notDefined => ∃ last, ReflTransGen define.Follows name last ∧ define.lookup last = none
  | some _ => False

/-- An entry leads where the next one leads. -/
theorem Leads.head {next : String} {fault? : Option Fault} (hstep : define.Follows name next)
    (h : define.Leads next fault?) : define.Leads name fault? := by
  have reaches {node : Node} : define.Reaches next node → define.Reaches name node :=
    fun ⟨last, hlast, hl⟩ => ⟨last, .head hstep hlast, hl⟩
  unfold Leads at h ⊢
  split at h
  · exact h.imp fun node hnode => hnode.imp_left reaches
  · exact h.imp fun node hnode => hnode.imp_left reaches
  · intro last hlast
    rcases ReflTransGen.cases_head hlast with rfl | ⟨other, hother, hlast⟩
    · exact ⟨next, hstep⟩
    · exact h last (follows_rightUnique hother hstep ▸ hlast)
  · exact h.imp fun last hlast => hlast.imp_left (.head hstep)
  · exact h

/-- What a search finds is where the name leads, unless it comes to a name that was seen before it
began. -/
theorem leads_search_or_seen :
    define.Leads name (define.search seen name).1 ∨
      (define.search seen name).1 = some .cyclicReference ∧
        ∃ last ∈ seen, ReflTransGen define.Follows name last := by
  fun_induction search define seen name with
  | case1 seen name hseen => exact .inr ⟨rfl, name, hseen, .refl⟩
  | case2 seen name hseen next debug hl fault? lookups hsearch ih =>
    have hstep : define.Follows name next := ⟨debug, hl⟩
    rw [hsearch] at ih
    rcases ih with hleads | ⟨hfault, last, hlast, hreach⟩
    · exact .inl (hleads.head hstep)
    · rcases List.mem_cons.mp hlast with rfl | hlast
      · have hcircles := circles_of_transGen .refl (.head' hstep hreach)
        exact .inl (hfault ▸ hcircles)
      · exact .inr ⟨hfault, last, hlast, .head hstep hreach⟩
  | case3 seen name hseen moduleName external debug hl =>
    exact .inl ⟨_, ⟨name, .refl, hl⟩, rfl⟩
  | case4 seen name hseen node hlabel hexternal hl =>
    have hkind : node.isTarget = node.isInstruction ∧ node.isData = !node.isInstruction := by
      cases node with
      | reference target debug =>
        cases target with
        | label next => exact (hlabel next debug rfl).elim
        | external moduleName external => exact (hexternal moduleName external debug rfl).elim
      | _ => exact ⟨rfl, rfl⟩
    left
    by_cases hi : node.isInstruction
    · rw [if_pos hi]
      exact ⟨node, ⟨name, .refl, hl⟩, hkind.1.trans hi⟩
    · rw [if_neg hi]
      exact ⟨node, ⟨name, .refl, hl⟩, by simp [hkind.2, hi]⟩
  | case5 seen name hseen hl => exact .inl ⟨name, .refl, hl⟩

theorem leads_search (name : String) : define.Leads name (define.search [] name).1 := by
  rcases leads_search_or_seen with h | ⟨-, last, hlast, -⟩
  · exact h
  · cases hlast

/-- The search that gives up after so many lookups goes where the name leads, too. -/
theorem leads_instructionFault? (name : String) :
    define.Leads name (define.instructionFault? (define.length + 1) name) := by
  cases h : define.instructionFault? (define.length + 1) name with
  | none =>
    have hleads := instructionFault?_eq_none_iff.mp h
    clear h
    induction hleads with
    | target hl htarget => exact ⟨_, ⟨_, .refl, hl⟩, htarget⟩
    | follow hl _ ih => exact ih.head ⟨_, hl⟩
  | some fault =>
    obtain ⟨last, hlast, ⟨rfl, hl⟩ | ⟨rfl, node, hl, hdata⟩ | ⟨rfl, hround⟩⟩ :=
      exists_of_instructionFault? h
    · exact ⟨last, hlast, hl⟩
    · exact ⟨node, ⟨last, hlast, hl⟩, hdata⟩
    · exact circles_of_transGen hlast hround

private def entryFault? : Option Node → Option Fault
  | some node => if node.isTarget then none else some .expectedInstruction
  | none => some .notDefined

private theorem Leads.exists_last {fault? : Option Fault} (h : define.Leads name fault?)
    (hcircle : fault? ≠ some .cyclicReference) : ∃ last, ReflTransGen define.Follows name last ∧
      (∀ next, ¬ define.Follows last next) ∧ entryFault? (define.lookup last) = fault? := by
  have ends {node : Node} (h : define.Reaches name node)
      (hlabel : ∀ next debug, node ≠ .reference (.label next) debug) :
      ∃ last, ReflTransGen define.Follows name last ∧ (∀ next, ¬ define.Follows last next) ∧
        entryFault? (define.lookup last) = entryFault? (some node) := by
    obtain ⟨last, hlast, hl⟩ := h
    refine ⟨last, hlast, ?_, by rw [hl]⟩
    rintro next ⟨debug, hnext⟩
    rw [hl] at hnext
    exact hlabel next debug (Option.some.inj hnext)
  unfold Leads at h
  split at h
  · obtain ⟨node, hreaches, htarget⟩ := h
    have hend := ends hreaches (by rintro next debug rfl; cases htarget)
    rwa [show entryFault? (some node) = none from if_pos htarget] at hend
  · obtain ⟨node, hreaches, hdata⟩ := h
    have htarget : ¬ node.isTarget := by
      cases node <;> simp_all [Node.isTarget, Node.isData]
    have hend := ends hreaches (by rintro next debug rfl; cases hdata)
    rwa [show entryFault? (some node) = _ from if_neg htarget] at hend
  · exact absurd rfl hcircle
  · obtain ⟨last, hlast, hl⟩ := h
    refine ⟨last, hlast, ?_, by rw [hl]; rfl⟩
    rintro next ⟨debug, hnext⟩
    cases hl.symm.trans hnext
  · exact h.elim

/-- A name leads one way only. -/
theorem Leads.unique {fault? fault?' : Option Fault} (h : define.Leads name fault?)
    (h' : define.Leads name fault?') : fault? = fault?' := by
  have not_circles {fault? : Option Fault} (h : define.Leads name fault?)
      (hcircle : fault? ≠ some .cyclicReference) : ¬ define.Circles name := by
    obtain ⟨last, hlast, hend, -⟩ := h.exists_last hcircle
    intro hcircles
    obtain ⟨next, hnext⟩ := hcircles last hlast
    exact hend next hnext
  by_cases hc : fault? = some .cyclicReference
  · subst hc
    by_contra hne
    exact not_circles h' (Ne.symm hne) h
  by_cases hc' : fault?' = some .cyclicReference
  · subst hc'
    exact absurd h' (not_circles h hc)
  obtain ⟨last, hlast, hend, rfl⟩ := h.exists_last hc
  obtain ⟨last', hlast', hend', rfl⟩ := h'.exists_last hc'
  rcases ReflTransGen.total_of_right_unique follows_rightUnique hlast hlast' with hreach | hreach
  · rw [(Relation.reflTransGen_iff_eq hend).mp hreach]
  · rw [(Relation.reflTransGen_iff_eq hend').mp hreach]

theorem instructionFault?_eq_iff {fault? : Option Fault} :
    define.instructionFault? (define.length + 1) name = fault? ↔ define.Leads name fault? :=
  ⟨fun h => h ▸ leads_instructionFault? name, (leads_instructionFault? name).unique⟩

end Leading

end ActorAsm.DefineTable
