import ActorAsm.Proofs.Document.Acceptance
import ActorAsm.Proofs.Node.Blame

/-! Whom a module blames. When generation fails, it fails at a token of the module, and the module
has the flaw that the fault names at that token. -/

namespace ActorAsm

section Failing
variable {σ α β : Type}

theorem bind_eq_error_iff {x : Except Failure α} {f : α → Except Failure β}
    {failure : Failure} : x >>= f = .error failure ↔
      x = .error failure ∨ ∃ a, x = .ok a ∧ f a = .error failure := by
  cases x <;> simp [bind, Except.bind]

/-- A fold that fails has taken all elements in front of one, and fails at that one. -/
theorem exists_of_foldlM_eq_error {f : σ → α → Except Failure σ} {failure : Failure}
    {l : List α} {s : σ} (h : l.foldlM f s = .error failure) :
    ∃ before a behind t, l = before ++ a :: behind ∧ before.foldlM f s = .ok t ∧
      f t a = .error failure := by
  induction l generalizing s with
  | nil => cases h
  | cons a l ih =>
    rw [List.foldlM_cons, bind_eq_error_iff] at h
    rcases h with ha | ⟨t, ht, hl⟩
    · exact ⟨[], a, l, s, rfl, rfl, ha⟩
    · obtain ⟨before, b, behind, u, rfl, hbefore, hb⟩ := ih hl
      refine ⟨a :: before, b, behind, u, rfl, ?_, hb⟩
      rw [List.foldlM_cons, ht]
      exact hbefore

/-- A check of a list fails at the first element that fails, with the failure of that element. -/
theorem forM_eq_error_iff {f : α → Except Failure Unit} {failure : Failure} {l : List α} :
    l.forM f = .error failure ↔ ∃ before a behind, l = before ++ a :: behind ∧
      (∀ b ∈ before, f b = .ok ()) ∧ f a = .error failure := by
  induction l with
  | nil => simp [List.forM, pure, Except.pure]
  | cons b l ih =>
    rw [List.forM, bind_eq_error_iff]
    constructor
    · rintro (hb | ⟨_, hb, hl⟩)
      · exact ⟨[], b, l, rfl, by simp, hb⟩
      · obtain ⟨before, a, behind, rfl, hbefore, ha⟩ := ih.mp hl
        exact ⟨b :: before, a, behind, rfl, List.forall_mem_cons.mpr ⟨hb, hbefore⟩, ha⟩
    · rintro ⟨before, a, behind, hl, hbefore, ha⟩
      cases before with
      | nil =>
        cases hl
        exact .inl ha
      | cons c before =>
        cases hl
        obtain ⟨hb, hbefore⟩ := List.forall_mem_cons.mp hbefore
        exact .inr ⟨(), hb, ih.mpr ⟨before, a, behind, rfl, hbefore, ha⟩⟩

private theorem exists_of_forM_eq_error {f : α → Except Failure Unit} {failure : Failure}
    {l : List α} (h : l.forM f = .error failure) : ∃ a ∈ l, f a = .error failure := by
  obtain ⟨before, a, behind, rfl, -, ha⟩ := forM_eq_error_iff.mp h
  exact ⟨a, List.mem_append_right _ List.mem_cons_self, ha⟩

end Failing

section Names
variable {m : Module} {d : Definition} {file name next last : String}

/-- In a well-formed definition, what has to stand for an instruction is a label. -/
theorem Definition.WellFormed.instructionNames_subset (h : d.WellFormed m) {name : Token}
    (hname : name ∈ d.instructionNames) : name.text ∈ m.labels.map Token.text := by
  have bare {value : Value} (hvalue : value.IsReference m) (hname : name ∈ value.bareNames) :
      name.text ∈ m.labels.map Token.text := by
    unfold Value.bareNames at hname
    split at hname
    · cases List.mem_singleton.mp hname
      exact hvalue
    · cases hname
  rcases List.mem_append.mp hname with hbranch | hcont
  · obtain ⟨s, hs, hname⟩ := List.mem_flatMap.mp hbranch
    obtain ⟨op, hop, hfit⟩ := h.operands s hs
    unfold Statement.branchNames at hname
    split at hname
    next negated target rest hbranch hoperands =>
      rw [hbranch] at hop
      cases hop
      have hmem : (Place.reference, target) ∈ (Operator.branch negated).places.zip s.operands := by
        simp [Operator.places, hoperands]
      exact bare (hfit _ hmem) hname
    · cases hname
  · split at hcont
    next hcode =>
      obtain ⟨value, hvalue, hname⟩ := List.mem_flatMap.mp hcont
      have hreference := h.continuation value (Option.mem_toList.mp hvalue)
      rw [if_pos hcode] at hreference
      exact bare hreference hname
    · cases hcont

/-- The operand of a mere reference is an expression. -/
theorem Definition.WellFormed.isExpression_of_ref (h : d.WellFormed m) {value : Value}
    (hop : d.statement.operation? = some .ref) (hv : d.statement.continuation? = some value) :
    value.IsExpression m := by
  have hformed := formed_iff_wellFormed.mpr h
  obtain hnil := hformed.following_eq_nil hop rfl
  rw [hnil] at hformed
  have hbehind : Demand.anything.behind d.statement = .anything := by
    rw [Demand.behind, Statement.isInstruction, hop]
    rfl
  have hcont := hformed.2.2.2 value hv
  rwa [hbehind] at hcont

namespace Module

/-- Following a name in the document is following it in the module, and leads to a label. -/
theorem follows_of_define (hn : (m.labels.map Token.text).Nodup)
    (hd : ∀ d ∈ m.definitions, d.WellFormed m) (h : (m.document file).define.Follows name next) :
    m.Follows name next ∧ next ∈ m.labels.map Token.text := by
  obtain ⟨debug, hl⟩ := h
  obtain ⟨d, hmem, hentry⟩ := (lookup_define_eq_some_iff hn).mp hl
  rcases Definition.mem_entries_iff.mp hentry with ⟨rfl, hnode⟩ | ⟨other, hother, rfl, hnode⟩
  · obtain ⟨hop, target, hv, rfl⟩ := (hd d hmem).label_cases hnode.symm
    exact ⟨.reference hmem hop hv, (hd d hmem).isExpression_of_ref hop hv⟩
  · cases hnode
    exact ⟨.grouped hmem hother,
      List.mem_map_of_mem (List.mem_flatMap.mpr ⟨d, hmem, List.mem_cons_self⟩)⟩

/-- What is data in the document is labelled as data in the module. -/
theorem labelsData_of_define (hn : (m.labels.map Token.text).Nodup)
    (hd : ∀ d ∈ m.definitions, d.WellFormed m) {node : Node}
    (hl : (m.document file).define.lookup name = some node) (hdata : node.isData) :
    m.LabelsData name := by
  obtain ⟨d, hmem, hentry⟩ := (lookup_define_eq_some_iff hn).mp hl
  rcases Definition.mem_entries_iff.mp hentry with ⟨rfl, rfl⟩ | ⟨other, -, -, rfl⟩
  · have hformed := Definition.formed_iff_wellFormed.mpr (hd d hmem)
    obtain ⟨op, hop, -⟩ := hformed.fits
    by_cases hr : op = .ref
    · subst hr
      obtain ⟨value, hv, hnode⟩ := hformed.nodeOf_of_ref hop file
      refine .value hmem hop hv fun target hvalue => ?_
      rw [Definition.node, hnode, hvalue] at hdata
      cases target <;> cases hdata
    · have hkind := hformed.nodeOf_of_ne_ref hop hr file
      have hno : ¬ d.statement.isInstruction := by
        rw [← hkind.1]
        unfold Definition.node at hdata
        cases hnode : Chain.nodeOf file d.statement d.following <;>
          simp_all [Node.isData, Node.isInstruction]
      refine .cell hmem ?_
      rw [Statement.isInstruction, hop] at hno
      rw [Statement.isData, hop]
      cases op <;> first | rfl | contradiction
  · cases hdata

/-- Everything that a label leads to is a label. -/
theorem mem_labels_of_reflTransGen (hn : (m.labels.map Token.text).Nodup)
    (hd : ∀ d ∈ m.definitions, d.WellFormed m) (hname : name ∈ m.labels.map Token.text)
    (h : Relation.ReflTransGen (m.document file).define.Follows name last) :
    last ∈ m.labels.map Token.text := by
  induction h with
  | refl => exact hname
  | tail _ hstep _ => exact (follows_of_define hn hd hstep).2

end Module

end Names

namespace Document
variable {m : Module} {d : Definition} {file : String} {failure : Failure}

private theorem blames_of_importTable (h : importTable m.imports = .error failure) :
    failure.Blames m.Flaw := by
  obtain ⟨before, i, behind, table, himports, hbefore, hadd⟩ := exists_of_foldlM_eq_error h
  obtain ⟨hnodup, rfl⟩ := importTable_eq_ok_iff.mp hbefore
  rw [addImport] at hadd
  split at hadd
  next hfound =>
    cases hadd
    have hused := isSome_lookup_iff.mp hfound
    have hgiven : m.givenNames = before.map (·.moduleName) ++
        i.moduleName :: (behind.map (·.moduleName) ++ m.labels) := by
      simp [Module.givenNames, himports]
    refine ⟨_, _, rfl, .givenAgain hgiven ?_ ?_⟩
    · simpa [Function.comp_def] using hnodup
    · simpa using hused
  · cases hadd

namespace Progress
variable {p : Progress}

/-- A label that cannot be claimed has been given before. -/
theorem blames_of_claim {before behind : List Token} {name : Token}
    (hgiven : m.givenNames = before ++ name :: behind) (hp : p.taken m = before.map Token.text)
    (hnodup : (p.taken m).Nodup) (h : p.claim (Scope.ofModule m file) name = .error failure) :
    failure.Blames m.Flaw := by
  have hused : name.text ∈ p.taken m := by
    by_contra hnew
    rw [claim_eq_ok_iff.mpr hnew] at h
    cases h
  rw [claim] at h
  split at h
  · cases h
    exact ⟨_, _, rfl, .givenAgain hgiven (hp ▸ hnodup) (hp ▸ hused)⟩
  · cases h

/-- The aliases of a definition are claimed behind its label. -/
theorem blames_of_addAliases {before behind : List Token}
    (hgiven : m.givenNames = before ++ d.aliases ++ behind) (hp : p.taken m = before.map Token.text)
    (hnodup : (p.taken m).Nodup) (h : addAliases (Scope.ofModule m file) d p = .error failure) :
    failure.Blames m.Flaw := by
  obtain ⟨others, other, rest, p', haliases, hothers, hadd⟩ := exists_of_foldlM_eq_error h
  have hfront : addAliases (Scope.ofModule m file) { d with aliases := others } p = .ok p' :=
    hothers
  obtain ⟨hnew, rfl⟩ := (addAliases_eq_ok_iff hnodup).mp hfront
  rcases bind_eq_error_iff.mp hadd with hclaim | ⟨_, -, hpure⟩
  · have hgiven' : m.givenNames = (before ++ others) ++ other :: (rest ++ behind) := by
      simp [hgiven, haliases]
    have hp' : Progress.taken m { p with
        define := p.define ++ others.map (Definition.aliasEntry file d.label) } =
        (before ++ others).map Token.text := by
      simp [taken, Definition.aliasEntry, ← hp, Function.comp_def]
    refine blames_of_claim hgiven' hp' ?_ hclaim
    rwa [hp', List.map_append, ← hp]
  · cases hpure

/-- One more definition. The names given so far are those before its label. -/
theorem blames_of_extend {before behind : List Token} (hmem : d ∈ m.definitions)
    (hgiven : m.givenNames = before ++ d.labels ++ behind)
    (hp : p.taken m = before.map Token.text) (hnodup : (p.taken m).Nodup)
    (h : p.extend (Scope.ofModule m file) d = .error failure) : failure.Blames m.Flaw := by
  rcases bind_eq_error_iff.mp h with hclaim | ⟨_, hclaim, hrest⟩
  · have hgiven' : m.givenNames = before ++ d.label :: (d.aliases ++ behind) := by
      simp [hgiven, Definition.labels]
    exact blames_of_claim hgiven' hp hnodup hclaim
  · rcases bind_eq_error_iff.mp hrest with hchain | ⟨⟨chain, recorded⟩, -, haliases⟩
    · obtain ⟨fault, token, rfl, hflaw⟩ := Definition.chain_blames _ _ hchain
      exact ⟨fault, token, rfl, .definition hmem hflaw⟩
    · have hnew := (nodup_append_singleton_iff hnodup).mpr (claim_eq_ok_iff.mp hclaim)
      have hgiven' : m.givenNames = (before ++ [d.label]) ++ d.aliases ++ behind := by
        simp [hgiven, Definition.labels]
      refine blames_of_addAliases hgiven' ?_ (by rwa [taken_insert]) haliases
      rw [taken_insert, List.map_append, ← hp]
      rfl

/-- The first definition that fails is one whose predecessors have all been added. -/
theorem blames_of_foldlM_extend (hi : (m.imports.map (·.moduleName.text)).Nodup)
    (h : m.definitions.foldlM (extend (Scope.ofModule m file)) ⟨[], #[]⟩ = .error failure) :
    failure.Blames m.Flaw := by
  obtain ⟨before, d, behind, p, hdefinitions, hbefore, hd⟩ := exists_of_foldlM_eq_error h
  have hstart : (⟨[], #[]⟩ : Progress).taken m = m.imports.map (·.moduleName.text) := by
    simp [taken]
  rw [foldlM_extend_eq_ok_iff (by rwa [hstart]), hstart] at hbefore
  obtain ⟨hnodup, -, rfl⟩ := hbefore
  have htaken : Progress.taken m ⟨[] ++ before.flatMap (Definition.entries file),
      #[] ++ (before.flatMap Definition.instructionNames).toArray⟩ =
      (m.imports.map (·.moduleName) ++ before.flatMap Definition.labels).map Token.text := by
    simp [taken, List.map_flatMap, Definition.keys_entries, Function.comp_def]
  have hgiven : m.givenNames = (m.imports.map (·.moduleName) ++ before.flatMap Definition.labels) ++
      d.labels ++ behind.flatMap Definition.labels := by
    simp [Module.givenNames, Module.labels, hdefinitions]
  refine blames_of_extend (by simp [hdefinitions]) hgiven htaken ?_ hd
  rw [htaken]
  simpa [Function.comp_def] using hnodup

end Progress

/-- A recorded name is blamed for what it leads to. Names that are not defined are none of it: only
labels have been recorded, and labels lead to labels. -/
theorem blames_of_checkInstruction {name : Token} (hnames : (m.givenNames.map Token.text).Nodup)
    (hd : ∀ d ∈ m.definitions, d.WellFormed m) (hmem : d ∈ m.definitions)
    (hname : name ∈ d.instructionNames)
    (h : (m.document file).define.checkInstruction name = .error failure) :
    failure.Blames m.Flaw := by
  have hn : (m.labels.map Token.text).Nodup := by
    rw [Module.givenNames, List.map_append] at hnames
    exact (List.nodup_append.mp hnames).2.1
  rw [DefineTable.checkInstruction] at h
  split at h
  next fault hfault =>
    cases h
    refine ⟨fault, name, rfl, ?_⟩
    have hfollows : (m.document file).define.Follows ≤ m.Follows :=
      fun _ _ hnext => (Module.follows_of_define hn hd hnext).1
    obtain ⟨last, hreach, hend⟩ := DefineTable.exists_of_instructionFault? hfault
    have hto := Relation.ReflTransGen.mono hfollows _ _ hreach
    rcases hend with ⟨-, hnone⟩ | ⟨rfl, node, hl, hdata⟩ | ⟨rfl, hround⟩
    · have hlast := Module.mem_labels_of_reflTransGen hn hd
        ((hd d hmem).instructionNames_subset hname) hreach
      have hkeys : (m.document file).define.map Prod.fst = _ := Module.keys_define
      rw [← hkeys, ← isSome_lookup_iff, hnone] at hlast
      cases hlast
    · exact .data hnames hmem hname hto (Module.labelsData_of_define hn hd hl hdata)
    · exact .circle hnames hmem hname hto (Relation.TransGen.mono hfollows _ _ hround)
  · cases h

private theorem blames_of_foldlM_extendExports {exports : List Token} {names : List String}
    (hsub : exports ⊆ m.exports)
    (h : exports.foldlM (extendExports (Scope.ofModule m file)) names = .error failure) :
    failure.Blames m.Flaw := by
  obtain ⟨before, name, behind, _, rfl, -, hname⟩ := exists_of_foldlM_eq_error h
  rw [extendExports] at hname
  split at hname
  · cases hname
  next hnone =>
    cases hname
    exact ⟨_, _, rfl, .exported (hsub (by simp)) hnone⟩

end Document

namespace Module
variable {m : Module} {file : String} {failure : Failure}

/-- Generation fails in one of four stages, and those in front of it have passed. -/
theorem generate_eq_error_cases (h : m.generate file = .error failure) :
    Document.importTable m.imports = .error failure ∨
      (m.imports.map (·.moduleName.text)).Nodup ∧
        (m.definitions.foldlM (Document.Progress.extend (Scope.ofModule m file)) ⟨[], #[]⟩ =
            .error failure ∨
          (m.givenNames.map Token.text).Nodup ∧ (∀ d ∈ m.definitions, d.WellFormed m) ∧
            ((∃ d ∈ m.definitions, ∃ name ∈ d.instructionNames,
                (m.document file).define.checkInstruction name = .error failure) ∨
              m.exports.foldlM (Document.extendExports (Scope.ofModule m file)) [] =
                .error failure)) := by
  rw [generate_eq_generatePlain, generatePlain] at h
  rcases bind_eq_error_iff.mp h with himports | ⟨imports, himports, hrest⟩
  · exact .inl himports
  have hi := (Document.importTable_eq_ok_iff.mp himports).1
  refine .inr ⟨hi, ?_⟩
  rcases bind_eq_error_iff.mp hrest with hextend | ⟨progress, hextend, hrest⟩
  · exact .inl hextend
  have hstart : (⟨[], #[]⟩ : Document.Progress).taken m =
      m.imports.map (·.moduleName.text) := by
    simp [Document.Progress.taken]
  rw [Document.Progress.foldlM_extend_eq_ok_iff (by rwa [hstart]), hstart] at hextend
  obtain ⟨hnames, hd, rfl⟩ := hextend
  refine .inr ⟨by simpa [givenNames, labels, Function.comp_def] using hnames, hd, ?_⟩
  rcases bind_eq_error_iff.mp hrest with hcheck | ⟨_, -, hrest⟩
  · obtain ⟨name, hname, hfault⟩ := exists_of_forM_eq_error hcheck
    obtain ⟨d, hmem, hrecorded⟩ : ∃ d ∈ m.definitions, name ∈ d.instructionNames := by
      simpa using hname
    exact .inl ⟨d, hmem, name, hrecorded, hfault⟩
  · rcases bind_eq_error_iff.mp hrest with hexports | ⟨_, -, hpure⟩
    · exact .inr hexports
    · cases hpure

theorem blames_of_generate (h : m.generate file = .error failure) : failure.Blames m.Flaw := by
  rcases generate_eq_error_cases h with himports | ⟨hi, hextend | ⟨hnames, hd, hcheck | hexports⟩⟩
  · exact Document.blames_of_importTable himports
  · exact Document.Progress.blames_of_foldlM_extend hi hextend
  · obtain ⟨d, hmem, name, hrecorded, hfault⟩ := hcheck
    exact Document.blames_of_checkInstruction hnames hd hmem hrecorded hfault
  · exact Document.blames_of_foldlM_extendExports (List.Subset.refl _) hexports

/-- Whatever generation fails with, it blames a token of the module, and rightly so. -/
theorem generate_blames_flaw (h : m.generate file = .error failure) :
    ∃ fault, ∃ token ∈ m.tokens, failure = .onToken fault token ∧ m.Flaw fault token := by
  obtain ⟨fault, token, rfl, hflaw⟩ := blames_of_generate h
  exact ⟨fault, token, hflaw.mem_tokens, rfl, hflaw⟩

private def circling : Module where
  imports := []
  definitions := [
    ⟨.named 0 "start", [], ⟨.named 0 "msg", [.number 0 (.named 0 "0"), .named 0 "loop"]⟩, []⟩,
    ⟨.named 0 "loop", [.named 0 "again"], ⟨.named 0 "ref", [.named 0 "again"]⟩, []⟩]
  exports := []

/-- A chain that goes on with a label that is nothing but a reference to its own alias. -/
theorem generate_blames_flaw_circling :
    circling.generate "circling" = .error (.onToken .cyclicReference (.named 0 "loop")) ∧
      .named 0 "loop" ∈ circling.tokens ∧ circling.Flaw .cyclicReference (.named 0 "loop") := by
  have h : circling.generate "circling" = .error (.onToken .cyclicReference (.named 0 "loop")) := by
    decide
  obtain ⟨fault, token, hmem, heq, hflaw⟩ := generate_blames_flaw h
  cases heq
  exact ⟨h, hmem, hflaw⟩

end Module

end ActorAsm
