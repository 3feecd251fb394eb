import ActorAsm.Proofs.Document.Generation
import ActorAsm.Proofs.Node.Shape

/-! Which modules have a document. When names are distinct, every label is found in the table of
definitions with the node of its own definition, so following names through the table is following
references through the module, and a module is accepted exactly when it is well formed. -/

namespace ActorAsm

section Lookup
variable {β : Type} {table table' : List (String × β)} {key : String} {value : β}

/-- Under distinct keys, what is listed is what is found. -/
theorem lookup_eq_some_iff_mem (h : (table.map Prod.fst).Nodup) :
    table.lookup key = some value ↔ (key, value) ∈ table := by
  rw [List.lookup_eq_some_iff]
  constructor
  · rintro ⟨before, behind, rfl, -⟩
    simp
  · intro hmem
    obtain ⟨before, behind, rfl⟩ := List.append_of_mem hmem
    refine ⟨before, behind, rfl, fun p hp => ?_⟩
    rw [List.map_append, List.nodup_append] at h
    have hne := h.2.2 p.1 (List.mem_map_of_mem hp) key (by simp)
    simpa using hne.symm

end Lookup

namespace Value
variable {file : String} {value : Value}

private theorem eq_qualified_of_isTarget (h : (value.node file).isTarget) :
    ∃ moduleName name, value = .reference (.qualified moduleName name) := by
  unfold Value.node at h
  split at h
  · cases h
  · split at h <;> cases h
  · cases h
  · exact ⟨_, _, rfl⟩

private theorem eq_bare_of_node_eq {next : String} {debug : Debug}
    (h : value.node file = .reference (.label next) debug) :
    ∃ name, value = .reference (.bare name) ∧ name.text = next := by
  unfold Value.node at h
  split at h
  · cases h
  · split at h <;> cases h
  · cases h
    exact ⟨_, rfl, rfl⟩
  · cases h

end Value

namespace Definition
variable {m : Module} {file : String} {d : Definition}

theorem mem_entries_iff {name : String} {node : Node} :
    (name, node) ∈ d.entries file ↔ (name = d.label.text ∧ node = d.node file) ∨
      ∃ other ∈ d.aliases, name = other.text ∧
        node = .reference (.label d.label.text) ⟨file, other.line⟩ := by
  simp [entries, aliasEntry, eq_comm]

/-- What a well-formed definition stands for, if that is what a name may end at. -/
theorem WellFormed.isTarget_cases (h : d.WellFormed m) (ht : (d.node file).isTarget) :
    d.statement.isInstruction ∨ d.statement.operation? = some .ref ∧
      ∃ moduleName name, d.statement.continuation? = some (.reference (.qualified moduleName name)) := by
  have hformed := formed_iff_wellFormed.mpr h
  obtain ⟨op, hop, -⟩ := hformed.fits
  by_cases hr : op = .ref
  · subst hr
    obtain ⟨value, hvalue, hnode⟩ := hformed.nodeOf_of_ref hop file
    rw [node, hnode] at ht
    obtain ⟨moduleName, name, rfl⟩ := Value.eq_qualified_of_isTarget ht
    exact .inr ⟨hop, moduleName, name, hvalue⟩
  · have hkind := hformed.nodeOf_of_ne_ref hop hr file
    rw [← hkind.1]
    unfold node at ht
    cases hnode : Chain.nodeOf file d.statement d.following with
    | reference target debug => exact absurd hnode (hkind.2 target debug)
    | _ =>
      rw [hnode] at ht
      exact .inl ht

theorem WellFormed.label_cases (h : d.WellFormed m) {next : String} {debug : Debug}
    (hn : d.node file = .reference (.label next) debug) :
    d.statement.operation? = some .ref ∧
      ∃ name, d.statement.continuation? = some (.reference (.bare name)) ∧ name.text = next := by
  have hformed := formed_iff_wellFormed.mpr h
  obtain ⟨op, hop, -⟩ := hformed.fits
  by_cases hr : op = .ref
  · subst hr
    obtain ⟨value, hvalue, hnode⟩ := hformed.nodeOf_of_ref hop file
    rw [node, hnode] at hn
    obtain ⟨name, rfl, hname⟩ := Value.eq_bare_of_node_eq hn
    exact ⟨hop, name, hvalue, hname⟩
  · exact absurd hn ((hformed.nodeOf_of_ne_ref hop hr file).2 _ _)

private theorem WellFormed.node_of_ref (h : d.WellFormed m) {value : Value}
    (hop : d.statement.operation? = some .ref) (hv : d.statement.continuation? = some value) :
    d.node file = value.node file := by
  obtain ⟨value', hvalue, hnode⟩ := (formed_iff_wellFormed.mpr h).nodeOf_of_ref hop file
  rw [hv] at hvalue
  cases hvalue
  exact hnode

private theorem WellFormed.isTarget_of_isInstruction (h : d.WellFormed m)
    (hi : d.statement.isInstruction) : (d.node file).isTarget := by
  have hformed := formed_iff_wellFormed.mpr h
  obtain ⟨op, hop, -⟩ := hformed.fits
  have hr : op ≠ .ref := by
    rintro rfl
    rw [Statement.isInstruction, hop] at hi
    cases hi
  exact Node.isTarget_of_isInstruction ((hformed.nodeOf_of_ne_ref hop hr file).1 ▸ hi)

end Definition

namespace Module
variable {m : Module} {file name : String} {node : Node}

theorem keys_define : (m.document file).define.map Prod.fst = m.labels.map Token.text := by
  simp [document, labels, List.map_flatMap, Definition.keys_entries]

/-- With distinct names, a label is found with what its definition says. -/
theorem lookup_define_eq_some_iff (hn : (m.labels.map Token.text).Nodup) :
    (m.document file).define.lookup name = some node ↔
      ∃ d ∈ m.definitions, (name, node) ∈ d.entries file := by
  rw [lookup_eq_some_iff_mem (by rwa [keys_define])]
  exact List.mem_flatMap

theorem lookup_define_label (hn : (m.labels.map Token.text).Nodup) {d : Definition}
    (hd : d ∈ m.definitions) :
    (m.document file).define.lookup d.label.text = some (d.node file) :=
  (lookup_define_eq_some_iff hn).mpr ⟨d, hd, Definition.mem_entries_iff.mpr (.inl ⟨rfl, rfl⟩)⟩

/-- Names lead to instructions through the table if and only if they do through the module. -/
theorem leadsToInstruction_define_iff (hn : (m.labels.map Token.text).Nodup)
    (hd : ∀ d ∈ m.definitions, d.WellFormed m) :
    (m.document file).define.LeadsToInstruction name ↔ m.LeadsToInstruction name := by
  constructor
  · intro h
    induction h with
    | target hl ht =>
      obtain ⟨d, hmem, hentry⟩ := (lookup_define_eq_some_iff hn).mp hl
      rcases Definition.mem_entries_iff.mp hentry with ⟨rfl, rfl⟩ | ⟨other, -, -, rfl⟩
      · rcases (hd d hmem).isTarget_cases ht with hi | ⟨hop, moduleName, name, hv⟩
        · exact .instruction hmem hi
        · exact .external hmem hop hv
      · cases ht
    | follow hl _ ih =>
      obtain ⟨d, hmem, hentry⟩ := (lookup_define_eq_some_iff hn).mp hl
      rcases Definition.mem_entries_iff.mp hentry with ⟨rfl, hnode⟩ | ⟨other, hother, rfl, hnode⟩
      · obtain ⟨hop, target, hv, rfl⟩ := (hd d hmem).label_cases hnode.symm
        exact .reference hmem hop hv ih
      · cases hnode
        exact .grouped hmem hother ih
  · intro h
    have hlookup {d : Definition} {name : String} {node : Node} (hmem : d ∈ m.definitions)
        (hentry : (name, node) ∈ d.entries file) :
        (m.document file).define.lookup name = some node :=
      (lookup_define_eq_some_iff hn).mpr ⟨d, hmem, hentry⟩
    have hlabel {d : Definition} : (d.label.text, d.node file) ∈ d.entries file :=
      Definition.mem_entries_iff.mpr (.inl ⟨rfl, rfl⟩)
    induction h with
    | instruction hmem hi =>
      exact .target (hlookup hmem hlabel) ((hd _ hmem).isTarget_of_isInstruction hi)
    | external hmem hop hv =>
      refine .target (hlookup hmem hlabel) ?_
      rw [(hd _ hmem).node_of_ref hop hv]
      rfl
    | reference hmem hop hv _ ih =>
      have hl := hlookup hmem hlabel
      rw [(hd _ hmem).node_of_ref hop hv] at hl
      exact .follow hl ih
    | grouped hmem hother _ ih =>
      exact .follow (hlookup hmem (Definition.mem_entries_iff.mpr (.inr ⟨_, hother, rfl, rfl⟩))) ih

/-- Generation accepts well-formed modules, and lists the entries of their definitions. -/
theorem generate_eq_ok_iff {doc : Document} :
    m.generate file = .ok doc ↔ m.WellFormed ∧ m.document file = doc := by
  rw [generate_eq_ok_iff_of_table]
  constructor
  · rintro ⟨hnames, hd, hleads, hexports, hdoc⟩
    have hn := (List.nodup_append.mp hnames).2.1
    exact ⟨⟨hnames, hd, fun d hmem name hname =>
      (leadsToInstruction_define_iff hn hd).mp (hleads d hmem name hname), hexports⟩, hdoc⟩
  · rintro ⟨h, hdoc⟩
    have hn := (List.nodup_append.mp h.names).2.1
    exact ⟨h.names, h.definitions, fun d hmem name hname =>
      (leadsToInstruction_define_iff hn h.definitions).mpr (h.instructions d hmem name hname),
      h.exports, hdoc⟩

/-- The modules that have a document are the well-formed ones. -/
theorem generates_iff_wellFormed : (∃ doc, m.generate file = .ok doc) ↔ m.WellFormed := by
  constructor
  · rintro ⟨doc, hdoc⟩
    exact (generate_eq_ok_iff.mp hdoc).1
  · intro h
    exact ⟨m.document file, generate_eq_ok_iff.mpr ⟨h, rfl⟩⟩

end Module

end ActorAsm
