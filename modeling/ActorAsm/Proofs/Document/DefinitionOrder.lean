import ActorAsm.Proofs.Document.Acceptance

/-! The order of definitions. Whether a module is accepted does not depend on it, and a definition
has the same entries in every document that comes from the same file. -/

namespace ActorAsm

section Names
variable {m m' : Module} {value : Value} {d : Definition}

/-- All names that can be referred to in one module can be referred to in the other. -/
def Module.NamesWithin (m m' : Module) : Prop :=
  m.labels.map Token.text ⊆ m'.labels.map Token.text ∧
    m.imports.map (·.moduleName.text) ⊆ m'.imports.map (·.moduleName.text)

theorem Value.IsReference.mono (h : value.IsReference m) (hm : m.NamesWithin m') :
    value.IsReference m' := by
  cases value with
  | literal token => cases h
  | number n token => cases h
  | reference target =>
    cases target with
    | bare name => exact hm.1 h
    | qualified moduleName name => exact hm.2 h

theorem Value.IsExpression.mono (h : value.IsExpression m) (hm : m.NamesWithin m') :
    value.IsExpression m' := by
  cases value with
  | literal token => exact h
  | number n token => trivial
  | reference target => exact Value.IsReference.mono h hm

private theorem Place.Fits.mono {place : Place} (h : place.Fits m value) (hm : m.NamesWithin m') :
    place.Fits m' value := by
  cases place with
  | expression => exact Value.IsExpression.mono h hm
  | reference => exact Value.IsReference.mono h hm
  | type | fixnum => cases value <;> exact h
  | mnemonic names =>
    cases value with
    | reference target => cases target <;> exact h
    | _ => exact h

/-- Definitions stay well formed when there are more names to refer to. -/
theorem Definition.WellFormed.mono (h : d.WellFormed m) (hm : m.NamesWithin m') :
    d.WellFormed m' where
  operands s hs := by
    obtain ⟨op, hop, hfit⟩ := h.operands s hs
    exact ⟨op, hop, fun operand hmem => (hfit operand hmem).mono hm⟩
  front := h.front
  last := h.last
  order := h.order
  continuation value hv := by
    have hcont := h.continuation value hv
    split at hcont
    next hi =>
      rw [if_pos hi]
      exact hcont.mono hm
    next hi =>
      rw [if_neg hi]
      exact hcont.mono hm

private theorem Module.LeadsToInstruction.mono {name : String} (h : m.LeadsToInstruction name)
    (hm : m.definitions ⊆ m'.definitions) : m'.LeadsToInstruction name := by
  induction h with
  | instruction hmem hi => exact .instruction (hm hmem) hi
  | external hmem hop hv => exact .external (hm hmem) hop hv
  | reference hmem hop hv _ ih => exact .reference (hm hmem) hop hv ih
  | grouped hmem hother _ ih => exact .grouped (hm hmem) hother ih

end Names

namespace Module
variable {m : Module} {definitions : List Definition} {file : String}

/-- The module with other definitions. -/
def withDefinitions (m : Module) (definitions : List Definition) : Module :=
  { m with definitions }

private theorem WellFormed.perm (hm : m.WellFormed) (h : definitions.Perm m.definitions) :
    (m.withDefinitions definitions).WellFormed := by
  have hlabels : (m.withDefinitions definitions).labels.Perm m.labels := h.flatMap_right _
  have hnames : m.NamesWithin (m.withDefinitions definitions) :=
    ⟨(hlabels.map _).symm.subset, List.Subset.refl _⟩
  refine ⟨?_, fun d hd => ?_, fun d hd name hname => ?_, fun name hname => ?_⟩
  · exact ((hlabels.map _).append_left _).nodup_iff.mpr hm.names
  · exact (hm.definitions d (h.subset hd)).mono hnames
  · exact (hm.instructions d (h.subset hd) name hname).mono h.symm.subset
  · exact hnames.1 (hm.exports name hname)

private theorem wellFormed_perm_iff (h : definitions.Perm m.definitions) :
    (m.withDefinitions definitions).WellFormed ↔ m.WellFormed :=
  ⟨fun hm => hm.perm (m := m.withDefinitions definitions) h.symm, fun hm => hm.perm h⟩

/-- The order of definitions decides about the order of entries only, and an entry depends on
nothing but its definition and the file. -/
theorem definition_order_immaterial (file : String) :
    (∀ (m : Module) (definitions : List Definition), definitions.Perm m.definitions →
      ((∃ doc, (m.withDefinitions definitions).generate file = .ok doc) ↔
        ∃ doc, m.generate file = .ok doc) ∧
      ∀ doc doc', m.generate file = .ok doc →
        (m.withDefinitions definitions).generate file = .ok doc' →
        doc'.imports = doc.imports ∧ doc'.exports = doc.exports ∧
        doc'.define.Perm doc.define ∧
        doc'.define.map Prod.fst = (definitions.flatMap Definition.labels).map Token.text) ∧
    ∀ (m m' : Module) (doc doc' : Document), m.generate file = .ok doc →
      m'.generate file = .ok doc' → ∀ d ∈ m.definitions, d ∈ m'.definitions →
      ∀ label ∈ d.labels, ∃ node, doc.define.lookup label.text = some node ∧
        doc'.define.lookup label.text = some node := by
  refine ⟨fun m definitions h => ⟨?_, ?_⟩, ?_⟩
  · simp only [generate_eq_ok_iff, exists_and_left, exists_eq', and_true]
    exact wellFormed_perm_iff h
  · intro doc doc' hdoc hdoc'
    obtain ⟨-, rfl⟩ := generate_eq_ok_iff.mp hdoc
    obtain ⟨-, rfl⟩ := generate_eq_ok_iff.mp hdoc'
    exact ⟨rfl, rfl, h.flatMap_right _, keys_define⟩
  · intro m m' doc doc' hdoc hdoc' d hd hd' label hlabel
    obtain ⟨hm, rfl⟩ := generate_eq_ok_iff.mp hdoc
    obtain ⟨hm', rfl⟩ := generate_eq_ok_iff.mp hdoc'
    obtain ⟨node, hentry⟩ : ∃ node, (label.text, node) ∈ d.entries file := by
      have hkey : label.text ∈ (d.entries file).map Prod.fst := by
        rw [Definition.keys_entries]
        exact List.mem_map_of_mem hlabel
      obtain ⟨entry, hmem, hkey⟩ := List.mem_map.mp hkey
      exact ⟨entry.2, hkey ▸ hmem⟩
    have hn := (List.nodup_append.mp hm.names).2.1
    have hn' := (List.nodup_append.mp hm'.names).2.1
    exact ⟨node, (lookup_define_eq_some_iff hn).mpr ⟨d, hd, hentry⟩,
      (lookup_define_eq_some_iff hn').mpr ⟨d, hd', hentry⟩⟩

private def callee : Definition :=
  ⟨.named 0 "stop", [.named 0 "halt"], ⟨.named 0 "end", [.named 0 "stop"]⟩, []⟩

private def caller : Definition :=
  ⟨.named 0 "go", [], ⟨.named 0 "ref", [.named 0 "halt"]⟩, []⟩

theorem definition_order_immaterial_swapped : ∃ doc doc' alone : Document,
    (⟨[], [caller, callee], []⟩ : Module).generate "order" = .ok doc ∧
    (⟨[], [callee, caller], []⟩ : Module).generate "order" = .ok doc' ∧
    (⟨[], [callee], [.named 0 "halt"]⟩ : Module).generate "order" = .ok alone ∧
    doc'.define.Perm doc.define ∧
    ∀ label ∈ callee.labels, ∃ node, doc.define.lookup label.text = some node ∧
      alone.define.lookup label.text = some node :=
  have h : (⟨[], [caller, callee], []⟩ : Module).generate "order" =
      .ok (document "order" ⟨[], [caller, callee], []⟩) := by decide
  have h' : (⟨[], [callee, caller], []⟩ : Module).generate "order" =
      .ok (document "order" ⟨[], [callee, caller], []⟩) := by decide
  have halone : (⟨[], [callee], [.named 0 "halt"]⟩ : Module).generate "order" =
      .ok (document "order" ⟨[], [callee], [.named 0 "halt"]⟩) := by decide
  ⟨_, _, _, h, h', halone,
    (((definition_order_immaterial "order").1 ⟨[], [caller, callee], []⟩ [callee, caller]
      (.swap caller callee [])).2 _ _ h h').2.2.1,
    (definition_order_immaterial "order").2 _ _ _ _ h halone callee (by simp) (by simp)⟩

end Module

end ActorAsm
