import ActorAsm.Proofs.Document.Acceptance

/-! Names in documents. The tables of a document list what its module gives, and whatever a node
refers to, at any depth, is found in them. -/

namespace ActorAsm

section Contents
variable {m : Module} {file : String} {demand : Demand} {s : Statement} {op : Operator}
  {following : List Statement}

/-- What is in a link already has been made of operands that are expressions. -/
theorem Statement.exists_operand_of_mem_parts {part : Node} (hfit : s.Fits m)
    (h : part ∈ (s.link file).parts) :
    ∃ value ∈ s.operands, value.IsExpression m ∧ part = value.node file := by
  obtain ⟨op, hop, hplaces⟩ := hfit
  have place {found : Operator} {place : Place} {value : Value} (hfound : s.operation? = some found)
      (hmem : (place, value) ∈ found.places.zip s.operands) : place.Fits m value := by
    rw [hop] at hfound
    cases hfound
    exact hplaces _ hmem
  unfold link at h
  split at h <;> simp only [Link.parts, List.mem_cons, List.not_mem_nil, or_false] at h
  next head rest hfound hs =>
    have hfits : Place.expression.Fits m head := place hfound (by simp [hs, Operator.places])
    exact ⟨head, by simp [hs], hfits, h⟩
  next key value rest hfound hs =>
    have hkey : Place.expression.Fits m key := place hfound (by simp [hs, Operator.places])
    have hvalue : Place.expression.Fits m value := place hfound (by simp [hs, Operator.places])
    rcases h with h | h
    · exact ⟨key, by simp [hs], hkey, h⟩
    · exact ⟨value, by simp [hs], hvalue, h⟩
  next imm rest hfound hs =>
    have hfits : Place.expression.Fits m imm := place hfound (by simp [hs, Operator.places])
    exact ⟨imm, by simp [hs], hfits, h⟩
  next negated target rest hfound hs =>
    have hfits : Place.reference.Fits m target := place hfound (by simp [hs, Operator.places])
    exact ⟨target, by simp [hs], Value.IsReference.isExpression hfits, h⟩

private theorem Statement.mem_operands_of_continuation? {value : Value}
    (h : s.continuation? = some value) : value ∈ s.operands := by
  obtain ⟨op, -, hvalue⟩ := Option.bind_eq_some_iff.mp h
  exact List.mem_of_getElem? hvalue

/-- A node that a statement gives: its link closed around what is behind it, the instruction that
ends a chain, or an operand. -/
inductive Statement.Gives (m : Module) (file : String) (s : Statement) : Node → Prop where
  | link (k : Node) : Gives m file s ((s.link file).close k)
  | finish (imm : String) : Gives m file s (.finish imm ⟨file, s.operator.line⟩)
  | operand {value : Value} : value ∈ s.operands → value.IsExpression m →
      Gives m file s (value.node file)

namespace Chain

/-- Whatever is in the node of a chain is given by one of its statements. -/
theorem Formed.exists_gives_of_mem_subnodes (h : Formed m demand s following) {node : Node}
    (hnode : node ∈ (nodeOf file s following).subnodes) :
    ∃ t ∈ s :: following, t.Gives m file node := by
  have operand {s : Statement} {value : Value} (hmem : value ∈ s.operands)
      (hvalue : value.IsExpression m) (hnode : node ∈ (value.node file).subnodes) :
      s.Gives m file node := by
    rw [Value.subnodes_node] at hnode
    rw [List.mem_singleton.mp hnode]
    exact .operand hmem hvalue
  induction following generalizing demand s with
  | nil =>
    refine ⟨s, List.mem_cons_self, ?_⟩
    have continuation {value : Value} (hvalue : s.continuation? = some value)
        (hnode : node ∈ (value.node file).subnodes) : s.Gives m file node :=
      operand (Statement.mem_operands_of_continuation? hvalue)
        (h.2.2.2 value hvalue).isExpression hnode
    cases h.head file with
    | link hop hc _ heq =>
      obtain ⟨value, hvalue⟩ := h.exists_continuation hop hc
      rw [heq, Link.mem_subnodes_close, behind_nil hvalue] at hnode
      rcases hnode with rfl | ⟨part, hpart, hnode⟩ | hnode
      · exact .link _
      · obtain ⟨value, hmem, hexpr, rfl⟩ := Statement.exists_operand_of_mem_parts h.fits hpart
        exact operand hmem hexpr hnode
      · exact continuation hvalue hnode
    | ref _ _ hvalue heq =>
      rw [heq] at hnode
      exact continuation hvalue hnode
    | finish _ _ heq =>
      rw [heq] at hnode
      obtain rfl := List.mem_singleton.mp hnode
      exact .finish _
  | cons next rest ih =>
    rw [nodeOf, Link.mem_subnodes_close] at hnode
    rcases hnode with rfl | ⟨part, hpart, hnode⟩ | hnode
    · exact ⟨s, List.mem_cons_self, .link _⟩
    · obtain ⟨value, hmem, hexpr, rfl⟩ := Statement.exists_operand_of_mem_parts h.fits hpart
      exact ⟨s, List.mem_cons_self, operand hmem hexpr hnode⟩
    · obtain ⟨t, ht, hgives⟩ := ih h.2.2.2 hnode
      exact ⟨t, List.mem_cons_of_mem s ht, hgives⟩

end Chain

end Contents

namespace Target

/-- What the target names is among the labels, or among the imported modules. -/
def Listed (m : Module) : Target → Prop
  | .label name => name ∈ m.labels.map Token.text
  | .external moduleName _ => moduleName ∈ m.imports.map (·.moduleName.text)

end Target

section References
variable {m : Module} {file : String} {target : Target} {debug : Debug}

private theorem Value.listed_of_node_eq {value : Value} (h : value.IsExpression m)
    (hnode : .reference target debug = value.node file) : target.Listed m := by
  unfold Value.node at hnode
  split at hnode
  · cases hnode
  · split at hnode <;> cases hnode
  · cases hnode
    exact h
  · cases hnode
    exact h

/-- References in the entries of a well-formed definition name what there is. -/
theorem Definition.WellFormed.listed {d : Definition} (hd : d.WellFormed m)
    (hmem : d ∈ m.definitions) {entry : String × Node} (hentry : entry ∈ d.entries file)
    (hnode : .reference target debug ∈ entry.2.subnodes) : target.Listed m := by
  rcases Definition.mem_entries_iff.mp hentry with ⟨-, heq⟩ | ⟨other, -, -, heq⟩
  · rw [heq] at hnode
    have hformed := Definition.formed_iff_wellFormed.mpr hd
    obtain ⟨s, -, hgives⟩ := hformed.exists_gives_of_mem_subnodes hnode
    generalize hpart : Node.reference target debug = part at hgives
    cases hgives with
    | link k => exact absurd hpart.symm Link.close_ne_reference
    | finish imm => cases hpart
    | operand _ hvalue => exact Value.listed_of_node_eq hvalue hpart
  · rw [heq] at hnode
    cases List.mem_singleton.mp hnode
    exact List.mem_map_of_mem (List.mem_flatMap.mpr ⟨d, hmem, List.mem_cons_self⟩)

end References

namespace Module
variable {m : Module} {file : String} {doc : Document}

/-- A document lists imports, labels and exports as its module has them, every name for one thing
only, and nothing in it refers to a name that is not listed. -/
theorem document_names_closed (h : m.generate file = .ok doc) :
    doc.imports = m.imports.map (fun i => (i.moduleName.text, i.specifier)) ∧
    doc.define.map Prod.fst = m.labels.map Token.text ∧
    (doc.imports.map Prod.fst ++ doc.define.map Prod.fst).Nodup ∧
    (∀ d ∈ m.definitions, ∀ other ∈ d.aliases, doc.define.lookup other.text =
      some (.reference (.label d.label.text) ⟨file, other.line⟩)) ∧
    doc.exports = m.exports.map Token.text ∧ doc.exports ⊆ doc.define.map Prod.fst ∧
    ∀ entry ∈ doc.define, ∀ debug,
      (∀ name, .reference (.label name) debug ∈ entry.2.subnodes →
        name ∈ doc.define.map Prod.fst) ∧
      ∀ moduleName name, .reference (.external moduleName name) debug ∈ entry.2.subnodes →
        moduleName ∈ doc.imports.map Prod.fst := by
  obtain ⟨hm, rfl⟩ := generate_eq_ok_iff.mp h
  have hn := (List.nodup_append.mp hm.names).2.1
  have himports : (m.document file).imports.map Prod.fst = m.imports.map (·.moduleName.text) := by
    simp [document, Function.comp_def]
  have listed {entry : String × Node} (hentry : entry ∈ (m.document file).define)
      {target : Target} {debug : Debug} (hnode : .reference target debug ∈ entry.2.subnodes) :
      target.Listed m := by
    obtain ⟨d, hmem, hentry⟩ := List.mem_flatMap.mp hentry
    exact (hm.definitions d hmem).listed hmem hentry hnode
  rw [himports, keys_define]
  refine ⟨rfl, rfl, hm.names, fun d hmem other hother => ?_, rfl, fun name hname => ?_,
    fun entry hentry debug => ⟨fun name => listed hentry, fun moduleName name => listed hentry⟩⟩
  · exact (lookup_define_eq_some_iff hn).mpr
      ⟨d, hmem, Definition.mem_entries_iff.mpr (.inr ⟨other, hother, rfl, rfl⟩)⟩
  · obtain ⟨token, htoken, rfl⟩ := List.mem_map.mp hname
    exact hm.exports token htoken

private def lender : Definition where
  label := .named 3 "start"
  aliases := [.named 4 "main"]
  statement := ⟨.named 5 "push", [.reference (.qualified (.named 5 "std") (.named 5 "commit"))]⟩
  following := [⟨.named 6 "if", [.named 6 "main"]⟩,
    ⟨.named 7 "ref", [.reference (.qualified (.named 7 "std") (.named 7 "abort"))]⟩]

private def lending : Module :=
  ⟨[⟨.named 1 "std", "./std.asm"⟩], [lender],
    [.named 9 "main", .named 10 "start", .named 11 "main"]⟩

/-- Two names for a jump to one of them or to a name of an imported module. -/
theorem document_names_closed_lending : ∃ doc, lending.generate "lending" = .ok doc ∧
    doc.imports = [("std", "./std.asm")] ∧ doc.define.map Prod.fst = ["start", "main"] ∧
    doc.define.lookup "main" = some (.reference (.label "start") ⟨"lending", 4⟩) ∧
    doc.exports = ["main", "start", "main"] ∧
    ∀ entry ∈ doc.define, ∀ debug moduleName name,
      .reference (.external moduleName name) debug ∈ entry.2.subnodes →
        moduleName ∈ doc.imports.map Prod.fst := by
  have h : lending.generate "lending" = .ok (lending.document "lending") := by decide
  obtain ⟨himports, hkeys, -, haliases, hexports, -, hclosed⟩ := document_names_closed h
  exact ⟨_, h, himports, hkeys,
    haliases lender (List.mem_singleton_self _) (.named 4 "main") (List.mem_singleton_self _),
    hexports, fun entry hentry debug => (hclosed entry hentry debug).2⟩

end Module

end ActorAsm
