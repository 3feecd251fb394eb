import ActorAsm.Proofs.Document.Acceptance
import ActorAsm.Proofs.Node.Statements

/-! Statements in documents. Walking through the node of a definition meets the nodes of its
statements one after another, and there are no others. -/

namespace ActorAsm.Module
variable {m : Module} {file : String} {doc : Document}

/-- Generation keeps statements and their operands: none is lost, none is there twice, and their
order is theirs. -/
theorem statements_of_generate (h : m.generate file = .ok doc) :
    ∀ d ∈ m.definitions, ∃ root, doc.define.lookup d.label.text = some root ∧
      (∀ before s behind, d.statements = before ++ s :: behind →
        ∃ node, root.walk? before = some node ∧ s.Begins file behind node) ∧
      root.subnodes.countP (!·.isSimple) = d.statements.countP (·.operation? ≠ some .ref) := by
  obtain ⟨hm, rfl⟩ := generate_eq_ok_iff.mp h
  intro d hd
  have hformed := Definition.formed_iff_wellFormed.mpr (hm.definitions d hd)
  refine ⟨d.node file, ?_, fun before s behind hsplit => ?_, ?_⟩
  · exact lookup_define_label (List.nodup_append.mp hm.names).2.1 hd
  · exact hformed.exists_begins hsplit
  · exact hformed.countP_subnodes file

private def skipping : Module where
  imports := []
  definitions := [
    ⟨.named 0 "start", [], ⟨.named 0 "msg", [.number 0 (.named 0 "0")]⟩, [
      ⟨.named 0 "if_not", [.named 0 "stop"]⟩,
      ⟨.named 0 "push", [.named 0 "start", .named 0 "stop"]⟩]⟩,
    ⟨.named 0 "stop", [], ⟨.named 0 "end", [.named 0 "commit"]⟩, []⟩]
  exports := [.named 0 "start"]

/-- A negated jump in the middle of a chain, which goes on with an operand. -/
theorem statements_of_generate_skipping : ∃ doc, skipping.generate "skipping" = .ok doc ∧
    ∀ d ∈ skipping.definitions, ∃ root, doc.define.lookup d.label.text = some root ∧
      (∀ before s behind, d.statements = before ++ s :: behind →
        ∃ node, root.walk? before = some node ∧ s.Begins "skipping" behind node) ∧
      root.subnodes.countP (!·.isSimple) = d.statements.countP (·.operation? ≠ some .ref) :=
  have h : skipping.generate "skipping" = .ok (skipping.document "skipping") := by decide
  ⟨_, h, statements_of_generate h⟩

end ActorAsm.Module
