import ActorAsm.Proofs.Document.Acceptance
import ActorAsm.Proofs.Node.Linear

/-! Documents of linear chains. All that a table of definitions can hold are nodes by the grammar of
chains, and references for the labels that stand in front of the last one of a definition. -/

namespace ActorAsm

namespace Definition
variable {m : Module} {d : Definition}

private theorem WellFormed.linear_of_mem_entries (h : d.WellFormed m) (file : String)
    {entry : String × Node} (hentry : entry ∈ d.entries file) : entry.2.Linear .anything := by
  rcases mem_entries_iff.mp hentry with ⟨-, hnode⟩ | ⟨other, -, -, hnode⟩
  · rw [hnode]
    exact (formed_iff_wellFormed.mpr h).linear file
  · rw [hnode]
    exact .simple rfl

end Definition

namespace Module
variable {m : Module} {file : String} {doc : Document}

/-- Every node of a document is a linear chain: data in front, then instructions and nothing but
instructions, each with what it takes. -/
theorem chained_of_generate (h : m.generate file = .ok doc) :
    ∀ entry ∈ doc.define, entry.2.Chained := by
  obtain ⟨hm, rfl⟩ := generate_eq_ok_iff.mp h
  intro entry hentry
  obtain ⟨d, hd, hentry⟩ := List.mem_flatMap.mp hentry
  exact ((hm.definitions d hd).linear_of_mem_entries file hentry).chained

private def calling (operator : String) (operands : List Value) : Statement :=
  ⟨.named 0 operator, operands⟩

private def braided : Module where
  imports := []
  definitions := [
    ⟨.named 0 "table", [.named 0 "start"],
      calling "dict_t" [.number 1 (.ofText (.number 1) "1"), .literal (.ofText .literal "#nil")], [
        calling "pair_t" [.named 0 "stop"],
        calling "push" [.literal (.ofText .literal "#pair_t")],
        calling "if_not" [.named 0 "stop"],
        calling "alu" [.named 0 "add"],
        calling "if" [.named 0 "stop", .named 0 "stop"]]⟩,
    ⟨.named 0 "stop", [], calling "end" [.named 0 "commit"], []⟩]
  exports := []

/-- Data in front of instructions, and jumps of both kinds. -/
theorem chained_of_generate_braided : ∃ doc, braided.generate "braided" = .ok doc ∧
    doc.define.map (·.2.kind) = ["dict", "ref", "instr"] ∧ ∀ entry ∈ doc.define, entry.2.Chained :=
  have h : braided.generate "braided" = .ok (braided.document "braided") := by
    decide +kernel
  ⟨_, h, by decide +kernel, chained_of_generate h⟩

end Module

end ActorAsm
