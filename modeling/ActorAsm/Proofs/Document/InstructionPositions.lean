import ActorAsm.Proofs.Document.Acceptance

/-! Continuations of instructions. In a document, at any depth, they are instructions or lead to
some through the table of definitions. -/

namespace ActorAsm

namespace Node

/-- An instruction, a definition of another module, or a label that leads to one of them. -/
def StandsForInstruction (define : DefineTable) : Node → Prop
  | .reference (.label name) _ => define.LeadsToInstruction name
  | node => node.isTarget

private theorem Covered.standsForInstruction {define : DefineTable} {names : List Token}
    {node : Node} (h : node.Covered names)
    (hnames : ∀ name ∈ names, define.LeadsToInstruction name.text) :
    node.StandsForInstruction define := by
  rcases h with ht | ⟨name, hname, debug, rfl⟩
  · unfold StandsForInstruction
    split
    · cases ht
    · exact ht
  · exact hnames name hname

end Node

namespace Module
variable {m : Module} {file : String} {doc : Document}

private theorem covered_slots_of_entry {d : Definition} (hd : d.WellFormed m)
    {entry : String × Node} (hentry : entry ∈ d.entries file) {node slot : Node}
    (hnode : node ∈ entry.2.subnodes) (hslot : slot ∈ node.slots) :
    slot.Covered d.instructionNames := by
  rcases Definition.mem_entries_iff.mp hentry with ⟨-, hd'⟩ | ⟨other, -, -, halias⟩
  · rw [hd'] at hnode
    rw [← Definition.namesOf_eq_instructionNames]
    exact (Definition.formed_iff_wellFormed.mpr hd).covered_slots node hnode slot hslot
  · rw [halias] at hnode
    obtain rfl := List.mem_singleton.mp hnode
    cases hslot

/-- Every continuation of every instruction in a document stands for an instruction. -/
theorem slots_standForInstruction (h : m.generate file = .ok doc) :
    ∀ entry ∈ doc.define, ∀ node ∈ entry.2.subnodes, ∀ slot ∈ node.slots,
      slot.StandsForInstruction doc.define := by
  obtain ⟨hm, rfl⟩ := generate_eq_ok_iff.mp h
  intro entry hentry node hnode slot hslot
  obtain ⟨d, hmem, hentry⟩ := List.mem_flatMap.mp hentry
  have hn := (List.nodup_append.mp hm.names).2.1
  refine (covered_slots_of_entry (hm.definitions d hmem) hentry hnode hslot).standsForInstruction ?_
  exact fun name hname =>
    (leadsToInstruction_define_iff hn hm.definitions).mpr (hm.instructions d hmem name hname)

private def meeting : Module where
  imports := []
  definitions := [
    ⟨.named 0 "start", [], ⟨.named 0 "if", [.named 0 "again"]⟩,
      [⟨.named 0 "msg", [.number 0 (.named 0 "0"), .named 0 "again"]⟩]⟩,
    ⟨.named 0 "done", [.named 0 "again"], ⟨.named 0 "ref", [.named 0 "stop"]⟩, []⟩,
    ⟨.named 0 "stop", [], ⟨.named 0 "end", [.named 0 "commit"]⟩, []⟩]
  exports := [.named 0 "start"]

/-- A jump whose two ways meet at an alias of a reference to the end. -/
theorem slots_standForInstruction_meeting : ∃ doc, meeting.generate "meeting" = .ok doc ∧
    ∀ entry ∈ doc.define, ∀ node ∈ entry.2.subnodes, ∀ slot ∈ node.slots,
      slot.StandsForInstruction doc.define :=
  have h : meeting.generate "meeting" = .ok (meeting.document "meeting") := by decide
  ⟨_, h, slots_standForInstruction h⟩

end Module

end ActorAsm
