import ActorAsm.Proofs.Document.Verification
import ActorAsm.Proofs.Module.Provenance

/-! Recorded names as labels in slots. What the forward pass has recorded is told twice: by the
module, as names in the order in which they are written, and by the table of definitions, as the
labels in the slots of its instructions. -/

namespace ActorAsm

/-- The slots of definitions, one definition after another. -/
def DefineTable.slotsAlong (define : DefineTable) (definitions : List Definition) : List Node :=
  definitions.flatMap fun d => (define.lookup d.label.text).toList.flatMap (·.slotsAlong d.statements)

/-- All slots of the nodes of a table, at any depth. -/
def DefineTable.slots (define : DefineTable) : List Node :=
  define.flatMap fun entry => entry.2.subnodes.flatMap Node.slots

namespace Module
variable {m : Module} {file : String}

private theorem Definable.slotsAlong_define (hm : m.Definable) :
    (m.document file).define.slotsAlong m.definitions =
      m.definitions.flatMap fun d => (d.node file).slotsAlong d.statements := by
  refine List.flatMap_congr fun d hd => ?_
  rw [lookup_define_label (List.nodup_append.mp hm.names).2.1 hd, Option.toList_some,
    List.flatMap_singleton]

private theorem slots_define : (m.document file).define.slots =
    m.definitions.flatMap fun d => (d.node file).subnodes.flatMap Node.slots := by
  rw [document, DefineTable.slots, List.flatMap_assoc]
  refine List.flatMap_congr fun d _ => ?_
  exact Definition.flatMap_entries (f := fun node => node.subnodes.flatMap Node.slots)
    (fun _ _ => rfl) file d

end Module

namespace Document.Progress
variable {m : Module} {file : String} {imports : List (String × String)} {p : Progress}

private theorem toList_recorded (h : m.forwardPass file = .ok (imports, p)) :
    p.recorded.toList = m.definitions.flatMap Definition.instructionNames := by
  obtain ⟨-, -, rfl⟩ := Module.forwardPass_eq_ok_iff.mp h
  rfl

private theorem map_recorded (h : m.forwardPass file = .ok (imports, p)) :
    p.recorded.toList.map (Node.ofName file) =
      (p.define.slotsAlong m.definitions).filter Node.isLabel := by
  rw [toList_recorded h]
  obtain ⟨hm, -, rfl⟩ := Module.forwardPass_eq_ok_iff.mp h
  have halong : (ofDefinitions file m.definitions).define.slotsAlong m.definitions = _ :=
    hm.slotsAlong_define
  rw [halong, List.map_flatMap, List.filter_flatMap]
  exact List.flatMap_congr fun d hd => ((hm.definitions d hd).filter_slotsAlong file).symm

private theorem slotsAlong_perm (h : m.forwardPass file = .ok (imports, p)) :
    (p.define.slotsAlong m.definitions).Perm p.define.slots := by
  obtain ⟨hm, -, rfl⟩ := Module.forwardPass_eq_ok_iff.mp h
  have halong : (ofDefinitions file m.definitions).define.slotsAlong m.definitions = _ :=
    hm.slotsAlong_define
  have hslots : (ofDefinitions file m.definitions).define.slots = _ := Module.slots_define
  rw [halong, hslots]
  exact List.Perm.flatMap_left _ fun d hd => (hm.definitions d hd).slotsAlong_perm file

private theorem recorded_sublist (h : m.forwardPass file = .ok (imports, p)) :
    p.recorded.toList.Sublist m.tokens := by
  have hnames : (m.definitions.flatMap Definition.instructionNames).Sublist
      (m.definitions.flatMap Definition.tokens) :=
    List.Sublist.flatMap_right _ fun d _ => d.instructionNames_sublist
  rw [toList_recorded h]
  exact (hnames.trans (List.sublist_append_right _ _)).trans (List.sublist_append_left _ _)

/-- The check blames the first name that leads to no instruction. -/
theorem exists_first_of_checkRecorded {failure : Failure} (h : p.checkRecorded = .error failure) :
    ∃ before name behind fault, p.recorded.toList = before ++ name :: behind ∧
      (∀ other ∈ before, p.define.LeadsToInstruction other.text) ∧
      ¬ p.define.LeadsToInstruction name.text ∧ failure = .onToken fault name := by
  obtain ⟨before, name, behind, hsplit, hbefore, hname⟩ := checkRecorded_eq_error_iff.mp h
  obtain ⟨fault, -, rfl⟩ := DefineTable.checkInstruction_eq_error_iff.mp hname
  refine ⟨before, name, behind, fault, hsplit, fun other hother => ?_, fun hleads => ?_, rfl⟩
  · exact DefineTable.checkInstruction_eq_ok_iff.mp (hbefore other hother)
  · rw [DefineTable.checkInstruction_eq_ok_iff.mpr hleads] at hname
    cases hname

/-- Behind the forward pass, the recorded names are the labels in the slots of all instructions, in
the order in which they are written; there is nothing else among them, whatever may be referred to
by data. What the check refuses is the first of them that leads to no instruction. -/
theorem recorded_eq_slots (h : m.forwardPass file = .ok (imports, p)) :
    p.recorded.toList.map (Node.ofName file) =
        (p.define.slotsAlong m.definitions).filter Node.isLabel ∧
      (p.define.slotsAlong m.definitions).Perm p.define.slots ∧
      p.recorded.toList = m.definitions.flatMap Definition.instructionNames ∧
      p.recorded.toList.Sublist m.tokens ∧
      (∀ ts, Module.parse ts = .ok m → p.recorded.toList.Sublist ts) ∧
      ∀ failure, p.checkRecorded = .error failure → m.generate file = .error failure ∧
        ∃ before name behind fault, p.recorded.toList = before ++ name :: behind ∧
          (∀ other ∈ before, p.define.LeadsToInstruction other.text) ∧
          ¬ p.define.LeadsToInstruction name.text ∧ failure = .onToken fault name :=
  ⟨map_recorded h, slotsAlong_perm h, toList_recorded h, recorded_sublist h,
    fun _ hts => (recorded_sublist h).trans (Module.tokens_sublist_of_parse hts),
    fun _ hfails => ⟨Module.generate_of_checkRecorded h hfails, exists_first_of_checkRecorded hfails⟩⟩

private def derailed : Module where
  imports := []
  definitions := [
    ⟨.named 0 "start", [], ⟨.named 1 "if_not", [.named 1 "stop"]⟩, [
      ⟨.named 2 "push", [.named 2 "list"]⟩,
      ⟨.named 3 "ref", [.named 3 "list"]⟩]⟩,
    ⟨.named 4 "stop", [], ⟨.named 5 "end", [.named 5 "stop"]⟩, []⟩,
    ⟨.named 6 "list", [.named 7 "row"],
      ⟨.named 8 "pair_t", [.number 1 (.named 8 "1"), .named 8 "stop"]⟩, []⟩]
  exports := []

/-- A negated jump to an instruction, with a reference to data behind it that is only pushed, and
then data where the chain has to go on. -/
theorem recorded_eq_slots_derailed : ∃ imports p,
    derailed.forwardPass "derailed" = .ok (imports, p) ∧
      p.recorded.toList = [.named 1 "stop", .named 3 "list"] ∧
      p.recorded.toList.map (Node.ofName "derailed") =
        (p.define.slotsAlong derailed.definitions).filter Node.isLabel ∧
      (p.define.slotsAlong derailed.definitions).Perm p.define.slots ∧
      p.checkRecorded = .error (.onToken .expectedInstruction (.named 3 "list")) ∧
      derailed.generate "derailed" =
        .error (.onToken .expectedInstruction (.named 3 "list")) := by
  have h : derailed.forwardPass "derailed" =
      .ok ([], ofDefinitions "derailed" derailed.definitions) := rfl
  have hfails : (ofDefinitions "derailed" derailed.definitions).checkRecorded =
      .error (.onToken .expectedInstruction (.named 3 "list")) := by decide
  obtain ⟨hlabels, hperm, hnames, -, -, hcheck⟩ := recorded_eq_slots h
  exact ⟨_, _, h, hnames, hlabels, hperm, hfails, (hcheck _ hfails).1⟩

end Document.Progress

end ActorAsm
