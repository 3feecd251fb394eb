import ActorAsm.Proofs.Document.ForwardPass
import ActorAsm.Proofs.Document.Search

/-! The check of recorded names. It finds out where every name leads, and stops at the first one that
leads to no instruction. Behind a forward pass no name leads to one that is not defined. -/

namespace ActorAsm

namespace DefineTable
variable {define : DefineTable} {name : Token}

private theorem checkInstruction_eq_search : define.checkInstruction name =
    match (define.search [] name.text).1 with
    | some fault => .error (.onToken fault name)
    | none => .ok () := by
  rw [checkInstruction, instructionFault?_eq_iff.mpr (leads_search name.text)]
  rfl

private theorem checkInstruction_eq_ok_iff_leads :
    define.checkInstruction name = .ok () ↔ define.Leads name.text none := by
  rw [← instructionFault?_eq_iff, checkInstruction]
  cases define.instructionFault? (define.length + 1) name.text <;> simp [Failure.raise]

theorem checkInstruction_eq_error_iff {failure : Failure} :
    define.checkInstruction name = .error failure ↔
      ∃ fault, define.Leads name.text (some fault) ∧ .onToken fault name = failure := by
  simp only [← instructionFault?_eq_iff, checkInstruction]
  cases define.instructionFault? (define.length + 1) name.text <;> simp [Failure.raise]

private theorem checkInstruction_eq_onToken_iff {fault : Fault} :
    define.checkInstruction name = .error (.onToken fault name) ↔
      define.Leads name.text (some fault) := by
  simp [checkInstruction_eq_error_iff, Failure.onToken]

end DefineTable

namespace Document.Progress
open Relation (ReflTransGen)
variable {m : Module} {file : String} {imports : List (String × String)} {p : Progress}

/-- Behind the forward pass, recorded names and all that they lead to are defined. -/
theorem mem_keys_of_forwardPass (h : m.forwardPass file = .ok (imports, p)) {name : Token}
    (hname : name ∈ p.recorded.toList) {last : String}
    (hlast : ReflTransGen p.define.Follows name.text last) : last ∈ p.define.map Prod.fst := by
  obtain ⟨hm, -, rfl⟩ := Module.forwardPass_eq_ok_iff.mp h
  obtain ⟨d, hd, hname⟩ : ∃ d ∈ m.definitions, name ∈ d.instructionNames := by
    simpa [ofDefinitions] using hname
  have hlabels : (m.labels.map Token.text).Nodup := (List.nodup_append.mp hm.names).2.1
  have hlabel := (hm.definitions d hd).instructionNames_subset hname
  have hmem := Module.mem_labels_of_reflTransGen hlabels hm.definitions hlabel hlast
  have hkeys : (m.document file).define.map Prod.fst = _ := Module.keys_define
  rwa [← hkeys] at hmem

theorem checkRecorded_eq_error_iff {failure : Failure} :
    p.checkRecorded = .error failure ↔ ∃ before name behind,
      p.recorded.toList = before ++ name :: behind ∧
        (∀ other ∈ before, p.define.checkInstruction other = .ok ()) ∧
        p.define.checkInstruction name = .error failure := forM_eq_error_iff

/-- A name is looked up, and those that it leads to, until an entry is no reference to a label or
has been looked up before, which is after as many lookups as there are entries and one more at the
latest. It is right if it leads to an instruction or to another module, blamed as data if it leads
to anything else, and as a circle if it leads on and on; it is blamed itself, and not what it leads
to. The check fails with the first name that fails. Behind a forward pass names never lead to what
is not defined. -/
theorem checkRecorded_exact (p : Progress) :
    (∀ name : Token,
      (p.define.search [] name.text).2 ≤ p.define.length + 1 ∧
      (p.define.checkInstruction name = match (p.define.search [] name.text).1 with
        | some fault => .error (.onToken fault name)
        | none => .ok ()) ∧
      (p.define.checkInstruction name = .ok () ↔
        ∃ node, p.define.Reaches name.text node ∧ node.isTarget) ∧
      (p.define.checkInstruction name = .error (.onToken .expectedInstruction name) ↔
        ∃ node, p.define.Reaches name.text node ∧ node.isData) ∧
      (p.define.checkInstruction name = .error (.onToken .cyclicReference name) ↔
        p.define.Circles name.text)) ∧
    (∀ failure, p.checkRecorded = .error failure ↔ ∃ before name behind,
      p.recorded.toList = before ++ name :: behind ∧
        (∀ other ∈ before, p.define.checkInstruction other = .ok ()) ∧
        p.define.checkInstruction name = .error failure) ∧
    ∀ (m : Module) (file : String) (imports : List (String × String)),
      m.forwardPass file = .ok (imports, p) →
        (∀ name ∈ p.recorded.toList, ∀ last, ReflTransGen p.define.Follows name.text last →
          last ∈ p.define.map Prod.fst) ∧
        ∀ failure, p.checkRecorded = .error failure → failure.fault ≠ .notDefined := by
  refine ⟨fun name => ⟨?_, DefineTable.checkInstruction_eq_search,
    DefineTable.checkInstruction_eq_ok_iff_leads, DefineTable.checkInstruction_eq_onToken_iff,
    DefineTable.checkInstruction_eq_onToken_iff⟩, fun failure => checkRecorded_eq_error_iff,
    fun m file imports h => ⟨fun name hname last => mem_keys_of_forwardPass h hname, ?_⟩⟩
  · have hle : (p.define.search [] name.text).2 ≤ (p.define.unseen []).length + 1 :=
      DefineTable.lookups_search_le
    simpa [DefineTable.unseen] using hle
  · intro failure hfails hfault
    obtain ⟨before, name, behind, hrecorded, -, hname⟩ := checkRecorded_eq_error_iff.mp hfails
    obtain ⟨fault, hleads, rfl⟩ := DefineTable.checkInstruction_eq_error_iff.mp hname
    cases hfault
    obtain ⟨last, hlast, hl⟩ := hleads
    have hmem := mem_keys_of_forwardPass h (by simp [hrecorded]) hlast
    rw [← isSome_lookup_iff, hl] at hmem
    cases hmem

private def entering : Module where
  imports := []
  definitions := [
    ⟨.named 0 "start", [], ⟨.named 0 "msg", [.number 0 (.named 0 "0"), .named 0 "entry"]⟩, []⟩,
    ⟨.named 0 "entry", [], ⟨.named 0 "ref", [.named 0 "loop"]⟩, []⟩,
    ⟨.named 0 "loop", [.named 0 "again"], ⟨.named 0 "ref", [.named 0 "again"]⟩, []⟩]
  exports := []

/-- A chain that goes on with a name outside a circle of two others, which leads into it. -/
theorem checkRecorded_exact_entering : ∃ imports p,
    entering.forwardPass "entering" = .ok (imports, p) ∧ p.recorded.toList = [.named 0 "entry"] ∧
      p.define.Circles "entry" ∧ (p.define.search [] "entry").2 ≤ 5 ∧
      p.checkRecorded = .error (.onToken .cyclicReference (.named 0 "entry")) ∧
      ∀ failure, p.checkRecorded = .error failure → failure.fault ≠ .notDefined := by
  have h : entering.forwardPass "entering" =
      .ok ([], ofDefinitions "entering" entering.definitions) := rfl
  obtain ⟨hnames, hcheck, hpass⟩ := checkRecorded_exact (ofDefinitions "entering" entering.definitions)
  obtain ⟨hlookups, -, -, -, hcircles⟩ := hnames (.named 0 "entry")
  have hfails : (ofDefinitions "entering" entering.definitions).define.checkInstruction
      (.named 0 "entry") = .error (.onToken .cyclicReference (.named 0 "entry")) := by decide
  exact ⟨_, _, h, rfl, hcircles.mp hfails, hlookups,
    (hcheck _).mpr ⟨[], .named 0 "entry", [], rfl, by simp, hfails⟩, (hpass _ _ _ h).2⟩

end Document.Progress

end ActorAsm
