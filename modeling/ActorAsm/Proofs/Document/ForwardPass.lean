import ActorAsm.Proofs.Document.Reports

/-! The forward pass: imports and definitions, up to the check of the names that have been recorded.
What it leaves behind is told by the module, and generation goes on from there. -/

namespace ActorAsm

namespace Document

/-- Imports, then definitions from front to back. -/
def forwardPass (m : Module) (file : String) : Logged (List (String × String) × Progress) := do
  let imports ← importTable m.imports
  report (.imported imports.length)
  let progress ← m.definitions.foldlM (Progress.addDefinition (Scope.ofModule m file)) ⟨[], #[]⟩
  return (imports, progress)

/-- What is left to do: the check of what has been recorded, and exports. -/
def secondPass (m : Module) (file : String) (imports : List (String × String))
    (progress : Progress) : Logged Document := do
  report (.defined progress.define.length)
  progress.checkRecorded
  report (.verified progress.recorded.size)
  let exports ← m.exports.foldlM (addExport (Scope.ofModule m file)) []
  return ⟨imports, progress.define, exports⟩

theorem ofModule_eq_passes (m : Module) (file : String) :
    ofModule m file = forwardPass m file >>= fun (imports, progress) =>
      secondPass m file imports progress := by
  simp [ofModule, forwardPass, secondPass]

end Document

namespace Module

/-- What the forward pass leaves behind, or its failure. -/
def forwardPass (m : Module) (file : String) :
    Except Failure (List (String × String) × Document.Progress) :=
  ((Document.forwardPass m file).run.run #[]).1

variable {m : Module} {file : String} {imports : List (String × String)}
  {progress : Document.Progress} {failure : Failure}

private theorem forwardPass_gives_plain : (Document.forwardPass m file).Gives (do
    let imports ← Document.importTable m.imports
    let progress ← m.definitions.foldlM (Document.Progress.extend (Scope.ofModule m file)) ⟨[], #[]⟩
    return (imports, progress)) := by
  refine (Logged.gives_lift _).bind fun imports => Logged.gives_report_bind _ ?_
  exact (Logged.gives_foldlM (Document.Progress.addDefinition_gives _) _ _).bind fun progress =>
    Logged.gives_pure _

private theorem forwardPass_gives :
    (Document.forwardPass m file).Gives (m.forwardPass file) := fun log =>
  (forwardPass_gives_plain log).trans (forwardPass_gives_plain #[]).symm

/-- The forward pass is completed exactly when names are distinct and definitions well formed. -/
theorem forwardPass_eq_ok_iff : m.forwardPass file = .ok (imports, progress) ↔
    m.Definable ∧ (m.document file).imports = imports ∧
      Document.Progress.ofDefinitions file m.definitions = progress := by
  rw [forwardPass, forwardPass_gives_plain #[]]
  simp only [bind_eq_ok_iff, pure, Except.pure, Except.ok.injEq, Prod.mk.injEq]
  constructor
  · rintro ⟨_, himports, _, hprogress, rfl, rfl⟩
    obtain ⟨hi, rfl⟩ := Document.importTable_eq_ok_iff.mp himports
    obtain ⟨hnames, hd, rfl⟩ :=
      (Document.Progress.foldlM_extend_eq_ok_iff_of_start hi).mp hprogress
    exact ⟨⟨hnames, hd⟩, rfl, rfl⟩
  · rintro ⟨hm, rfl, rfl⟩
    have hi := (List.nodup_append.mp hm.names).1
    exact ⟨_, Document.importTable_eq_ok_iff.mpr ⟨hi, rfl⟩, _,
      (Document.Progress.foldlM_extend_eq_ok_iff_of_start hi).mpr ⟨hm.names, hm.definitions, rfl⟩,
      rfl, rfl⟩

/-- Generation is the forward pass, the check of what it has recorded, and exports. -/
theorem generate_eq_passes : m.generate file = do
    let (imports, progress) ← m.forwardPass file
    progress.checkRecorded
    let exports ← m.exports.foldlM (Document.extendExports (Scope.ofModule m file)) []
    return ⟨imports, progress.define, exports⟩ := by
  have hgives : (Document.ofModule m file).Gives (do
      let (imports, progress) ← m.forwardPass file
      progress.checkRecorded
      let exports ← m.exports.foldlM (Document.extendExports (Scope.ofModule m file)) []
      return ⟨imports, progress.define, exports⟩) := by
    rw [Document.ofModule_eq_passes]
    refine forwardPass_gives.bind fun (imports, progress) => Logged.gives_report_bind _ ?_
    refine (Logged.gives_lift _).bind fun _ => Logged.gives_report_bind _ ?_
    exact (Logged.gives_foldlM (Document.addExport_gives _) _ _).bind fun exports =>
      Logged.gives_pure _
  exact hgives #[]

/-- A module that passes and is refused by the check is refused with the failure of the check. -/
theorem generate_of_checkRecorded (h : m.forwardPass file = .ok (imports, progress))
    (hcheck : progress.checkRecorded = .error failure) : m.generate file = .error failure := by
  rw [generate_eq_passes, h]
  simp only [bind, Except.bind, hcheck]

end Module

end ActorAsm
