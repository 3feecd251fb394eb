import ActorAsm.Proofs.Document.Blame
import ActorAsm.Proofs.Node.LabelSlots

/-! What is reported while the document of a module is made. A module that is accepted is reported
stage by stage; for one that is refused, the reports end where the stage fails that refuses it. -/

namespace ActorAsm

namespace Logged
variable {α β : Type} {x : Logged α} {f : α → Logged β}

/-- The computation has this result and reports these events, whatever was reported before. -/
def Reports (x : Logged α) (result : Except Failure α) (events : List Event) : Prop :=
  ∀ log : Array Event, x.run.run log = (result, log ++ events)

theorem Reports.of_eq {result : Except Failure α} {events events' : List Event}
    (h : x.Reports result events) (heq : events = events') : x.Reports result events' := heq ▸ h

theorem reports_pure (a : α) : (pure a : Logged α).Reports (.ok a) [] := by
  intro log
  rw [Array.appendList_nil]
  rfl

theorem reports_report (event : Event) : (report event).Reports (.ok ()) [event] := fun _ => rfl

theorem reports_reportAll (events : List Event) : (reportAll events).Reports (.ok ()) events :=
  fun _ => rfl

theorem reports_lift {computed result : Except Failure α} (h : computed = result) :
    (liftM computed : Logged α).Reports result [] := by
  intro log
  rw [Array.appendList_nil]
  subst h
  cases computed <;> rfl

private theorem append_append (log : Array Event) (events events' : List Event) :
    log ++ (events ++ events') = log ++ events ++ events' := by
  apply Array.toList_inj.mp
  simp

theorem Reports.bind {a : α} {result : Except Failure β} {events events' : List Event}
    (hx : x.Reports (.ok a) events) (hf : (f a).Reports result events') :
    (x >>= f).Reports result (events ++ events') := by
  intro log
  rw [ExceptT.run_bind, StateT.run_bind, hx log, append_append]
  exact hf _

theorem Reports.bind_error {failure : Failure} {events : List Event}
    (hx : x.Reports (.error failure) events) : (x >>= f).Reports (.error failure) events := by
  intro log
  rw [ExceptT.run_bind, StateT.run_bind, hx log]
  rfl

end Logged

/-- Whether an event is reported while the document of a module is made. -/
def Event.isOfDocument : Event → Bool
  | .imported _ | .closed _ | .defined _ | .verified _ | .exportedAgain _ _ _ => true
  | _ => false

/-- None of these says that the run is over. -/
theorem Event.of_isOfDocument {event : Event} (h : event.isOfDocument) :
    event.level ≠ .info ∧ ∀ file failure, event ≠ .failed file failure := by
  cases event with
  | imported | closed | defined | verified | exportedAgain =>
    exact ⟨Level.noConfusion, fun _ _ => Event.noConfusion⟩
  | drawn | parsed | assembled | failed => cases h

/-- How a definition is reported. -/
def Definition.event (d : Definition) : Event := .closed d.chainLength

/-- The names that imports and these definitions take. -/
def Module.takenBy (m : Module) (definitions : List Definition) : List String :=
  m.imports.map (·.moduleName.text) ++ (definitions.flatMap Definition.labels).map Token.text

theorem Module.takenBy_append (m : Module) (before behind : List Definition) :
    m.takenBy (before ++ behind) =
      m.takenBy before ++ (behind.flatMap Definition.labels).map Token.text := by
  simp [takenBy]

namespace Document

/-- The labels in the slots of all instructions of the document. -/
def labelSlots (doc : Document) : List Node := doc.define.flatMap (·.2.labelSlots)

open Logged
variable {m : Module} {file : String} {failure : Failure}

namespace Progress
variable {p p' : Progress} {d : Definition}

/-- A definition is reported when its chain is complete, whatever becomes of its aliases. -/
theorem addDefinition_reports (m : Module) (file : String) (p : Progress) (d : Definition) :
    ∃ events, (addDefinition (Scope.ofModule m file) p d).Reports
        (p.extend (Scope.ofModule m file) d) events ∧
      ((d.label.text ∉ p.taken m ∧ d.WellFormed m) ∧ events = [d.event] ∨
        ¬ (d.label.text ∉ p.taken m ∧ d.WellFormed m) ∧ events = []) := by
  have hlabel : p.claim (Scope.ofModule m file) d.label = .ok () ↔ _ := claim_eq_ok_iff
  have hchain : (Chain.ofDefinition (Scope.ofModule m file) d).Yields _ _ _ :=
    Definition.chain_yields
  unfold addDefinition extend
  cases hclaim : p.claim (Scope.ofModule m file) d.label with
  | error failure =>
    rw [hclaim] at hlabel
    have htaken : ¬ d.label.text ∉ p.taken m := fun hnew => by cases hlabel.mpr hnew
    exact ⟨[], (reports_lift rfl).bind_error, .inr ⟨fun h => htaken h.1, rfl⟩⟩
  | ok u =>
    have hnew := hlabel.mp hclaim
    cases hrun : (Chain.ofDefinition (Scope.ofModule m file) d).run p.recorded with
    | error failure =>
      have hill : ¬ d.WellFormed m := fun hd => by
        rw [(hchain p.recorded _ _).mpr ⟨hd, rfl, rfl⟩] at hrun
        cases hrun
      refine ⟨[], ?_, .inr ⟨fun h => hill h.2, rfl⟩⟩
      exact (reports_lift rfl).bind (reports_lift rfl).bind_error
    | ok found =>
      obtain ⟨chain, recorded⟩ := found
      obtain ⟨hd, rfl, -⟩ := (hchain p.recorded chain recorded).mp hrun
      refine ⟨[d.event], ?_, .inl ⟨⟨hnew, hd⟩, rfl⟩⟩
      exact (reports_lift rfl).bind
        ((reports_lift rfl).bind ((reports_report _).bind (reports_lift rfl)))

private theorem addDefinition_reports_of_ok (hp : (p.taken m).Nodup)
    (h : p.extend (Scope.ofModule m file) d = .ok p') :
    (addDefinition (Scope.ofModule m file) p d).Reports (.ok p') [d.event] := by
  obtain ⟨events, hreports, ⟨-, rfl⟩ | ⟨hfails, -⟩⟩ := addDefinition_reports m file p d
  · rwa [h] at hreports
  · obtain ⟨hnew, hd, -⟩ := (extend_eq_ok_iff hp).mp h
    rw [Definition.labels, List.map_cons] at hnew
    have hlabel : d.label.text ∉ p.taken m := fun hmem =>
      (List.nodup_append.mp hnew).2.2 _ hmem _ List.mem_cons_self rfl
    exact absurd ⟨hlabel, hd⟩ hfails

private theorem foldlM_addDefinition_reports {definitions : List Definition}
    (hp : (p.taken m).Nodup) (h : definitions.foldlM (extend (Scope.ofModule m file)) p = .ok p') :
    (definitions.foldlM (addDefinition (Scope.ofModule m file)) p).Reports (.ok p')
      (definitions.map Definition.event) := by
  induction definitions generalizing p with
  | nil =>
    cases h
    exact reports_pure _
  | cons d definitions ih =>
    rw [List.foldlM_cons, bind_eq_ok_iff] at h
    obtain ⟨q, hd, h⟩ := h
    have hq : (q.taken m).Nodup := by
      obtain ⟨hnames, -, rfl⟩ := (extend_eq_ok_iff hp).mp hd
      simpa [taken, Definition.keys_entries] using hnames
    rw [List.foldlM_cons]
    exact (addDefinition_reports_of_ok hp hd).bind (ih hq h)

/-- What there is behind these definitions. -/
def ofDefinitions (file : String) (definitions : List Definition) : Progress :=
  ⟨definitions.flatMap (Definition.entries file),
    (definitions.flatMap Definition.instructionNames).toArray⟩

theorem taken_ofDefinitions (definitions : List Definition) :
    (ofDefinitions file definitions).taken m = m.takenBy definitions := by
  simp [taken, ofDefinitions, Module.takenBy, List.map_flatMap, Definition.keys_entries]

theorem foldlM_extend_eq_ok_iff_of_start {definitions : List Definition}
    (hi : (m.imports.map (·.moduleName.text)).Nodup) :
    definitions.foldlM (extend (Scope.ofModule m file)) ⟨[], #[]⟩ = .ok p ↔
      (m.takenBy definitions).Nodup ∧ (∀ d ∈ definitions, d.WellFormed m) ∧
        ofDefinitions file definitions = p := by
  have hstart : (⟨[], #[]⟩ : Progress).taken m = m.imports.map (·.moduleName.text) := by
    simp [taken]
  rw [foldlM_extend_eq_ok_iff (by rwa [hstart]), hstart]
  simp [Module.takenBy, ofDefinitions]

private theorem foldlM_addDefinition_reports_of_start {definitions : List Definition}
    (hnames : (m.takenBy definitions).Nodup) (hd : ∀ d ∈ definitions, d.WellFormed m) :
    (definitions.foldlM (addDefinition (Scope.ofModule m file)) ⟨[], #[]⟩).Reports
      (.ok (ofDefinitions file definitions)) (definitions.map Definition.event) := by
  have hi := (List.nodup_append.mp hnames).1
  refine foldlM_addDefinition_reports (by simpa [taken] using hi) ?_
  exact (foldlM_extend_eq_ok_iff_of_start hi).mpr ⟨hnames, hd, rfl⟩

end Progress

section Exports

/-- The names of a list that have stood in it before. -/
def repeated (names : List Token) : List Token :=
  (names.zipIdx.filter fun (name, k) => name.text ∈ (names.take k).map Token.text).map Prod.fst

/-- How an export is reported whose name has been exported before. -/
def exportedAgain (file : String) (name : Token) : Event := .exportedAgain file name.line name.text

private theorem repeated_append_singleton (names : List Token) (name : Token) :
    repeated (names ++ [name]) =
      repeated names ++ if name.text ∈ names.map Token.text then [name] else [] := by
  have hfront : names.zipIdx.filter (fun (other, k) =>
        other.text ∈ ((names ++ [name]).take k).map Token.text) =
      names.zipIdx.filter fun (other, k) => other.text ∈ (names.take k).map Token.text := by
    refine List.filter_congr fun (other, k) hmem => ?_
    have hk : k ≤ names.length := (List.snd_lt_of_mem_zipIdx hmem).le
    simp only [List.take_append_of_le_length hk]
  rw [repeated, List.zipIdx_append, List.filter_append, List.map_append, hfront]
  congr 1
  by_cases h : name.text ∈ names.map Token.text
  · simp [h]
  · simp [h]

private theorem addExport_reports {name : Token} (h : name.text ∈ m.labels.map Token.text)
    (file : String) (names : List String) :
    (addExport (Scope.ofModule m file) names name).Reports (.ok (names ++ [name.text]))
      (if name.text ∈ names then [exportedAgain file name] else []) := by
  have hlabel : name.text ∈ (Scope.ofModule m file).labels := h
  rw [addExport, if_pos hlabel]
  split
  · exact (reports_report _).bind (reports_pure _)
  · exact reports_pure _

/-- Exports are taken from the back, where all before the last one have been taken. -/
theorem foldlM_addExport_reports {exports : List Token}
    (h : ∀ name ∈ exports, name.text ∈ m.labels.map Token.text) :
    (exports.foldlM (addExport (Scope.ofModule m file)) []).Reports
      (.ok (exports.map Token.text)) ((repeated exports).map (exportedAgain file)) := by
  induction exports using List.reverseRecOn with
  | nil => exact reports_pure []
  | append_singleton exports name ih =>
    rw [List.forall_mem_append] at h
    have hname := h.2 name List.mem_cons_self
    rw [List.foldlM_append, repeated_append_singleton, List.map_append, List.map_append]
    refine (ih h.1).bind ?_
    have hlast := (addExport_reports hname file (exports.map Token.text)).bind
      (reports_pure _)
    rw [List.append_nil] at hlast
    split
    · simpa [*] using hlast
    · simpa [*] using hlast

private theorem exists_addExport_reports
    (h : m.exports.foldlM (extendExports (Scope.ofModule m file)) [] = .error failure) :
    ∃ before name behind, m.exports = before ++ name :: behind ∧
      (∀ e ∈ before, e.text ∈ m.labels.map Token.text) ∧ name.text ∉ m.labels.map Token.text ∧
      (m.exports.foldlM (addExport (Scope.ofModule m file)) []).Reports (.error failure)
        ((repeated before).map (exportedAgain file)) := by
  obtain ⟨before, name, behind, names, hexports, hbefore, hname⟩ := exists_of_foldlM_eq_error h
  obtain ⟨hlabels, rfl⟩ := foldlM_extendExports_eq_ok_iff.mp hbefore
  refine ⟨before, name, behind, hexports, hlabels, ?_⟩
  unfold extendExports at hname
  split at hname
  · cases hname
  next hunknown =>
    refine ⟨hunknown, ?_⟩
    rw [hexports, List.foldlM_append]
    refine Reports.of_eq ((foldlM_addExport_reports hlabels).bind ?_) (List.append_nil _)
    rw [List.foldlM_cons, addExport, if_neg hunknown]
    exact (reports_lift hname).bind_error

end Exports

end Document

namespace Module
open Document (repeated exportedAgain importTable)
open Document.Progress (extend addDefinition taken)
open Logged
variable {m : Module} {file : String} {failure : Failure} {doc : Document}

/-- What is reported of imports and definitions. -/
def opening (m : Module) : List Event :=
  .imported m.imports.length :: m.definitions.map Definition.event ++ [.defined m.labels.length]

/-- What is reported behind definitions, when these exports have been taken. -/
def closing (m : Module) (file : String) (exports : List Token) : List Event :=
  .verified (m.document file).labelSlots.length :: (repeated exports).map (exportedAgain file)

/-- What is reported of a module that is accepted. -/
def reports (m : Module) (file : String) : List Event := m.opening ++ m.closing file m.exports

/-- Names are distinct and definitions well formed, so that there are entries for all labels. -/
structure Definable (m : Module) : Prop where
  names : (m.takenBy m.definitions).Nodup
  definitions : ∀ d ∈ m.definitions, d.WellFormed m

/-- What has to stand for instructions does so in the document. -/
def Verifiable (m : Module) (file : String) : Prop :=
  ∀ d ∈ m.definitions, ∀ name ∈ d.instructionNames,
    (m.document file).define.LeadsToInstruction name.text

/-- What is reported of a module that is refused, up to the stage that refuses it. A definition is
reported in front of its aliases, and an export is reported although a later one is refused. -/
inductive Stops (m : Module) (file : String) : List Event → Prop where
  | imports : ¬ (m.imports.map (·.moduleName.text)).Nodup → Stops m file []
  | chain {before behind : List Definition} {d : Definition} :
      m.definitions = before ++ d :: behind → (m.takenBy before).Nodup →
      (∀ e ∈ before, e.WellFormed m) → ¬ (d.label.text ∉ m.takenBy before ∧ d.WellFormed m) →
      Stops m file (.imported m.imports.length :: before.map Definition.event)
  | aliases {before behind : List Definition} {d : Definition} :
      m.definitions = before ++ d :: behind → (m.takenBy before).Nodup →
      (∀ e ∈ before ++ [d], e.WellFormed m) → d.label.text ∉ m.takenBy before →
      ¬ (m.takenBy (before ++ [d])).Nodup →
      Stops m file (.imported m.imports.length :: (before ++ [d]).map Definition.event)
  | check : m.Definable → ¬ m.Verifiable file → Stops m file m.opening
  | exports {before behind : List Token} {name : Token} : m.Definable → m.Verifiable file →
      m.exports = before ++ name :: behind → (∀ e ∈ before, e.text ∈ m.labels.map Token.text) →
      name.text ∉ m.labels.map Token.text → Stops m file (m.opening ++ m.closing file before)

private theorem length_labelSlots_document (h : ∀ d ∈ m.definitions, d.WellFormed m)
    (file : String) : (m.document file).labelSlots.length =
      (m.definitions.flatMap Definition.instructionNames).length := by
  have hentries (d : Definition) (hd : d.WellFormed m) :
      ((d.entries file).flatMap (·.2.labelSlots)).length = d.instructionNames.length := by
    rw [Definition.flatMap_entries (f := Node.labelSlots) (fun _ _ => rfl), hd.length_labelSlots]
  rw [document, Document.labelSlots, List.flatMap_assoc, List.length_flatMap, List.length_flatMap]
  exact congrArg List.sum (List.map_congr_left fun d hd => hentries d (h d hd))

private theorem checkRecorded_ofDefinitions_eq_ok_iff :
    (Document.Progress.ofDefinitions file m.definitions).checkRecorded = .ok () ↔
      m.Verifiable file := by
  rw [Document.Progress.checkRecorded_eq_ok_iff, Verifiable]
  simp only [Document.Progress.ofDefinitions, List.mem_flatMap]
  exact ⟨fun h d hd name hname => h name ⟨d, hd, hname⟩,
    fun h name ⟨d, hd, hname⟩ => h d hd name hname⟩

private def check (m : Module) (file : String) : Logged Document := do
  let progress := Document.Progress.ofDefinitions file m.definitions
  progress.checkRecorded
  report (.verified progress.recorded.size)
  let exports ← m.exports.foldlM (Document.addExport (Scope.ofModule m file)) []
  return ⟨(m.document file).imports, progress.define, exports⟩

private theorem ofModule_reports_of_definable (hm : m.Definable) {events : List Event}
    {result : Except Failure Document} (h : (m.check file).Reports result events) :
    (Document.ofModule m file).Reports result (m.opening ++ events) := by
  have himports : importTable m.imports = .ok (m.document file).imports :=
    Document.importTable_eq_ok_iff.mpr ⟨(List.nodup_append.mp hm.names).1, rfl⟩
  have hlength : (m.document file).define.length = m.labels.length := by
    rw [← List.length_map Prod.fst, keys_define, List.length_map]
  refine Reports.of_eq ((reports_lift himports).bind <| (reports_report _).bind <|
    (Document.Progress.foldlM_addDefinition_reports_of_start hm.names hm.definitions).bind <|
    (reports_report _).bind h) ?_
  rw [opening, ← hlength]
  simp [document, Document.Progress.ofDefinitions]

private theorem check_reports_of_verifiable (hm : m.Definable) (hv : m.Verifiable file)
    {exports : List Token} {result : Except Failure (List String)}
    (h : (m.exports.foldlM (Document.addExport (Scope.ofModule m file)) []).Reports result
      ((repeated exports).map (exportedAgain file))) :
    (m.check file).Reports
      (result.map fun names => ⟨(m.document file).imports, (m.document file).define, names⟩)
      (m.closing file exports) := by
  have hcheck := checkRecorded_ofDefinitions_eq_ok_iff.mpr hv
  have hsize : (Document.Progress.ofDefinitions file m.definitions).recorded.size =
      (m.document file).labelSlots.length := by
    rw [length_labelSlots_document hm.definitions]
    simp [Document.Progress.ofDefinitions]
  rw [closing, ← hsize]
  refine (reports_lift hcheck).bind <| (reports_report _).bind ?_
  cases result with
  | error failure => exact h.bind_error
  | ok names => exact Reports.of_eq (h.bind (reports_pure _)) (List.append_nil _)

/-- The reports of a module that is accepted. -/
theorem ofModule_reports (h : m.generate file = .ok doc) :
    (Document.ofModule m file).Reports (.ok doc) (m.reports file) := by
  obtain ⟨hnames, hd, hlead, hexports, rfl⟩ := generate_eq_ok_iff_of_table.mp h
  exact ofModule_reports_of_definable ⟨hnames, hd⟩
    (check_reports_of_verifiable ⟨hnames, hd⟩ hlead (Document.foldlM_addExport_reports hexports))

private theorem exists_definitions_reports (hi : (m.imports.map (·.moduleName.text)).Nodup)
    (h : m.definitions.foldlM (extend (Scope.ofModule m file)) ⟨[], #[]⟩ = .error failure) :
    ∃ events, m.Stops file (.imported m.imports.length :: events) ∧
      (m.definitions.foldlM (addDefinition (Scope.ofModule m file)) ⟨[], #[]⟩).Reports
        (.error failure) events := by
  obtain ⟨before, d, behind, p, hdefinitions, hbefore, hfails⟩ := exists_of_foldlM_eq_error h
  obtain ⟨hnames, hd, rfl⟩ :=
    (Document.Progress.foldlM_extend_eq_ok_iff_of_start hi).mp hbefore
  -- The definition that fails is reported if only its aliases are refused.
  obtain ⟨events, hreports, hcases⟩ := Document.Progress.addDefinition_reports m file
    (Document.Progress.ofDefinitions file before) d
  rw [hfails] at hreports
  rw [Document.Progress.taken_ofDefinitions] at hcases
  refine ⟨before.map Definition.event ++ events, ?_, ?_⟩
  · rcases hcases with ⟨⟨hnew, hlast⟩, rfl⟩ | ⟨hill, rfl⟩
    · have hdup : ¬ (m.takenBy (before ++ [d])).Nodup := fun hnodup => by
        have hp : (taken m (Document.Progress.ofDefinitions file before)).Nodup := by
          rwa [Document.Progress.taken_ofDefinitions]
        have hlabels : (taken m (Document.Progress.ofDefinitions file before) ++
            d.labels.map Token.text).Nodup := by
          rw [takenBy_append, List.flatMap_singleton] at hnodup
          rwa [Document.Progress.taken_ofDefinitions]
        cases hfails.symm.trans
          ((Document.Progress.extend_eq_ok_iff hp).mpr ⟨hlabels, hlast, rfl⟩)
      have hstops : m.Stops file _ := .aliases hdefinitions hnames
        (List.forall_mem_append.mpr ⟨hd, by simpa using hlast⟩) hnew hdup
      rwa [List.map_append] at hstops
    · rw [List.append_nil]
      exact .chain hdefinitions hnames hd hill
  · rw [hdefinitions, List.foldlM_append]
    refine (Document.Progress.foldlM_addDefinition_reports_of_start hnames hd).bind ?_
    rw [List.foldlM_cons]
    exact hreports.bind_error

/-- The reports of a module that is refused. -/
theorem exists_ofModule_reports (h : m.generate file = .error failure) :
    ∃ events, m.Stops file events ∧ (Document.ofModule m file).Reports (.error failure) events := by
  rw [generate_eq_generatePlain, generatePlain] at h
  rcases bind_eq_error_iff.mp h with himports | ⟨imports, himports, h⟩
  · refine ⟨[], .imports fun hi => ?_, (reports_lift himports).bind_error⟩
    rw [Document.importTable_eq_ok_iff.mpr ⟨hi, rfl⟩] at himports
    cases himports
  obtain ⟨hi, rfl⟩ := Document.importTable_eq_ok_iff.mp himports
  rcases bind_eq_error_iff.mp h with hextend | ⟨progress, hextend, h⟩
  · obtain ⟨events, hstops, hreports⟩ := exists_definitions_reports hi hextend
    exact ⟨_, hstops, ((reports_lift himports).bind ((reports_report _).bind
      hreports.bind_error)).of_eq (by simp)⟩
  obtain ⟨hnames, hd, rfl⟩ := (Document.Progress.foldlM_extend_eq_ok_iff_of_start hi).mp hextend
  rcases bind_eq_error_iff.mp h with hcheck | ⟨_, hcheck, h⟩
  · refine ⟨_, .check ⟨hnames, hd⟩ fun hlead => ?_, Reports.of_eq
      (ofModule_reports_of_definable ⟨hnames, hd⟩ (reports_lift hcheck).bind_error)
        (List.append_nil _)⟩
    rw [checkRecorded_ofDefinitions_eq_ok_iff.mpr hlead] at hcheck
    cases hcheck
  have hlead := checkRecorded_ofDefinitions_eq_ok_iff.mp hcheck
  rcases bind_eq_error_iff.mp h with hexports | ⟨_, -, hpure⟩
  · obtain ⟨before, name, behind, heq, hlabels, hunknown, hreports⟩ :=
      Document.exists_addExport_reports hexports
    exact ⟨_, .exports ⟨hnames, hd⟩ hlead heq hlabels hunknown,
      ofModule_reports_of_definable ⟨hnames, hd⟩
        (check_reports_of_verifiable ⟨hnames, hd⟩ hlead hreports)⟩
  · cases hpure

private theorem Definable.nodup_takenBy (h : m.Definable) {before behind : List Definition}
    (hdefinitions : m.definitions = before ++ behind) : (m.takenBy before).Nodup := by
  have hnames := h.names
  rw [hdefinitions, takenBy_append] at hnames
  exact (List.nodup_append.mp hnames).1

theorem isOfDocument_of_mem_reports {event : Event} (h : event ∈ m.reports file) :
    event.isOfDocument := by
  revert event
  simp [reports, opening, closing, Definition.event, exportedAgain, Event.isOfDocument, or_imp, forall_and]

namespace Stops
variable {events : List Event} {count : Nat}

theorem isOfDocument_of_mem (h : m.Stops file events) {event : Event} (hevent : event ∈ events) :
    event.isOfDocument := by
  revert event
  cases h <;>
    simp [opening, closing, Definition.event, exportedAgain, Event.isOfDocument, or_imp,
      forall_and]

/-- Imports are counted if and only if their names are distinct. -/
theorem imported_mem_iff (h : m.Stops file events) :
    .imported count ∈ events ↔
      (m.imports.map (·.moduleName.text)).Nodup ∧ count = m.imports.length := by
  cases h with
  | imports hdup => simp [hdup]
  | chain _ hnames _ _ | aliases _ hnames _ _ _ =>
    simp [Definition.event, (List.nodup_append.mp hnames).1]
  | check hm _ | exports hm _ _ _ _ =>
    simp [opening, closing, Definition.event, exportedAgain,
      (List.nodup_append.mp hm.names).1]

/-- Definitions are counted if and only if all of them can be made. -/
theorem defined_mem_iff (h : m.Stops file events) :
    .defined count ∈ events ↔ m.Definable ∧ count = m.labels.length := by
  cases h with
  | imports hdup =>
    have hm : ¬ m.Definable := fun hm => hdup (List.nodup_append.mp hm.names).1
    simp [hm]
  | @chain before behind d hdefinitions _ _ hill =>
    have hm : ¬ m.Definable := fun hm => by
      have hnames := hm.names
      rw [hdefinitions, takenBy_append] at hnames
      refine hill ⟨fun hmem => ?_, hm.definitions d (by simp [hdefinitions])⟩
      exact (List.nodup_append.mp hnames).2.2 _ hmem _ (by simp [Definition.labels]) rfl
    simp [hm, Definition.event]
  | @aliases before behind d hdefinitions _ _ _ hdup =>
    have hm : ¬ m.Definable := fun hm =>
      hdup (hm.nodup_takenBy (hdefinitions.trans (List.append_cons before d behind)))
    simp [hm, Definition.event]
  | check hm _ | exports hm _ _ _ _ =>
    simp [opening, closing, Definition.event, exportedAgain, hm]

/-- Instruction references are counted if and only if, besides, all of them lead to instructions. -/
theorem verified_mem_iff (h : m.Stops file events) :
    .verified count ∈ events ↔
      (m.Definable ∧ m.Verifiable file) ∧ count = (m.document file).labelSlots.length := by
  have hdefined : .defined m.labels.length ∈ events ↔ _ := h.defined_mem_iff
  cases h with
  | imports hdup => simp_all
  | chain _ _ _ _ | aliases _ _ _ _ _ => simp_all [Definition.event]
  | check _ hlead => simp [opening, Definition.event, hlead]
  | exports hm hlead _ _ _ =>
    simp [opening, closing, Definition.event, exportedAgain, hm, hlead]

end Stops

end Module

end ActorAsm
