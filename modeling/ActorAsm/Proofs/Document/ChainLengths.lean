import ActorAsm.Proofs.Document.Reports

/-! The lengths that are reported of chains. A length is one more than the number of links, whatever
stands at the end. A last statement that names itself what the chain goes on with is a link as well,
so that the chain is reported as one statement longer than it is written. -/

namespace ActorAsm

/-- A chain is counted statement by statement, and once more when it goes on with an operand. -/
theorem Definition.WellFormed.exists_chainLength_eq {m : Module} {d : Definition}
    (h : d.WellFormed m) : ∃ op, d.last.operation? = some op ∧
      d.chainLength = d.statements.length + if op.continues then 1 else 0 := by
  obtain ⟨op, hop, -⟩ := h.last
  refine ⟨op, hop, ?_⟩
  have hlength : d.chainLength = d.following.length + d.last.endLength := rfl
  have hstatements : d.statements.length = d.following.length + 1 := rfl
  rw [hlength, hstatements, Statement.endLength, hop, Option.any_some]
  split <;> rfl

namespace Module
open Document (importTable exportedAgain)
open Document.Progress (extend taken ofDefinitions)
variable {m : Module} {file : String} {d e : Definition} {before between done rest : List Definition}

/-- The messages of the least urgent level, in the order in which they are reported while the
document of the module is made. -/
def traces (m : Module) (file : String) : List String :=
  (((Document.ofModule m file).run.run #[]).2.toList.filter (·.level = .trace)).map Event.message

private theorem traces_of_reports {result : Except Failure Document} {events : List Event}
    (h : (Document.ofModule m file).Reports result events) :
    m.traces file = (events.filter (·.level = .trace)).map Event.message := by
  rw [traces, h #[]]
  simp

/-- The chain of a definition is made, when those in front have been added. -/
def Completes (m : Module) (file : String) (before : List Definition) (d : Definition) : Prop :=
  ∃ imports progress chain recorded, importTable m.imports = .ok imports ∧
    before.foldlM (extend (Scope.ofModule m file)) ⟨[], #[]⟩ = .ok progress ∧
    progress.claim (Scope.ofModule m file) d.label = .ok () ∧
    (Chain.ofDefinition (Scope.ofModule m file) d).run progress.recorded = .ok (chain, recorded)

theorem completes_iff : m.Completes file before d ↔
    (m.takenBy before).Nodup ∧ (∀ e ∈ before, e.WellFormed m) ∧
      d.label.text ∉ m.takenBy before ∧ d.WellFormed m := by
  have hchain : (Chain.ofDefinition (Scope.ofModule m file) d).Yields _ _ _ :=
    Definition.chain_yields
  constructor
  · rintro ⟨imports, progress, chain, recorded, himports, hbefore, hlabel, hrun⟩
    obtain ⟨hi, -⟩ := Document.importTable_eq_ok_iff.mp himports
    obtain ⟨hnames, hwell, rfl⟩ :=
      (Document.Progress.foldlM_extend_eq_ok_iff_of_start hi).mp hbefore
    obtain ⟨hd, -⟩ := (hchain _ _ _).mp hrun
    have hnew := Document.Progress.claim_eq_ok_iff.mp hlabel
    rw [Document.Progress.taken_ofDefinitions] at hnew
    exact ⟨hnames, hwell, hnew, hd⟩
  · rintro ⟨hnames, hwell, hnew, hd⟩
    have hi := (List.nodup_append.mp hnames).1
    have hbefore : before.foldlM (extend (Scope.ofModule m file)) ⟨[], #[]⟩ =
        .ok (ofDefinitions file before) :=
      (Document.Progress.foldlM_extend_eq_ok_iff_of_start hi).mpr ⟨hnames, hwell, rfl⟩
    have hlabel : d.label.text ∉ taken m (ofDefinitions file before) := by
      rwa [Document.Progress.taken_ofDefinitions]
    exact ⟨_, _, _, _, Document.importTable_eq_ok_iff.mpr ⟨hi, rfl⟩, hbefore,
      Document.Progress.claim_eq_ok_iff.mpr hlabel, (hchain _ _ _).mpr ⟨hd, rfl, rfl⟩⟩

private theorem completes_of_nodup (hnames : (m.takenBy (before ++ [d])).Nodup)
    (hwell : ∀ e ∈ before ++ [d], e.WellFormed m) : m.Completes file before d := by
  rw [takenBy_append] at hnames
  obtain ⟨hbefore, -, hapart⟩ := List.nodup_append.mp hnames
  obtain ⟨hwells, hd⟩ := List.forall_mem_append.mp hwell
  refine completes_iff.mpr ⟨hbefore, hwells, fun hmem => ?_, hd d List.mem_cons_self⟩
  exact hapart _ hmem d.label.text (by simp [Definition.labels]) rfl

/-- No chain is made behind one that is not. -/
theorem Completes.of_append (h : m.Completes file (before ++ e :: between) d) :
    m.Completes file before e := by
  obtain ⟨hnames, hwell, -, -⟩ := completes_iff.mp h
  rw [List.append_cons] at hnames hwell
  rw [takenBy_append] at hnames
  exact completes_of_nodup (List.nodup_append.mp hnames).1 (List.forall_mem_append.mp hwell).1

/-- The chains of these definitions are made, and those of the rest are not. -/
structure CompletesUpTo (m : Module) (file : String) (done rest : List Definition) : Prop where
  definitions : m.definitions = done ++ rest
  completes : ∀ before d behind, done = before ++ d :: behind → m.Completes file before d
  stops : ∀ d behind, rest = d :: behind → ¬ m.Completes file done d

private theorem CompletesUpTo.getElem?_eq_some_iff (h : m.CompletesUpTo file done rest) {k : Nat} :
    done[k]? = some d ↔ ∃ before behind, m.definitions = before ++ d :: behind ∧
      before.length = k ∧ m.Completes file before d := by
  constructor
  · intro hk
    obtain ⟨hlt, rfl⟩ := List.getElem?_eq_some_iff.mp hk
    have hsplit : done = done.take k ++ done[k] :: done.drop (k + 1) := by simp
    refine ⟨done.take k, done.drop (k + 1) ++ rest, ?_, by simp [hlt.le], ?_⟩
    · rw [h.definitions, ← List.cons_append, ← List.append_assoc, ← hsplit]
    · exact h.completes _ _ _ hsplit
  · rintro ⟨before, behind, hdefinitions, rfl, hcompletes⟩
    rw [h.definitions, List.append_eq_append_iff] at hdefinitions
    rcases hdefinitions with ⟨between, rfl, hrest⟩ | ⟨between, rfl, hbehind⟩
    · cases between with
      | nil => exact absurd (by simpa using hcompletes) (h.stops d behind hrest)
      | cons e between => exact absurd hcompletes.of_append (h.stops e _ hrest)
    · cases between with
      | nil => exact absurd (by simpa using hcompletes) (h.stops d behind hbehind.symm)
      | cons e between =>
        obtain ⟨rfl, -⟩ := List.cons.inj hbehind
        simp

/-- It is enough to ask it of the last chain that is made. -/
theorem CompletesUpTo.of_last (hdefinitions : m.definitions = done ++ rest)
    (hlast : ∀ before d, done = before ++ [d] → m.Completes file before d)
    (hstops : ∀ d behind, rest = d :: behind → ¬ m.Completes file done d) :
    m.CompletesUpTo file done rest := by
  refine ⟨hdefinitions, fun before d behind hdone => ?_, hstops⟩
  rcases behind.eq_nil_or_concat with rfl | ⟨between, e, rfl⟩
  · exact hlast before d hdone
  · have h : m.Completes file (before ++ d :: between) e := hlast _ e (by simp [hdone])
    exact h.of_append

private theorem Definable.completesUpTo (h : m.Definable) :
    m.CompletesUpTo file m.definitions [] := by
  refine .of_last (List.append_nil _).symm (fun before d hdefinitions => ?_) (by simp)
  obtain ⟨hnames, hwell⟩ := h
  rw [hdefinitions] at hnames hwell
  exact completes_of_nodup hnames hwell

private theorem filter_map_event (definitions : List Definition) :
    (definitions.map Definition.event).filter (·.level = .trace) =
      definitions.map Definition.event := by
  refine List.filter_eq_self.mpr (List.forall_mem_map.mpr fun d _ => ?_)
  rfl

private theorem filter_opening (m : Module) :
    m.opening.filter (·.level = .trace) = m.definitions.map Definition.event := by
  rw [opening, List.cons_append, List.filter_cons_of_neg (by simp [Event.level]),
    List.filter_append, filter_map_event]
  exact List.append_nil _

private theorem filter_closing (m : Module) (file : String) (exports : List Token) :
    (m.closing file exports).filter (·.level = .trace) = [] := by
  simp [closing, exportedAgain, Event.level]

/-- The chains that are reported of a module that is refused. -/
theorem Stops.exists_completesUpTo {events : List Event} (h : m.Stops file events) :
    ∃ done rest, m.CompletesUpTo file done rest ∧
      events.filter (·.level = .trace) = done.map Definition.event := by
  cases h with
  | imports hdup =>
    refine ⟨[], m.definitions, .of_last rfl (by simp) fun d _ _ hd => hdup ?_, rfl⟩
    exact (List.nodup_append.mp (completes_iff.mp hd).1).1
  | @chain before behind d hdefinitions hnames hwell hill =>
    refine ⟨before, d :: behind, .of_last hdefinitions (fun front e hbefore => ?_)
      (fun e _ hrest hd => hill ?_), filter_map_event before⟩
    · subst hbefore
      exact completes_of_nodup hnames hwell
    · cases hrest
      exact (completes_iff.mp hd).2.2
  | @aliases before behind d hdefinitions hnames hwell hnew hdup =>
    obtain ⟨hwells, hd⟩ := List.forall_mem_append.mp hwell
    refine ⟨before ++ [d], behind, .of_last (by simp [hdefinitions]) (fun front e hdone => ?_)
      (fun _ _ _ he => hdup (completes_iff.mp he).1), filter_map_event _⟩
    obtain ⟨rfl, hlast⟩ := List.append_inj' hdone rfl
    cases hlast
    exact completes_iff.mpr ⟨hnames, hwells, hnew, hd d List.mem_cons_self⟩
  | check hm _ => exact ⟨m.definitions, [], hm.completesUpTo, filter_opening m⟩
  | @exports before _ _ hm _ _ _ _ =>
    refine ⟨m.definitions, [], hm.completesUpTo, ?_⟩
    rw [List.filter_append, filter_opening, filter_closing, List.append_nil]

private theorem exists_traces (m : Module) (file : String) :
    ∃ done rest, m.CompletesUpTo file done rest ∧
      m.traces file = done.map (·.event.message) := by
  cases h : m.generate file with
  | ok doc =>
    obtain ⟨hnames, hwell, -⟩ := generate_eq_ok_iff_of_table.mp h
    refine ⟨m.definitions, [], Definable.completesUpTo ⟨hnames, hwell⟩, ?_⟩
    rw [traces_of_reports (ofModule_reports h), reports, List.filter_append, filter_opening,
      filter_closing, List.append_nil, List.map_map]
    rfl
  | error failure =>
    obtain ⟨events, hstops, hreports⟩ := exists_ofModule_reports h
    obtain ⟨done, rest, hdone, hevents⟩ := hstops.exists_completesUpTo
    refine ⟨done, rest, hdone, ?_⟩
    rw [traces_of_reports hreports, hevents, List.map_map]
    rfl

/-- There is a message for each definition whose chain is made and for nothing else. It tells the
number of statements, except of a definition whose last statement has an operand to go on with: of
such a definition it tells one more. -/
theorem traces_getElem?_eq_some_iff (m : Module) (file : String) (k : Nat) (message : String) :
    (m.traces file)[k]? = some message ↔
      ∃ before d behind op, m.definitions = before ++ d :: behind ∧ before.length = k ∧
        m.Completes file before d ∧ d.last.operation? = some op ∧
        message = "closing a chain of " ++
          toString (d.statements.length + if op.continues then 1 else 0) ++ " statement(s)" := by
  obtain ⟨done, rest, hdone, htraces⟩ := m.exists_traces file
  have hmessage {before : List Definition} {d : Definition} (hd : m.Completes file before d) :
      ∃ op, d.last.operation? = some op ∧ d.event.message = "closing a chain of " ++
        toString (d.statements.length + if op.continues then 1 else 0) ++ " statement(s)" := by
    obtain ⟨-, -, -, hwell⟩ := completes_iff.mp hd
    obtain ⟨op, hop, hlength⟩ := hwell.exists_chainLength_eq
    have htext : d.event.message =
        "closing a chain of " ++ toString d.chainLength ++ " statement(s)" := rfl
    exact ⟨op, hop, by rw [htext, hlength]⟩
  rw [htraces, List.getElem?_map, Option.map_eq_some_iff]
  constructor
  · rintro ⟨d, hd, rfl⟩
    obtain ⟨before, behind, hdefinitions, hk, hcompletes⟩ := hdone.getElem?_eq_some_iff.mp hd
    obtain ⟨op, hop, htext⟩ := hmessage hcompletes
    exact ⟨before, d, behind, op, hdefinitions, hk, hcompletes, hop, htext⟩
  · rintro ⟨before, d, behind, op, hdefinitions, hk, hcompletes, hop, rfl⟩
    refine ⟨d, hdone.getElem?_eq_some_iff.mpr ⟨before, behind, hdefinitions, hk, hcompletes⟩, ?_⟩
    obtain ⟨op', hop', htext⟩ := hmessage hcompletes
    cases hop.symm.trans hop'
    exact htext

private def spin : Definition where
  label := ⟨.name, "main", 0, 0, 4⟩
  aliases := []
  statement := ⟨⟨.name, "msg", 1, 2, 5⟩,
    [.number 0 ⟨.number 0, "0", 1, 6, 7⟩, .reference (.bare ⟨.name, "main", 1, 8, 12⟩)]⟩
  following := []

/-- Not every message tells the number of statements, as it is with a single one that goes on with its
own label. -/
theorem not_all_traces_tell_statements :
    ¬ ∀ (m : Module) (file : String) (before behind : List Definition) (d : Definition),
      m.definitions = before ++ d :: behind → m.Completes file before d →
      (m.traces file)[before.length]? =
        some ("closing a chain of " ++ toString d.statements.length ++ " statement(s)") := by
  intro h
  have hcompletes : (Module.mk [] [spin] []).Completes "spin.asm" [] spin :=
    ⟨[], ⟨[], #[]⟩, _, _, rfl, rfl, rfl, rfl⟩
  have htraces : (Module.mk [] [spin] []).traces "spin.asm" =
      ["closing a chain of 2 statement(s)"] := by decide +kernel
  have htold := h (Module.mk [] [spin] []) "spin.asm" [] [] spin rfl hcompletes
  rw [htraces] at htold
  exact absurd htold (by decide)

end Module

end ActorAsm
