import ActorAsm.Proofs.Assembly.Stages
import ActorAsm.Proofs.Document.Reports
import ActorAsm.Proofs.Matcher.Laziness

/-! The log of a whole run. First come the tokens that reading draws, then what is reported of the
module and its document, and last that the run has succeeded or failed. -/

namespace ActorAsm
open Logged
variable {source file : String} {failure : Failure}

namespace Module
variable {ts : List Token} {m : Module}

/-- How a module that has been read is reported. -/
def readEvent (m : Module) (ts : List Token) : Event :=
  .parsed ts.length m.imports.length m.definitions.length m.exports.length

/-- A module is accepted only at the end of its tokens, so that all of them have been drawn. -/
theorem pulled_of_parse (h : parse ts = .ok m) : (read ts).2.pulled = ts.length := by
  unfold parse read at *
  split at h
  · cases h
  next position found b _ =>
    have hseen := b.peek_fst position
    have hpulled := b.pulled_peek position
    have hle := b.pulled_le_length
    split at h
    · cases h
    next b' hpeek =>
      simp only [hpeek] at hseen hpulled ⊢
      have hend := List.getElem?_eq_none_iff.mp hseen.symm
      omega

private theorem readLogged_reports_of_ok (h : parse ts = .ok m) :
    (readLogged ts).Reports (.ok m) (ts.map .drawn ++ [m.readEvent ts]) := by
  have hreports : (readLogged ts).Reports (.ok m) ((read ts).2.drawn.toList.map .drawn ++
      ([] ++ ([.parsed (read ts).2.pulled m.imports.length m.definitions.length
        m.exports.length] ++ []))) :=
    (reports_reportAll _).bind <| (reports_lift h).bind <| (reports_report _).bind (reports_pure m)
  rwa [(read ts).2.drawn_eq_take, pulled_of_parse h, List.take_length] at hreports

private theorem readLogged_reports_of_error (h : parse ts = .error failure) :
    (readLogged ts).Reports (.error failure) ((ts.take (read ts).2.pulled).map .drawn) := by
  have hreports : (readLogged ts).Reports (.error failure)
      ((read ts).2.drawn.toList.map .drawn ++ []) :=
    (reports_reportAll _).bind (reports_lift h).bind_error
  rwa [(read ts).2.drawn_eq_take, List.append_nil] at hreports

end Module

/-- The reports of a source that is accepted. -/
theorem Document.ofSource_reports_of_ok {m : Module} {doc : Document}
    (hparse : Module.parse (Token.ofSource source) = .ok m) (hdoc : m.generate file = .ok doc) :
    (Document.ofSource source file).Reports (.ok doc)
      ((Token.ofSource source).map .drawn ++ [m.readEvent (Token.ofSource source)] ++
        m.reports file ++ [.assembled file doc.define.length]) :=
  ((Module.readLogged_reports_of_ok hparse).bind <| (Module.ofModule_reports hdoc).bind <|
    (reports_report _).bind (reports_pure doc)).of_eq (by simp)

private theorem Document.ofSource_reports_of_parse
    (hparse : Module.parse (Token.ofSource source) = .error failure) :
    (Document.ofSource source file).Reports (.error failure)
      (((Token.ofSource source).take (Module.read (Token.ofSource source)).2.pulled).map .drawn) :=
  (Module.readLogged_reports_of_error hparse).bind_error

private theorem Document.exists_ofSource_reports {m : Module}
    (hparse : Module.parse (Token.ofSource source) = .ok m)
    (hfails : m.generate file = .error failure) :
    ∃ events, m.Stops file events ∧ (Document.ofSource source file).Reports (.error failure)
      ((Token.ofSource source).map .drawn ++ [m.readEvent (Token.ofSource source)] ++ events) := by
  obtain ⟨events, hstops, hreports⟩ := Module.exists_ofModule_reports hfails
  exact ⟨events, hstops, (Module.readLogged_reports_of_ok hparse).bind hreports.bind_error⟩

namespace Assembly

/-- Everything that is reported, in order. -/
def reported (source file : String) : List Event := (ofSource source file).2.toList

section Reports
variable {events : List Event} {doc : Document}

private theorem reported_of_reports_ok
    (h : (Document.ofSource source file).Reports (.ok doc) events) :
    reported source file = events := by
  rw [reported, ofSource, h #[]]
  simp

private theorem reported_of_reports_error
    (h : (Document.ofSource source file).Reports (.error failure) events) :
    reported source file = events ++ [.failed file failure] := by
  rw [reported, ofSource, h #[]]
  simp

end Reports

/-- What comes behind the tokens in the log of a run that fails. -/
inductive Ending (file : String) (failure : Failure) (ts : List Token) : List Event → Prop where
  | unread : Module.parse ts = .error failure → Ending file failure ts [.failed file failure]
  | refused {m : Module} {events : List Event} : Module.parse ts = .ok m → m.Stops file events →
      Ending file failure ts (m.readEvent ts :: events ++ [.failed file failure])

theorem reported_of_ok {doc : Document} (h : compile source file = .ok doc) :
    ∃ m, Module.parse (Token.ofSource source) = .ok m ∧ m.generate file = .ok doc ∧
      reported source file = ((Token.ofSource source).take
        (Module.read (Token.ofSource source)).2.pulled).map .drawn ++
          (m.readEvent (Token.ofSource source) :: m.reports file ++
            [.assembled file doc.define.length]) := by
  rw [compile_eq, bind_eq_ok_iff] at h
  obtain ⟨m, hparse, hdoc⟩ := h
  refine ⟨m, hparse, hdoc, ?_⟩
  rw [reported_of_reports_ok (Document.ofSource_reports_of_ok hparse hdoc),
    Module.pulled_of_parse hparse, List.take_length]
  simp

theorem exists_ending (h : compile source file = .error failure) :
    ∃ rest, Ending file failure (Token.ofSource source) rest ∧
      reported source file = ((Token.ofSource source).take
        (Module.read (Token.ofSource source)).2.pulled).map .drawn ++ rest := by
  rw [compile_eq, bind_eq_error_iff] at h
  rcases h with hparse | ⟨m, hparse, hfails⟩
  · exact ⟨_, .unread hparse, reported_of_reports_error (Document.ofSource_reports_of_parse hparse)⟩
  · obtain ⟨events, hstops, hreports⟩ := Document.exists_ofSource_reports hparse hfails
    refine ⟨_, .refused hparse hstops, ?_⟩
    rw [reported_of_reports_error hreports, Module.pulled_of_parse hparse, List.take_length]
    simp

namespace Ending
variable {ts : List Token} {rest : List Event}

/-- The failure is reported at the end, and nothing in front of it says that the run is over. -/
theorem exists_front (h : Ending file failure ts rest) :
    ∃ front, rest = front ++ [.failed file failure] ∧
      ∀ event ∈ front, event.isOfDocument ∨ ∃ m : Module, event = m.readEvent ts := by
  cases h with
  | unread _ => exact ⟨[], rfl, by simp⟩
  | @refused m events _ hstops =>
    refine ⟨m.readEvent ts :: events, rfl, List.forall_mem_cons.mpr ⟨.inr ⟨m, rfl⟩, ?_⟩⟩
    exact fun event hevent => .inl (hstops.isOfDocument_of_mem hevent)

private theorem drawn_not_mem (h : Ending file failure ts rest) (t : Token) : .drawn t ∉ rest := by
  obtain ⟨front, rfl, hfront⟩ := h.exists_front
  intro hmem
  rcases List.mem_append.mp hmem with hmem | hmem
  · rcases hfront _ hmem with hdocument | ⟨m, hread⟩
    · cases hdocument
    · cases hread
  · cases List.mem_singleton.mp hmem

/-- A stage is reported if and only if the source has been read and the stage has passed. -/
theorem mem_iff_of_stage {P : Module → Prop} {event : Event} (h : Ending file failure ts rest)
    (hne : event ≠ .failed file failure) (hne' : ∀ m : Module, event ≠ m.readEvent ts)
    (hstage : ∀ m events, m.Stops file events → (event ∈ events ↔ P m)) :
    event ∈ rest ↔ ∃ m, Module.parse ts = .ok m ∧ P m := by
  cases h with
  | unread hparse => simp [hne, hparse]
  | @refused m events hparse hstops =>
    have hevents := hstage m events hstops
    simp [hne, hne' m, hparse, hevents]

theorem parsed_mem_iff {tokens imports definitions exports : Nat}
    (h : Ending file failure ts rest) :
    .parsed tokens imports definitions exports ∈ rest ↔ ∃ m, Module.parse ts = .ok m ∧
      .parsed tokens imports definitions exports = m.readEvent ts := by
  cases h with
  | unread hparse => simp [hparse]
  | @refused m events hparse hstops =>
    have hnone : .parsed tokens imports definitions exports ∉ events := fun hmem => by
      cases hstops.isOfDocument_of_mem hmem
    simp [hparse, hnone]

end Ending

/-- The tokens come first, and none behind them. -/
theorem exists_rest (source file : String) :
    ∃ rest, reported source file = ((Token.ofSource source).take
        (Module.read (Token.ofSource source)).2.pulled).map .drawn ++ rest ∧
      ∀ t, .drawn t ∉ rest := by
  cases h : compile source file with
  | error failure =>
    obtain ⟨rest, hending, hlog⟩ := exists_ending h
    exact ⟨rest, hlog, hending.drawn_not_mem⟩
  | ok doc =>
    obtain ⟨m, -, -, hlog⟩ := reported_of_ok h
    refine ⟨_, hlog, fun t hmem => ?_⟩
    rcases List.mem_append.mp hmem with hmem | hmem
    · rcases List.mem_cons.mp hmem with hread | hmem
      · cases hread
      · cases Module.isOfDocument_of_mem_reports hmem
    · cases List.mem_singleton.mp hmem

end Assembly

end ActorAsm
