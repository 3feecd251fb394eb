import ActorAsm.Proofs.Assembly.Log
import ActorAsm.Proofs.Token.Display

/-! The log of a run as it is read: lines of a level and a message. The lines that count what a stage
has made are not to be mistaken for others, whatever names stand in those, so that a stage has passed
if and only if its line is there. -/

namespace ActorAsm

theorem Level.name_injective : Function.Injective Level.name := by
  intro level other h
  cases level <;> cases other <;> first | rfl | exact absurd h (by decide)

namespace Event
variable {event other : Event} {n n' : Nat} {rest rest' : List Char}

/-- The word for the level, and the message. -/
def line (event : Event) : String × String := (event.level.name, event.message)

/-- Whether an event counts what a stage has made. -/
def isCount : Event → Bool
  | .parsed _ _ _ _ | .imported _ | .defined _ | .verified _ => true
  | _ => false

private theorem message_parsed (tokens imports definitions exports : Nat) :
    (parsed tokens imports definitions exports).message = "parsed " ++ toString tokens ++
      " tokens into " ++ toString imports ++ " import(s), " ++ toString definitions ++
        " definition(s), " ++ toString exports ++ " export(s)" := rfl

private theorem message_imported : (imported n).message = toString n ++ " import(s)" := rfl

private theorem message_defined : (defined n).message = toString n ++ " definition(s)" := rfl

private theorem message_verified :
    (verified n).message = toString n ++ " instruction reference(s) verified" := rfl

private theorem message_closed :
    (closed n).message = "closing a chain of " ++ toString n ++ " statement(s)" := rfl

private def noun : Event → String
  | .parsed _ _ _ _ => "parsed  tokens into  import(s),  definition(s),  export(s)"
  | .imported _ => " import(s)"
  | .defined _ => " definition(s)"
  | .verified _ => " instruction reference(s) verified"
  | _ => ""

private theorem filter_toString (n : Nat) : (toString n).toList.filter (!·.isDigit) = [] := by
  refine List.filter_eq_nil_iff.mpr fun c hc => ?_
  rw [Nat.toString_eq_repr, Nat.toList_repr] at hc
  have hdigit : c.isDigit := Nat.isDigit_of_mem_toDigits (by decide) (by decide) hc
  simp [hdigit]

private theorem filter_message (h : event.isCount) :
    event.message.toList.filter (!·.isDigit) = event.noun.toList := by
  cases event with
  | parsed =>
    change _ = "parsed  tokens into  import(s),  definition(s),  export(s)".toList
    rw [message_parsed]
    simp only [String.toList_append, List.filter_append, filter_toString, List.append_nil]
    rfl
  | imported =>
    change _ = " import(s)".toList
    rw [message_imported, String.toList_append, List.filter_append, filter_toString]
    rfl
  | defined =>
    change _ = " definition(s)".toList
    rw [message_defined, String.toList_append, List.filter_append, filter_toString]
    rfl
  | verified =>
    change _ = " instruction reference(s) verified".toList
    rw [message_verified, String.toList_append, List.filter_append, filter_toString]
    rfl
  | drawn | closed | exportedAgain | assembled | failed => cases h

private theorem count_cancel {tail : String} (hend : ∀ c ∈ tail.toList.head?, c.isDigit = false)
    (h : toString n ++ tail = toString n' ++ tail) : n = n' := by
  have hchars := congrArg String.toList h
  rw [String.toList_append, String.toList_append] at hchars
  exact (Token.natural_cancel hend hend hchars).1

private theorem counts_cancel {tail : String} (hend : ∀ c ∈ tail.toList.head?, c.isDigit = false)
    (h : (toString n).toList ++ (tail.toList ++ rest) =
      (toString n').toList ++ (tail.toList ++ rest')) (hne : tail ≠ "") :
    n = n' ∧ rest = rest' := by
  have hhead (rest : List Char) : ∀ c ∈ (tail.toList ++ rest).head?, c.isDigit = false := by
    rwa [List.head?_append_of_ne_nil _ fun hnil => hne (String.toList_eq_nil_iff.mp hnil)]
  obtain ⟨hn, hrest⟩ := Token.natural_cancel (hhead rest) (hhead rest') h
  exact ⟨hn, List.append_cancel_left hrest⟩

private theorem parsed_cancel {tokens imports definitions exports tokens' imports' definitions'
    exports' : Nat} (h : (parsed tokens imports definitions exports).message =
      (parsed tokens' imports' definitions' exports').message) :
    parsed tokens imports definitions exports = parsed tokens' imports' definitions' exports' := by
  have hchars := congrArg String.toList h
  rw [message_parsed, message_parsed] at hchars
  simp only [String.toList_append, List.append_assoc] at hchars
  have htokens := List.append_cancel_left hchars
  obtain ⟨rfl, himports⟩ := counts_cancel (by simp) htokens (by decide)
  obtain ⟨rfl, hdefinitions⟩ := counts_cancel (by simp) himports (by decide)
  obtain ⟨rfl, hexports⟩ := counts_cancel (by simp) hdefinitions (by decide)
  obtain ⟨rfl, -⟩ := Token.natural_cancel (by simp) (by simp) hexports
  rfl

/-- Counts of one stage are told from those of another by what is left without digits, and among
themselves by their digits. -/
theorem eq_of_message_eq (h : event.isCount) (h' : other.isCount)
    (hmessage : event.message = other.message) : event = other := by
  have hnoun : event.noun = other.noun := by
    apply String.toList_inj.mp
    rw [← filter_message h, ← filter_message h', hmessage]
  cases event <;> cases other
  case parsed.parsed => exact parsed_cancel hmessage
  case imported.imported => exact congrArg imported (count_cancel (by simp) hmessage)
  case defined.defined => exact congrArg defined (count_cancel (by simp) hmessage)
  case verified.verified => exact congrArg verified (count_cancel (by simp) hmessage)
  all_goals
    first
    | exact Bool.noConfusion h
    | exact Bool.noConfusion h'
    | exact absurd hnoun (by simp [noun])

private theorem colon_not_mem (h : event.isCount) : ':' ∉ event.message.toList := by
  intro hmem
  have hnoun : ':' ∈ event.noun.toList := by
    rw [← filter_message h]
    exact List.mem_filter.mpr ⟨hmem, rfl⟩
  revert hnoun
  cases event with
  | parsed | imported | defined | verified => simp [noun]
  | drawn | closed | exportedAgain | assembled | failed => exact Bool.noConfusion h

private theorem colon_mem {front behind : String} :
    ':' ∈ (front ++ " failed to assemble: " ++ behind).toList := by
  simp

private theorem level_of_isCount (h : event.isCount) : event.level = .debug := by
  cases event with
  | parsed | imported | defined | verified => rfl
  | drawn | closed | exportedAgain | assembled | failed => exact Bool.noConfusion h

private theorem isCount_or_eq_failed (h : event.level = .debug) :
    event.isCount ∨ ∃ file failure, event = .failed file failure := by
  cases event with
  | parsed | imported | defined | verified => exact .inl rfl
  | failed file failure => exact .inr ⟨file, failure, rfl⟩
  | drawn | closed | exportedAgain | assembled => exact Level.noConfusion h

/-- The line of a count is the line of nothing else. -/
theorem eq_of_line_eq (h : other.isCount) (hline : event.line = other.line) : event = other := by
  obtain ⟨hname, hmessage⟩ := Prod.mk.inj hline
  have hlevel := (Level.name_injective hname).trans (level_of_isCount h)
  rcases isCount_or_eq_failed hlevel with hcount | ⟨file, failure, rfl⟩
  · exact eq_of_message_eq hcount h hmessage
  · have hcolon : ':' ∈ (failed file failure).message.toList := colon_mem
    exact absurd (hmessage ▸ hcolon) (colon_not_mem h)

/-- Neither the line of a success nor that of any failure is the line of anything else. -/
theorem line_of_ne_failed (hlevel : event.level ≠ .info)
    (hne : ∀ file failure, event ≠ .failed file failure) :
    event.line.1 ≠ "INFO" ∧ (event.line.1 = "DEBUG" → ∀ before behind,
      event.line.2 ≠ before ++ " failed to assemble: " ++ behind) := by
  refine ⟨fun hname => hlevel (Level.name_injective hname), fun hname before behind hline => ?_⟩
  have hmessage : event.message = before ++ " failed to assemble: " ++ behind := hline
  rcases isCount_or_eq_failed (Level.name_injective hname) with hcount | ⟨file, failure, rfl⟩
  · exact colon_not_mem hcount (hmessage ▸ colon_mem)
  · exact hne file failure rfl

private theorem line_mem_iff {events : List Event} (h : other.isCount) :
    other.line ∈ events.map line ↔ other ∈ events := by
  refine ⟨fun hmem => ?_, List.mem_map_of_mem⟩
  obtain ⟨event, hevent, hline⟩ := List.mem_map.mp hmem
  exact eq_of_line_eq h hline ▸ hevent

end Event

namespace Assembly
open Document (repeated)

/-- The lines of the log, without what is less urgent than the threshold. -/
def log (threshold : Level) (source file : String) : List (String × String) :=
  ((ofSource source file).2.toList.filter (·.level.within threshold)).map Event.line

private theorem log_eq_map (source file : String) :
    log .trace source file = (reported source file).map Event.line := by
  have hall (event : Event) : event.level.within .trace := by
    cases event.level <;> rfl
  rw [log, reported, List.filter_eq_self.mpr fun event _ => hall event]

private theorem drawn_line_not_mem {rest : List Event} (h : ∀ t, .drawn t ∉ rest)
    (text : String) : ("TRACE", "token " ++ text) ∉ rest.map Event.line := by
  intro hmem
  obtain ⟨event, hevent, hline⟩ := List.mem_map.mp hmem
  obtain ⟨hlevel, hmessage⟩ := Prod.mk.inj hline
  cases event with
  | drawn t => exact h t hevent
  | closed length =>
    rw [Event.message_closed] at hmessage
    exact absurd (congrArg (·.toList.head?) hmessage) (by simp)
  | parsed | imported | defined | verified | exportedAgain | assembled | failed =>
    exact absurd hlevel (by simp [Event.level, Level.name])

private theorem Ending.exists_front_lines {file : String} {failure : Failure} {ts : List Token}
    {rest : List Event} (h : Ending file failure ts rest) :
    ∃ front, rest.map Event.line =
        front ++ [("DEBUG", file ++ " failed to assemble: " ++ failure.description)] ∧
      ∀ line ∈ front, line.1 ≠ "INFO" ∧ (line.1 = "DEBUG" → ∀ before behind,
        line.2 ≠ before ++ " failed to assemble: " ++ behind) := by
  obtain ⟨front, rfl, hfront⟩ := h.exists_front
  refine ⟨front.map Event.line, List.map_append, ?_⟩
  rw [List.forall_mem_map]
  intro event hevent
  rcases hfront event hevent with hdocument | ⟨m, rfl⟩
  · obtain ⟨hlevel, hne⟩ := Event.of_isOfDocument hdocument
    exact Event.line_of_ne_failed hlevel hne
  · exact Event.line_of_ne_failed Level.noConfusion fun _ _ => Event.noConfusion

/-- The log begins with the tokens that reading has drawn, each once and in order. In a run that
succeeds these are all tokens, and behind them come the stages with their counts, every chain and
every export of a name exported before, and nothing else; as many references are verified as labels
stand in slots of the document. In a run that fails, the failure is reported once, at the end, and
every stage is reported if and only if it has passed. -/
theorem log_trace (source file : String) :
    let ts := Token.ofSource source
    let pulled := (Module.read ts).2.pulled
    let drawn := (ts.take pulled).map fun t => ("TRACE", "token " ++ t.display)
    (∃ rest, log .trace source file = drawn ++ rest ∧
      ∀ text, ("TRACE", "token " ++ text) ∉ rest) ∧
    (∀ doc, compile source file = .ok doc → ∃ m, Module.parse ts = .ok m ∧
      m.generate file = .ok doc ∧ pulled = ts.length ∧
      log .trace source file = drawn ++
        [("DEBUG", "parsed " ++ toString pulled ++ " tokens into " ++
            toString m.imports.length ++ " import(s), " ++ toString m.definitions.length ++
            " definition(s), " ++ toString m.exports.length ++ " export(s)"),
          ("DEBUG", toString m.imports.length ++ " import(s)")] ++
        m.definitions.map (fun d =>
          ("TRACE", "closing a chain of " ++ toString d.chainLength ++ " statement(s)")) ++
        [("DEBUG", toString m.labels.length ++ " definition(s)"),
          ("DEBUG", toString doc.labelSlots.length ++ " instruction reference(s) verified")] ++
        (repeated m.exports).map (fun name =>
          ("WARN", file ++ ":" ++ toString name.line ++ ": '" ++ name.text ++
            "' is exported more than once")) ++
        [("INFO", "assembled " ++ file ++ " with " ++ toString doc.define.length ++
          " definition(s)")]) ∧
    ∀ failure, compile source file = .error failure →
      (∃ front, log .trace source file =
          front ++ [("DEBUG", file ++ " failed to assemble: " ++ failure.description)] ∧
        ∀ line ∈ front, line.1 ≠ "INFO" ∧ (line.1 = "DEBUG" → ∀ before behind,
          line.2 ≠ before ++ " failed to assemble: " ++ behind)) ∧
      (∀ tokens imports definitions exports,
        ("DEBUG", "parsed " ++ toString tokens ++ " tokens into " ++ toString imports ++
            " import(s), " ++ toString definitions ++ " definition(s), " ++ toString exports ++
            " export(s)") ∈ log .trace source file ↔
          ∃ m, Module.parse ts = .ok m ∧ tokens = ts.length ∧ imports = m.imports.length ∧
            definitions = m.definitions.length ∧ exports = m.exports.length) ∧
      (∀ count, ("DEBUG", toString count ++ " import(s)") ∈ log .trace source file ↔
        ∃ m, Module.parse ts = .ok m ∧ (m.imports.map (·.moduleName.text)).Nodup ∧
          count = m.imports.length) ∧
      (∀ count, ("DEBUG", toString count ++ " definition(s)") ∈ log .trace source file ↔
        ∃ m, Module.parse ts = .ok m ∧ m.Definable ∧ count = m.labels.length) ∧
      (∀ count, ("DEBUG", toString count ++ " instruction reference(s) verified") ∈
          log .trace source file ↔
        ∃ m, Module.parse ts = .ok m ∧ (m.Definable ∧ m.Verifiable file) ∧
          count = (m.document file).labelSlots.length) ∧
      ∃ rest, Ending file failure ts rest ∧
        log .trace source file = drawn ++ rest.map Event.line := by
  intro ts pulled drawn
  have hdrawn : ((ts.take pulled).map Event.drawn).map Event.line = drawn := List.map_map
  refine ⟨?_, fun doc h => ?_, fun failure h => ?_⟩
  · obtain ⟨rest, hlog, hrest⟩ := exists_rest source file
    refine ⟨rest.map Event.line, ?_, drawn_line_not_mem hrest⟩
    rw [log_eq_map, hlog, List.map_append, hdrawn]
  · obtain ⟨m, hparse, hdoc, hlog⟩ := reported_of_ok h
    obtain ⟨-, -, -, -, hm⟩ := Module.generate_eq_ok_iff_of_table.mp hdoc
    have hpulled : pulled = ts.length := Module.pulled_of_parse hparse
    refine ⟨m, hparse, hdoc, hpulled, ?_⟩
    rw [log_eq_map, hlog, List.map_append, hdrawn, hpulled, Module.reports, Module.opening,
      Module.closing, hm]
    simp only [List.map_append, List.map_cons, List.map_map, List.append_assoc, List.cons_append,
      List.nil_append]
    rfl
  · obtain ⟨rest, hending, hlog⟩ := exists_ending h
    have hmem {event : Event} (hcount : event.isCount) :
        event.line ∈ log .trace source file ↔ event ∈ rest := by
      rw [log_eq_map, Event.line_mem_iff hcount, hlog, List.mem_append, or_iff_right]
      intro htoken
      obtain ⟨t, -, rfl⟩ := List.mem_map.mp htoken
      cases hcount
    have hlines : log .trace source file = drawn ++ rest.map Event.line := by
      rw [log_eq_map, hlog, List.map_append, hdrawn]
    refine ⟨?_, fun tokens imports definitions exports => ?_, fun count => ?_, fun count => ?_,
      fun count => ?_, rest, hending, hlines⟩
    · obtain ⟨front, hrest, hfront⟩ := hending.exists_front_lines
      refine ⟨drawn ++ front, by rw [hlines, hrest, List.append_assoc], ?_⟩
      rw [List.forall_mem_append, ← hdrawn, List.forall_mem_map, List.forall_mem_map]
      exact ⟨fun t _ => Event.line_of_ne_failed Level.noConfusion fun _ _ => Event.noConfusion,
        hfront⟩
    · refine (@hmem (.parsed tokens imports definitions exports) rfl).trans ?_
      rw [hending.parsed_mem_iff]
      simp only [Module.readEvent, Event.parsed.injEq, ts]
    · refine (@hmem (.imported count) rfl).trans ?_
      exact hending.mem_iff_of_stage Event.noConfusion (fun _ => Event.noConfusion)
        fun m events hstops => hstops.imported_mem_iff
    · refine (@hmem (.defined count) rfl).trans ?_
      exact hending.mem_iff_of_stage Event.noConfusion (fun _ => Event.noConfusion)
        fun m events hstops => hstops.defined_mem_iff
    · refine (@hmem (.verified count) rfl).trans ?_
      exact hending.mem_iff_of_stage Event.noConfusion (fun _ => Event.noConfusion)
        fun m events hstops => hstops.verified_mem_iff

private def looping : String := "main:\n  msg 0 main\n.export\n  main\n  main\n"

private def loopName (line column : Nat) : Token := ⟨.name, "main", line, column, column + 4⟩

private def loopModule : Module where
  imports := []
  definitions := [⟨loopName 0 0, [], ⟨⟨.name, "msg", 1, 2, 5⟩,
    [.number 0 ⟨.number 0, "0", 1, 6, 7⟩, .reference (.bare (loopName 1 8))]⟩, []⟩]
  exports := [loopName 3 2, loopName 4 2]

/-- An instruction that goes on with itself, under a label that is exported twice: the second export
is reported at its own line, and one label stands in a slot. With one more export the run comes as
far, but fails. -/
theorem log_trace_looping :
    (log .trace looping "loop.asm").take 3 =
      [("TRACE", "token 0:0-4 name \"main\""), ("TRACE", "token 0:4-5 punct \":\""),
        ("TRACE", "token 0:5 newline")] ∧
    (log .trace looping "loop.asm").drop 19 =
      [("DEBUG", "parsed 19 tokens into 0 import(s), 1 definition(s), 2 export(s)"),
        ("DEBUG", "0 import(s)"), ("TRACE", "closing a chain of 2 statement(s)"),
        ("DEBUG", "1 definition(s)"), ("DEBUG", "1 instruction reference(s) verified"),
        ("WARN", "loop.asm:4: 'main' is exported more than once"),
        ("INFO", "assembled loop.asm with 1 definition(s)")] ∧
    ∃ front, log .trace (looping ++ "  stop\n") "loop.asm" =
      front ++ [("DEBUG", "loop.asm failed to assemble: " ++
        (Failure.onToken .notDefined ⟨.name, "stop", 5, 2, 6⟩).description)] := by
  obtain ⟨-, hok, -⟩ := log_trace looping "loop.asm"
  obtain ⟨-, -, hfails⟩ := log_trace (looping ++ "  stop\n") "loop.asm"
  have hread : Module.parse (Token.ofSource looping) = .ok loopModule := by decide +kernel
  have hdoc : compile looping "loop.asm" = .ok (loopModule.document "loop.asm") := by
    decide +kernel
  have hfailure : compile (looping ++ "  stop\n") "loop.asm" =
      .error (.onToken .notDefined ⟨.name, "stop", 5, 2, 6⟩) := by decide +kernel
  obtain ⟨m, hparse, -, hpulled, hlog⟩ := hok _ hdoc
  cases hread.symm.trans hparse
  obtain ⟨⟨front, hfront, -⟩, -⟩ := hfails _ hfailure
  have hlength : (Token.ofSource looping).length = 19 := by decide +kernel
  rw [hlog, hpulled, hlength]
  exact ⟨by decide +kernel, by decide +kernel, front, hfront⟩

end Assembly

end ActorAsm
