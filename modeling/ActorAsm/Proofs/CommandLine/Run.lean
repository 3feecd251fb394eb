import ActorAsm.CommandLine.Run
import ActorAsm.Proofs.CommandLine.FileTree

/-! Runs of the command line on a tree of files. A run reads its input once, before anything else,
and writes at most one file, after everything else. What it says and writes is what the library makes
of the input. -/

namespace ActorAsm.CommandLine

namespace FileTree
variable {t : FileTree} {path text : String} {α : Type}

theorem system_read_bind {f : Except String String → StateM FileTree α} :
    (system.read path >>= f).run t = (f (t.readText path)).run t := rfl

private theorem system_write_bind {f : Written → StateM FileTree α} :
    (system.write path text >>= f).run t =
      (f (t.writeText path text).1).run (t.writeText path text).2 := rfl

end FileTree

namespace Options
variable {t : FileTree} {o : Options} {source reason path : String}

private theorem exitCode_outcome {success : Bool} {output : String} {log : List LogEntry} :
    (o.outcome success output log).exitCode = if success then 0 else 1 := rfl

/-- Without an input there is nothing to do. -/
theorem run_of_unreadable (hread : t.readText o.input = .error reason) :
    ∃ log, (o.run FileTree.system).run t = (o.outcome false "" log, t) := by
  rw [run, FileTree.system_read_bind, hread]
  exact ⟨_, rfl⟩

private theorem run_of_tokensOnly (hread : t.readText o.input = .ok source)
    (htokens : o.tokensOnly = true) :
    (o.run FileTree.system).run t = (o.outcome true (tokenListing source) [], t) := by
  rw [run, FileTree.system_read_bind, hread]
  simp only [htokens, if_true]
  rfl

variable {assembly : Assembly}

private theorem run_of_no_output (hread : t.readText o.input = .ok source)
    (htokens : o.tokensOnly = false) (hassembly : Assembly.assemble source o.file = assembly)
    (houtput : o.output = none) :
    ∃ log, (o.run FileTree.system).run t =
      (o.outcome assembly.isDocument (o.preamble assembly ++ o.encode assembly) log, t) := by
  subst hassembly
  rw [run, FileTree.system_read_bind, hread]
  simp only [htokens, houtput]
  exact ⟨_, rfl⟩

private theorem run_of_output (hread : t.readText o.input = .ok source)
    (htokens : o.tokensOnly = false) (hassembly : Assembly.assemble source o.file = assembly)
    (houtput : o.output = some path) :
    ∃ log, (o.run FileTree.system).run t =
      (o.outcome (assembly.isDocument && t.isWritable path) (o.preamble assembly) log,
        (t.writeText path (o.encode assembly)).2) := by
  subst hassembly
  rw [run, FileTree.system_read_bind, hread]
  simp only [htokens, houtput, Bool.false_eq_true, if_false, FileTree.system_write_bind]
  have hdone := t.writeText_eq_done_iff path (o.encode (Assembly.assemble source o.file))
  unfold Assembly.assemble at hdone ⊢
  cases hwrite : (t.writeText path (o.encode (Assembly.ofSource source o.file).1)).1 with
  | done =>
    rw [hdone.mp hwrite, Bool.and_true]
    exact ⟨_, rfl⟩
  | notOpened reason | notWritten reason =>
    have hnot : t.isWritable path = false := by simpa [hwrite] using hdone
    rw [hnot, Bool.and_false]
    exact ⟨_, rfl⟩

/-- In front of the JSON text there is a listing or nothing. -/
theorem preamble_cases (o : Options) (assembly : Assembly) :
    o.preamble assembly = "" ∨ o.listing = true ∧ ∃ d, assembly = .document d ∧
      o.preamble assembly = Listing.ofDocument d := by
  cases assembly with
  | error r => exact .inl rfl
  | document d =>
    unfold preamble
    cases o.listing with
    | false => exact .inl rfl
    | true => exact .inr ⟨rfl, d, rfl, rfl⟩

variable {t' : FileTree} {outcome : Outcome}

/-- All that a run can do to the tree is to put the JSON text into the file that is asked for. -/
theorem tree_cases (hrun : (o.run FileTree.system).run t = (outcome, t')) :
    t' = t ∨ ∃ path place bytes source, o.tokensOnly = false ∧ o.output = some path ∧
      t.openForWriting path = .ok (place, .file bytes) ∧ t.readText o.input = .ok source ∧
      t' = t.put place (.file (o.encode (Assembly.assemble source o.file)).toUTF8) := by
  cases hread : t.readText o.input with
  | error reason =>
    obtain ⟨log, heq⟩ := run_of_unreadable hread
    cases hrun.symm.trans heq
    exact .inl rfl
  | ok source =>
    cases htokens : o.tokensOnly with
    | true =>
      cases hrun.symm.trans (run_of_tokensOnly hread htokens)
      exact .inl rfl
    | false =>
      cases houtput : o.output with
      | none =>
        obtain ⟨log, heq⟩ := run_of_no_output hread htokens rfl houtput
        cases hrun.symm.trans heq
        exact .inl rfl
      | some path =>
        obtain ⟨log, heq⟩ := run_of_output hread htokens rfl houtput
        cases hrun.symm.trans heq
        rcases t.writeText_cases path _ with hsame | ⟨place, bytes, hopen, hput⟩
        · exact .inl hsame
        · exact .inr ⟨path, place, bytes, source, rfl, rfl, hopen, rfl, hput⟩

/-- A file that is asked for and cannot be opened is a failure, and the JSON text is not said in its
stead. -/
theorem run_of_unopened {e : FileError} (htokens : o.tokensOnly = false)
    (houtput : o.output = some path) (hopen : t.openForWriting path = .error e)
    (hrun : (o.run FileTree.system).run t = (outcome, t')) :
    outcome.exitCode = 1 ∧ (outcome.output = "" ∨ o.listing = true ∧ ∃ source d,
      t.readText o.input = .ok source ∧ Assembly.assemble source o.file = .document d ∧
      outcome.output = Listing.ofDocument d) := by
  cases hread : t.readText o.input with
  | error reason =>
    obtain ⟨log, heq⟩ := run_of_unreadable hread
    cases hrun.symm.trans heq
    exact ⟨rfl, .inl rfl⟩
  | ok source =>
    have hwritable : t.isWritable path = false := by rw [FileTree.isWritable, hopen]
    obtain ⟨log, heq⟩ := run_of_output hread htokens rfl houtput
    cases hrun.symm.trans heq
    rw [exitCode_outcome, hwritable, Bool.and_false]
    refine ⟨rfl, ?_⟩
    rcases o.preamble_cases (Assembly.assemble source o.file) with hnone | ⟨hlisting, d, hd, heq⟩
    · exact .inl hnone
    · exact .inr ⟨hlisting, source, d, rfl, hd, heq⟩

end Options

variable {arguments : List String} {t t' : FileTree} {o : Options} {source : String}
  {outcome : Outcome}

/-- A run that can read its input says what the library says. The tokens go to the output. The JSON
text, with a line feed behind it, goes to the file that is asked for, or else to the output, where
only a listing comes before it. A run fails if assembly fails, or if the file cannot be written. -/
theorem run_of_readable (hrequest : Request.ofArguments arguments = .assemble o)
    (hread : t.readText o.input = .ok source)
    (hrun : (run FileTree.system arguments).run t = (outcome, t')) :
    (o.tokensOnly = true → t' = t ∧ outcome.exitCode = 0 ∧
      outcome.output =
        String.join ((Token.ofSource source).map fun token => token.display ++ "\n")) ∧
    (o.tokensOnly = false → ∃ assembly json listing,
      assembly = Assembly.assemble source (o.fileId.getD o.input) ∧
      json = assembly.toJson.text (if o.compact then .compact else .pretty) ++ "\n" ∧
      (listing = match assembly with
        | .document d => if o.listing then Listing.ofDocument d else ""
        | .error _ => "") ∧
      (o.output = none → t' = t ∧ outcome.output = listing ++ json ∧
        outcome.exitCode = if assembly.isDocument then 0 else 1) ∧
      ∀ path, o.output = some path → t' = (t.writeText path json).2 ∧ outcome.output = listing ∧
        (outcome.exitCode = if assembly.isDocument && t.isWritable path then 0 else 1) ∧
        ∀ place bytes, t.openForWriting path = .ok (place, .file bytes) →
          t'.readText path = .ok json) := by
  have hrun : (o.run FileTree.system).run t = (outcome, t') := by rw [← hrun, run, hrequest]
  refine ⟨fun htokens => ?_,
    fun htokens => ⟨_, _, _, rfl, rfl, rfl, fun houtput => ?_, fun path houtput => ?_⟩⟩
  · cases hrun.symm.trans (Options.run_of_tokensOnly hread htokens)
    exact ⟨rfl, rfl, rfl⟩
  · obtain ⟨log, heq⟩ := Options.run_of_no_output hread htokens rfl houtput
    cases hrun.symm.trans heq
    exact ⟨rfl, rfl, rfl⟩
  · obtain ⟨log, heq⟩ := Options.run_of_output hread htokens rfl houtput
    cases hrun.symm.trans heq
    exact ⟨rfl, rfl, rfl, fun place bytes hopen => FileTree.readText_writeText hopen⟩

private def deskSource : String := "one:\n  ref 1\n"

private def deskJson : String :=
  "\x7b\"lang\":\"uFork\",\"ast\":\x7b\"kind\":\"module\"," ++
    "\"import\":\x7b\x7d,\"define\":\x7b\"one\":1\x7d,\"export\":[]\x7d\x7d\n"

private def desk : FileTree where
  workingDirectory := ["desk"]
  entries := [(["desk", "one.asm"], .file deskSource.toUTF8),
    (["desk", "notes"], .file "untold".toUTF8)]

private def ran (arguments : List String) : Outcome × FileTree :=
  (run FileTree.system arguments).run desk

/-- A directory with a source in it and something else. -/
theorem run_of_readable_listed :
    (ran ["-cd", "-o", "one.json", "one.asm"]).1.output = "one: fixnum => 1\n\n" ∧
    (ran ["-cd", "-o", "one.json", "one.asm"]).1.exitCode = 0 ∧
    (ran ["-cd", "-o", "one.json", "one.asm"]).2.readText "one.json" = .ok deskJson := by
  have hrequest : Request.ofArguments ["-cd", "-o", "one.json", "one.asm"] =
      .assemble ⟨"one.asm", some "one.json", none, 0, false, true, true⟩ := by decide +kernel
  have hread : desk.readText "one.asm" = .ok deskSource := by rfl
  obtain ⟨-, hassembles⟩ := run_of_readable hrequest hread (t := desk) rfl
  obtain ⟨assembly, json, listing, rfl, rfl, rfl, -, hfile⟩ := hassembles rfl
  obtain ⟨-, houtput, hexit, hwritten⟩ := hfile "one.json" rfl
  have hopen : desk.openForWriting "one.json" =
      .ok (["desk", "one.json"], .file ByteArray.empty) := by rfl
  refine ⟨houtput.trans ?_, hexit.trans ?_, (hwritten _ _ hopen).trans ?_⟩
  · decide +kernel
  · decide +kernel
  · exact congrArg Except.ok (by decide +kernel)

/-- A run changes nothing but the file that it is asked for, and that one not before the input has
been read and assembled; then the file has all of the JSON text and nothing else. Without an input,
and in a run for more than tokens without a file that can be opened, no JSON is said and the run
fails. -/
theorem run_effects (hrequest : Request.ofArguments arguments = .assemble o)
    (hrun : (run FileTree.system arguments).run t = (outcome, t')) :
    (t' = t ∨ ∃ path place bytes source json, o.tokensOnly = false ∧ o.output = some path ∧
      t.openForWriting path = .ok (place, .file bytes) ∧ t.readText o.input = .ok source ∧
      json = (Assembly.assemble source (o.fileId.getD o.input)).toJson.text
        (if o.compact then .compact else .pretty) ++ "\n" ∧
      t'.entry? place = some (.file json.toUTF8) ∧ t'.workingDirectory = t.workingDirectory ∧
      ∀ other, other ≠ place → t'.entries.lookup other = t.entries.lookup other) ∧
    (o.tokensOnly = true → t' = t) ∧
    (∀ reason, t.readText o.input = .error reason →
      t' = t ∧ outcome.exitCode = 1 ∧ outcome.output = "") ∧
    ∀ path e, o.tokensOnly = false → o.output = some path → t.openForWriting path = .error e →
      outcome.exitCode = 1 ∧ (outcome.output = "" ∨ o.listing = true ∧ ∃ source d,
        t.readText o.input = .ok source ∧
        Assembly.assemble source (o.fileId.getD o.input) = .document d ∧
        outcome.output = Listing.ofDocument d) := by
  have hrun : (o.run FileTree.system).run t = (outcome, t') := by rw [← hrun, run, hrequest]
  refine ⟨?_, fun htokens => ?_, fun reason hread => ?_, fun path e htokens houtput hopen =>
    Options.run_of_unopened htokens houtput hopen hrun⟩
  · rcases Options.tree_cases hrun with hsame | ⟨path, place, bytes, source, htokens, houtput,
      hopen, hread, rfl⟩
    · exact .inl hsame
    · exact .inr ⟨path, place, bytes, source, _, htokens, houtput, hopen, hread, rfl,
        FileTree.entry?_put_self, rfl, fun other hne => FileTree.lookup_put_of_ne hne⟩
  · rcases Options.tree_cases hrun with hsame | ⟨_, _, _, _, hnot, _⟩
    · exact hsame
    · cases htokens.symm.trans hnot
  · obtain ⟨log, heq⟩ := Options.run_of_unreadable hread
    cases hrun.symm.trans heq
    exact ⟨rfl, rfl, rfl⟩

theorem run_effects_overwriting :
    FileTree.entry? (ran ["-co", "one.asm", "one.asm"]).2 ["desk", "one.asm"] =
      some (.file deskJson.toUTF8) ∧
    (ran ["-co", "one.asm", "one.asm"]).2.entries.lookup ["desk", "notes"] =
      some (.file "untold".toUTF8) := by
  have hrequest : Request.ofArguments ["-co", "one.asm", "one.asm"] =
      .assemble ⟨"one.asm", some "one.asm", none, 0, false, true, false⟩ := by decide +kernel
  have hsource : desk.readText "one.asm" = .ok deskSource := by rfl
  have hdifferent : ((ran ["-co", "one.asm", "one.asm"]).2.readText "one.asm").toOption ≠
      (desk.readText "one.asm").toOption := by decide +kernel
  obtain ⟨hchange, -⟩ := run_effects hrequest (t := desk) rfl
  rcases hchange with hsame | ⟨path, place, bytes, source, json, -, hpath, hopen, hread, rfl, hfile,
    -, hrest⟩
  · exact absurd (congrArg (fun t => (FileTree.readText t "one.asm").toOption) hsame) hdifferent
  · cases hpath
    cases hread.symm.trans hsource
    have hplace : desk.openForWriting "one.asm" =
        .ok (["desk", "one.asm"], .file deskSource.toUTF8) := by rfl
    cases hopen.symm.trans hplace
    have hjson : (Assembly.assemble deskSource "one.asm").toJson.text .compact ++ "\n" =
        deskJson := by decide +kernel
    refine ⟨hfile.trans ?_, (hrest ["desk", "notes"] (by decide)).trans rfl⟩
    exact congrArg (fun text => some (Entry.file (String.toUTF8 text))) hjson

/-- In a run for tokens only, the file that is asked for is not even opened, so the run succeeds. -/
theorem not_all_unopened_fail : ¬ ∀ (arguments : List String) (t : FileTree) (o : Options)
    (path : String) (e : FileError), Request.ofArguments arguments = .assemble o →
    o.output = some path → t.openForWriting path = .error e →
      ((run FileTree.system arguments).run t).1.exitCode = 1 := by
  intro h
  have hrequest : Request.ofArguments ["-t", "-o", "no/such/x", "one.asm"] =
      .assemble ⟨"one.asm", some "no/such/x", none, 0, true, false, false⟩ := by decide +kernel
  have hcode := h _ desk _ "no/such/x" .notFound hrequest rfl rfl
  revert hcode
  decide +kernel

end ActorAsm.CommandLine
