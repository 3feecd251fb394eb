import ActorAsm.Proofs.Document.ForwardPass

/-! The first failure of the forward pass. The pass knows of a module's later definitions nothing but
their labels, and of these only which ones there are. So what fails in front fails alike whatever is
behind, and with the same reports. -/

namespace ActorAsm

/-- Scopes in which the same names mean the same, in whatever order labels are listed. -/
structure Scope.Agrees (scope scope' : Scope) : Prop where
  file : scope'.file = scope.file
  moduleNames : scope'.moduleNames = scope.moduleNames
  labels : ∀ name, name ∈ scope'.labels ↔ name ∈ scope.labels

section Agreement
variable {scope scope' : Scope} {demand : Demand} {value : Value}

namespace Scope.Agrees

theorem debug (h : scope.Agrees scope') (token : Token) : scope'.debug token = scope.debug token := by
  rw [Scope.debug, h.file, Scope.debug]

theorem ofReference (h : scope.Agrees scope') :
    Node.ofReference scope' demand value = Node.ofReference scope demand value := by
  cases value with
  | reference target =>
    cases target <;> simp only [Node.ofReference, h.labels, h.moduleNames, h.debug]
  | literal token => rfl
  | number n token => rfl

theorem ofExpression (h : scope.Agrees scope') :
    Node.ofExpression scope' value = Node.ofExpression scope value := by
  cases value with
  | reference target => exact h.ofReference
  | literal token => rfl
  | number n token => rfl

theorem ofContinuation (h : scope.Agrees scope') :
    Node.ofContinuation scope' demand value = Node.ofContinuation scope demand value := by
  cases demand with
  | anything => exact h.ofExpression
  | instruction => exact h.ofReference

theorem ofOperator (h : scope.Agrees scope') (s : Statement) (op : Operator) :
    Stage.ofOperator scope' demand s op = Stage.ofOperator scope demand s op := by
  unfold Stage.ofOperator
  simp only [h.debug, h.ofExpression, h.ofContinuation, h.ofReference]

theorem ofStatement (h : scope.Agrees scope') (s : Statement) (following : List Statement) :
    Stage.ofStatement scope' demand s following = Stage.ofStatement scope demand s following := by
  simp only [Stage.ofStatement, h.ofOperator]

/-- Statement after statement the same is done. -/
theorem ofStatements (h : scope.Agrees scope') (s : Statement) (following : List Statement)
    (links : List Link) : Chain.ofStatements scope' demand s following links =
      Chain.ofStatements scope demand s following links := by
  induction following generalizing demand s links with
  | nil => simp only [Chain.ofStatements, h.ofStatement, h.ofContinuation]
  | cons next rest ih => simp only [Chain.ofStatements, h.ofStatement, ih]

theorem claim (h : scope.Agrees scope') (p : Document.Progress) (label : Token) :
    p.claim scope' label = p.claim scope label := by
  simp only [Document.Progress.claim, h.moduleNames]

theorem addAlias (h : scope.Agrees scope') :
    Document.Progress.addAlias scope' = Document.Progress.addAlias scope := by
  funext label p other
  simp only [Document.Progress.addAlias, h.claim, h.debug]

/-- So are the definitions made alike, with the same reports. -/
theorem addDefinition (h : scope.Agrees scope') :
    Document.Progress.addDefinition scope' = Document.Progress.addDefinition scope := by
  funext p d
  simp only [Document.Progress.addDefinition, Chain.ofDefinition, h.ofStatements, h.claim,
    Document.Progress.addAliases, h.addAlias]

end Scope.Agrees

end Agreement

namespace Logged
variable {α β : Type}

/-- Nothing is done, and nothing reported, behind a failure. -/
theorem run_bind_of_gives_error {x : Logged α} {failure : Failure} (hx : x.Gives (.error failure))
    (f : α → Logged β) (log : Array Event) :
    (x >>= f).run.run log = (.error failure, (x.run.run log).2) := by
  have hresult := hx log
  rw [ExceptT.run_bind, StateT.run_bind]
  cases hrun : x.run.run log with
  | mk result after =>
    rw [hrun] at hresult
    cases hresult
    rfl

end Logged

namespace Document

/-- The forward pass up to the definition with this index, which is not made any more. -/
def forwardTo (m : Module) (file : String) (n : Nat) :
    Logged (List (String × String) × Progress) := do
  let imports ← importTable m.imports
  report (.imported imports.length)
  let progress ← (m.definitions.take n).foldlM (Progress.addDefinition (Scope.ofModule m file))
    ⟨[], #[]⟩
  return (imports, progress)

variable {m m' : Module} {file : String} {n k : Nat}

private theorem forwardTo_of_length_le (h : m.definitions.length ≤ n) :
    forwardTo m file n = forwardPass m file := by
  rw [forwardTo, List.take_of_length_le h, forwardPass]

/-- The pass goes on from any definition it has come to. -/
theorem forwardTo_eq_bind (m : Module) (file : String) (h : n ≤ k) :
    ∃ f, forwardTo m file k = forwardTo m file n >>= f := by
  refine ⟨fun passed => do
    let progress ← ((m.definitions.take k).drop n).foldlM
      (Progress.addDefinition (Scope.ofModule m file)) passed.2
    return (passed.1, progress), ?_⟩
  have hsplit : m.definitions.take k = m.definitions.take n ++ (m.definitions.take k).drop n := by
    conv_lhs => rw [← List.take_append_drop n (m.definitions.take k), List.take_take,
      Nat.min_eq_left h]
  unfold forwardTo
  conv_lhs => rw [hsplit]
  simp [List.foldlM_append]

private theorem ofModule_eq_bind (m : Module) (file : String) (n : Nat) :
    ∃ f, ofModule m file = forwardTo m file n >>= f := by
  obtain ⟨f, hf⟩ := forwardTo_eq_bind m file (Nat.le_max_left n m.definitions.length)
  rw [ofModule_eq_passes, ← forwardTo_of_length_le (Nat.le_max_right n _), hf, bind_assoc]
  exact ⟨_, rfl⟩

/-- Up to a definition the pass sees nothing but the definitions in front of it, and the labels of the
module if there are any such definitions. -/
theorem forwardTo_congr (file : String) (himports : m'.imports = m.imports)
    (hfront : m'.definitions.take n = m.definitions.take n)
    (hlabels : n = 0 ∨ ∀ name, name ∈ m'.labels.map Token.text ↔ name ∈ m.labels.map Token.text) :
    forwardTo m' file n = forwardTo m file n := by
  rcases hlabels with rfl | hlabels
  · rw [forwardTo, himports, forwardTo]
    rfl
  · have hscope : (Scope.ofModule m file).Agrees (Scope.ofModule m' file) :=
      ⟨rfl, by simp only [Scope.ofModule, himports], hlabels⟩
    rw [forwardTo, himports, hfront, hscope.addDefinition, forwardTo]

end Document

namespace Module
variable {m m' : Module} {file : String} {n k i : Nat} {failure : Failure}

/-- What the forward pass has made in front of the definition with this index, or its failure. -/
def forwardTo (m : Module) (file : String) (n : Nat) :
    Except Failure (List (String × String) × Document.Progress) :=
  ((Document.forwardTo m file n).run.run #[]).1

/-- The forward pass fails at the definition with this index: it makes all definitions in front, but
cannot claim all labels of this one or cannot make its chain. -/
def FailsAt (m : Module) (file : String) (i : Nat) (failure : Failure) : Prop :=
  (∃ passed, m.forwardTo file i = .ok passed) ∧ m.forwardTo file (i + 1) = .error failure

private theorem forwardTo_gives_plain : (Document.forwardTo m file n).Gives (do
    let imports ← Document.importTable m.imports
    let progress ← (m.definitions.take n).foldlM
      (Document.Progress.extend (Scope.ofModule m file)) ⟨[], #[]⟩
    return (imports, progress)) := by
  refine (Logged.gives_lift _).bind fun imports => Logged.gives_report_bind _ ?_
  exact (Logged.gives_foldlM (Document.Progress.addDefinition_gives _) _ _).bind fun progress =>
    Logged.gives_pure _

private theorem forwardTo_gives :
    (Document.forwardTo m file n).Gives (m.forwardTo file n) := fun log =>
  (forwardTo_gives_plain log).trans (forwardTo_gives_plain #[]).symm

private theorem forwardTo_zero_eq_error_iff :
    m.forwardTo file 0 = .error failure ↔ Document.importTable m.imports = .error failure := by
  rw [forwardTo, forwardTo_gives_plain #[], bind_eq_error_iff]
  simp [pure, Except.pure, bind, Except.bind]

/-- A failure in front is the failure of the pass. -/
theorem forwardTo_mono (h : m.forwardTo file n = .error failure) (hle : n ≤ k) :
    m.forwardTo file k = .error failure := by
  obtain ⟨f, hf⟩ := Document.forwardTo_eq_bind m file hle
  have hgives : (Document.forwardTo m file n).Gives (.error failure) := h ▸ forwardTo_gives
  rw [forwardTo, hf, Logged.run_bind_of_gives_error hgives]

/-- A pass that fails by a definition fails in imports, or at this definition or one in front. -/
theorem exists_failsAt (h : m.forwardTo file n = .error failure) :
    Document.importTable m.imports = .error failure ∨ ∃ i < n, m.FailsAt file i failure := by
  induction n with
  | zero => exact .inl (forwardTo_zero_eq_error_iff.mp h)
  | succ n ih =>
    cases hfront : m.forwardTo file n with
    | ok passed => exact .inr ⟨n, Nat.lt_succ_self n, ⟨passed, hfront⟩, h⟩
    | error found =>
      cases h.symm.trans (forwardTo_mono hfront (Nat.le_succ n))
      refine (ih hfront).imp_right ?_
      rintro ⟨i, hi, hfails⟩
      exact ⟨i, Nat.lt_succ_of_lt hi, hfails⟩

/-- What has failed in front is the failure of generation, and nothing is reported behind it. -/
theorem run_ofModule_of_forwardTo (h : m.forwardTo file n = .error failure) (log : Array Event) :
    (Document.ofModule m file).run.run log =
      (.error failure, ((Document.forwardTo m file n).run.run log).2) := by
  obtain ⟨f, hf⟩ := Document.ofModule_eq_bind m file n
  have hgives : (Document.forwardTo m file n).Gives (.error failure) := h ▸ forwardTo_gives
  rw [hf, Logged.run_bind_of_gives_error hgives]

/-- So two modules that are the same in front fail alike. -/
theorem fails_alike (h : m.forwardTo file n = .error failure) (himports : m'.imports = m.imports)
    (hfront : m'.definitions.take n = m.definitions.take n)
    (hlabels : n = 0 ∨ ∀ name, name ∈ m'.labels.map Token.text ↔ name ∈ m.labels.map Token.text) :
    m'.generate file = .error failure ∧ ∀ log, (Document.ofModule m' file).run.run log =
      (Document.ofModule m file).run.run log := by
  have hsame := Document.forwardTo_congr file himports hfront hlabels
  have h' : m'.forwardTo file n = .error failure := by rw [forwardTo, hsame, ← forwardTo, h]
  refine ⟨?_, fun log => ?_⟩
  · rw [generate, run_ofModule_of_forwardTo h']
  · rw [run_ofModule_of_forwardTo h', run_ofModule_of_forwardTo h, hsame]

/-- The forward pass stops at its first failure, and that depends on nothing behind it. If imports
fail, whatever is imported alike fails alike; if a definition fails, so does every module with the
same imports, the same definitions as far as this one, and the same names for labels. The failure
is the same one, and so is all that is reported up to it. -/
theorem first_failure_final (m : Module) (file : String) (failure : Failure) :
    (m.forwardPass file = .error failure → Document.importTable m.imports = .error failure ∨
      ∃ i < m.definitions.length, m.FailsAt file i failure) ∧
    (∀ m' : Module, Document.importTable m.imports = .error failure → m'.imports = m.imports →
      m'.generate file = .error failure ∧ ∀ log, (Document.ofModule m' file).run.run log =
        (Document.ofModule m file).run.run log) ∧
    ∀ (m' : Module) (i : Nat), m.FailsAt file i failure → m'.imports = m.imports →
      m'.definitions.take (i + 1) = m.definitions.take (i + 1) →
      (∀ name, name ∈ m'.labels.map Token.text ↔ name ∈ m.labels.map Token.text) →
      m'.generate file = .error failure ∧ ∀ log, (Document.ofModule m' file).run.run log =
        (Document.ofModule m file).run.run log := by
  refine ⟨fun h => ?_, fun m' hfails himports => ?_, fun m' i hfails himports hfront hlabels => ?_⟩
  · rw [forwardPass, ← Document.forwardTo_of_length_le (Nat.le_refl _)] at h
    exact exists_failsAt h
  · exact fails_alike (forwardTo_zero_eq_error_iff.mpr hfails) himports rfl (.inl rfl)
  · exact fails_alike hfails.2 himports hfront (.inr hlabels)

private def foremost : Definition :=
  ⟨.named 0 "halt", [], ⟨.named 0 "end", [.named 0 "stop"]⟩, []⟩

private def dangling : Definition :=
  ⟨.named 0 "start", [.named 0 "go"],
    ⟨.named 0 "msg", [.number 0 (.named 0 "0"), .named 0 "gone"]⟩, []⟩

private def early : Module :=
  ⟨[], [foremost, dangling, ⟨.named 0 "halt", [], ⟨.named 0 "ref", [.named 0 "go"]⟩, []⟩], []⟩

private def late : Module :=
  ⟨[], [foremost, dangling, ⟨.named 0 "go", [.named 0 "start"], ⟨.named 0 "jump", []⟩, []⟩],
    [.named 0 "nowhere"]⟩

/-- A chain that goes on with a label that is nowhere. Behind it stands a label that is given again,
or else an operator that is none and an export of no label. -/
theorem first_failure_final_dangling :
    early.FailsAt "halt" 1 (.onToken .notDefined (.named 0 "gone")) ∧
      late.definitions.take 2 = early.definitions.take 2 ∧
      late.generate "halt" = .error (.onToken .notDefined (.named 0 "gone")) ∧
      ∀ log, (Document.ofModule late "halt").run.run log =
        (Document.ofModule early "halt").run.run log := by
  have hfails : early.FailsAt "halt" 1 (.onToken .notDefined (.named 0 "gone")) :=
    ⟨⟨_, rfl⟩, rfl⟩
  have hlate : late.labels.map Token.text ⊆ early.labels.map Token.text := by decide
  have hearly : early.labels.map Token.text ⊆ late.labels.map Token.text := by decide
  obtain ⟨-, -, hfinal⟩ := first_failure_final early "halt"
    (.onToken .notDefined (.named 0 "gone"))
  exact ⟨hfails, rfl, hfinal late 1 hfails rfl rfl fun _ => ⟨@hlate _, @hearly _⟩⟩

end Module

end ActorAsm
