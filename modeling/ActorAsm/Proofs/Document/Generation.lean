import ActorAsm.Document.OfModule
import ActorAsm.Proofs.Document.Resolution
import ActorAsm.Proofs.Node.Definitions

/-! The document of a module, told without generating it. Generation succeeds exactly when names
are distinct, definitions are well formed, recorded names lead to instructions and exports are
labels; the document then lists the entries of the definitions one after the other. -/

namespace ActorAsm

namespace Logged
variable {α β : Type}

/-- The result of the computation, whatever has been reported before. -/
def Gives (x : Logged α) (result : Except Failure α) : Prop := ∀ log, (x.run.run log).1 = result

theorem gives_pure (a : α) : (pure a : Logged α).Gives (.ok a) := fun _ => rfl

private theorem gives_report (event : Event) : (report event).Gives (.ok ()) := fun _ => rfl

theorem gives_lift (result : Except Failure α) : (liftM result : Logged α).Gives result := by
  intro log
  cases result <;> rfl

theorem Gives.bind {x : Logged α} {f : α → Logged β} {result : Except Failure α}
    {g : α → Except Failure β} (hx : x.Gives result) (hf : ∀ a, (f a).Gives (g a)) :
    (x >>= f).Gives (result >>= g) := by
  intro log
  have hrun := hx log
  rw [ExceptT.run_bind, StateT.run_bind]
  cases h : x.run.run log with
  | mk found after =>
    rw [h] at hrun
    subst hrun
    cases found with
    | error failure => rfl
    | ok a => exact hf a after

/-- Reports do not matter to the result. -/
theorem gives_report_bind (event : Event) {x : Logged β} {result : Except Failure β}
    (hx : x.Gives result) : (report event >>= fun _ => x).Gives result :=
  (gives_report event).bind (g := fun _ => result) fun _ => hx

theorem gives_foldlM {f : β → α → Logged β} {g : β → α → Except Failure β}
    (hf : ∀ b a, (f b a).Gives (g b a)) (l : List α) (b : β) :
    (l.foldlM f b).Gives (l.foldlM g b) := by
  induction l generalizing b with
  | nil => exact gives_pure b
  | cons a l ih =>
    rw [List.foldlM_cons, List.foldlM_cons]
    exact (hf b a).bind ih

end Logged

theorem bind_eq_ok_iff {α β : Type} {x : Except Failure α} {f : α → Except Failure β}
    {b : β} : x >>= f = .ok b ↔ ∃ a, x = .ok a ∧ f a = .ok b := by
  cases x <;> simp [bind, Except.bind]

private theorem foldlM_eq_ok_iff {σ α : Type} {f : σ → α → Except Failure σ}
    {K : σ → List String} {k : α → List String} {P : α → Prop} {g : σ → α → σ}
    (hf : ∀ s a t, (K s).Nodup → (f s a = .ok t ↔ (K s ++ k a).Nodup ∧ P a ∧ g s a = t))
    (hK : ∀ s a, K (g s a) = K s ++ k a) (l : List α) {s t : σ} (hs : (K s).Nodup) :
    l.foldlM f s = .ok t ↔
      (K s ++ l.flatMap k).Nodup ∧ (∀ a ∈ l, P a) ∧ l.foldl g s = t := by
  -- `K` are the keys so far, `k` the keys of an element.
  induction l generalizing s with
  | nil => simp [hs, pure, Except.pure]
  | cons a l ih =>
    rw [List.foldlM_cons, bind_eq_ok_iff, List.flatMap_cons, ← List.append_assoc,
      List.forall_mem_cons, List.foldl_cons]
    constructor
    · rintro ⟨u, hu, hl⟩
      obtain ⟨hnew, hp, rfl⟩ := (hf s a u hs).mp hu
      rw [ih (by rwa [hK]), hK] at hl
      exact ⟨hl.1, ⟨hp, hl.2.1⟩, hl.2.2⟩
    · rintro ⟨hnodup, ⟨hp, hps⟩, ht⟩
      have hnew := (List.nodup_append.mp hnodup).1
      refine ⟨g s a, (hf s a _ hs).mpr ⟨hnew, hp, rfl⟩, ?_⟩
      rw [ih (by rwa [hK]), hK]
      exact ⟨hnodup, hps, ht⟩

theorem nodup_append_singleton_iff {keys : List String} {key : String}
    (h : keys.Nodup) : (keys ++ [key]).Nodup ↔ key ∉ keys := by
  rw [List.nodup_append_comm]
  simp [h]

namespace Definition

/-- The entry of an alias. -/
def aliasEntry (file : String) (label other : Token) : String × Node :=
  (other.text, .reference (.label label.text) ⟨file, other.line⟩)

/-- The entries of all labels of the definition. -/
def entries (file : String) (d : Definition) : DefineTable :=
  (d.label.text, d.node file) :: d.aliases.map (aliasEntry file d.label)

theorem keys_entries (file : String) (d : Definition) :
    (d.entries file).map Prod.fst = d.labels.map Token.text := by
  simp [entries, aliasEntry, labels]

/-- Aliases add nothing to what is told of nodes, unless it is told of references. -/
theorem flatMap_entries {α : Type} {f : Node → List α}
    (hf : ∀ target debug, f (.reference target debug) = []) (file : String) (d : Definition) :
    (d.entries file).flatMap (fun entry => f entry.2) = f (d.node file) := by
  simp [entries, List.flatMap_map, aliasEntry, hf]

end Definition

namespace Document

theorem isSome_lookup_iff {β : Type} {table : List (String × β)} {key : String} :
    (table.lookup key).isSome ↔ key ∈ table.map Prod.fst := by
  rw [List.lookup_isSome_iff]
  simp only [beq_iff_eq, List.mem_map]
  exact ⟨fun ⟨p, hp, he⟩ => ⟨p, hp, he.symm⟩, fun ⟨p, hp, he⟩ => ⟨p, hp, he.symm⟩⟩

/-- Imports need distinct names, and are listed as they come. -/
theorem importTable_eq_ok_iff {imports : List Importation} {table : List (String × String)} :
    importTable imports = .ok table ↔
      (imports.map (·.moduleName.text)).Nodup ∧
        imports.map (fun i => (i.moduleName.text, i.specifier)) = table := by
  have hstep (table : List (String × String)) (i : Importation) (table' : List (String × String))
      (h : (table.map Prod.fst).Nodup) : addImport table i = .ok table' ↔
        (table.map Prod.fst ++ [i.moduleName.text]).Nodup ∧ True ∧
          table ++ [(i.moduleName.text, i.specifier)] = table' := by
    simp only [nodup_append_singleton_iff h, addImport, isSome_lookup_iff]
    split <;> simp_all [Failure.raise]
  have hfold : imports.foldl (fun table i => table ++ [(i.moduleName.text, i.specifier)]) [] =
      imports.map fun i => (i.moduleName.text, i.specifier) := by
    rw [List.map_eq_flatMap, List.flatMap_eq_foldl]
  have h := foldlM_eq_ok_iff (K := fun table => table.map Prod.fst) (P := fun _ => True) hstep
    (by simp) imports (s := []) (t := table) List.nodup_nil
  have hkeys : imports.flatMap (fun i => [i.moduleName.text]) =
      imports.map (·.moduleName.text) := List.map_eq_flatMap.symm
  rw [importTable, h, hfold, hkeys]
  simp

namespace Progress
variable {m : Module} {file : String} {p p' : Progress} {d : Definition}

/-- The names that no further label may have. -/
def taken (m : Module) (p : Progress) : List String :=
  m.imports.map (·.moduleName.text) ++ p.define.map Prod.fst

theorem claim_eq_ok_iff {label : Token} :
    p.claim (Scope.ofModule m file) label = .ok () ↔ label.text ∉ p.taken m := by
  rw [claim, taken, List.mem_append, not_or, ← isSome_lookup_iff]
  split
  next h =>
    simp only [Failure.raise, reduceCtorEq, false_iff]
    exact fun hn => h.elim hn.2 hn.1
  next h => exact iff_of_true rfl ⟨fun hn => h (.inr hn), fun hn => h (.inl hn)⟩

theorem taken_insert {label : Token} {node : Node} :
    (p.insert label node).taken m = p.taken m ++ [label.text] := by
  simp [taken, insert]

/-- An alias needs a new name. -/
theorem addAlias_eq_ok_iff {label other : Token} (hp : (p.taken m).Nodup) :
    addAlias (Scope.ofModule m file) label p other = .ok p' ↔
      (p.taken m ++ [other.text]).Nodup ∧ True ∧
        { p with define := p.define ++ [Definition.aliasEntry file label other] } = p' := by
  have hclaim : p.claim (Scope.ofModule m file) other = .ok () ↔ _ := claim_eq_ok_iff
  rw [nodup_append_singleton_iff hp, ← hclaim, addAlias]
  cases p.claim (Scope.ofModule m file) other with
  | error failure => simp [bind, Except.bind]
  | ok u => simp [bind, Except.bind, pure, Except.pure, insert, Definition.aliasEntry, Scope.debug,
      Scope.ofModule]

theorem addAliases_eq_ok_iff (hp : (p.taken m).Nodup) :
    addAliases (Scope.ofModule m file) d p = .ok p' ↔
      (p.taken m ++ d.aliases.map Token.text).Nodup ∧
        { p with define := p.define ++ d.aliases.map (Definition.aliasEntry file d.label) } = p' := by
  have hfold (others : List Token) (p : Progress) :
      others.foldl (fun p other =>
        { p with define := p.define ++ [Definition.aliasEntry file d.label other] }) p =
      { p with define := p.define ++ others.map (Definition.aliasEntry file d.label) } := by
    induction others generalizing p with
    | nil => simp
    | cons other others ih => simp [ih]
  have h := foldlM_eq_ok_iff (f := addAlias (Scope.ofModule m file) d.label) (K := taken m)
    (k := fun other => [other.text]) (fun _ _ _ hp => addAlias_eq_ok_iff hp)
    (by simp [taken, Definition.aliasEntry]) d.aliases (t := p') hp
  have hkeys : d.aliases.flatMap (fun other => [other.text]) = d.aliases.map Token.text :=
    List.map_eq_flatMap.symm
  rw [addAliases, h, hfold, hkeys]
  simp

/-- One more definition, without the report. -/
def extend (scope : Scope) (p : Progress) (d : Definition) : Except Failure Progress := do
  p.claim scope d.label
  let (chain, recorded) ← (Chain.ofDefinition scope d).run p.recorded
  addAliases scope d ({ p with recorded }.insert d.label chain.node)

theorem addDefinition_gives (scope : Scope) (p : Progress) (d : Definition) :
    (addDefinition scope p d).Gives (p.extend scope d) := by
  refine (Logged.gives_lift _).bind fun _ => (Logged.gives_lift _).bind fun found => ?_
  exact Logged.gives_report_bind _ (Logged.gives_lift _)

/-- A definition needs new labels and well-formed statements. -/
theorem extend_eq_ok_iff (hp : (p.taken m).Nodup) :
    p.extend (Scope.ofModule m file) d = .ok p' ↔
      (p.taken m ++ d.labels.map Token.text).Nodup ∧ d.WellFormed m ∧
        ⟨p.define ++ d.entries file, p.recorded ++ d.instructionNames.toArray⟩ = p' := by
  have hlabels : p.taken m ++ d.labels.map Token.text =
      p.taken m ++ [d.label.text] ++ d.aliases.map Token.text := by
    simp [Definition.labels]
  have hchain : (Chain.ofDefinition (Scope.ofModule m file) d).Yields _ _ _ :=
    Definition.chain_yields
  rw [extend, hlabels]
  cases hclaim : p.claim (Scope.ofModule m file) d.label with
  | error failure =>
    have hused : d.label.text ∈ p.taken m := by
      by_contra hnew
      rw [claim_eq_ok_iff.mpr hnew] at hclaim
      cases hclaim
    have hdup : ¬ (p.taken m ++ [d.label.text]).Nodup := by
      rwa [nodup_append_singleton_iff hp, not_not]
    simp only [bind, Except.bind, reduceCtorEq, false_iff]
    exact fun h => hdup (List.nodup_append.mp h.1).1
  | ok u =>
    have hnew := (nodup_append_singleton_iff hp).mpr (claim_eq_ok_iff.mp hclaim)
    cases hrun : (Chain.ofDefinition (Scope.ofModule m file) d).run p.recorded with
    | error failure =>
      have hill : ¬ d.WellFormed m := by
        intro hd
        rw [(hchain p.recorded _ _).mpr ⟨hd, rfl, rfl⟩] at hrun
        cases hrun
      simp [bind, Except.bind, hill]
    | ok found =>
      obtain ⟨chain, recorded⟩ := found
      obtain ⟨hd, rfl, rfl⟩ := (hchain p.recorded chain recorded).mp hrun
      simp only [bind, Except.bind]
      rw [addAliases_eq_ok_iff (by rwa [taken_insert]), taken_insert]
      simp [hd, taken, insert, Definition.entries]

/-- All definitions, one after the other. -/
theorem foldlM_extend_eq_ok_iff {definitions : List Definition} (hp : (p.taken m).Nodup) :
    definitions.foldlM (extend (Scope.ofModule m file)) p = .ok p' ↔
      (p.taken m ++ (definitions.flatMap Definition.labels).map Token.text).Nodup ∧
        (∀ d ∈ definitions, d.WellFormed m) ∧
        ⟨p.define ++ definitions.flatMap (Definition.entries file),
          p.recorded ++ (definitions.flatMap Definition.instructionNames).toArray⟩ = p' := by
  have hfold (definitions : List Definition) (p : Progress) :
      definitions.foldl (fun p d => (⟨p.define ++ d.entries file,
        p.recorded ++ d.instructionNames.toArray⟩ : Progress)) p =
      ⟨p.define ++ definitions.flatMap (Definition.entries file),
        p.recorded ++ (definitions.flatMap Definition.instructionNames).toArray⟩ := by
    induction definitions generalizing p with
    | nil => simp
    | cons d definitions ih => simp [ih]
  have h := foldlM_eq_ok_iff (f := extend (Scope.ofModule m file)) (K := taken m)
    (k := fun d => d.labels.map Token.text) (P := fun d => d.WellFormed m)
    (fun _ _ _ hp => extend_eq_ok_iff hp) (by simp [taken, Definition.keys_entries])
    definitions (t := p') hp
  rw [h, hfold, List.map_flatMap]

theorem checkRecorded_eq_ok_iff :
    p.checkRecorded = .ok () ↔
      ∀ name ∈ p.recorded.toList, p.define.LeadsToInstruction name.text := by
  rw [checkRecorded]
  induction p.recorded.toList with
  | nil => simp [List.forM, pure, Except.pure]
  | cons name names ih =>
    rw [List.forall_mem_cons, ← ih, ← DefineTable.checkInstruction_eq_ok_iff, List.forM]
    cases p.define.checkInstruction name <;> simp [bind, Except.bind]

end Progress

section Exports
variable {m : Module} {file : String}

/-- One more export, without the report. -/
def extendExports (scope : Scope) (names : List String) (name : Token) :
    Except Failure (List String) :=
  if name.text ∈ scope.labels then .ok (names ++ [name.text])
  else Failure.raise .notDefined name

theorem addExport_gives (scope : Scope) (names : List String) (name : Token) :
    (addExport scope names name).Gives (extendExports scope names name) := by
  unfold addExport extendExports
  split
  · split
    · exact Logged.gives_report_bind _ (Logged.gives_pure _)
    · exact Logged.gives_pure _
  · exact Logged.gives_lift _

theorem foldlM_extendExports_eq_ok_iff {exports : List Token} {names names' : List String} :
    exports.foldlM (extendExports (Scope.ofModule m file)) names = .ok names' ↔
      (∀ name ∈ exports, name.text ∈ m.labels.map Token.text) ∧
        names ++ exports.map Token.text = names' := by
  induction exports generalizing names with
  | nil => simp [pure, Except.pure]
  | cons name exports ih =>
    rw [List.foldlM_cons, List.forall_mem_cons]
    by_cases h : name.text ∈ m.labels.map Token.text
    · have hx : extendExports (Scope.ofModule m file) names name = .ok (names ++ [name.text]) :=
        if_pos h
      simp only [hx, bind, Except.bind, ih, h, true_and]
      simp
    · have hx : extendExports (Scope.ofModule m file) names name = .error _ := if_neg h
      simp [hx, bind, Except.bind, h]

end Exports

end Document

namespace Module
variable {m : Module} {file : String} {doc : Document}

/-- The document that a well-formed module generates. -/
def document (file : String) (m : Module) : Document :=
  ⟨m.imports.map fun i => (i.moduleName.text, i.specifier),
    m.definitions.flatMap (Definition.entries file), m.exports.map Token.text⟩

open Document (importTable extendExports) in
/-- Generation without reports. -/
def generatePlain (m : Module) (file : String) : Except Failure Document := do
  let scope := Scope.ofModule m file
  let imports ← importTable m.imports
  let progress ← m.definitions.foldlM (Document.Progress.extend scope) ⟨[], #[]⟩
  progress.checkRecorded
  let exports ← m.exports.foldlM (extendExports scope) []
  return ⟨imports, progress.define, exports⟩

theorem ofModule_gives : (Document.ofModule m file).Gives (m.generatePlain file) := by
  refine (Logged.gives_lift _).bind fun imports => Logged.gives_report_bind _ ?_
  refine (Logged.gives_foldlM (Document.Progress.addDefinition_gives _) _ _).bind fun progress =>
    Logged.gives_report_bind _ ?_
  refine (Logged.gives_lift _).bind fun _ => Logged.gives_report_bind _ ?_
  exact (Logged.gives_foldlM (Document.addExport_gives _) _ _).bind fun exports =>
    Logged.gives_pure _

theorem generate_eq_generatePlain : m.generate file = m.generatePlain file := ofModule_gives #[]

private theorem generatePlain_eq_ok_iff :
    m.generatePlain file = .ok doc ↔ ∃ imports progress exports,
      Document.importTable m.imports = .ok imports ∧
      m.definitions.foldlM (Document.Progress.extend (Scope.ofModule m file)) ⟨[], #[]⟩ =
        .ok progress ∧
      progress.checkRecorded = .ok () ∧
      m.exports.foldlM (Document.extendExports (Scope.ofModule m file)) [] = .ok exports ∧
      ⟨imports, progress.define, exports⟩ = doc := by
  simp only [generatePlain, bind_eq_ok_iff, pure, Except.pure, Except.ok.injEq]
  constructor
  · rintro ⟨imports, hi, progress, hp, u, hc, exports, he, hdoc⟩
    exact ⟨imports, progress, exports, hi, hp, hc, he, hdoc⟩
  · rintro ⟨imports, progress, exports, hi, hp, hc, he, hdoc⟩
    exact ⟨imports, hi, progress, hp, (), hc, exports, he, hdoc⟩

/-- Names that have to stand for instructions are looked up in the finished table. -/
theorem generate_eq_ok_iff_of_table :
    m.generate file = .ok doc ↔
      (m.imports.map (·.moduleName.text) ++ m.labels.map Token.text).Nodup ∧
      (∀ d ∈ m.definitions, d.WellFormed m) ∧
      (∀ d ∈ m.definitions, ∀ name ∈ d.instructionNames,
        (m.document file).define.LeadsToInstruction name.text) ∧
      (∀ name ∈ m.exports, name.text ∈ m.labels.map Token.text) ∧ m.document file = doc := by
  have hstart : (⟨[], #[]⟩ : Document.Progress).taken m = m.imports.map (·.moduleName.text) := by
    simp [Document.Progress.taken]
  rw [generate_eq_generatePlain, generatePlain_eq_ok_iff]
  constructor
  · rintro ⟨imports, progress, exports, hi, hp, hc, he, rfl⟩
    obtain ⟨hnodup, rfl⟩ := Document.importTable_eq_ok_iff.mp hi
    rw [Document.Progress.foldlM_extend_eq_ok_iff (by rwa [hstart]), hstart] at hp
    obtain ⟨hnames, hd, rfl⟩ := hp
    obtain ⟨hlabels, rfl⟩ := Document.foldlM_extendExports_eq_ok_iff.mp he
    refine ⟨hnames, hd, fun d hmem name hname => ?_, hlabels, rfl⟩
    have hall := Document.Progress.checkRecorded_eq_ok_iff.mp hc
    apply hall name
    simpa using ⟨d, hmem, hname⟩
  · rintro ⟨hnames, hd, hall, hlabels, rfl⟩
    have himports := Document.importTable_eq_ok_iff.mpr ⟨(List.nodup_append.mp hnames).1, rfl⟩
    have hstart' : ((⟨[], #[]⟩ : Document.Progress).taken m).Nodup := by
      rw [hstart]
      exact (List.nodup_append.mp hnames).1
    have hextend : m.definitions.foldlM (Document.Progress.extend (Scope.ofModule m file))
        ⟨[], #[]⟩ = .ok _ :=
      (Document.Progress.foldlM_extend_eq_ok_iff hstart').mpr ⟨hstart ▸ hnames, hd, rfl⟩
    have hexports : m.exports.foldlM (Document.extendExports (Scope.ofModule m file)) [] = .ok _ :=
      Document.foldlM_extendExports_eq_ok_iff.mpr ⟨hlabels, rfl⟩
    refine ⟨_, _, _, himports, hextend, ?_, hexports, rfl⟩
    rw [Document.Progress.checkRecorded_eq_ok_iff]
    intro name hname
    obtain ⟨d, hmem, hrec⟩ : ∃ d ∈ m.definitions, name ∈ d.instructionNames := by
      simpa using hname
    exact hall d hmem name hrec

end Module

end ActorAsm
