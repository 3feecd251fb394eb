import ActorAsm.Proofs.Document.Acceptance
import ActorAsm.Proofs.Document.Translation
import ActorAsm.Proofs.Module.Relocation
import ActorAsm.Proofs.Node.Origins

/-! Files, places and specifiers are metadata. A module whose tokens are moved, whose imports are
found elsewhere and which goes by another file name is accepted or refused as before, and its
document shows the difference in these data only. -/

namespace ActorAsm

section Images
variable (r : Relocation) (file : String) (specifier : Nat → String)

/-- The module with other specifiers, one for each import. -/
def Module.respecify (m : Module) : Module :=
  { m with imports := m.imports.mapIdx fun k i => { i with specifier := specifier k } }

def Debug.relocate (debug : Debug) : Debug := ⟨file, r.line debug.line⟩

/-- The document with all lines moved, in another file. -/
def Document.relocate (d : Document) : Document := d.translate id (Debug.relocate r file)

def Document.respecify (d : Document) : Document :=
  { d with imports := d.imports.mapIdx fun k i => (i.1, specifier k) }

end Images

private theorem Fault.translate_id (fault : Fault) : fault.translate id = fault := by
  cases fault <;> rfl

/-- Moving tokens spells no name anew. -/
def Translation.relocation (r : Relocation) (m : Module) (file file' : String) :
    Translation (Scope.ofModule m file) (Scope.ofModule (m.relocate r) file') where
  name := Token.relocate r
  word := Token.relocate r
  spell := id
  origin := Debug.relocate r file'
  injective := Function.injective_id
  text_name _ := rfl
  text_word _ := rfl
  debug_name _ := rfl
  debug_word _ := rfl
  labels := by
    simp [Scope.ofModule, Module.relocate, Module.labels_mapTokens, Token.relocate,
      Function.comp_def]
  moduleNames := by
    simp [Scope.ofModule, Module.relocate, Module.mapTokens, Importation.mapTokens, Token.relocate,
      Function.comp_def]

namespace Document
variable (specifier : Nat → String)

private theorem length_of_importTable {imports : List Importation} {table : List (String × String)}
    (h : importTable imports = .ok table) : table.length = imports.length := by
  obtain ⟨-, rfl⟩ := importTable_eq_ok_iff.mp h
  rw [List.length_map]

private theorem addImport_respecify (table : List (String × String)) (i : Importation) :
    addImport (table.mapIdx fun k i => (i.1, specifier k))
        { i with specifier := specifier table.length } =
      (addImport table i).map (List.mapIdx fun k i => (i.1, specifier k)) := by
  have hkeys : (table.mapIdx fun k i => (i.1, specifier k)).map Prod.fst = table.map Prod.fst :=
    List.ext_getElem (by simp) (by simp)
  unfold addImport
  simp only [isSome_lookup_iff, hkeys]
  split
  · rfl
  · simp [Except.map]

private theorem importTable_respecify (imports : List Importation) :
    importTable (imports.mapIdx fun k i => { i with specifier := specifier k }) =
      (importTable imports).map (List.mapIdx fun k i => (i.1, specifier k)) := by
  -- From the back, where the last import has the last specifier.
  induction imports using List.reverseRecOn with
  | nil => rfl
  | append_singleton imports i ih =>
    unfold importTable at *
    rw [List.mapIdx_concat, List.foldlM_append, List.foldlM_append, ih]
    cases h : imports.foldlM addImport [] with
    | error failure => rfl
    | ok table =>
      have hstep := addImport_respecify specifier table i
      rw [length_of_importTable h] at hstep
      simp only [Except.map, bind, Except.bind, List.foldlM_cons, List.foldlM_nil, hstep]
      cases addImport table i <;> rfl

end Document

namespace Module
variable {m : Module} {file : String}

theorem generate_relocate_eq (r : Relocation) (m : Module) (file file' : String) :
    (m.relocate r).generate file' =
      ((m.generate file).map (Document.relocate r file')).mapError (Failure.relocate r) := by
  have hcarries := generate_carries (Translation.relocation r m file file') rfl
  generalize m.generate file = result at *
  generalize (m.relocate r).generate file' = result' at *
  cases hcarries with
  | ok doc => rfl
  | error hblames =>
    cases hblames with
    | name fault token | word fault token =>
      rw [show (Translation.relocation r m file file').spell = id from rfl, Fault.translate_id]
      rfl

private theorem generate_respecify_eq (specifier : Nat → String) (m : Module) (file : String) :
    (m.respecify specifier).generate file =
      (m.generate file).map (Document.respecify specifier) := by
  have hscope : Scope.ofModule (m.respecify specifier) file = Scope.ofModule m file := by
    have hnames : (m.respecify specifier).imports.map (·.moduleName.text) =
        m.imports.map (·.moduleName.text) := List.ext_getElem (by simp [respecify]) (by simp [respecify])
    rw [Scope.ofModule, hnames]
    rfl
  have himports : Document.importTable (m.respecify specifier).imports = _ :=
    Document.importTable_respecify specifier m.imports
  have hdefinitions : (m.respecify specifier).definitions = m.definitions := rfl
  have hexports : (m.respecify specifier).exports = m.exports := rfl
  rw [generate_eq_generatePlain, generate_eq_generatePlain, generatePlain, generatePlain, himports,
    hscope, hdefinitions, hexports]
  cases Document.importTable m.imports with
  | error failure => rfl
  | ok imports =>
    simp only [Except.map, bind, Except.bind]
    cases m.definitions.foldlM (Document.Progress.extend (Scope.ofModule m file)) ⟨[], #[]⟩ with
    | error failure => rfl
    | ok progress =>
      dsimp only
      cases progress.checkRecorded with
      | error failure => rfl
      | ok u =>
        dsimp only
        cases m.exports.foldlM (Document.extendExports (Scope.ofModule m file)) [] with
        | error failure => rfl
        | ok exports => rfl

/-- Entries of labels come from the statements of their definitions, and entries of aliases keep
the line of the alias. -/
theorem comesFrom_of_mem_define {doc : Document} (h : m.generate file = .ok doc)
    {entry : String × Node} (hentry : entry ∈ doc.define) : ∃ d ∈ m.definitions,
      (entry.1 = d.label.text ∧ entry.2.ComesFrom file (.chain d.statement d.following)) ∨
      ∃ other ∈ d.aliases,
        entry = (other.text, .reference (.label d.label.text) ⟨file, other.line⟩) := by
  obtain ⟨hm, rfl⟩ := generate_eq_ok_iff.mp h
  obtain ⟨d, hmem, hentry⟩ := List.mem_flatMap.mp hentry
  refine ⟨d, hmem, ?_⟩
  rcases Definition.mem_entries_iff.mp hentry with ⟨hname, hnode⟩ | ⟨other, hother, hname, hnode⟩
  · rw [hnode]
    have hformed := Definition.formed_iff_wellFormed.mpr (hm.definitions d hmem)
    exact .inl ⟨hname, hformed.comesFrom_nodeOf⟩
  · exact .inr ⟨other, hother, Prod.ext hname hnode⟩

/-- Whether a module is accepted does not depend on where its tokens stand, where its imports are
found and which file it is in. Its document has the new lines, file and specifiers in the places of
the old ones, a failure is the same at the moved token, and nothing else changes. The lines of a
document are those of the tokens that its nodes come from, and its file is the given one. -/
theorem generate_relocate (r : Relocation) (specifier : Nat → String) (m : Module)
    (file file' : String) :
    ((∃ doc, ((m.relocate r).respecify specifier).generate file' = .ok doc) ↔
      ∃ doc, m.generate file = .ok doc) ∧
    (∀ doc, m.generate file = .ok doc → ((m.relocate r).respecify specifier).generate file' =
      .ok ((doc.relocate r file').respecify specifier)) ∧
    (∀ failure, m.generate file = .error failure →
      ((m.relocate r).respecify specifier).generate file' = .error (failure.relocate r)) ∧
    ∀ doc, m.generate file = .ok doc → ∀ entry ∈ doc.define,
      (∃ d ∈ m.definitions,
        (entry.1 = d.label.text ∧ entry.2.ComesFrom file (.chain d.statement d.following)) ∨
        ∃ other ∈ d.aliases,
          entry = (other.text, .reference (.label d.label.text) ⟨file, other.line⟩)) ∧
      ∀ part ∈ entry.2.subnodes, ∀ debug, part.debug? = some debug → debug.file = file := by
  have hmoved : ((m.relocate r).respecify specifier).generate file' =
      (((m.generate file).map (Document.relocate r file')).mapError (Failure.relocate r)).map
        (Document.respecify specifier) := by
    rw [generate_respecify_eq, generate_relocate_eq r m file file']
  have hplaces (doc : Document) (hdoc : m.generate file = .ok doc) (entry : String × Node)
      (hentry : entry ∈ doc.define) := comesFrom_of_mem_define hdoc hentry
  rw [hmoved]
  refine ⟨?_, ?_, ?_, fun doc hdoc entry hentry => ⟨hplaces doc hdoc entry hentry, ?_⟩⟩
  · cases m.generate file with
    | ok doc => exact iff_of_true ⟨_, rfl⟩ ⟨_, rfl⟩
    | error failure =>
      refine iff_of_false ?_ ?_ <;>
      · rintro ⟨doc, hdoc⟩
        cases hdoc
  · intro doc hdoc
    rw [hdoc]
    rfl
  · intro failure hfailure
    rw [hfailure]
    rfl
  · intro part hpart debug hdebug
    obtain ⟨d, -, ⟨-, hnode⟩ | ⟨other, -, halias⟩⟩ := hplaces doc hdoc entry hentry
    · exact hnode.file_of_mem_subnodes hpart hdebug
    · rw [halias] at hpart
      obtain rfl := List.mem_singleton.mp hpart
      cases hdebug
      rfl

private def name (text : String) (line : Nat) : Token := ⟨.name, text, line, 4, 9⟩

private def jumping : Module where
  imports := [⟨name "std" 1, "./std.asm"⟩]
  definitions := [⟨name "start" 2, [name "again" 3],
    ⟨name "if" 4, [.reference (.bare (name "again" 5))]⟩,
    [⟨name "ref" 6, [.reference (.qualified (name "std" 7) (name "commit" 8))]⟩]⟩]
  exports := [name "start" 9]

private def doubled : Relocation := ⟨(2 * ·), (· + 1), fun _ => 0⟩

private def unknown : Module := { jumping with exports := [name "stop" 9] }

/-- A jump over several lines, between a name of an imported module and an alias. The jump keeps the
line of its operator, the references those of the name and the module name, and the alias its own; a
name that is no label is refused where it stands. -/
theorem generate_relocate_doubled :
    ((jumping.relocate doubled).respecify fun _ => "./lib.asm").generate "new" = .ok
      ⟨[("std", "./lib.asm")],
        [("start", .branch (.reference (.label "again") ⟨"new", 10⟩)
          (.reference (.external "std" "commit") ⟨"new", 14⟩) ⟨"new", 8⟩),
          ("again", .reference (.label "start") ⟨"new", 6⟩)], ["start"]⟩ ∧
    ((unknown.relocate doubled).respecify fun _ => "./lib.asm").generate "new" =
      .error ⟨.notDefined, some ⟨.name, "stop", 18, 5, 0⟩⟩ := by
  have hok : jumping.generate "old" = .ok (jumping.document "old") := by decide
  have hfails : unknown.generate "old" = .error ⟨.notDefined, some (name "stop" 9)⟩ := by decide
  obtain ⟨-, h, -⟩ := generate_relocate doubled (fun _ => "./lib.asm") jumping "old" "new"
  obtain ⟨-, -, h', -⟩ := generate_relocate doubled (fun _ => "./lib.asm") unknown "old" "new"
  exact ⟨(h _ hok).trans (by decide), (h' _ hfails).trans (by decide)⟩

end Module

end ActorAsm
