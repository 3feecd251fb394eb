import ActorAsm.Proofs.Document.Generation
import ActorAsm.Proofs.Node.Translation

/-! Modules with other tokens. Tables are compared key by key, and keys are told apart after a
translation if and only if they were before, so that the two modules are accepted alike, with
corresponding documents, or fail alike at corresponding tokens. -/

namespace ActorAsm

private theorem lookup_map_of_injective {β γ : Type} {spell : String → String}
    (h : Function.Injective spell) (f : β → γ) (table : List (String × β)) (key : String) :
    (table.map (Prod.map spell f)).lookup (spell key) = (table.lookup key).map f := by
  induction table with
  | nil => rfl
  | cons entry table ih =>
    obtain ⟨other, value⟩ := entry
    rw [List.map_cons, Prod.map_apply, List.lookup_cons, List.lookup_cons, h.beq_eq, ih]
    split <;> rfl

namespace DefineTable

def translate (spell : String → String) (origin : Debug → Debug) (define : DefineTable) :
    DefineTable :=
  define.map (Prod.map spell (Node.translate spell origin))

/-- A name is followed along the images of the names it was followed along. -/
theorem instructionFault?_translate {spell : String → String} (h : Function.Injective spell)
    (origin : Debug → Debug) (define : DefineTable) (lookups : Nat) (name : String) :
    (define.translate spell origin).instructionFault? lookups (spell name) =
      (define.instructionFault? lookups name).map (Fault.translate spell) := by
  induction lookups generalizing name with
  | zero => rfl
  | succ lookups ih =>
    rw [instructionFault?, translate, lookup_map_of_injective h, instructionFault?]
    cases define.lookup name with
    | none => rfl
    | some node =>
      cases node with
      | reference target debug =>
        cases target with
        | label next => exact ih next
        | external moduleName name => rfl
      | _ => rfl

end DefineTable

namespace Document
variable {scope scope' : Scope} (T : Translation scope scope')

open Translation (Carries)

private theorem importTable_carries (imports : List Importation) :
    T.Carries (List.map (Prod.map T.spell id)) (importTable imports)
      (importTable (imports.map (Importation.mapTokens T.name))) := by
  refine Carries.foldlM (g := List.map (Prod.map T.spell id)) (fun table i => ?_) imports []
  unfold addImport
  rw [Importation.mapTokens, T.text_name, lookup_map_of_injective T.injective, Option.isSome_map]
  split
  · exact .error (.name (.redefinition i.moduleName.text) i.moduleName)
  · exact T.carries_ok _ (by simp)

namespace Progress

def translate (p : Progress) : Progress :=
  ⟨p.define.translate T.spell T.origin, p.recorded.map T.name⟩

private theorem translate_insert (p : Progress) (label : Token) (node : Node) :
    (p.insert label node).translate T =
      (p.translate T).insert (T.name label) (node.translate T.spell T.origin) := by
  simp [translate, insert, DefineTable.translate, T.text_name]

private theorem claim_carries (p : Progress) (label : Token) :
    T.Carries id (p.claim scope label) ((p.translate T).claim scope' (T.name label)) := by
  unfold claim
  simp only [T.text_name, translate, DefineTable.translate, lookup_map_of_injective T.injective,
    Option.isSome_map, T.mem_moduleNames_iff]
  split
  · exact .error (.name (.redefinition label.text) label)
  · exact .ok ()

private theorem addAlias_carries (label : Token) (p : Progress) (other : Token) :
    T.Carries (translate T) (addAlias scope label p other)
      (addAlias scope' (T.name label) (p.translate T) (T.name other)) := by
  refine (claim_carries T p other).bind fun _ _ => ?_
  refine T.carries_ok _ ?_
  rw [T.text_name, T.debug_name, translate_insert]
  rfl

private theorem extend_carries (p : Progress) (d : Definition) :
    T.Carries (translate T) (p.extend scope d)
      ((p.translate T).extend scope' (d.mapTokens T.name T.word)) := by
  refine (claim_carries T p d.label).bind fun _ _ => ?_
  have hchain := @Chain.ofStatements_carries _ _ T .anything d.statement d.following []
  refine (hchain p.recorded).bind fun result _ => ?_
  obtain ⟨chain, recorded⟩ := result
  have haliases := Carries.foldlM (addAlias_carries T d.label) d.aliases
    ({ p with recorded }.insert d.label chain.node)
  rw [translate_insert] at haliases
  exact haliases

private theorem checkRecorded_carries (p : Progress) :
    T.Carries id p.checkRecorded (p.translate T).checkRecorded := by
  have hcheck (name : Token) : T.Carries id (p.define.checkInstruction name)
      ((p.translate T).define.checkInstruction (T.name name)) := by
    unfold DefineTable.checkInstruction
    rw [translate, DefineTable.translate, List.length_map, T.text_name, ← DefineTable.translate,
      DefineTable.instructionFault?_translate T.injective]
    cases p.define.instructionFault? (p.define.length + 1) name.text with
    | none => exact .ok ()
    | some fault => exact .error (.name fault name)
  have hnames : (p.translate T).recorded.toList = p.recorded.toList.map T.name := by
    simp [translate]
  rw [checkRecorded, checkRecorded, hnames]
  induction p.recorded.toList with
  | nil => exact .ok ()
  | cons name names ih => exact (hcheck name).bind fun _ _ => ih

end Progress

private theorem extendExports_carries (names : List String) (name : Token) :
    T.Carries (List.map T.spell) (extendExports scope names name)
      (extendExports scope' (names.map T.spell) (T.name name)) := by
  unfold extendExports
  simp only [T.text_name, T.mem_labels_iff]
  split
  · exact T.carries_ok _ (by simp)
  · exact .error (.name .notDefined name)

end Document

namespace Module
variable {m m' : Module} {file file' : String}

open Translation (Carries)

/-- Generation goes the same way for a module with other tokens. -/
theorem generate_carries (T : Translation (Scope.ofModule m file) (Scope.ofModule m' file'))
    (hm : m' = m.mapTokens T.name T.word) :
    T.Carries (Document.translate T.spell T.origin) (m.generate file) (m'.generate file') := by
  have himports : m'.imports = m.imports.map (Importation.mapTokens T.name) :=
    congrArg Module.imports hm
  have hdefinitions : m'.definitions = m.definitions.map (Definition.mapTokens T.name T.word) :=
    congrArg Module.definitions hm
  have hexports : m'.exports = m.exports.map T.name := congrArg Module.exports hm
  have hstart : Document.Progress.translate T ⟨[], #[]⟩ = ⟨[], #[]⟩ := by
    simp [Document.Progress.translate, DefineTable.translate]
  have hextend := Carries.foldlM (Document.Progress.extend_carries T) m.definitions ⟨[], #[]⟩
  rw [hstart] at hextend
  rw [generate_eq_generatePlain, generate_eq_generatePlain, generatePlain, generatePlain, himports,
    hdefinitions, hexports]
  refine (Document.importTable_carries T m.imports).bind fun imports _ => ?_
  refine hextend.bind fun progress _ => ?_
  refine (Document.Progress.checkRecorded_carries T progress).bind fun _ _ => ?_
  refine (Carries.foldlM (Document.extendExports_carries T) m.exports []).bind fun exports _ => ?_
  exact .ok (⟨imports, progress.define, exports⟩ : Document)

end Module

end ActorAsm
