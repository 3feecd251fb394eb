import ActorAsm.Document.Resolution
import ActorAsm.Log
import ActorAsm.Node.OfStatements

/-!
The document of a module: imports, then definitions in one pass from front to back, then a check
of the names that have to stand for instructions, then exports.
-/

namespace ActorAsm

namespace Document

open Failure (raise)

/-- Add an import. No module name is given twice. -/
def addImport (table : List (String × String)) (i : Importation) :
    Except Failure (List (String × String)) :=
  if (table.lookup i.moduleName.text).isSome then
    raise (.redefinition i.moduleName.text) i.moduleName
  else .ok (table ++ [(i.moduleName.text, i.specifier)])

def importTable (imports : List Importation) : Except Failure (List (String × String)) :=
  imports.foldlM addImport []

/-- The definitions so far, and the names recorded as standing for instructions. -/
structure Progress where
  define : DefineTable
  recorded : Array Token

namespace Progress

/-- A label must be new among definitions and imports. -/
def claim (p : Progress) (scope : Scope) (label : Token) : Except Failure Unit :=
  if (p.define.lookup label.text).isSome ∨ label.text ∈ scope.moduleNames then
    raise (.redefinition label.text) label
  else .ok ()

def insert (p : Progress) (label : Token) (node : Node) : Progress :=
  { p with define := p.define ++ [(label.text, node)] }

/-- An alias is defined as a reference to the first label of its group. -/
def addAlias (scope : Scope) (label : Token) (p : Progress) (other : Token) :
    Except Failure Progress := do
  p.claim scope other
  return p.insert other (.reference (.label label.text) (scope.debug other))

/-- Add all aliases of a label. -/
def addAliases (scope : Scope) (d : Definition) (p : Progress) : Except Failure Progress :=
  d.aliases.foldlM (addAlias scope d.label) p

/-- Add a group of labels with their chain of statements. -/
def addDefinition (scope : Scope) (p : Progress) (d : Definition) : Logged Progress := do
  p.claim scope d.label
  let (chain, recorded) ← (Chain.ofDefinition scope d).run p.recorded
  report (.closed chain.length)
  addAliases scope d ({ p with recorded }.insert d.label chain.node)

/-- All recorded names must stand for instructions. -/
def checkRecorded (p : Progress) : Except Failure Unit :=
  p.recorded.toList.forM p.define.checkInstruction

end Progress

/-- Add an exported name. Exporting a name once more is reported, but allowed. -/
def addExport (scope : Scope) (names : List String) (name : Token) : Logged (List String) :=
  if name.text ∈ scope.labels then do
    if name.text ∈ names then report (.exportedAgain scope.file name.line name.text)
    return names ++ [name.text]
  else raise .notDefined name

/-- The document of a module, with everything that is reported on the way. -/
def ofModule (m : Module) (file : String) : Logged Document := do
  let scope := Scope.ofModule m file
  let imports ← importTable m.imports
  report (.imported imports.length)
  let progress ← m.definitions.foldlM (Progress.addDefinition scope) ⟨[], #[]⟩
  report (.defined progress.define.length)
  progress.checkRecorded
  report (.verified progress.recorded.size)
  let exports ← m.exports.foldlM (addExport scope) []
  return ⟨imports, progress.define, exports⟩

end Document

/-- The document of a module, or the first failure. -/
def Module.generate (m : Module) (file : String) : Except Failure Document :=
  ((Document.ofModule m file).run.run #[]).1

end ActorAsm
