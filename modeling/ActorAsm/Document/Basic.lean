import ActorAsm.Failure
import ActorAsm.Node.Encoding

/-!
Documents: the intermediate representation of a whole module, the record that stands for it when
assembly fails, and their JSON.
-/

namespace ActorAsm

/-- Definitions in the order in which they were made. -/
abbrev DefineTable : Type := List (String × Node)

/-- Imports map module names to specifiers. All entries are in source order. -/
structure Document where
  imports : List (String × String)
  define : DefineTable
  exports : List String
  deriving DecidableEq

namespace Document

/-- The language that every document says it is in. -/
def language : String := "uFork"

def toJson (d : Document) : Json :=
  .object [
    ("lang", .string language),
    ("ast", .object [
      ("kind", .string "module"),
      ("import", .object (d.imports.map fun (name, specifier) => (name, .string specifier))),
      ("define", .object (d.define.map fun (label, node) => (label, node.toJson))),
      ("export", .array (d.exports.map .string))])]

end Document

/-- A failure as data. The place is left out when the input ran out. -/
structure ErrorRecord where
  message : String
  file : String
  line : Option Nat
  column : Option Nat
  deriving DecidableEq

namespace ErrorRecord

def ofFailure (failure : Failure) (file : String) : ErrorRecord :=
  ⟨failure.message, file, failure.line?, failure.column?⟩

/-- A field for a number that may be missing. -/
def optionalField (key : String) : Option Nat → List (String × Json)
  | some n => [(key, .number n)]
  | none => []

def toJson (r : ErrorRecord) : Json :=
  .object ([("kind", .string "error"), ("message", .string r.message), ("file", .string r.file)] ++
    optionalField "line" r.line ++ optionalField "column" r.column)

end ErrorRecord

/-- What assembling a source gives, in any case. -/
inductive Assembly where
  | document (d : Document)
  | error (r : ErrorRecord)
  deriving DecidableEq

namespace Assembly

def isDocument : Assembly → Bool
  | .document _ => true
  | .error _ => false

def toJson : Assembly → Json
  | .document d => d.toJson
  | .error r => r.toJson

end Assembly

end ActorAsm
