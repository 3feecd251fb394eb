import ActorAsm.Document.Basic

/-!
Where references end up. An alias is a definition that is itself a reference to a label, so a name
is followed from definition to definition until something else is reached.
-/

namespace ActorAsm.DefineTable

/-- What is wrong with a name as an instruction, if anything is, by at most so many lookups. When
they do not suffice the name has been followed in a circle. -/
def instructionFault? (define : DefineTable) : Nat → String → Option Fault
  | 0, _ => some .cyclicReference
  | lookups + 1, name =>
    match define.lookup name with
    | some (.reference (.label next) _) => instructionFault? define lookups next
    | some (.reference (.external _ _) _) => none
    | some node => if node.isInstruction then none else some .expectedInstruction
    | none => some .notDefined

/-- An instruction must stand behind the name of the token. Every lookup but the last one that
serves a purpose takes another entry of the table. -/
def checkInstruction (define : DefineTable) (name : Token) : Except Failure Unit :=
  match instructionFault? define (define.length + 1) name.text with
  | some fault => Failure.raise fault name
  | none => .ok ()

end ActorAsm.DefineTable
