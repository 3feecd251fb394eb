import ActorAsm.Document.OfModule
import ActorAsm.Module.Grammar
import ActorAsm.Token.Scanner

/-!
Assembling a source text: tokens, module, document.
-/

namespace ActorAsm

/-- Read a module from tokens. Every token that was looked at is reported, once and in order. -/
def Module.readLogged (ts : List Token) : Logged Module := do
  let (result, b) := Module.read ts
  reportAll (b.drawn.toList.map .drawn)
  let m ← result
  report (.parsed b.pulled m.imports.length m.definitions.length m.exports.length)
  return m

/-- The document of a source text, with everything that is reported on the way. -/
def Document.ofSource (source file : String) : Logged Document := do
  let m ← Module.readLogged (Token.ofSource source)
  let d ← Document.ofModule m file
  report (.assembled file d.define.length)
  return d

/-- The document of a source text, or the first failure. The file is only where nodes say they
come from. -/
def compile (source file : String) : Except Failure Document :=
  ((Document.ofSource source file).run.run #[]).1

namespace Assembly

/-- A document, or the record of the failure, and everything that was reported. -/
def ofSource (source file : String) : Assembly × Array Event :=
  match (Document.ofSource source file).run.run #[] with
  | (.ok d, events) => (.document d, events)
  | (.error failure, events) =>
    (.error (.ofFailure failure file), events.push (.failed file failure))

/-- What a source text assembles to. -/
def assemble (source file : String) : Assembly := (ofSource source file).1

end Assembly

end ActorAsm
