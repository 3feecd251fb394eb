import ActorAsm.Assembly
import ActorAsm.Proofs.Document.Generation

/-! Assembly in stages: a source is split into tokens, these are read as a module, and the module
is turned into a document. Whatever is reported on the way does not matter to the result. -/

namespace ActorAsm

private theorem Logged.gives_reportAll (events : List Event) : (reportAll events).Gives (.ok ()) :=
  fun _ => rfl

private theorem Module.readLogged_gives (ts : List Token) :
    (Module.readLogged ts).Gives (Module.parse ts) := by
  refine (Logged.gives_reportAll _).bind (g := fun _ => Module.parse ts) fun _ => ?_
  have h := (Logged.gives_lift (Module.read ts).1).bind (g := pure) fun m =>
    Logged.gives_report_bind (.parsed (Module.read ts).2.pulled m.imports.length
      m.definitions.length m.exports.length) (Logged.gives_pure m)
  rwa [bind_pure] at h

private theorem Document.ofSource_gives (source file : String) :
    (Document.ofSource source file).Gives
      (Module.parse (Token.ofSource source) >>= fun m => m.generate file) := by
  refine (Module.readLogged_gives _).bind fun m => ?_
  have hmodule : (Document.ofModule m file).Gives (m.generatePlain file) := Module.ofModule_gives
  have h := hmodule.bind (g := pure) fun d =>
    Logged.gives_report_bind (.assembled file d.define.length) (Logged.gives_pure d)
  rwa [bind_pure, ← Module.generate_eq_generatePlain] at h

theorem compile_eq (source file : String) :
    compile source file = Module.parse (Token.ofSource source) >>= fun m => m.generate file :=
  Document.ofSource_gives source file #[]

theorem Assembly.assemble_eq (source file : String) :
    assemble source file = match compile source file with
      | .ok d => .document d
      | .error failure => .error (.ofFailure failure file) := by
  unfold assemble ofSource compile
  cases (Document.ofSource source file).run.run #[] with
  | mk result events => cases result <;> rfl

end ActorAsm
