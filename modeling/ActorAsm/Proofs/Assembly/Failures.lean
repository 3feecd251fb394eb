import ActorAsm.Proofs.Assembly.Stages
import ActorAsm.Proofs.Document.Blame
import ActorAsm.Proofs.Module.Provenance

/-! Where assembly fails. Tokens pass through all stages unchanged, so a failure of any stage is at
a token of the source. -/

namespace ActorAsm
variable {source file : String} {failure : Failure}

/-- The failure is at one of these tokens, and is not one of those that only matchers know. -/
def Failure.IsIn (ts : List Token) (failure : Failure) : Prop :=
  ∃ fault, ∃ t ∈ ts, failure = .onToken fault t ∧
    fault ∉ [.endOfStream, .rejected, .noAlternative]

private theorem Failure.isIn_of_parse {ts : List Token} (h : Module.parse ts = .error failure) :
    failure.IsIn ts := by
  obtain ⟨t, ht, rfl⟩ := Module.exists_trailing_of_parse h
  exact ⟨.trailingToken, t, ht, rfl, by decide⟩

private theorem Failure.isIn_of_generate {m : Module} (h : m.generate file = .error failure) :
    failure.IsIn m.tokens := by
  obtain ⟨fault, token, rfl, hflaw⟩ := Module.blames_of_generate h
  refine ⟨fault, token, hflaw.mem_tokens, rfl, fun hfault => hflaw.not_ofReading ?_⟩
  exact List.mem_append_left [.trailingToken] hfault

theorem Failure.isIn_of_compile (h : compile source file = .error failure) :
    failure.IsIn (Token.ofSource source) := by
  rw [compile_eq] at h
  cases hparse : Module.parse (Token.ofSource source) with
  | error found =>
    rw [hparse] at h
    cases h
    exact isIn_of_parse hparse
  | ok m =>
    rw [hparse] at h
    obtain ⟨fault, t, ht, hfailure, hfault⟩ := isIn_of_generate h
    exact ⟨fault, t, Module.tokens_subset_of_parse hparse ht, hfailure, hfault⟩

/-- Every failure is at a token of the source, and of a kind that says what is wrong there. A source
with an error token fails in reading. The record of a failure gives the place of a token of the
source, in the file that was asked for. -/
theorem compile_fails_in_source (source file : String) :
    (∀ failure, compile source file = .error failure →
      ∃ fault, ∃ t ∈ Token.ofSource source, failure = .onToken fault t ∧
        fault ∉ [.endOfStream, .rejected, .noAlternative]) ∧
    ((∃ t ∈ Token.ofSource source, t.kind = .error) →
      ∃ t ∈ Token.ofSource source, compile source file = .error (.onToken .trailingToken t)) ∧
    ∀ record, Assembly.assemble source file = .error record →
      record.file = file ∧
        ∃ t ∈ Token.ofSource source, record.line = some t.line ∧ record.column = some t.column := by
  refine ⟨fun failure => Failure.isIn_of_compile, ?_, fun record h => ?_⟩
  · rintro ⟨t, ht, hkind⟩
    obtain ⟨t', ht', hparse⟩ := Module.exists_trailing_of_error_mem ht hkind
    refine ⟨t', ht', ?_⟩
    rw [compile_eq, hparse]
    rfl
  · rw [Assembly.assemble_eq] at h
    split at h
    · cases h
    next failure hcompile =>
      cases h
      obtain ⟨fault, t, ht, rfl, -⟩ := Failure.isIn_of_compile hcompile
      exact ⟨rfl, t, ht, rfl, rfl⟩

private def unreadable : String := "main:@"

/-- A label, and a character that begins no token where the line should end. -/
theorem compile_fails_in_source_unreadable :
    (∃ t ∈ Token.ofSource unreadable, t.kind = .error) ∧
      (∃ t ∈ Token.ofSource unreadable,
        compile unreadable "main.asm" = .error (.onToken .trailingToken t)) ∧
      ∃ record, Assembly.assemble unreadable "main.asm" = .error record ∧
        record.file = "main.asm" ∧ ∃ t ∈ Token.ofSource unreadable,
          record.line = some t.line ∧ record.column = some t.column := by
  obtain ⟨-, herror, hrecord⟩ := compile_fails_in_source unreadable "main.asm"
  have hkind : ∃ t ∈ Token.ofSource unreadable, t.kind = .error := by decide +kernel
  have hassemble : Assembly.assemble unreadable "main.asm" =
      .error ⟨"Unexpected token.", "main.asm", some 0, some 0⟩ := by decide +kernel
  exact ⟨hkind, herror hkind, _, hassemble, hrecord _ hassemble⟩

end ActorAsm
