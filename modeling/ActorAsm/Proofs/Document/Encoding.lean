import ActorAsm.Document.Basic
import ActorAsm.Proofs.Json.Layouts
import ActorAsm.Proofs.Node.Encoding

/-! The JSON text of a result determines the result: no string in a document or in an error record
can pass for structure. Its layouts differ in nothing but the gaps between tokens. -/

namespace ActorAsm

private theorem Document.toJson_injective : Function.Injective Document.toJson := by
  rintro ⟨imports, define, exported⟩ ⟨imports', define', exported'⟩ h
  simp only [toJson, Json.object.injEq, Json.array.injEq, List.cons.injEq, Prod.mk.injEq,
    true_and, and_true] at h
  obtain ⟨himports, hdefine, hexports⟩ := h
  have hname : Function.Injective Json.string := fun _ _ => Json.string.inj
  have hspecifier : Function.Injective (Prod.map (id : String → String) Json.string) :=
    Function.injective_id.prodMap hname
  have hnode : Function.Injective (Prod.map (id : String → String) Node.toJson) :=
    Function.injective_id.prodMap Node.toJson_injective
  rw [List.map_injective_iff.2 hspecifier himports, List.map_injective_iff.2 hnode hdefine,
    List.map_injective_iff.2 hname hexports]

private theorem ErrorRecord.toJson_injective : Function.Injective ErrorRecord.toJson := by
  rintro ⟨message, file, line, column⟩ ⟨message', file', line', column'⟩ h
  -- The key of a field tells which of the two numbers is there, if only one is.
  cases line <;> cases column <;> cases line' <;> cases column' <;>
    simp only [toJson, optionalField, List.cons_append, List.nil_append, Json.object.injEq,
      List.cons.injEq, Prod.mk.injEq, Json.string.injEq, Json.number.injEq, Int.natCast_inj,
      true_and, and_true, reduceCtorEq, String.reduceEq, false_and, and_false] at h <;> simp [h]

private theorem Document.toJson_ne_error (d : Document) (r : ErrorRecord) :
    d.toJson ≠ r.toJson := by
  simp [Document.toJson, ErrorRecord.toJson]

private theorem Assembly.toJson_injective : Function.Injective Assembly.toJson := by
  intro result result' h
  cases result with
  | document d =>
    cases result' with
    | document d' => rw [Document.toJson_injective h]
    | error r' => exact absurd h (d.toJson_ne_error r')
  | error r =>
    cases result' with
    | document d' => exact absurd h.symm (d'.toJson_ne_error r)
    | error r' => rw [ErrorRecord.toJson_injective h]

/-- Equal compact texts are the texts of equal nodes, and of equal results, entries in the same
order; no document has the text of an error record. -/
theorem Assembly.compact_text_injective :
    Function.Injective (fun n : Node => n.toJson.text .compact) ∧
      Function.Injective (fun result : Assembly => result.toJson.text .compact) ∧
      ∀ (d : Document) (r : ErrorRecord),
        (Assembly.document d).toJson.text .compact ≠ (Assembly.error r).toJson.text .compact := by
  have htext : Function.Injective (Json.text .compact) :=
    Json.text_injective Json.Layout.blank_compact
  refine ⟨htext.comp Node.toJson_injective, htext.comp toJson_injective, fun d r h => ?_⟩
  cases toJson_injective (htext h)

/-- The pretty text of a result or of a node, less the spaces and line feeds outside its strings, is
the compact text. Whatever names, files and specifiers there are, line breaks among them, no control
character stands in a string of either text, and the compact text is one line. -/
theorem Assembly.layouts_agree :
    (∀ result : Assembly, result.toJson.LayoutsAgree) ∧ ∀ n : Node, n.toJson.LayoutsAgree := by
  have hagree (value : Json) : value.LayoutsAgree := {
    withoutGaps_pretty := Json.withoutGaps_text Json.Layout.spaced_pretty value
    pretty := Json.plainStrings_text Json.Layout.spaced_pretty value
    compact := Json.plainStrings_text Json.Layout.spaced_compact value
    line := (Json.sameTokens_text Json.Layout.spaced_compact value).printable }
  exact ⟨fun result => hagree result.toJson, fun n => hagree n.toJson⟩

end ActorAsm
