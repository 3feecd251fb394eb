import ActorAsm.Node.Encoding
import ActorAsm.Proofs.Json.Unambiguous
import ActorAsm.Proofs.Vocabulary

/-! Nodes are told apart by their JSON: by their kind first, instructions by their operator. -/

namespace ActorAsm

/-- The word under the key that tells kinds apart. A bare number is a fixnum. -/
def Json.kind? : Json → Option String
  | .number _ => some "fixnum"
  | .object (("kind", .string kind) :: _) => some kind
  | _ => none

/-- The word under the key that tells instructions apart. -/
def Json.op? : Json → Option String
  | .object (_ :: ("op", .string op) :: _) => some op
  | _ => none

private theorem TypeTag.toJson_injective : Function.Injective TypeTag.toJson := by
  intro tag tag' h
  simp only [toJson, Json.object.injEq, List.cons.injEq, Prod.mk.injEq, Json.string.injEq] at h
  exact name_injective h.2.1.2

private theorem Debug.toJson_injective : Function.Injective Debug.toJson := by
  rintro ⟨file, line⟩ ⟨file', line'⟩ h
  simp only [toJson, Json.object.injEq, List.cons.injEq, Prod.mk.injEq, Json.string.injEq,
    Json.number.injEq, Int.natCast_inj, true_and, and_true] at h
  rw [h.1, h.2]

private theorem Target.fields_injective : Function.Injective Target.fields := by
  intro target target' h
  cases target <;> cases target' <;> simp [fields] at h <;> simp [h]

namespace Node

/-- The operator of an instruction. -/
def operator? : Node → Option Operator
  | .typeq _ _ _ => some .typeq
  | .fixnumOp op _ _ _ => some (.fixnum op)
  | .exprOp op _ _ _ => some (.expr op)
  | .depth _ _ => some .depth
  | .branch _ _ _ => some (.branch false)
  | .mnemonicOp op _ _ _ => some (.mnemonic op)
  | .finish _ _ => some .finish
  | _ => none

private theorem kind?_toJson (n : Node) : n.toJson.kind? = some n.kind := by
  cases n <;> rfl

private theorem op?_toJson (n : Node) : n.toJson.op? = n.operator?.map Operator.name := by
  cases n with
  | reference target debug => cases target <;> rfl
  | _ => rfl

/-- Equal JSON comes from nodes that were built in the same way. -/
theorem eq_of_toJson_eq {n n' : Node} (h : n.toJson = n'.toJson) :
    n.kind = n'.kind ∧ n.operator? = n'.operator? := by
  constructor
  · rw [← Option.some_inj, ← kind?_toJson, h, kind?_toJson]
  · refine Option.map_injective Operator.name_injective ?_
    rw [← op?_toJson, h, op?_toJson]

private theorem instructionJson_inj {op op' : String} {fields fields' : List (String × Json)}
    {debug debug' : Debug} (h : instructionJson op fields debug = instructionJson op' fields' debug') :
    op = op' ∧ fields = fields' ∧ debug = debug' := by
  obtain ⟨hfront, hdebug⟩ := List.append_inj' (Json.object.inj h) rfl
  obtain ⟨hop, hfields⟩ := List.append_inj hfront rfl
  simp only [List.cons.injEq, Prod.mk.injEq, Json.string.injEq, true_and, and_true] at hop hdebug
  exact ⟨hop, hfields, Debug.toJson_injective hdebug⟩

/-- Two fields under the same keys, whatever the operators are. -/
theorem instructionJson_pair_inj {op op' key key' : String} {x x' y y' : Json}
    {debug debug' : Debug} (h : instructionJson op [(key, x), (key', y)] debug =
      instructionJson op' [(key, x'), (key', y')] debug') : x = x' ∧ y = y' ∧ debug = debug' := by
  obtain ⟨-, hfields, hdebug⟩ := instructionJson_inj h
  simp only [List.cons.injEq, Prod.mk.injEq, true_and, and_true] at hfields
  exact ⟨hfields.1, hfields.2, hdebug⟩

theorem toJson_injective : Function.Injective toJson := by
  intro n n' h
  induction n generalizing n' with
  | literal value =>
    cases n' with
    | literal value' =>
      simp only [toJson, Json.object.injEq, List.cons.injEq, Prod.mk.injEq, Json.string.injEq,
        true_and, and_true] at h
      rw [Literal.text_injective h]
    | _ => exact absurd (eq_of_toJson_eq h) (by simp [kind])
  | typeTag tag =>
    cases n' with
    | typeTag tag' => rw [TypeTag.toJson_injective h]
    | _ => exact absurd (eq_of_toJson_eq h) (by simp [kind])
  | fixnum value =>
    cases n' with
    | fixnum value' => rw [Json.number.inj h]
    | _ => exact absurd (eq_of_toJson_eq h) (by simp [kind])
  | reference target debug =>
    cases n' with
    | reference target' debug' =>
      obtain ⟨hfront, hdebug⟩ := List.append_inj' (Json.object.inj h) rfl
      obtain ⟨-, htarget⟩ := List.append_inj hfront rfl
      simp only [List.cons.injEq, Prod.mk.injEq, true_and, and_true] at hdebug
      rw [Target.fields_injective htarget, Debug.toJson_injective hdebug]
    | _ => exact absurd (eq_of_toJson_eq h) (by simp [kind])
  | pair head tail debug ihHead ihTail =>
    cases n' with
    | pair head' tail' debug' =>
      simp only [toJson, Json.object.injEq, List.cons.injEq, Prod.mk.injEq, true_and,
        and_true] at h
      obtain ⟨hhead, htail, hdebug⟩ := h
      rw [ihHead hhead, ihTail htail, Debug.toJson_injective hdebug]
    | _ => exact absurd (eq_of_toJson_eq h) (by simp [kind])
  | dict key value next debug ihKey ihValue ihNext =>
    cases n' with
    | dict key' value' next' debug' =>
      simp only [toJson, Json.object.injEq, List.cons.injEq, Prod.mk.injEq, true_and,
        and_true] at h
      obtain ⟨hkey, hvalue, hnext, hdebug⟩ := h
      rw [ihKey hkey, ihValue hvalue, ihNext hnext, Debug.toJson_injective hdebug]
    | _ => exact absurd (eq_of_toJson_eq h) (by simp [kind])
  | typeq imm k debug ih =>
    cases n' with
    | typeq imm' k' debug' =>
      obtain ⟨himm, hk, rfl⟩ := instructionJson_pair_inj h
      rw [TypeTag.toJson_injective himm, ih hk]
    | _ => exact absurd (eq_of_toJson_eq h) (by simp [kind, operator?])
  | fixnumOp op imm k debug ih =>
    cases n' with
    | fixnumOp op' imm' k' debug' =>
      obtain ⟨himm, hk, rfl⟩ := instructionJson_pair_inj h
      cases (eq_of_toJson_eq h).2
      rw [Json.number.inj himm, ih hk]
    | _ => exact absurd (eq_of_toJson_eq h) (by simp [kind, operator?])
  | exprOp op imm k debug ihImm ih =>
    cases n' with
    | exprOp op' imm' k' debug' =>
      obtain ⟨himm, hk, rfl⟩ := instructionJson_pair_inj h
      cases (eq_of_toJson_eq h).2
      rw [ihImm himm, ih hk]
    | _ => exact absurd (eq_of_toJson_eq h) (by simp [kind, operator?])
  | depth k debug ih =>
    cases n' with
    | depth k' debug' =>
      obtain ⟨-, hfields, rfl⟩ := instructionJson_inj h
      simp only [List.cons.injEq, Prod.mk.injEq, true_and, and_true] at hfields
      rw [ih hfields]
    | _ => exact absurd (eq_of_toJson_eq h) (by simp [kind, operator?])
  | branch onTrue onFalse debug ihTrue ihFalse =>
    cases n' with
    | branch onTrue' onFalse' debug' =>
      obtain ⟨htrue, hfalse, rfl⟩ := instructionJson_pair_inj h
      rw [ihTrue htrue, ihFalse hfalse]
    | _ => exact absurd (eq_of_toJson_eq h) (by simp [kind, operator?])
  | mnemonicOp op imm k debug ih =>
    cases n' with
    | mnemonicOp op' imm' k' debug' =>
      obtain ⟨himm, hk, rfl⟩ := instructionJson_pair_inj h
      cases (eq_of_toJson_eq h).2
      rw [Json.string.inj himm, ih hk]
    | _ => exact absurd (eq_of_toJson_eq h) (by simp [kind, operator?])
  | finish imm debug =>
    cases n' with
    | finish imm' debug' =>
      obtain ⟨-, hfields, rfl⟩ := instructionJson_inj h
      simp only [List.cons.injEq, Prod.mk.injEq, Json.string.injEq, true_and, and_true] at hfields
      rw [hfields]
    | _ => exact absurd (eq_of_toJson_eq h) (by simp [kind, operator?])

end Node

end ActorAsm
