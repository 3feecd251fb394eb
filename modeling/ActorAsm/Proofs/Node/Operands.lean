import ActorAsm.Node.OfValue
import ActorAsm.Proofs.Module.WellFormed
import ActorAsm.Proofs.Vocabulary

/-! What operands stand for. Making a node of an operand succeeds exactly when the operand fits its
place; the node depends on nothing but the operand and the file, and the names recorded are read
off the operand. -/

namespace ActorAsm

namespace Recording
variable {α β : Type} {x : Recording α} {f : α → Recording β} {P Q : Prop} {a : α} {b : β}
  {names names' : List Token}

/-- The computation succeeds exactly when `P` holds, and then gives `a` and records `names`,
whatever has been recorded before. -/
def Yields (x : Recording α) (P : Prop) (a : α) (names : List Token) : Prop :=
  ∀ r b r', x.run r = .ok (b, r') ↔ P ∧ a = b ∧ r ++ names.toArray = r'

theorem yields_pure (a : α) : (pure a : Recording α).Yields True a [] := by
  intro r b r'
  have hrun : (pure a : Recording α).run r = .ok (a, r) := rfl
  simp [hrun]

private theorem yields_record (name : Token) : (record name).Yields True () [name] := by
  intro r b r'
  have hrun : (record name).run r = .ok ((), r.push name) := rfl
  simp [hrun]

theorem yields_lift {e : Except Failure α} (h : ∀ b, e = .ok b ↔ P ∧ a = b) :
    (liftM e : Recording α).Yields P a [] := by
  intro r b r'
  have hrun : (liftM e : Recording α).run r = e.map (·, r) := by cases e <;> rfl
  cases e with
  | error failure =>
    have hb := h b
    simp only [reduceCtorEq, false_iff] at hb
    simp only [hrun, Except.map, reduceCtorEq, false_iff]
    exact fun hp => hb ⟨hp.1, hp.2.1⟩
  | ok c =>
    have hb := h b
    simp only [Except.ok.injEq] at hb
    simp [hrun, Except.map, hb, and_assoc]

theorem yields_raise (fault : Fault) (token : Token) :
    (liftM (Failure.raise fault token : Except Failure α) : Recording α).Yields False a names := by
  intro r b r'
  have hrun : (liftM (Failure.raise fault token : Except Failure α) : Recording α).run r =
      .error (.onToken fault token) := rfl
  simp [hrun]

theorem Yields.bind (hx : x.Yields P a names) (hf : P → (f a).Yields Q b names') :
    (x >>= f).Yields (P ∧ Q) b (names ++ names') := by
  intro r c r'
  rw [StateT.run_bind]
  cases h : x.run r with
  | error failure =>
    have hp : ¬ P := by
      intro hp
      rw [(hx r a _).mpr ⟨hp, rfl, rfl⟩] at h
      cases h
    simp [hp, Bind.bind, Except.bind]
  | ok result =>
    obtain ⟨hp, ha, hr⟩ := (hx r result.1 result.2).mp h
    have hc := hf hp result.2 c r'
    rw [ha, ← hr] at hc
    change (f result.1).run result.2 = .ok (c, r') ↔ _
    rw [← hr, hc]
    simp [hp]

theorem Yields.iff (hx : x.Yields P a names) (h : P ↔ Q) : x.Yields Q a names := by
  rwa [← propext h]

/-- Behind a computation that fails nothing matters. -/
theorem Yields.bind_of_not (hx : x.Yields P a names) (hp : ¬ P) : (x >>= f).Yields False b names' := by
  have hbind : (x >>= f).Yields (P ∧ False) b (names ++ []) := hx.bind fun h => absurd h hp
  intro r c r'
  rw [hbind r c r']
  simp

theorem Yields.bind_pure (hx : x.Yields P a names) (g : α → β) :
    (x >>= fun c => pure (g c)).Yields P (g a) names := by
  rw [← List.append_nil names]
  exact (hx.bind fun _ => yields_pure (g a)).iff (and_iff_left trivial)

end Recording

namespace Value

/-- The type that an operand names. It means nothing for any other operand. -/
def typeTag : Value → TypeTag
  | .literal token => (TypeTag.ofName? token.literalName).getD .literal
  | _ => .literal

/-- The number of an operand that is one. -/
def fixnum : Value → Int
  | .number value _ => value
  | _ => 0

/-- What an expression stands for. -/
def node (file : String) : Value → Node
  | .number value _ => .fixnum value
  | .literal token =>
    match Literal.ofSymbol? token.literalName with
    | some value => .literal value
    | none => .typeTag (Value.literal token).typeTag
  | .reference (.bare name) => .reference (.label name.text) ⟨file, name.line⟩
  | .reference (.qualified moduleName name) =>
    .reference (.external moduleName.text name.text) ⟨file, moduleName.line⟩

/-- What may go on with a chain of which something is demanded. -/
def Continues (m : Module) : Demand → Value → Prop
  | .anything, value => value.IsExpression m
  | .instruction, value => value.IsReference m

/-- The names recorded for a value of which something is demanded. -/
def recorded : Demand → Value → List Token
  | .anything, _ => []
  | .instruction, value => value.bareNames

theorem IsReference.isExpression {m : Module} {value : Value} (h : value.IsReference m) :
    value.IsExpression m := by
  cases value with
  | reference target => exact h
  | _ => cases h

theorem Continues.isExpression {m : Module} {demand : Demand} {value : Value}
    (h : value.Continues m demand) : value.IsExpression m := by
  cases demand with
  | anything => exact h
  | instruction => exact IsReference.isExpression h

end Value

namespace Node
variable {m : Module} {file : String} {demand : Demand} {value : Value}

open Failure (raise)
open Recording

theorem ofType_eq_ok_iff {tag : TypeTag} :
    ofType value = .ok tag ↔ Place.type.Fits m value ∧ value.typeTag = tag := by
  cases value with
  | literal token =>
    cases h : TypeTag.ofName? token.literalName with
    | none =>
      have hn : ¬ ∃ tag : TypeTag, tag.name = token.literalName := by
        rintro ⟨tag, ht⟩
        rw [TypeTag.ofName?_eq_some_iff.mpr ht] at h
        cases h
      simp [ofType, h, Place.Fits, hn, raise]
    | some found =>
      have hf := TypeTag.ofName?_eq_some_iff.mp h
      simp only [ofType, h, Place.Fits, Value.typeTag, Option.getD_some, Except.ok.injEq]
      exact ⟨fun he => ⟨⟨found, hf⟩, he⟩, And.right⟩
  | number n token => simp [ofType, Place.Fits, raise]
  | reference target => simp [ofType, Place.Fits, raise]

theorem ofFixnum_eq_ok_iff {n : Int} :
    ofFixnum value = .ok n ↔ Place.fixnum.Fits m value ∧ value.fixnum = n := by
  cases value <;> simp [ofFixnum, Place.Fits, Value.fixnum, raise]

theorem ofMnemonic_eq_ok_iff {mnemonics : List String} {mnemonic : String} :
    ofMnemonic mnemonics value = .ok mnemonic ↔
      (Place.mnemonic mnemonics).Fits m value ∧ value.token.text = mnemonic := by
  cases value with
  | reference target =>
    cases target with
    | bare name => by_cases h : name.text ∈ mnemonics <;> simp [ofMnemonic, Place.Fits, h,
        Value.token, raise]
    | qualified moduleName name => simp [ofMnemonic, Place.Fits, raise]
  | literal token => simp [ofMnemonic, Place.Fits, raise]
  | number n token => simp [ofMnemonic, Place.Fits, raise]

private theorem isTypeName_name (tag : TypeTag) : isTypeName tag.name = true := by
  cases tag <;> decide

private theorem isTypeName_symbol (value : Literal) : isTypeName value.symbol = false := by
  cases value <;> decide

/-- No name is spelled both like a type and like a constant, so it does not matter which of them
is looked up first. -/
theorem ofLiteral_eq_ok_iff {token : Token} {node : Node} :
    ofLiteral token = .ok node ↔
      (Value.literal token).IsExpression m ∧ (Value.literal token).node file = node := by
  by_cases ht : isTypeName token.literalName = true
  · have hl : ∀ value : Literal, value.symbol ≠ token.literalName := by
      intro value hv
      rw [← hv, isTypeName_symbol] at ht
      cases ht
    have hs : Literal.ofSymbol? token.literalName = none := by
      rw [Option.eq_none_iff_forall_ne_some]
      exact fun value h => hl value (Literal.ofSymbol?_eq_some_iff.mp h)
    have hx : ofLiteral token = .ok node ↔
        ∃ tag, ofType (.literal token) = .ok tag ∧ .typeTag tag = node := by
      cases h : ofType (.literal token) <;> simp [ofLiteral, ht, h, Except.map]
    simp only [hx, ofType_eq_ok_iff (m := m), Place.Fits, Value.IsExpression, Value.node, hs, hl,
      exists_false, false_or]
    constructor
    · rintro ⟨tag, ⟨hf, rfl⟩, he⟩
      exact ⟨hf, he⟩
    · rintro ⟨hf, he⟩
      exact ⟨_, ⟨hf, rfl⟩, he⟩
  · have hn : ∀ tag : TypeTag, tag.name ≠ token.literalName :=
      fun tag h => ht (h ▸ isTypeName_name tag)
    cases h : Literal.ofSymbol? token.literalName with
    | none =>
      have hl : ∀ value : Literal, value.symbol ≠ token.literalName := by
        intro value hv
        rw [Literal.ofSymbol?_eq_some_iff.mpr hv] at h
        cases h
      simp [ofLiteral, ht, h, Value.IsExpression, hn, hl, raise]
    | some value =>
      have hl : ∃ value : Literal, value.symbol = token.literalName :=
        ⟨value, Literal.ofSymbol?_eq_some_iff.mp h⟩
      simp [ofLiteral, ht, h, Value.IsExpression, hl, Value.node]

theorem ofReference_yields :
    (ofReference (Scope.ofModule m file) demand value).Yields (value.IsReference m)
      (value.node file) (value.recorded demand) := by
  cases value with
  | literal token => exact yields_raise .expectedName token
  | number n token => exact yields_raise .expectedName token
  | reference target =>
    cases target with
    | bare name =>
      simp only [ofReference, Value.IsReference, Scope.ofModule]
      by_cases h : name.text ∈ m.labels.map Token.text
      · simp only [h, if_true]
        cases demand with
        | anything => exact yields_pure _
        | instruction =>
          rw [if_pos rfl]
          exact (yields_record name).bind_pure _
      · simp only [h, if_false]
        exact yields_raise .notDefined name
    | qualified moduleName name =>
      have hr : (Value.reference (.qualified moduleName name)).recorded demand = [] := by
        cases demand <;> rfl
      simp only [ofReference, Value.IsReference, Scope.ofModule, hr]
      by_cases h : moduleName.text ∈ m.imports.map (·.moduleName.text)
      · simp only [h, if_true]
        exact yields_pure _
      · simp only [h, if_false]
        exact yields_raise .notImported moduleName

theorem ofExpression_yields :
    (ofExpression (Scope.ofModule m file) value).Yields (value.IsExpression m)
      (value.node file) [] := by
  cases value with
  | literal token => exact yields_lift fun node => ofLiteral_eq_ok_iff
  | number n token => exact yields_pure _
  | reference target => exact ofReference_yields

theorem ofContinuation_yields :
    (ofContinuation (Scope.ofModule m file) demand value).Yields (value.Continues m demand)
      (value.node file) (value.recorded demand) := by
  cases demand with
  | anything => exact ofExpression_yields
  | instruction => exact ofReference_yields

end Node

end ActorAsm
