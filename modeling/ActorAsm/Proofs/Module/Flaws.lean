import ActorAsm.Failure
import ActorAsm.Node.OfValue
import ActorAsm.Proofs.Module.WellFormed
import Mathlib.Data.List.Flatten
import Mathlib.Logic.Relation

/-! Flaws of modules, told from the module alone: for every fault, what is found in the module at a
token that is rightly blamed for it. -/

namespace ActorAsm

section Tokens

/-- The tokens of an operand. -/
def Value.tokens : Value → List Token
  | .literal token => [token]
  | .number _ token => [token]
  | .reference (.bare name) => [name]
  | .reference (.qualified moduleName name) => [moduleName, name]

def Statement.tokens (s : Statement) : List Token := s.operator :: s.operands.flatMap Value.tokens

def Definition.tokens (d : Definition) : List Token :=
  d.labels ++ d.statements.flatMap Statement.tokens

/-- The names that a module gives, imports first, then labels in source order. -/
def Module.givenNames (m : Module) : List Token := m.imports.map (·.moduleName) ++ m.labels

/-- All tokens of the module. -/
def Module.tokens (m : Module) : List Token :=
  m.imports.map (·.moduleName) ++ m.definitions.flatMap Definition.tokens ++ m.exports

end Tokens

section Order

private theorem Value.bareNames_sublist (value : Value) : value.bareNames.Sublist value.tokens := by
  unfold bareNames
  split
  · exact .refl _
  · exact List.nil_sublist _

/-- The target of a jump is written in front of what the jump goes on with. -/
theorem Statement.names_sublist (s : Statement) :
    (s.branchNames ++ s.continuation?.toList.flatMap Value.bareNames).Sublist s.tokens := by
  cases hop : s.operation? with
  | none => simp [branchNames, continuation?, hop]
  | some op =>
    have hfront : s.branchNames.Sublist ((s.operands.take op.places.length).flatMap Value.tokens) := by
      unfold branchNames
      split
      next target rest hbranch hs =>
        cases hop.symm.trans hbranch
        rw [hs]
        exact target.bareNames_sublist.trans (List.sublist_append_left _ _)
      · exact List.nil_sublist _
    have hback : (s.continuation?.toList.flatMap Value.bareNames).Sublist
        ((s.operands.drop op.places.length).flatMap Value.tokens) := by
      rw [continuation?, hop, Option.bind_some]
      cases hv : s.operands[op.places.length]? with
      | none => exact List.nil_sublist _
      | some value =>
        obtain ⟨hlt, rfl⟩ := List.getElem?_eq_some_iff.mp hv
        rw [List.drop_eq_getElem_cons hlt, Option.toList_some, List.flatMap_singleton]
        exact (Value.bareNames_sublist _).trans (List.sublist_append_left _ _)
    have hoperands := hfront.append hback
    rw [← List.flatMap_append, List.take_append_drop] at hoperands
    exact hoperands.cons _

/-- Instruction names stand among the operands, in their order. -/
theorem Definition.instructionNames_sublist (d : Definition) :
    d.instructionNames.Sublist d.tokens := by
  have hstatements : d.statements = d.statements.dropLast ++ [d.last] :=
    (List.dropLast_concat_getLast _).symm
  have hfront : (d.statements.dropLast.flatMap Statement.branchNames).Sublist
      (d.statements.dropLast.flatMap Statement.tokens) :=
    List.Sublist.flatMap_right _ fun s _ => (List.sublist_append_left _ _).trans s.names_sublist
  have hcontinuation : (if d.isCode then d.last.continuation?.toList.flatMap Value.bareNames
      else []).Sublist (d.last.continuation?.toList.flatMap Value.bareNames) := by
    split
    · exact .refl _
    · exact List.nil_sublist _
  have hlast := (List.Sublist.append_left hcontinuation d.last.branchNames).trans
    d.last.names_sublist
  refine .trans ?_ (List.sublist_append_right d.labels _)
  rw [instructionNames, hstatements, List.flatMap_append, List.flatMap_append,
    List.flatMap_singleton, List.flatMap_singleton, List.append_assoc]
  exact hfront.append hlast

end Order

/-- The places where references may stand. -/
def Place.takesReferences : Place → Bool
  | .expression | .reference => true
  | _ => false

/-- What is wrong with a value in its place, and at which token. -/
inductive Place.Flaw (m : Module) : Place → Value → Fault → Token → Prop where
  | undefined {place : Place} {name : Token} : place.takesReferences →
      name.text ∉ m.labels.map Token.text →
      Flaw m place (.reference (.bare name)) .notDefined name
  | notImported {place : Place} {moduleName name : Token} : place.takesReferences →
      moduleName.text ∉ m.imports.map (·.moduleName.text) →
      Flaw m place (.reference (.qualified moduleName name)) .notImported moduleName
  | noReference {value : Value} : (∀ target, value ≠ .reference target) →
      Flaw m .reference value .expectedName value.token
  | noFixnum {value : Value} : (∀ n token, value ≠ .number n token) →
      Flaw m .fixnum value .expectedFixnum value.token
  | noType {value : Value} : (∀ token tag, value = .literal token →
      TypeTag.name tag ≠ token.literalName) → Flaw m .type value .expectedType value.token
  | unknownType {token : Token} : Node.isTypeName token.literalName →
      (∀ tag, TypeTag.name tag ≠ token.literalName) →
      Flaw m .expression (.literal token) .expectedType token
  | unknownLiteral {token : Token} : ¬ Node.isTypeName token.literalName →
      (∀ value, Literal.symbol value ≠ token.literalName) →
      Flaw m .expression (.literal token) .expectedLiteral token
  | noMnemonic {names : List String} {value : Value} :
      (∀ name, value = .reference (.bare name) → name.text ∉ names) →
      Flaw m (.mnemonic names) value .badLabel value.token

namespace Definition

/-- The places of a definition with what stands in them: the required operands of its statements,
and what its chain goes on with, which has to be a reference once there is an instruction. -/
inductive Holds (d : Definition) : Place → Value → Prop where
  | operand {s : Statement} {op : Operator} {place : Place} {value : Value} :
      s ∈ d.statements → s.operation? = some op → (place, value) ∈ op.places.zip s.operands →
      Holds d place value
  | continuation {op : Operator} {value : Value} : d.last.operation? = some op → op ≠ .finish →
      d.last.continuation? = some value →
      Holds d (if d.isCode then .reference else .expression) value

/-- What is wrong with a definition, and at which token. -/
inductive Flaw (m : Module) (d : Definition) : Fault → Token → Prop where
  | value {place : Place} {value : Value} {fault : Fault} {token : Token} : d.Holds place value →
      place.Flaw m value fault token → Flaw m d fault token
  | unknownOperator {s : Statement} : s ∈ d.statements → s.operation? = none →
      Flaw m d .badOp s.operator
  | tooFew {s : Statement} {op : Operator} : s ∈ d.statements → s.operation? = some op →
      s.operands.length < op.required → Flaw m d .tooFewOperands s.operator
  | tooMany {s : Statement} {op : Operator} {excess : Value} : s ∈ d.statements →
      s.operation? = some op → s.operands[op.limit]? = some excess →
      Flaw m d .unexpectedOperand excess.token
  | behindTerminal {before behind : List Statement} {s next : Statement} {op : Operator} :
      d.statements = before ++ s :: next :: behind → s.operation? = some op →
      ¬ op.continues → Flaw m d .unexpectedAfterTerminal next.operator
  | behindContinuation {before behind : List Statement} {s next : Statement} {op : Operator} :
      d.statements = before ++ s :: next :: behind → s.operation? = some op → op.continues →
      s.operands.length = op.required + 1 → Flaw m d .unexpectedStatement next.operator
  | unfinished {op : Operator} : d.last.operation? = some op → op.continues →
      d.last.operands.length = op.required → Flaw m d .missingContinuation d.last.operator
  | dataBehindInstruction {before behind : List Statement} {s t : Statement} :
      d.statements = before ++ s :: behind → t ∈ before → t.isInstruction → s.isData →
      Flaw m d .expectedInstruction s.operator

end Definition

namespace Module

/-- One name stands for another: it is the label of a mere reference to it, or an alias of it. -/
inductive Follows (m : Module) : String → String → Prop where
  | reference {d : Definition} {name : Token} : d ∈ m.definitions →
      d.statement.operation? = some .ref →
      d.statement.continuation? = some (.reference (.bare name)) →
      Follows m d.label.text name.text
  | grouped {d : Definition} {other : Token} : d ∈ m.definitions → other ∈ d.aliases →
      Follows m other.text d.label.text

/-- The label of a pair, of a dictionary, or of a mere number, constant or type. -/
inductive LabelsData (m : Module) : String → Prop where
  | cell {d : Definition} : d ∈ m.definitions → d.statement.isData → LabelsData m d.label.text
  | value {d : Definition} {value : Value} : d ∈ m.definitions →
      d.statement.operation? = some .ref → d.statement.continuation? = some value →
      (∀ target, value ≠ .reference target) → LabelsData m d.label.text

/-- What is wrong with a module, and at which token. Where names have to be followed they are
distinct, so that each of them leads one way only. -/
inductive Flaw (m : Module) : Fault → Token → Prop where
  | givenAgain {before behind : List Token} {name : Token} :
      m.givenNames = before ++ name :: behind → (before.map Token.text).Nodup →
      name.text ∈ before.map Token.text → Flaw m (.redefinition name.text) name
  | definition {d : Definition} {fault : Fault} {token : Token} : d ∈ m.definitions →
      d.Flaw m fault token → Flaw m fault token
  | data {d : Definition} {name : Token} {last : String} : (m.givenNames.map Token.text).Nodup →
      d ∈ m.definitions → name ∈ d.instructionNames →
      Relation.ReflTransGen m.Follows name.text last → m.LabelsData last →
      Flaw m .expectedInstruction name
  | circle {d : Definition} {name : Token} {last : String} : (m.givenNames.map Token.text).Nodup →
      d ∈ m.definitions → name ∈ d.instructionNames →
      Relation.ReflTransGen m.Follows name.text last → Relation.TransGen m.Follows last last →
      Flaw m .cyclicReference name
  | exported {name : Token} : name ∈ m.exports → name.text ∉ m.labels.map Token.text →
      Flaw m .notDefined name

end Module

section Places
variable {m : Module} {d : Definition} {fault : Fault} {token : Token}

private theorem Value.token_mem_tokens (value : Value) : value.token ∈ value.tokens := by
  cases value with
  | literal token => exact List.mem_singleton_self _
  | number n token => exact List.mem_singleton_self _
  | reference target => cases target <;> exact List.mem_cons_self

private theorem Place.Flaw.token_eq {place : Place} {value : Value}
    (h : place.Flaw m value fault token) : token = value.token := by
  cases h <;> rfl

private theorem Statement.mem_tokens_of_operand {s : Statement} {value : Value}
    (h : value ∈ s.operands) : value.token ∈ s.tokens :=
  List.mem_cons_of_mem _ (List.mem_flatMap.mpr ⟨value, h, value.token_mem_tokens⟩)

namespace Definition

private theorem mem_tokens_of_statement {s : Statement} (hs : s ∈ d.statements)
    (h : token ∈ s.tokens) : token ∈ d.tokens :=
  List.mem_append_right _ (List.mem_flatMap.mpr ⟨s, hs, h⟩)

private theorem last_mem_statements : d.last ∈ d.statements := List.getLast_mem _

private theorem Holds.token_mem_tokens {place : Place} {value : Value} (h : d.Holds place value) :
    value.token ∈ d.tokens := by
  cases h with
  | operand hs _ hmem =>
    exact mem_tokens_of_statement hs (Statement.mem_tokens_of_operand (List.of_mem_zip hmem).2)
  | continuation hop _ hv =>
    rw [Statement.continuation?, hop] at hv
    exact mem_tokens_of_statement last_mem_statements
      (Statement.mem_tokens_of_operand (List.mem_of_getElem? hv))

private theorem Flaw.mem_tokens (h : d.Flaw m fault token) : token ∈ d.tokens := by
  have operator {s : Statement} (hs : s ∈ d.statements) : s.operator ∈ d.tokens :=
    mem_tokens_of_statement hs List.mem_cons_self
  cases h with
  | value hholds hflaw =>
    rw [hflaw.token_eq]
    exact hholds.token_mem_tokens
  | unknownOperator hs _ => exact operator hs
  | tooFew hs _ _ => exact operator hs
  | tooMany hs _ hexcess =>
    exact mem_tokens_of_statement hs
      (Statement.mem_tokens_of_operand (List.mem_of_getElem? hexcess))
  | behindTerminal hd _ _ => exact operator (by simp [hd])
  | behindContinuation hd _ _ _ => exact operator (by simp [hd])
  | unfinished _ _ _ => exact operator last_mem_statements
  | dataBehindInstruction hd _ _ _ => exact operator (by simp [hd])

private theorem mem_tokens_of_instructionNames {name : Token} (h : name ∈ d.instructionNames) :
    name ∈ d.tokens :=
  d.instructionNames_sublist.subset h

end Definition

/-- Flaws are found at tokens of the module. -/
theorem Module.Flaw.mem_tokens (h : m.Flaw fault token) : token ∈ m.tokens := by
  have definition {d : Definition} (hd : d ∈ m.definitions) (ht : token ∈ d.tokens) :
      token ∈ m.tokens :=
    List.mem_append_left _ (List.mem_append_right _ (List.mem_flatMap.mpr ⟨d, hd, ht⟩))
  cases h with
  | givenAgain hnames _ _ =>
    have hgiven : token ∈ m.givenNames := by simp [hnames]
    rcases List.mem_append.mp hgiven with himport | hlabel
    · exact List.mem_append_left _ (List.mem_append_left _ himport)
    · obtain ⟨d, hd, hlabel⟩ := List.mem_flatMap.mp hlabel
      exact definition hd (List.mem_append_left _ hlabel)
  | definition hd hflaw => exact definition hd hflaw.mem_tokens
  | data _ hd hname _ _ => exact definition hd (Definition.mem_tokens_of_instructionNames hname)
  | circle _ hd hname _ _ => exact definition hd (Definition.mem_tokens_of_instructionNames hname)
  | exported hname _ => exact List.mem_append_right _ hname

end Places

section Faults
variable {m : Module} {fault : Fault} {token : Token}

/-- Faults of reading; all others are about what is read. -/
def Fault.ofReading : List Fault := [.endOfStream, .rejected, .noAlternative, .trailingToken]

private theorem Place.Flaw.not_ofReading {place : Place} {value : Value}
    (h : place.Flaw m value fault token) : fault ∉ Fault.ofReading := by
  cases h <;> decide

private theorem Definition.Flaw.not_ofReading {d : Definition} (h : d.Flaw m fault token) :
    fault ∉ Fault.ofReading := by
  cases h with
  | value _ hflaw => exact hflaw.not_ofReading
  | _ => decide

theorem Module.Flaw.not_ofReading (h : m.Flaw fault token) : fault ∉ Fault.ofReading := by
  cases h with
  | definition _ hflaw => exact hflaw.not_ofReading
  | givenAgain _ _ _ => simp [Fault.ofReading]
  | _ => decide

end Faults

end ActorAsm
