import ActorAsm.Proofs.Module.Translation

/-! Chains of statements with other tokens. The two computations take the same way: both record
names at the same places and make nodes that differ in names and origins only, or both fail at
corresponding tokens. -/

namespace ActorAsm

section Images
variable (spell : String → String) (origin : Debug → Debug)

def Link.translate : Link → Link
  | .pair head debug => .pair (head.translate spell origin) (origin debug)
  | .dict key value debug =>
    .dict (key.translate spell origin) (value.translate spell origin) (origin debug)
  | .typeq imm debug => .typeq imm (origin debug)
  | .fixnumOp op imm debug => .fixnumOp op imm (origin debug)
  | .exprOp op imm debug => .exprOp op (imm.translate spell origin) (origin debug)
  | .depth debug => .depth (origin debug)
  | .branch target negated debug => .branch (target.translate spell origin) negated (origin debug)
  | .mnemonicOp op imm debug => .mnemonicOp op imm (origin debug)

private theorem Link.translate_close (link : Link) (k : Node) :
    (link.close k).translate spell origin =
      (link.translate spell origin).close (k.translate spell origin) := by
  cases link with
  | branch target negated debug => cases negated <;> rfl
  | _ => rfl

def Chain.translate (c : Chain) : Chain := { c with node := c.node.translate spell origin }

private theorem Chain.translate_close (links : List Link) (last : Node) :
    (Chain.close links last).translate spell origin =
      Chain.close (links.map (Link.translate spell origin)) (last.translate spell origin) := by
  induction links generalizing last with
  | nil => rfl
  | cons link links ih =>
    rw [Chain.close, List.foldl_cons] at *
    rw [List.map_cons, Chain.close, List.foldl_cons, ← Link.translate_close]
    exact ih (link.close last)

end Images

/-- The stage of a statement with other tokens. -/
def Stage.translate {scope scope' : Scope} (T : Translation scope scope') : Stage → Stage
  | .complete node => .complete (node.translate T.spell T.origin)
  | .partway link continuation demand =>
    .partway (link.translate T.spell T.origin) (continuation.map (Value.mapTokens T.name T.word))
      demand

namespace Recording
variable {scope scope' : Scope} (T : Translation scope scope') {α β γ δ : Type}
  {x : Recording α} {y : Recording β} {g : α → β} {k : γ → δ}

/-- Whatever names have been recorded, the second computation does with their images what the first
one does with them. -/
def Carries (g : α → β) (x : Recording α) (y : Recording β) : Prop :=
  ∀ names : Array Token,
    T.Carries (Prod.map g (Array.map T.name)) (x.run names) (y.run (names.map T.name))

theorem carries_pure {b : β} (a : α) (h : b = g a) :
    Carries T g (pure a : Recording α) (pure b) := by
  subst h
  exact fun names => .ok (a, names)

private theorem carries_record (name : Token) :
    Carries T id (record name) (record (T.name name)) := by
  intro names
  change T.Carries _ (.ok ((), names.push name)) (.ok ((), (names.map T.name).push (T.name name)))
  rw [← Array.map_push]
  exact .ok ((), names.push name)

variable {T}

theorem carries_lift {e : Except Failure α} {e' : Except Failure β} (h : T.Carries g e e') :
    Carries T g (liftM e : Recording α) (liftM e') := by
  intro names
  cases h with
  | ok a => exact .ok (a, names)
  | error h => exact .error h

theorem carries_raise {fault fault' : Fault} {token token' : Token}
    (h : T.Blames (.onToken fault token) (.onToken fault' token')) :
    Carries T g (liftM (Failure.raise fault token : Except Failure α) : Recording α)
      (liftM (Failure.raise fault' token' : Except Failure β)) :=
  carries_lift (.error h)

theorem Carries.bind {f : α → Recording γ} {f' : β → Recording δ} (hx : Carries T g x y)
    (hf : ∀ a, Carries T k (f a) (f' (g a))) : Carries T k (x >>= f) (y >>= f') := by
  intro names
  rw [StateT.run_bind, StateT.run_bind]
  exact (hx names).bind fun p _ => hf p.1 p.2

theorem Carries.bind_pure {f : α → γ} {f' : β → δ} (hx : Carries T g x y)
    (hf : ∀ a, f' (g a) = k (f a)) :
    Carries T k (x >>= fun a => pure (f a)) (y >>= fun b => pure (f' b)) :=
  hx.bind fun a => carries_pure T (f a) (hf a)

end Recording

namespace Node
variable {scope scope' : Scope} (T : Translation scope scope') {demand : Demand}

open Recording

private theorem ofType_carries (value : Value) :
    T.Carries id (ofType value) (ofType (value.mapTokens T.name T.word)) := by
  cases value with
  | literal token =>
    simp only [Value.mapTokens, ofType, T.literalName_word]
    cases TypeTag.ofName? token.literalName with
    | none => exact .error (.word .expectedType token)
    | some tag => exact .ok tag
  | number n token => exact .error (.word .expectedType token)
  | reference target => exact .error (T.blames_token .expectedType (.reference target))

private theorem ofFixnum_carries (value : Value) :
    T.Carries id (ofFixnum value) (ofFixnum (value.mapTokens T.name T.word)) := by
  cases value with
  | literal token => exact .error (.word .expectedFixnum token)
  | number n token => exact .ok n
  | reference target => exact .error (T.blames_token .expectedFixnum (.reference target))

private theorem ofLiteral_carries (token : Token) :
    T.Carries (translate T.spell T.origin) (ofLiteral token) (ofLiteral (T.word token)) := by
  simp only [ofLiteral, T.literalName_word]
  split
  · exact (ofType_carries T (Value.literal token)).map fun tag => rfl
  · cases Literal.ofSymbol? token.literalName with
    | none => exact .error (.word .expectedLiteral token)
    | some value => exact .ok (Node.literal value)

/-- A mnemonic keeps its text, however names are spelled. -/
theorem ofMnemonic_carries (mnemonics : List String) (value : Value) :
    T.Carries id (ofMnemonic mnemonics value)
      (ofMnemonic mnemonics (value.mapMnemonic T.name T.word)) := by
  cases value with
  | literal token => exact .error (.word .badLabel token)
  | number n token => exact .error (.word .badLabel token)
  | reference target =>
    cases target with
    | bare name =>
      simp only [Value.mapMnemonic, ofMnemonic, T.text_word]
      split
      · exact .ok name.text
      · exact .error (.word .badLabel name)
    | qualified moduleName name => exact .error (.name .badLabel moduleName)

private theorem ofReference_carries (value : Value) :
    Carries T (translate T.spell T.origin) (ofReference scope demand value)
      (ofReference scope' demand (value.mapTokens T.name T.word)) := by
  cases value with
  | literal token => exact carries_raise (.word .expectedName token)
  | number n token => exact carries_raise (.word .expectedName token)
  | reference target =>
    cases target with
    | bare name =>
      simp only [Value.mapTokens, Reference.mapTokens, ofReference, T.text_name, T.mem_labels_iff,
        T.debug_name]
      split
      · cases demand with
        | anything => exact carries_pure T _ rfl
        | instruction =>
          rw [if_pos rfl, if_pos rfl]
          exact (carries_record T name).bind_pure fun _ => rfl
      · exact carries_raise (.name .notDefined name)
    | qualified moduleName name =>
      simp only [Value.mapTokens, Reference.mapTokens, ofReference, T.text_name,
        T.mem_moduleNames_iff, T.text_word, T.debug_name]
      split
      · exact carries_pure T _ rfl
      · exact carries_raise (.name .notImported moduleName)

private theorem ofExpression_carries (value : Value) :
    Carries T (translate T.spell T.origin) (ofExpression scope value)
      (ofExpression scope' (value.mapTokens T.name T.word)) := by
  cases value with
  | literal token => exact carries_lift (ofLiteral_carries T token)
  | number n token => exact carries_pure T _ rfl
  | reference target => exact ofReference_carries T (.reference target)

private theorem ofContinuation_carries (value : Value) :
    Carries T (translate T.spell T.origin) (ofContinuation scope demand value)
      (ofContinuation scope' demand (value.mapTokens T.name T.word)) := by
  cases demand with
  | anything => exact ofExpression_carries T value
  | instruction => exact ofReference_carries T value

end Node

namespace Statement
variable {scope scope' : Scope} (T : Translation scope scope') {s : Statement} {op : Operator}

private theorem operation?_mapTokens (s : Statement) :
    (s.mapTokens T.name T.word).operation? = s.operation? := by
  rw [operation?, operation?, mapTokens, T.text_word]

/-- The first operand alone can be a mnemonic. -/
theorem getElem?_operands_mapTokens {i : Nat}
    (h : i = 0 → ¬ s.operation?.any Operator.takesMnemonic) :
    (s.mapTokens T.name T.word).operands[i]? =
      s.operands[i]?.map (Value.mapTokens T.name T.word) := by
  obtain ⟨operator, operands⟩ := s
  cases operands with
  | nil => rfl
  | cons first rest =>
    cases i with
    | zero =>
      simp only [mapTokens, Value.mapOperands, if_neg (h rfl), List.getElem?_cons_zero,
        Option.map_some]
    | succ i => simp only [mapTokens, Value.mapOperands, List.getElem?_cons_succ, List.getElem?_map]

private theorem length_operands_mapTokens (s : Statement) :
    (s.mapTokens T.name T.word).operands.length = s.operands.length := by
  obtain ⟨operator, operands⟩ := s
  cases operands <;> simp [mapTokens, Value.mapOperands]

/-- An operator that takes a mnemonic requires it. -/
theorem not_takesMnemonic_of_required_eq_zero (h : op.required = 0) : ¬ op.takesMnemonic := by
  cases op <;> first | exact Bool.noConfusion | cases h

private theorem checkOperands_carries (hop : s.operation? = some op) (following : List Statement) :
    T.Carries id (s.checkOperands op following)
      ((s.mapTokens T.name T.word).checkOperands op
        (following.map (Statement.mapTokens T.name T.word))) := by
  have hlimit : op.limit = 0 → ¬ s.operation?.any Operator.takesMnemonic := by
    rw [hop, Option.any_some]
    intro h
    apply not_takesMnemonic_of_required_eq_zero
    rw [Operator.limit] at h
    omega
  unfold checkOperands
  rw [length_operands_mapTokens, getElem?_operands_mapTokens T hlimit]
  split
  · exact .error (.word .tooFewOperands s.operator)
  · cases s.operands[op.limit]? with
    | some excess => exact .error (T.blames_token .unexpectedOperand excess)
    | none =>
      cases following with
      | nil => exact .ok ()
      | cons next rest =>
        cases op.continues with
        | true => exact .ok ()
        | false => exact .error (.word .unexpectedAfterTerminal next.operator)

end Statement

namespace Stage
variable {scope scope' : Scope} (T : Translation scope scope') {demand : Demand} {s : Statement}
  {op : Operator}

open Recording

/-- A known operator asks the same of its operands, one by one. -/
theorem ofOperator_carries (hop : s.operation? = some op) :
    Carries T (translate T) (ofOperator scope demand s op)
      (ofOperator scope' demand (s.mapTokens T.name T.word) op) := by
  have hcont : (s.mapTokens T.name T.word).operands[op.required]? =
      s.operands[op.required]?.map (Value.mapTokens T.name T.word) := by
    apply Statement.getElem?_operands_mapTokens
    rw [hop, Option.any_some]
    exact Statement.not_takesMnemonic_of_required_eq_zero
  have hdebug : scope'.debug (s.mapTokens T.name T.word).operator =
      T.origin (scope.debug s.operator) := T.debug_word s.operator
  have hoperands : (s.mapTokens T.name T.word).operands =
      Value.mapOperands T.name T.word op.takesMnemonic s.operands := by
    rw [Statement.mapTokens, hop, Option.any_some]
  have hfew : T.Blames (.onToken .tooFewOperands s.operator)
      (.onToken .tooFewOperands (s.mapTokens T.name T.word).operator) :=
    .word .tooFewOperands s.operator
  clear hop
  generalize s.mapTokens T.name T.word = s' at *
  obtain ⟨operator, operands⟩ := s
  obtain ⟨operator', operands'⟩ := s'
  have partway {imm : Type} {x y : Recording imm} {g : imm → imm} {link link' : imm → Link}
      {demand' : Demand} (hx : Carries T g x y)
      (hlink : ∀ a, link' (g a) = (link a).translate T.spell T.origin) :
      Carries T (translate T)
        (x >>= fun a => pure (.partway (link a) operands[op.required]? demand'))
        (y >>= fun b => pure (.partway (link' b) operands'[op.required]? demand')) :=
    hx.bind_pure fun a => by rw [hlink, hcont]; rfl
  cases operands with
  | nil =>
    subst hoperands
    cases op with
    | depth => exact carries_pure T _ (by rw [hdebug]; rfl)
    | _ => exact carries_raise hfew
  | cons first rest =>
    subst hoperands
    cases op with
    | pair => exact partway (Node.ofExpression_carries T first) fun head => by rw [hdebug]; rfl
    | dict =>
      cases rest with
      | nil => exact carries_raise hfew
      | cons second rest =>
        exact (Node.ofExpression_carries T first).bind fun key =>
          partway (Node.ofExpression_carries T second) fun value => by rw [hdebug]; rfl
    | ref => exact (Node.ofContinuation_carries T first).bind_pure fun node => rfl
    | typeq =>
      exact partway (carries_lift (Node.ofType_carries T first)) fun imm => by rw [hdebug]; rfl
    | fixnum =>
      exact partway (carries_lift (Node.ofFixnum_carries T first)) fun imm => by rw [hdebug]; rfl
    | expr => exact partway (Node.ofExpression_carries T first) fun imm => by rw [hdebug]; rfl
    | depth => exact carries_pure T _ (by rw [hcont, hdebug]; rfl)
    | branch => exact partway (Node.ofReference_carries T first) fun target => by rw [hdebug]; rfl
    | mnemonic op =>
      exact partway (carries_lift (Node.ofMnemonic_carries T op.mnemonics first))
        fun imm => by rw [hdebug]; rfl
    | finish =>
      exact (carries_lift (Node.ofMnemonic_carries T endMnemonics first)).bind_pure
        fun imm => by rw [hdebug]; rfl

private theorem ofStatement_carries (s : Statement) (following : List Statement) :
    Carries T (translate T) (ofStatement scope demand s following)
      (ofStatement scope' demand (s.mapTokens T.name T.word)
        (following.map (Statement.mapTokens T.name T.word))) := by
  have hname : Operator.ofName? (s.mapTokens T.name T.word).operator.text =
      Operator.ofName? s.operator.text := Statement.operation?_mapTokens T s
  unfold ofStatement
  rw [hname]
  cases hop : Operator.ofName? s.operator.text with
  | none => exact carries_raise (.word .badOp s.operator)
  | some op =>
    dsimp only
    split
    · exact carries_raise (.word .expectedInstruction s.operator)
    · exact (carries_lift (Statement.checkOperands_carries T hop following)).bind fun _ =>
        ofOperator_carries T hop

end Stage

/-- Statements are taken in step, with corresponding links behind them. -/
theorem Chain.ofStatements_carries {scope scope' : Scope} (T : Translation scope scope')
    {demand : Demand} {s : Statement} (following : List Statement) (links : List Link) :
    Recording.Carries T (Chain.translate T.spell T.origin) (ofStatements scope demand s following links)
      (ofStatements scope' demand (s.mapTokens T.name T.word)
        (following.map (Statement.mapTokens T.name T.word))
        (links.map (Link.translate T.spell T.origin))) := by
  open Recording in
  induction following generalizing demand s links with
  | nil =>
    unfold ofStatements
    refine (Stage.ofStatement_carries T s []).bind fun stage => ?_
    cases stage with
    | complete node =>
      refine carries_pure T _ ?_
      rw [Chain.translate, translate_close, List.length_map]
    | partway link cont demand' =>
      cases cont with
      | none => exact carries_raise (.word .missingContinuation s.operator)
      | some value =>
        refine (Node.ofContinuation_carries T value).bind_pure fun last => ?_
        rw [Chain.translate, translate_close, List.map_cons, List.length_cons, List.length_cons,
          List.length_map]
  | cons next rest ih =>
    unfold ofStatements
    refine (Stage.ofStatement_carries T s (next :: rest)).bind fun stage => ?_
    cases stage with
    | complete node =>
      refine carries_pure T _ ?_
      rw [Chain.translate, translate_close, List.length_map]
    | partway link cont demand' =>
      cases cont with
      | none => exact ih (link :: links)
      | some value => exact carries_raise (.word .unexpectedStatement next.operator)

end ActorAsm
