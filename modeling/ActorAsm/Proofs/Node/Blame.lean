import ActorAsm.Proofs.Module.Flaws
import ActorAsm.Proofs.Node.Definitions

/-! Whom a definition blames. Making its chain fails at a token only if the definition has the flaw
that the fault names at that token. -/

namespace ActorAsm

/-- The failure is at a token, and the token has the fault according to `B`. -/
def Failure.Blames (B : Fault → Token → Prop) (failure : Failure) : Prop :=
  ∃ fault token, failure = .onToken fault token ∧ B fault token

namespace Recording
variable {α β : Type} {x : Recording α} {f : α → Recording β} {B B' : Fault → Token → Prop}

/-- Whenever the computation fails, it blames a token as `B` says. -/
def Blames (B : Fault → Token → Prop) (x : Recording α) : Prop :=
  ∀ r failure, x.run r = .error failure → failure.Blames B

theorem blames_pure (a : α) : (pure a : Recording α).Blames B := fun _ _ h => nomatch h

private theorem blames_record (name : Token) : (record name).Blames B := fun _ _ h => nomatch h

theorem blames_lift {e : Except Failure α} (h : ∀ failure, e = .error failure → failure.Blames B) :
    (liftM e : Recording α).Blames B := by
  intro r failure hrun
  cases e with
  | ok a => cases hrun
  | error found =>
    cases hrun
    exact h _ rfl

theorem blames_raise {fault : Fault} {token : Token} (h : B fault token) :
    (liftM (Failure.raise fault token : Except Failure α) : Recording α).Blames B := by
  refine blames_lift fun failure hraise => ?_
  cases hraise
  exact ⟨fault, token, rfl, h⟩

theorem Blames.bind (hx : x.Blames B) (hf : ∀ r a r', x.run r = .ok (a, r') → (f a).Blames B) :
    (x >>= f).Blames B := by
  intro r failure hrun
  rw [StateT.run_bind] at hrun
  cases h : x.run r with
  | error found =>
    rw [h] at hrun
    cases hrun
    exact hx r _ h
  | ok result =>
    obtain ⟨a, r'⟩ := result
    rw [h] at hrun
    exact hf r a r' h r' failure hrun

theorem Blames.bind_pure (hx : x.Blames B) (g : α → β) : (x >>= fun a => pure (g a)).Blames B :=
  hx.bind fun _ a _ _ => blames_pure (g a)

theorem Blames.mono (hx : x.Blames B) (h : ∀ fault token, B fault token → B' fault token) :
    x.Blames B' := by
  intro r failure hrun
  obtain ⟨fault, token, rfl, hb⟩ := hx r failure hrun
  exact ⟨fault, token, rfl, h fault token hb⟩

end Recording

/-- The place of what a chain goes on with. -/
def Demand.place : Demand → Place
  | .anything => .expression
  | .instruction => .reference

namespace Node
variable {m : Module} {file : String} {demand : Demand} {value : Value} {failure : Failure}

open Recording

theorem blames_of_ofType (h : ofType value = .error failure) :
    failure.Blames (Place.type.Flaw m value) := by
  cases value with
  | literal token =>
    simp only [ofType] at h
    cases htag : TypeTag.ofName? token.literalName with
    | some tag =>
      rw [htag] at h
      cases h
    | none =>
      rw [htag] at h
      cases h
      refine ⟨_, _, rfl, .noType fun other tag hvalue hname => ?_⟩
      cases hvalue
      rw [TypeTag.ofName?_eq_some_iff.mpr hname] at htag
      cases htag
  | number n token =>
    cases h
    exact ⟨_, _, rfl, .noType fun _ _ hvalue => by cases hvalue⟩
  | reference target =>
    cases h
    exact ⟨_, _, rfl, .noType fun _ _ hvalue => by cases hvalue⟩

theorem blames_of_ofFixnum (h : ofFixnum value = .error failure) :
    failure.Blames (Place.fixnum.Flaw m value) := by
  cases value with
  | number n token => cases h
  | literal token =>
    cases h
    exact ⟨_, _, rfl, .noFixnum fun _ _ hvalue => by cases hvalue⟩
  | reference target =>
    cases h
    exact ⟨_, _, rfl, .noFixnum fun _ _ hvalue => by cases hvalue⟩

theorem blames_of_ofMnemonic {mnemonics : List String}
    (h : ofMnemonic mnemonics value = .error failure) :
    failure.Blames ((Place.mnemonic mnemonics).Flaw m value) := by
  unfold ofMnemonic at h
  split at h
  next name =>
    split at h
    · cases h
    next hout =>
      cases h
      refine ⟨_, _, rfl, .noMnemonic fun other hvalue => ?_⟩
      cases hvalue
      exact hout
  next hbare =>
    cases h
    exact ⟨_, _, rfl, .noMnemonic fun name hvalue => absurd hvalue (hbare name)⟩

private theorem blames_of_ofLiteral {token : Token} (h : ofLiteral token = .error failure) :
    failure.Blames (Place.expression.Flaw m (.literal token)) := by
  unfold ofLiteral at h
  split at h
  next htype =>
    cases hfound : ofType (.literal token) with
    | ok tag =>
      rw [hfound] at h
      cases h
    | error found =>
      rw [hfound] at h
      cases h
      obtain ⟨fault, _, rfl, hflaw⟩ := blames_of_ofType (m := m) hfound
      cases hflaw with
      | noType hnone => exact ⟨_, _, rfl, .unknownType htype fun tag => hnone token tag rfl⟩
  next hplain =>
    split at h
    · cases h
    next hnone =>
      cases h
      refine ⟨_, _, rfl, .unknownLiteral hplain fun value hsymbol => ?_⟩
      rw [Literal.ofSymbol?_eq_some_iff.mpr hsymbol] at hnone
      cases hnone

/-- A reference is judged alike wherever one may stand. -/
theorem ofReference_blames_of_place {place : Place} (hplace : place.takesReferences)
    (target : Reference) : (ofReference (Scope.ofModule m file) demand (.reference target)).Blames
      (place.Flaw m (.reference target)) := by
  cases target with
  | bare name =>
    rw [ofReference]
    by_cases h : name.text ∈ (Scope.ofModule m file).labels
    · rw [if_pos h]
      cases demand with
      | anything => exact blames_pure _
      | instruction =>
        rw [if_pos rfl]
        exact (blames_record name).bind_pure _
    · rw [if_neg h]
      exact blames_raise (.undefined hplace h)
  | qualified moduleName name =>
    rw [ofReference]
    by_cases h : moduleName.text ∈ (Scope.ofModule m file).moduleNames
    · rw [if_pos h]
      exact blames_pure _
    · rw [if_neg h]
      exact blames_raise (.notImported hplace h)

theorem ofReference_blames : (ofReference (Scope.ofModule m file) demand value).Blames
    (Place.reference.Flaw m value) := by
  cases value with
  | literal token => exact blames_raise (.noReference fun _ hvalue => by cases hvalue)
  | number n token => exact blames_raise (.noReference fun _ hvalue => by cases hvalue)
  | reference target => exact ofReference_blames_of_place rfl target

theorem ofExpression_blames : (ofExpression (Scope.ofModule m file) value).Blames
    (Place.expression.Flaw m value) := by
  cases value with
  | literal token => exact blames_lift fun _ => blames_of_ofLiteral
  | number n token => exact blames_pure _
  | reference target => exact ofReference_blames_of_place rfl target

theorem ofContinuation_blames : (ofContinuation (Scope.ofModule m file) demand value).Blames
    (demand.place.Flaw m value) := by
  cases demand with
  | anything => exact ofExpression_blames
  | instruction => exact ofReference_blames

end Node

section Statements
variable {m : Module} {file : String} {demand : Demand} {s : Statement} {op : Operator}
  {d : Definition} {before following : List Statement} {failure : Failure}

open Recording

/-- In a row of statements, what is demanded tells whether there is an instruction so far. -/
theorem exists_instruction_of_behindAll
    (h : Demand.anything.behindAll before = .instruction) : ∃ t ∈ before, t.isInstruction := by
  unfold Demand.behindAll at h
  split at h
  next hany => exact List.any_eq_true.mp hany
  · cases h

private theorem Demand.behindAll_append_singleton (demand : Demand) (before : List Statement) :
    demand.behindAll (before ++ [s]) = (demand.behindAll before).behind s := by
  unfold Demand.behindAll Demand.behind
  rw [List.any_append, List.any_cons, List.any_nil, Bool.or_false]
  by_cases hs : s.isInstruction <;> simp [hs]

namespace Definition

private theorem last_eq_of_statements (hd : d.statements = before ++ [s]) : d.last = s := by
  simp [last, hd]

private theorem place_of_statements (hd : d.statements = before ++ [s]) :
    ((Demand.anything.behindAll before).behind s).place =
      if d.isCode then .reference else .expression := by
  rw [← Demand.behindAll_append_singleton, ← hd, isCode, Demand.behindAll]
  split <;> rfl

/-- What the last statement goes on with, in its place. -/
theorem holds_continuation {value : Value} (hd : d.statements = before ++ [s])
    (hop : s.operation? = some op) (hf : op ≠ .finish) (hv : s.continuation? = some value) :
    d.Holds ((Demand.anything.behindAll before).behind s).place value := by
  have hlast := last_eq_of_statements hd
  rw [place_of_statements hd]
  exact .continuation (hlast ▸ hop) hf (hlast ▸ hv)

end Definition

private theorem Statement.blames_of_checkOperands (hd : d.statements = before ++ s :: following)
    (hop : s.operation? = some op) (h : s.checkOperands op following = .error failure) :
    failure.Blames (d.Flaw m) := by
  have hs : s ∈ d.statements := by simp [hd]
  unfold checkOperands at h
  split at h
  next hfew =>
    cases h
    exact ⟨_, _, rfl, .tooFew hs hop hfew⟩
  next =>
    split at h
    next excess hexcess =>
      cases h
      exact ⟨_, _, rfl, .tooMany hs hop hexcess⟩
    next =>
      split at h
      next next behind =>
        split at h
        · cases h
        next hends =>
          cases h
          exact ⟨_, _, rfl, .behindTerminal hd hop hends⟩
      · cases h

namespace Stage

/-- With enough operands, only what stands in the places of the operator is to blame. -/
theorem ofOperator_blames (hs : s ∈ d.statements) (hop : s.operation? = some op)
    (hn : op.required ≤ s.operands.length)
    (href : ∀ value rest, op = .ref → s.operands = value :: rest → d.Holds demand.place value) :
    (ofOperator (Scope.ofModule m file) demand s op).Blames (d.Flaw m) := by
  have holds {place : Place} {value : Value} (hmem : (place, value) ∈ op.places.zip s.operands)
      (fault : Fault) (token : Token) (hflaw : place.Flaw m value fault token) :
      d.Flaw m fault token := .value (.operand hs hop hmem) hflaw
  obtain ⟨operator, operands⟩ := s
  cases op with
  | depth => exact blames_pure _
  | ref =>
    obtain ⟨value, rest, rfl⟩ := List.exists_cons_of_length_pos hn
    refine Blames.bind_pure (Node.ofContinuation_blames.mono fun _ _ hflaw => ?_) _
    exact .value (href value rest rfl rfl) hflaw
  | pair | expr =>
    obtain ⟨imm, rest, rfl⟩ := List.exists_cons_of_length_pos hn
    exact (Node.ofExpression_blames.mono (holds (by simp [Operator.places]))).bind_pure _
  | dict =>
    obtain ⟨key, value, rest, rfl⟩ := exists_cons_cons hn
    refine (Node.ofExpression_blames.mono
      (holds (by simp [Operator.places]))).bind fun _ _ _ _ => ?_
    exact (Node.ofExpression_blames.mono (holds (by simp [Operator.places]))).bind_pure _
  | typeq =>
    obtain ⟨imm, rest, rfl⟩ := List.exists_cons_of_length_pos hn
    refine ((blames_lift fun _ => Node.blames_of_ofType).mono (holds ?_)).bind_pure _
    simp [Operator.places]
  | fixnum =>
    obtain ⟨imm, rest, rfl⟩ := List.exists_cons_of_length_pos hn
    refine ((blames_lift fun _ => Node.blames_of_ofFixnum).mono (holds ?_)).bind_pure _
    simp [Operator.places]
  | mnemonic | finish =>
    obtain ⟨imm, rest, rfl⟩ := List.exists_cons_of_length_pos hn
    refine ((blames_lift fun _ => Node.blames_of_ofMnemonic).mono (holds ?_)).bind_pure _
    simp [Operator.places]
  | branch =>
    obtain ⟨target, rest, rfl⟩ := List.exists_cons_of_length_pos hn
    exact (Node.ofReference_blames.mono (holds (by simp [Operator.places]))).bind_pure _

private theorem ofStatement_blames (hd : d.statements = before ++ s :: following) :
    (ofStatement (Scope.ofModule m file) (Demand.anything.behindAll before) s following).Blames
      (d.Flaw m) := by
  have hs : s ∈ d.statements := by simp [hd]
  cases hop : s.operation? with
  | none =>
    have hname : Operator.ofName? s.operator.text = none := hop
    simp only [ofStatement, hname]
    exact blames_raise (.unknownOperator hs hop)
  | some op =>
    have hname : Operator.ofName? s.operator.text = some op := hop
    simp only [ofStatement, hname]
    split
    next hdata =>
      obtain ⟨t, ht, hi⟩ := exists_instruction_of_behindAll hdata.1
      have hisData : s.isData := by rw [Statement.isData, hop]; exact hdata.2
      exact blames_raise (.dataBehindInstruction hd ht hi hisData)
    next =>
      refine (blames_lift fun _ => Statement.blames_of_checkOperands hd hop).bind
        fun r _ r' hrun => ?_
      have hcheck : s.checkOperands op following = .ok () := by
        cases hfound : s.checkOperands op following with
        | ok => rfl
        | error failure =>
          rw [hfound] at hrun
          cases hrun
      obtain ⟨hge, -, hmore⟩ := Statement.checkOperands_eq_ok_iff.mp hcheck
      refine ofOperator_blames hs hop hge fun value rest href hoperands => ?_
      subst href
      have hlast : following = [] := by
        cases following with
        | nil => rfl
        | cons next rest => cases hmore (List.cons_ne_nil next rest)
      subst hlast
      have hv : s.continuation? = some value := by
        rw [Statement.continuation?, hop, hoperands]
        rfl
      have hbehind : (Demand.anything.behindAll before).behind s =
          Demand.anything.behindAll before := by
        rw [Demand.behind, Statement.isInstruction, hop]
        rfl
      rw [← hbehind]
      exact Definition.holds_continuation hd hop Operator.noConfusion hv

/-- What is known of a statement that leaves a link. -/
theorem of_ofStatement_eq_partway {r r' : Array Token} {link : Link} {cont : Option Value}
    {demand' : Demand} (h : (ofStatement (Scope.ofModule m file) demand s following).run r =
      .ok (.partway link cont demand', r')) :
    ∃ op, s.operation? = some op ∧ op.continues ∧ op.required ≤ s.operands.length ∧
      s.operands.length ≤ op.required + 1 ∧ cont = s.operands[op.required]? ∧
      demand' = demand.behind s := by
  cases hop : s.operation? with
  | none => exact ((ofStatement_unknown_yields hop (.complete (.fixnum 0)) [] r _ r').mp h).1.elim
  | some op =>
    cases hc : op.continues with
    | true =>
      have hyields : (ofStatement (Scope.ofModule m file) demand s following).Yields _ _ _ :=
        ofStatement_yields hop fun hn => ofOperator_yields hop hc hn.2.1
      obtain ⟨⟨hcounted, -⟩, hstage, -⟩ := (hyields r _ r').mp h
      cases hstage
      have hlimit : op.limit = op.required + 1 := by rw [Operator.limit, if_pos hc]
      exact ⟨op, rfl, hc, hcounted.2.1, hlimit ▸ hcounted.2.2.1, rfl,
        Chain.demandBehind_eq hop hc hcounted.1⟩
    | false =>
      have hcomplete : ∃ P node names, (ofStatement (Scope.ofModule m file) demand s following).Yields
          (Counted demand s op following ∧ P) (.complete node) names := by
        by_cases hn : op.required ≤ s.operands.length
        · cases op with
          | ref =>
            obtain ⟨value, rest, hs⟩ := List.exists_cons_of_length_pos hn
            exact ⟨_, _, _, ofStatement_yields hop fun _ => ofOperator_ref_yields hs⟩
          | finish =>
            obtain ⟨imm, rest, hs⟩ := List.exists_cons_of_length_pos hn
            exact ⟨_, _, _, ofStatement_yields hop fun _ => ofOperator_finish_yields hs⟩
          | _ => cases hc
        · exact ⟨False, .fixnum 0, [],
            ofStatement_yields hop fun hcounted => absurd hcounted.2.1 hn⟩
      obtain ⟨P, node, names, hyields⟩ := hcomplete
      obtain ⟨-, hstage, -⟩ := (hyields r _ r').mp h
      cases hstage

end Stage

/-- The statements before tell what is demanded of a statement; those before and behind it, where
it stands in its definition. -/
theorem Chain.ofStatements_blames (hd : d.statements = before ++ s :: following)
    (links : List Link) :
    (ofStatements (Scope.ofModule m file) (Demand.anything.behindAll before) s following
      links).Blames (d.Flaw m) := by
  induction following generalizing before s links with
  | nil =>
    unfold ofStatements
    refine (Stage.ofStatement_blames hd).bind fun r stage r' hrun => ?_
    cases stage with
    | complete node => exact blames_pure _
    | partway link cont demand' =>
      obtain ⟨op, hop, hc, hge, hle, rfl, rfl⟩ := Stage.of_ofStatement_eq_partway hrun
      cases hv : s.operands[op.required]? with
      | none =>
        have hlen := List.getElem?_eq_none_iff.mp hv
        have hlast := Definition.last_eq_of_statements hd
        subst hlast
        exact blames_raise (.unfinished hop hc (by omega))
      | some value =>
        have hf : op ≠ .finish := by
          rintro rfl
          cases hc
        have hholds := Definition.holds_continuation hd hop hf (continuation?_eq hop hc ▸ hv)
        exact (Node.ofContinuation_blames.mono fun _ _ hflaw => .value hholds hflaw).bind_pure _
  | cons next rest ih =>
    unfold ofStatements
    refine (Stage.ofStatement_blames hd).bind fun r stage r' hrun => ?_
    cases stage with
    | complete node => exact blames_pure _
    | partway link cont demand' =>
      obtain ⟨op, hop, hc, hge, hle, rfl, rfl⟩ := Stage.of_ofStatement_eq_partway hrun
      cases hv : s.operands[op.required]? with
      | none =>
        rw [← Demand.behindAll_append_singleton]
        exact ih (by rw [hd, List.append_assoc]; rfl) _
      | some value =>
        obtain ⟨hlen, -⟩ := List.getElem?_eq_some_iff.mp hv
        exact blames_raise (.behindContinuation hd hop hc (by omega))

theorem Definition.chain_blames :
    (Chain.ofDefinition (Scope.ofModule m file) d).Blames (d.Flaw m) := by
  have hd : d.statements = [] ++ d.statement :: d.following := rfl
  exact Chain.ofStatements_blames hd []

end Statements

end ActorAsm
