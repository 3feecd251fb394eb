import ActorAsm.Proofs.Document.Acceptance

/-! Two ways to say what a chain goes on with: an operand more in the last statement, or a reference
as a statement of its own behind it. They are the same computation, failures and all. -/

namespace ActorAsm

/-- The same stage with another operand to go on with, or with none. -/
def Stage.goingOn (continuation : Option Value) : Stage → Stage
  | .partway link _ demand => .partway link continuation demand
  | .complete node => .complete node

section Chains
variable {scope : Scope} {demand : Demand} {op : Operator} {operator ref : Token}
  {operands : List Value} {value : Value} {s s' : Statement} {following following' : List Statement}

/-- One operand more than required can go on with a chain, whatever is behind. -/
theorem Statement.checkOperands_append (hc : op.continues) (hn : operands.length = op.required)
    (more : Option Value) :
    (Statement.mk operator (operands ++ more.toList)).checkOperands op following = .ok () := by
  have hmore : more.toList.length ≤ 1 := by cases more <;> simp
  refine checkOperands_eq_ok_iff.mpr ⟨?_, ?_, fun _ => hc⟩
  · rw [List.length_append]
    omega
  · rw [List.length_append, Operator.limit, if_pos hc]
    omega

namespace Stage

/-- What is behind the required operands is handed on untouched. -/
theorem ofOperator_append (hc : op.continues) (hn : operands.length = op.required)
    (more : Option Value) :
    ofOperator scope demand ⟨operator, operands ++ more.toList⟩ op =
      goingOn more <$> ofOperator scope demand ⟨operator, operands⟩ op := by
  cases op with
  | ref | finish => cases hc
  | depth =>
    obtain rfl := List.length_eq_zero_iff.mp hn
    cases more <;> rfl
  | dict =>
    obtain ⟨key, item, rest, rfl⟩ := exists_cons_cons hn.ge
    obtain rfl : rest = [] := by simpa [Operator.required] using hn
    cases more <;> simp [ofOperator, Operator.required, goingOn]
  | _ =>
    obtain ⟨imm, rfl⟩ := List.length_eq_one_iff.mp hn
    cases more <;> simp [ofOperator, Operator.required, goingOn]

private theorem ofStatement_append (hop : Operator.ofName? operator.text = some op)
    (hc : op.continues) (hn : operands.length = op.required) (more : Option Value) :
    ofStatement scope demand ⟨operator, operands ++ more.toList⟩ following =
      goingOn more <$> ofStatement scope demand ⟨operator, operands⟩ following' := by
  have hcheck (following : List Statement) :
      (Statement.mk operator operands).checkOperands op following = .ok () := by
    simpa using Statement.checkOperands_append hc hn none
  simp only [ofStatement, hop]
  split
  · rfl
  · rw [Statement.checkOperands_append hc hn, hcheck, ofOperator_append hc hn]
    rfl

private theorem ofStatement_ref (href : ref.text = "ref") :
    ofStatement scope demand ⟨ref, [value]⟩ [] =
      Stage.complete <$> Node.ofContinuation scope demand value := by
  have hop : Operator.ofName? ref.text = some .ref := by rw [href]; decide
  have hcheck : (Statement.mk ref [value]).checkOperands .ref [] = .ok () := rfl
  simp only [ofStatement, hop, Operator.isData, Bool.false_eq_true, and_false, if_false, hcheck,
    ofOperator, bind_pure_comp]
  rfl

/-- Statements behind a statement are asked for nothing but the operator of the first one. -/
theorem ofStatement_congr
    (h : following.head?.map Statement.operator = following'.head?.map Statement.operator) :
    ofStatement scope demand s following = ofStatement scope demand s following' := by
  have hcheck (op : Operator) : s.checkOperands op following = s.checkOperands op following' := by
    unfold Statement.checkOperands
    cases following <;> cases following' <;> simp_all
  simp only [ofStatement, hcheck]

end Stage

namespace Chain

/-- The operand more is taken where the reference would be, and means the same there. -/
theorem ofStatements_trailing (hop : Operator.ofName? operator.text = some op) (hc : op.continues)
    (hn : operands.length = op.required) (href : ref.text = "ref") (links : List Link) :
    ofStatements scope demand ⟨operator, operands⟩ [⟨ref, [value]⟩] links =
      ofStatements scope demand ⟨operator, operands ++ [value]⟩ [] links := by
  have hwith : Stage.ofStatement scope demand ⟨operator, operands ++ [value]⟩ [] =
      Stage.goingOn (some value) <$> Stage.ofStatement scope demand ⟨operator, operands⟩ [] :=
    Stage.ofStatement_append hop hc hn (some value)
  have hwithout : Stage.ofStatement scope demand ⟨operator, operands⟩ [⟨ref, [value]⟩] =
      Stage.goingOn none <$> Stage.ofStatement scope demand ⟨operator, operands⟩ [] := by
    simpa using Stage.ofStatement_append hop hc hn none
  rw [ofStatements, ofStatements, hwith, hwithout]
  simp only [bind_map_left]
  congr 1
  funext stage
  cases stage with
  | complete node => rfl
  | partway link continuation demand =>
    simp only [Stage.goingOn, ofStatements, Stage.ofStatement_ref href, bind_map_left, close,
      List.length_cons]

/-- Statements that agree up to the last one have the same chain. The induction takes the statements
in front, which see nothing but the operator of the next one. -/
theorem ofStatements_eq_of_trailing {front : List Statement}
    (hop : Operator.ofName? operator.text = some op) (hc : op.continues)
    (hn : operands.length = op.required) (href : ref.text = "ref")
    (h : s :: following = front ++ [⟨operator, operands ++ [value]⟩])
    (h' : s' :: following' = front ++ [⟨operator, operands⟩, ⟨ref, [value]⟩]) (links : List Link) :
    ofStatements scope demand s' following' links = ofStatements scope demand s following links := by
  induction front generalizing s s' following following' demand links with
  | nil =>
    cases h
    cases h'
    exact ofStatements_trailing hop hc hn href links
  | cons t front ih =>
    rw [List.cons_append, List.cons.injEq] at h h'
    obtain ⟨rfl, rfl⟩ := h
    obtain ⟨rfl, rfl⟩ := h'
    have hhead :
        (front ++ [Statement.mk operator operands, ⟨ref, [value]⟩]).head?.map Statement.operator =
          (front ++ [Statement.mk operator (operands ++ [value])]).head?.map Statement.operator := by
      cases front <;> rfl
    obtain ⟨next, rest, hbehind⟩ := List.exists_cons_of_ne_nil
      (show front ++ [Statement.mk operator (operands ++ [value])] ≠ [] by simp)
    obtain ⟨next', rest', hbehind'⟩ := List.exists_cons_of_ne_nil
      (show front ++ [Statement.mk operator operands, ⟨ref, [value]⟩] ≠ [] by simp)
    rw [hbehind, hbehind'] at hhead
    rw [hbehind, hbehind', ofStatements, ofStatements, Stage.ofStatement_congr hhead]
    congr 1
    funext stage
    cases stage with
    | complete node => rfl
    | partway link continuation demand =>
      cases continuation with
      | none => exact ih hbehind.symm hbehind'.symm (link :: links)
      | some value =>
        have hoperator : next'.operator = next.operator := by simpa using hhead
        simp only [hoperator]

end Chain

end Chains

namespace Module
variable {m : Module} {file : String} {d d' : Definition} {before behind : List Definition}
  {front : List Statement} {operator ref : Token} {operands : List Value} {value : Value}
  {op : Operator}

/-- With a trailing reference in the place of an operand, the same is done and reported. -/
theorem ofModule_eq_of_trailing (hop : Operator.ofName? operator.text = some op)
    (hc : op.continues) (hn : operands.length = op.required) (href : ref.text = "ref")
    (hm : m.definitions = before ++ d :: behind) (hlabels : d'.labels = d.labels)
    (hd : d.statements = front ++ [⟨operator, operands ++ [value]⟩])
    (hd' : d'.statements = front ++ [⟨operator, operands⟩, ⟨ref, [value]⟩]) :
    Document.ofModule { m with definitions := before ++ d' :: behind } file =
      Document.ofModule m file := by
  have hscope : Scope.ofModule { m with definitions := before ++ d' :: behind } file =
      Scope.ofModule m file := by
    simp [Scope.ofModule, Module.labels, hm, hlabels]
  obtain ⟨hlabel, haliases⟩ := List.cons.inj hlabels
  have hadd (p : Document.Progress) :
      p.addDefinition (Scope.ofModule m file) d' = p.addDefinition (Scope.ofModule m file) d := by
    have hchain : Chain.ofDefinition (Scope.ofModule m file) d' =
        Chain.ofDefinition (Scope.ofModule m file) d :=
      Chain.ofStatements_eq_of_trailing hop hc hn href hd hd' []
    simp only [Document.Progress.addDefinition, Document.Progress.addAliases, hlabel, haliases,
      hchain]
  simp only [Document.ofModule, hscope, hm, List.foldlM_append, List.foldlM_cons, hadd]

/-- An operand to go on with is the same as a trailing reference: the documents are equal, origins
and all, or the failures are. -/
theorem generate_eq_of_trailing (hop : Operator.ofName? operator.text = some op)
    (hc : op.continues) (hn : operands.length = op.required) (href : ref.text = "ref")
    (hm : m.definitions = before ++ d :: behind) (hlabels : d'.labels = d.labels)
    (hd : d.statements = front ++ [⟨operator, operands ++ [value]⟩])
    (hd' : d'.statements = front ++ [⟨operator, operands⟩, ⟨ref, [value]⟩]) (file : String) :
    generate { m with definitions := before ++ d' :: behind } file = m.generate file := by
  rw [generate, generate, ofModule_eq_of_trailing hop hc hn href hm hlabels hd hd']

private def ending : Definition :=
  ⟨.named 3 "ending", [], ⟨.named 4 "end", [.named 4 "stop"]⟩, []⟩

private def leaving : Definition :=
  ⟨.named 0 "leaving", [], ⟨.named 1 "msg", [.number 0 (.named 1 "0")]⟩,
    [⟨.named 2 "if", [.named 2 "leaving", .named 2 "ending"]⟩]⟩

private def leavingApart : Definition :=
  { leaving with following := [⟨.named 2 "if", [.named 2 "leaving"]⟩,
      ⟨.named 5 "ref", [.named 2 "ending"]⟩] }

private def leavingModule : Module := ⟨[], [leaving, ending], []⟩

/-- Both ways out of a chain of two, which goes on with an operand, and the same chain of three. -/
theorem generate_eq_of_trailing_leaving :
    (∃ doc, leavingModule.generate "leaving" = .ok doc) ∧
      generate { leavingModule with definitions := [leavingApart, ending] } "leaving" =
        leavingModule.generate "leaving" := by
  have hop : Operator.ofName? (Token.named 2 "if").text = some (.branch false) := by decide
  have hm : leavingModule.definitions = [] ++ leaving :: [ending] := rfl
  have hlabels : leavingApart.labels = leaving.labels := rfl
  have hd : leaving.statements = [leaving.statement] ++
      [⟨.named 2 "if", [.named 2 "leaving"] ++ [.named 2 "ending"]⟩] := rfl
  have hd' : leavingApart.statements = [leaving.statement] ++
      [⟨.named 2 "if", [.named 2 "leaving"]⟩, ⟨.named 5 "ref", [.named 2 "ending"]⟩] := rfl
  refine ⟨⟨leavingModule.document "leaving", by decide⟩, ?_⟩
  exact generate_eq_of_trailing hop rfl rfl rfl hm hlabels hd hd' "leaving"

end Module

end ActorAsm
