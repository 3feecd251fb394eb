import ActorAsm.Proofs.Module.Derivation
import ActorAsm.Proofs.Vocabulary

/-! The parser takes every derivation of the grammar. At each choice and at each end of a repetition
one or two tokens tell what can begin there, so that neither the order of alternatives nor greed
costs a module. -/

namespace ActorAsm

namespace Grammar
open Matcher (andDrop andKeep Takes Fails Parts)
open Reading (Repeated AtLeastOne Possible)

section Beginnings

/-- The kind of the token at an index, if there is one. -/
def kindAt (xs : List Token) (i : Nat) : Option Token.Kind := xs[i]?.map Token.kind

variable {t : Token} {xs rest : List Token} {i : Nat}

@[simp] theorem kindAt_cons_zero : kindAt (t :: xs) 0 = some t.kind := rfl

@[simp] theorem kindAt_cons_succ : kindAt (t :: xs) (i + 1) = kindAt xs i := rfl

@[simp] theorem kindAt_nil : kindAt [] i = none := rfl

/-- A line can end here. -/
def AtLineEnd (xs : List Token) : Prop :=
  kindAt xs 0 = some .newline ∨ kindAt xs 0 = some .comment ∨
    kindAt xs 0 = some .space ∧ kindAt xs 1 = some .comment

/-- A line that is set in begins here. -/
def AtLine (xs : List Token) : Prop := kindAt xs 0 = some .space ∧ kindAt xs 1 = some .name

/-- Nothing that is set in begins here: there is a name, a directive or nothing at all. -/
def AtTop (xs : List Token) : Prop :=
  kindAt xs 0 = some .name ∨ kindAt xs 0 = some .punct ∨ kindAt xs 0 = none

private theorem AtTop.not_atLineEnd (h : AtTop xs) : ¬ AtLineEnd xs := by
  rcases h with h | h | h <;> simp [AtLineEnd, h]

private theorem AtTop.not_atLine (h : AtTop xs) : ¬ AtLine xs := by
  rcases h with h | h | h <;> simp [AtLine, h]

private theorem AtLine.not_atLineEnd (h : AtLine xs) : ¬ AtLineEnd xs := by
  simp [AtLineEnd, h.1, h.2]

private theorem IsLineEnd.atLineEnd {u : Unit} (h : IsLineEnd xs u) : AtLineEnd (xs ++ rest) := by
  cases h <;> simp_all [AtLineEnd]

theorem AreLineEnds.atLineEnd (h : AreLineEnds xs) : AtLineEnd (xs ++ rest) := by
  obtain ⟨ends, h⟩ := h
  exact h.append_of (fun _ _ _ hx => hx.atLineEnd) rest

private theorem IsImportation.atLine {i : Importation} (h : IsImportation xs i) :
    AtLine (xs ++ rest) := by
  cases h
  simp_all [AtLine]

theorem IsStatement.atLine {s : Statement} (h : IsStatement xs s) : AtLine (xs ++ rest) := by
  cases h
  simp_all [AtLine]

private theorem IsExportation.atLine (h : IsExportation xs t) : AtLine (xs ++ rest) := by
  cases h
  simp_all [AtLine]

private theorem IsLabel.kindAt_zero (h : IsLabel xs t) : kindAt (xs ++ rest) 0 = some .name := by
  cases h
  simp_all

theorem IsDefinition.kindAt_zero {d : Definition} (h : IsDefinition xs d) :
    kindAt (xs ++ rest) 0 = some .name := by
  cases h with
  | intro hlabels _ =>
    rw [List.append_assoc]
    exact hlabels.append_of (F := fun xs => kindAt xs 0 = some .name)
      (fun _ _ _ hx => hx.kindAt_zero) _

private theorem IsReference.kindAt_zero {target : Reference} (h : IsReference xs target) :
    kindAt (xs ++ rest) 0 = some .name := by
  cases h <;> simp_all

private theorem IsValue.kindAt_zero {v : Value} (h : IsValue xs v) :
    kindAt (xs ++ rest) 0 ≠ some .comment ∧ kindAt (xs ++ rest) 0 ≠ none := by
  cases h with
  | literal ht => simp [ht]
  | number ht => simp [ht]
  | reference hx => simp [hx.kindAt_zero]

private theorem IsOperand.not_atLineEnd {v : Value} (h : IsOperand xs v) :
    ¬ AtLineEnd (xs ++ rest) := by
  cases h with
  | intro hspace hv => simp [AtLineEnd, hspace, hv.kindAt_zero]

theorem IsImports.atTop {is : List Importation} (h : IsImports xs is) : AtTop (xs ++ rest) := by
  cases h with
  | intro hdot _ _ _ => simp [AtTop, hdot.1]

theorem IsExports.kindAt_zero {names : List Token} (h : IsExports xs names) :
    kindAt (xs ++ rest) 0 = some .punct := by
  cases h with
  | intro hdot _ _ _ => simp [hdot.1]

theorem IsExports.atTop {names : List Token} (h : IsExports xs names) : AtTop (xs ++ rest) :=
  .inr (.inl h.kindAt_zero)

private theorem AtLineEnd.kindAt_zero_ne_punct (h : AtLineEnd xs) : kindAt xs 0 ≠ some .punct := by
  rcases h with h | h | ⟨h, -⟩ <;> simp [h]

private theorem IsLabel.not_atLineEnd (h : IsLabel xs t) : ¬ AtLineEnd (xs ++ rest) := by
  cases h with
  | intro hname _ _ => simp [AtLineEnd, hname]

private theorem IsOperand.kindAt_zero_ne_punct {v : Value} (h : IsOperand xs v) :
    kindAt (xs ++ rest) 0 ≠ some .punct := by
  cases h with
  | intro hspace _ => simp [hspace]

theorem IsLineEnd.ne_nil {u : Unit} (h : IsLineEnd xs u) : xs ≠ [] := by
  cases h <;> exact List.cons_ne_nil _ _

private theorem IsOperand.ne_nil {v : Value} (h : IsOperand xs v) : xs ≠ [] := by
  cases h
  exact List.cons_ne_nil _ _

private theorem IsLabel.ne_nil (h : IsLabel xs t) : xs ≠ [] := by
  cases h
  exact List.cons_ne_nil _ _

private theorem IsDefinition.ne_nil {d : Definition} (h : IsDefinition xs d) : xs ≠ [] := by
  rintro rfl
  have hname : kindAt ([] ++ []) 0 = some .name := h.kindAt_zero
  cases hname

end Beginnings

section Failures
variable {xs : List Token}

private theorem fails_of_beginning {α : Type} {m : Matcher α} {R : Reading α}
    {F : List Token → Prop} (hsound : ∀ ys node, m.Derives ys node → R ys node)
    (hbegins : ∀ ys node rest, R ys node → F (ys ++ rest)) (h : ¬ F xs) : m.Fails xs := by
  apply Matcher.fails_of_not_derives
  intro ys rest node hy hx
  apply h
  rw [hx]
  exact hbegins ys node rest (hsound ys node hy)

private theorem kind_fails {k : Token.Kind} (h : kindAt xs 0 ≠ some k) : (kind k).Fails xs := by
  apply Matcher.fails_of_not_derives
  intro ys rest node hy hx
  apply h
  obtain ⟨rfl, hk⟩ := of_derives_kind hy
  simp [hx, hk]

private theorem number_fails (h : ∀ n, kindAt xs 0 ≠ some (.number n)) : number.Fails xs := by
  apply Matcher.fails_of_not_derives
  intro ys rest node hy hx
  obtain ⟨t, rfl, ht⟩ := hy
  dsimp only at ht
  split at ht
  next n hk => exact h n (by simp [hx, hk])
  · cases ht

private theorem lineEnd_fails (h : ¬ AtLineEnd xs) : lineEnd.Fails xs :=
  fails_of_beginning (fun _ => isLineEnd_of_derives) (fun _ _ _ hx => hx.atLineEnd) h

private theorem operand_fails (h : AtLineEnd xs) : (andKeep space value).Fails xs :=
  fails_of_beginning (fun _ => isOperand_of_derives) (F := fun xs => ¬ AtLineEnd xs)
    (fun _ _ _ hx => hx.not_atLineEnd) (not_not_intro h)

private theorem label_fails (h : kindAt xs 0 ≠ some .name) : label.Fails xs :=
  fails_of_beginning (fun _ => isLabel_of_derives) (F := fun xs => kindAt xs 0 = some .name)
    (fun _ _ _ hx => hx.kindAt_zero) h

private theorem definition_fails (h : kindAt xs 0 ≠ some .name) : definition.Fails xs :=
  fails_of_beginning (fun _ => isDefinition_of_derives) (F := fun xs => kindAt xs 0 = some .name)
    (fun _ _ _ hx => hx.kindAt_zero) h

end Failures

section Completeness
variable {xs rest : List Token}

theorem kind_takes {k : Token.Kind} {t : Token} (h : t.kind = k) :
    (kind k).Takes [t] t rest :=
  Matcher.takes_one (by simp [h])

theorem punct_takes {text : String} {t : Token} (h : t.IsPunct text) :
    (punct text).Takes [t] t rest :=
  Matcher.takes_one (by simp [h.1, h.2])

theorem specifier_takes {t : Token} (h : t.kind = .string) :
    specifier.Takes [t] t.stringValue rest :=
  Matcher.takes_one (if_pos h)

theorem directive_takes {text : String} {dot word : Token} (hdot : dot.IsPunct ".")
    (hword : word.IsKeyword text) : (directive text).Takes [dot, word] word rest :=
  (punct_takes hdot).andKeep (Matcher.takes_one (by simp [hword.1, hword.2]))

private theorem comment_fails {newline : Token} (hn : newline.kind = .newline) :
    (andKeep (Matcher.optional space) (kind .comment)).Fails (newline :: rest) := by
  apply Matcher.fails_of_not_derives
  intro ys rest node hy hx
  obtain ⟨us, vs, space?, rfl, dspace, dcomment⟩ := Matcher.derives_andKeep_iff.mp hy
  obtain ⟨rfl, hcomment⟩ := of_derives_kind dcomment
  cases Matcher.derives_optional_iff.mp dspace with
  | absent =>
    cases hx
    rw [hn] at hcomment
    cases hcomment
  | present dspace' =>
    obtain ⟨rfl, hspace⟩ := of_derives_kind dspace'
    cases hx
    rw [hn] at hspace
    cases hspace

theorem IsLineEnd.takes {u : Unit} (h : IsLineEnd xs u) : lineEnd.Takes xs u rest := by
  cases h with
  | plain hn =>
    exact ((Matcher.takes_optional_none (comment_fails hn)).andThen (kind_takes hn)).map _
  | @comment comment newline hc hn =>
    have hspace : (Matcher.optional space).Takes [] none (comment :: newline :: rest) :=
      Matcher.takes_optional_none (kind_fails (by simp [hc]))
    exact ((hspace.andKeep (kind_takes hc)).optional.andThen (kind_takes hn)).map _
  | @spaced s comment newline hs hc hn =>
    have hspace : (Matcher.optional space).Takes [s] (some s) (comment :: newline :: rest) :=
      (kind_takes hs).optional
    exact ((hspace.andKeep (kind_takes hc)).optional.andThen (kind_takes hn)).map _

theorem parts_lineEnd : Parts lineEnd IsLineEnd fun _ => True where
  ne_nil _ _ h := h.ne_nil
  follow _ _ _ _ := trivial
  takes _ _ _ h _ := h.takes

/-- Behind line ends no other one may begin. -/
theorem AreLineEnds.takes (h : AreLineEnds xs) (hrest : ¬ AtLineEnd rest) :
    lineEnds.Takes xs () rest := by
  obtain ⟨ends, h⟩ := h
  cases h with
  | cons hx hxs =>
    have hall := parts_lineEnd.takes_andThen_zeroOrMore trivial (lineEnd_fails hrest) (.cons hx hxs)
    exact (hall.map _).map _

private theorem IsImportation.takes {i : Importation} (h : IsImportation xs i)
    (hrest : ¬ AtLineEnd rest) : importation.Takes xs i rest := by
  cases h with
  | intro hspace hname hcolon hspace' hstring hends =>
    exact ((((kind_takes hspace).andKeep (kind_takes hname)).andDrop (punct_takes hcolon)).andThen
      (((kind_takes hspace').andKeep (specifier_takes hstring)).andDrop (hends.takes hrest))).map _

private theorem IsLabel.takes {t : Token} (h : IsLabel xs t) (hrest : ¬ AtLineEnd rest) :
    label.Takes xs t rest := by
  cases h with
  | intro hname hcolon hends =>
    exact (kind_takes hname).andDrop ((punct_takes hcolon).andThen (hends.takes hrest))

private theorem parts_label : Parts label IsLabel fun xs => ¬ AtLineEnd xs where
  ne_nil _ _ h := h.ne_nil
  follow _ _ _ h := h.not_atLineEnd
  takes _ _ _ h := h.takes

private theorem IsExportation.takes {t : Token} (h : IsExportation xs t)
    (hrest : ¬ AtLineEnd rest) : (andDrop (andKeep space name) lineEnds).Takes xs t rest := by
  cases h with
  | intro hspace hname hends =>
    exact ((kind_takes hspace).andKeep (kind_takes hname)).andDrop (hends.takes hrest)

/-- Behind a reference no dot may come: with one, it would be the module's name only. -/
theorem IsReference.takes {target : Reference} (h : IsReference xs target)
    (hrest : kindAt rest 0 ≠ some .punct) : reference.Takes xs target rest := by
  cases h with
  | @qualified moduleName dot name hmodule hdot hname =>
    have hparts : Takes _ [moduleName, dot, name] (moduleName, name) rest :=
      ((kind_takes hmodule).andDrop (punct_takes hdot)).andThen (kind_takes hname)
    exact (hparts.map _).orElse_left
  | @bare t hname =>
    apply Takes.orElse_right (Takes.orElse_left ((kind_takes hname).map _))
    apply Matcher.fails_of_not_derives
    intro ys behind target hy hx
    obtain ⟨_, ⟨us, vs, rfl, dfront, dname⟩, -⟩ := hy
    obtain ⟨us, ws, dot, rfl, dmodule, ddot⟩ := Matcher.derives_andDrop_iff.mp dfront
    obtain ⟨rfl, -⟩ := of_derives_kind dmodule
    obtain ⟨rfl, hdot⟩ := of_derives_punct ddot
    obtain ⟨-, rfl⟩ := List.cons.inj hx
    exact hrest (congrArg some hdot.1)

private theorem IsValue.takes {v : Value} (h : IsValue xs v) (hrest : kindAt rest 0 ≠ some .punct) :
    value.Takes xs v rest := by
  cases h with
  | literal ht => exact ((kind_takes ht).map _).orElse_left
  | @number t n ht =>
    have hnumber : Grammar.number.Takes [t] (.number n t) rest :=
      Matcher.takes_one (by simp [ht])
    apply hnumber.orElse_left.orElse_right
    exact (kind_fails (by simp [ht])).map _
  | reference hx =>
    have hname : kindAt (xs ++ rest) 0 = some .name := hx.kindAt_zero
    apply Takes.orElse_right
    · apply Takes.orElse_right (Takes.orElse_left ((hx.takes hrest).map _))
      exact number_fails fun n => by simp [hname]
    · exact (kind_fails (by simp [hname])).map _

private theorem IsOperand.takes {v : Value} (h : IsOperand xs v)
    (hrest : kindAt rest 0 ≠ some .punct) : (andKeep space value).Takes xs v rest := by
  cases h with
  | intro hspace hv => exact (kind_takes hspace).andKeep (hv.takes hrest)

private theorem parts_operand :
    Parts (andKeep space value) IsOperand fun xs => kindAt xs 0 ≠ some .punct where
  ne_nil _ _ h := h.ne_nil
  follow _ _ _ h := h.kindAt_zero_ne_punct
  takes _ _ _ h := h.takes

/-- Operands end where the line does. -/
theorem operands_take {operands : List Value} (h : Repeated IsOperand xs operands)
    (hrest : AtLineEnd rest) : (andKeep space value).zeroOrMore.Takes xs operands rest :=
  parts_operand.takes_zeroOrMore hrest.kindAt_zero_ne_punct (operand_fails hrest) h

private theorem IsStatement.takes {s : Statement} (h : IsStatement xs s)
    (hrest : ¬ AtLineEnd rest) : statement.Takes xs s rest := by
  cases h with
  | intro hspace hname hoperands hends =>
    exact (((kind_takes hspace).andKeep (kind_takes hname)).andThen
      ((operands_take hoperands hends.atLineEnd).andDrop (hends.takes hrest))).map _

/-- A rule for lines that are set in, and a matcher that takes such a line. -/
structure Indented {α : Type} (m : Matcher α) (R : Reading α) : Prop where
  atLine : ∀ xs node rest, R xs node → AtLine (xs ++ rest)
  takes : ∀ xs node rest, R xs node → ¬ AtLineEnd rest → m.Takes xs node rest
  sound : ∀ xs node, m.Derives xs node → R xs node

theorem indented_importation : Indented importation IsImportation where
  atLine _ _ _ h := h.atLine
  takes _ _ _ h := h.takes
  sound _ _ := isImportation_of_derives _

theorem indented_statement : Indented statement IsStatement where
  atLine _ _ _ h := h.atLine
  takes _ _ _ h := h.takes
  sound _ _ := isStatement_of_derives _

theorem indented_exportation :
    Indented (andDrop (andKeep space name) lineEnds) IsExportation where
  atLine _ _ _ h := h.atLine
  takes _ _ _ h := h.takes
  sound _ _ := isExportation_of_derives _

namespace Indented
variable {α : Type} {m : Matcher α} {R : Reading α} {node : α} {nodes : List α}

theorem parts (h : Indented m R) : Parts m R fun xs => ¬ AtLineEnd xs where
  ne_nil xs node hr := by
    rintro rfl
    obtain ⟨hspace, -⟩ := h.atLine [] node [] hr
    cases hspace
  follow xs node rest hr := (h.atLine xs node rest hr).not_atLineEnd
  takes := h.takes

private theorem fails (h : Indented m R) (hrest : AtTop rest) : m.Fails rest :=
  fails_of_beginning h.sound h.atLine hrest.not_atLine

/-- Lines under a directive. -/
theorem takes_directive (h : Indented m R) {text : String} {dot word : Token} {ends : List Token}
    (hdot : dot.IsPunct ".") (hword : word.IsKeyword text) (hends : AreLineEnds ends)
    (hr : Repeated R xs nodes) (hrest : AtTop rest) :
    (andKeep (.andThen (directive text) lineEnds) (.zeroOrMore m)).Takes
      (dot :: word :: (ends ++ xs)) nodes rest := by
  have hbehind : ¬ AtLineEnd (xs ++ rest) :=
    hr.append_of (F := fun xs => ¬ AtLineEnd xs) h.parts.follow hrest.not_atLineEnd
  have hfront := (directive_takes hdot hword).andThen (hends.takes hbehind)
  exact hfront.andKeep (h.parts.takes_zeroOrMore hrest.not_atLineEnd (h.fails hrest) hr)

end Indented

/-- Labels end where the first statement begins. -/
theorem labels_take {t : Token} {aliases : List Token} (h : AtLeastOne IsLabel xs (t :: aliases))
    (hrest : AtLine rest) : (Matcher.andThen label label.zeroOrMore).Takes xs (t, aliases) rest :=
  parts_label.takes_andThen_zeroOrMore hrest.not_atLineEnd (label_fails (by simp [hrest.1])) h

private theorem IsDefinition.takes {d : Definition} (h : IsDefinition xs d) (hrest : AtTop rest) :
    definition.Takes xs d rest := by
  cases h with
  | @intro xs ys label aliases statement following hlabels hstatements =>
    have hline : AtLine (ys ++ rest) := hstatements.append_of (fun _ _ _ hx => hx.atLine) rest
    have hall := indented_statement.parts.takes_andThen_zeroOrMore hrest.not_atLineEnd
      (indented_statement.fails hrest) hstatements
    exact ((labels_take hlabels hline).andThen hall).map _

theorem parts_definition : Parts definition IsDefinition AtTop where
  ne_nil _ _ h := h.ne_nil
  follow _ _ _ h := .inl h.kindAt_zero
  takes _ _ _ h := h.takes

/-- Definitions end where something else begins at the top. -/
theorem definitions_take {definitions : List Definition}
    (h : Repeated IsDefinition xs definitions) (hrest : AtTop rest)
    (hname : kindAt rest 0 ≠ some .name) :
    definition.zeroOrMore.Takes xs definitions rest :=
  parts_definition.takes_zeroOrMore hrest (definition_fails hname) h

/-- Blank lines end where something begins at the top. -/
theorem blankLines_take {ends : List Unit} (h : Repeated IsLineEnd xs ends) (hrest : AtTop rest) :
    lineEnd.zeroOrMore.Takes xs ends rest :=
  parts_lineEnd.takes_zeroOrMore trivial (lineEnd_fails hrest.not_atLineEnd) h

theorem IsImports.takes {is : List Importation} (h : IsImports xs is) (hrest : AtTop rest) :
    imports.Takes xs is rest := by
  cases h with
  | intro hdot hword hends himports =>
    exact indented_importation.takes_directive hdot hword hends himports hrest

private theorem IsExports.takes {names : List Token} (h : IsExports xs names) (hrest : AtTop rest) :
    exports.Takes xs names rest := by
  cases h with
  | intro hdot hword hends hnames =>
    exact indented_exportation.takes_directive hdot hword hends hnames hrest

/-- Neither a definition nor exports begin like imports. -/
theorem imports_fails {ys zs : List Token} {definitions : List Definition}
    {exports? : Option (List Token)} (hd : Repeated IsDefinition ys definitions)
    (he : Possible IsExports zs exports?) (hrest : ys ++ zs = [] → rest = []) :
    imports.Fails (ys ++ (zs ++ rest)) := by
  apply Matcher.fails_of_not_derives
  intro vs behind is hy hx
  cases isImports_of_derives is hy with
  | intro hdot hword _ _ =>
    cases hd with
    | nil =>
      cases he with
      | absent =>
        rw [hrest rfl] at hx
        cases hx
      | present hz =>
        cases hz with
        | intro _ hword' _ _ =>
          obtain ⟨rfl, -⟩ := List.cons.inj (List.cons.inj hx).2
          exact absurd (hword.2.symm.trans hword'.2) (by decide)
    | cons hdefinition _ =>
      rw [List.append_assoc] at hx
      have hname := hx ▸ hdefinition.kindAt_zero
      simp [hdot.1] at hname

private theorem exports_fails_nil : exports.Fails [] := by
  apply Matcher.fails_of_not_derives
  intro vs behind names hy hx
  cases isExports_of_derives names hy with
  | intro _ _ _ _ => cases hx

theorem possible_takes {α : Type} {m : Matcher α} {R : Reading α} {node : Option α}
    (h : Possible R xs node) (htakes : ∀ ys node, R ys node → m.Takes ys node rest)
    (hfails : m.Fails rest) : m.optional.Takes xs node rest := by
  cases h with
  | absent => exact Matcher.takes_optional_none hfails
  | present hx => exact (htakes _ _ hx).optional

private theorem IsModule.takes {m : Module} (h : IsModule xs m) : module.Takes xs m [] := by
  cases h with
  | @intro ws xs ys zs ends imports? definitions exports? hends himports hdefinitions hexports =>
    have hzs : AtTop (zs ++ []) := hexports.append_of (fun _ _ _ hx => hx.atTop) (.inr (.inr rfl))
    have hyzs : AtTop (ys ++ zs ++ []) := by
      rw [List.append_assoc]
      exact hdefinitions.append_of (fun _ _ _ hx => .inl hx.kindAt_zero) hzs
    have hxyzs : AtTop (xs ++ (ys ++ zs) ++ []) := by
      rw [List.append_assoc]
      exact himports.append_of (fun _ _ _ hx => hx.atTop) hyzs
    have hname : kindAt (zs ++ []) 0 ≠ some .name := by
      cases hexports with
      | absent => simp
      | present hx =>
        rw [hx.kindAt_zero]
        simp
    have hfails : imports.Fails (ys ++ zs ++ []) := by
      rw [List.append_assoc]
      exact imports_fails hdefinitions hexports fun _ => rfl
    have himports' : (Matcher.optional imports).Takes xs imports? (ys ++ zs ++ []) :=
      possible_takes himports (fun _ _ hx => hx.takes hyzs) hfails
    have hexports' : (Matcher.optional exports).Takes zs exports? [] :=
      possible_takes hexports (fun _ _ hx => hx.takes (.inr (.inr rfl))) exports_fails_nil
    exact ((blankLines_take hends hxyzs).andKeep (himports'.andThen
      ((definitions_take hdefinitions hzs hname).andThen hexports'))).map _

end Completeness

end Grammar

namespace Module
variable {ts : List Token} {m : Module}

/-- What the parser makes of a match: a token left behind the module is a failure. -/
theorem parse_eq : parse ts = match Grammar.module.eager ts with
    | .error failure => .error failure
    | .ok ([], m) => .ok m
    | .ok (t :: _, _) => .error (.onToken .trailingToken t) := by
  have h := Matcher.run_agrees Grammar.module 0 (Buffer.fresh ts)
  unfold parse read
  rw [List.drop_zero] at h
  generalize Grammar.module.run 0 (Buffer.fresh ts) = outcome, Grammar.module.eager ts = result
    at h ⊢
  cases h with
  | error hb => rfl
  | @ok next node b hb hle hmove =>
    have hpeek := b.peek_fst next
    rw [← List.head?_drop] at hpeek
    dsimp only
    generalize b.peek next = peeked at hpeek ⊢
    obtain ⟨seen, b'⟩ := peeked
    subst hpeek
    cases ts.drop next with
    | nil => rfl
    | cons t rest => rfl

/-- Reading a module leaves nothing behind. -/
theorem parse_eq_ok_iff_eager : parse ts = .ok m ↔ Grammar.module.eager ts = .ok ([], m) := by
  rw [parse_eq]
  split
  next failure h => simp [h]
  next found h => simp [h]
  next t rest found h => simp [h]

/-- The parser accepts what the grammar derives. -/
theorem parse_eq_ok_iff : parse ts = .ok m ↔ Grammar.IsModule ts m := by
  rw [parse_eq_ok_iff_eager]
  constructor
  · intro h
    obtain ⟨ys, rfl, hy⟩ := Matcher.derives_of_eager h
    rw [List.append_nil]
    exact Grammar.isModule_of_derives hy
  · intro h
    have htakes := h.takes
    rwa [Matcher.Takes, List.append_nil] at htakes

/-- The parser accepts exactly the token lists that the grammar derives, with the module that they
derive; there is no other one. -/
theorem parse_exactly_grammar :
    (∀ ts m, parse ts = .ok m ↔ Grammar.IsModule ts m) ∧
      ∀ ts m m', Grammar.IsModule ts m → Grammar.IsModule ts m' → m = m' := by
  refine ⟨fun ts m => parse_eq_ok_iff, fun ts m m' h h' => ?_⟩
  have hm := parse_eq_ok_iff.mpr h
  have hm' := parse_eq_ok_iff.mpr h'
  rw [hm] at hm'
  cases hm'
  rfl

private def halting : List Token :=
  [.ofText .name "halt", .ofText .punct ":", .ofText .newline "\n", .ofText .space " ",
    .ofText .name "end", .ofText .space " ", .ofText .name "stop", .ofText .newline "\n"]

private def halt : Definition :=
  ⟨.ofText .name "halt", [], ⟨.ofText .name "end", [.named 0 "stop"]⟩, []⟩

open Grammar in
private theorem isDefinition_halting : IsDefinition halting halt := by
  have hnewline : IsLineEnd [.ofText .newline "\n"] () := .plain rfl
  have hends : AreLineEnds [.ofText .newline "\n"] := ⟨_, .cons hnewline .nil⟩
  have hlabel : IsLabel [.ofText .name "halt", .ofText .punct ":", .ofText .newline "\n"]
      (.ofText .name "halt") := .intro rfl ⟨rfl, rfl⟩ hends
  have hoperand : IsOperand [.ofText .space " ", .ofText .name "stop"] (.named 0 "stop") :=
    .intro rfl (.reference (.bare rfl))
  have hstatement := IsStatement.intro (rfl : (Token.ofText .space " ").kind = _)
    (rfl : (Token.ofText .name "end").kind = _) (.cons hoperand .nil) hends
  exact .intro (.cons hlabel .nil) (.cons hstatement .nil)

open Grammar in
theorem parse_exactly_grammar_halting : parse halting = .ok ⟨[], [halt], []⟩ ∧
    ∀ m, IsModule halting m → ⟨[], [halt], []⟩ = m := by
  have h : IsModule halting ⟨[], [halt], []⟩ :=
    .intro .nil .absent (.cons isDefinition_halting .nil) .absent
  exact ⟨(parse_exactly_grammar.1 _ _).mpr h, fun m => parse_exactly_grammar.2 _ _ m h⟩

end Module

end ActorAsm
