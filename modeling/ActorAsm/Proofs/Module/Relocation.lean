import ActorAsm.Proofs.Matcher.Simulation
import ActorAsm.Proofs.Module.LongestPrefix
import ActorAsm.Proofs.Module.Translation

/-! Reading tokens that have been moved. Where a token stands does not matter to the parser, and
behind the end of a line it does not matter whether further lines end before the next one begins. -/

namespace ActorAsm

/-- Where lines and columns are moved to. -/
structure Relocation where
  line : Nat → Nat
  column : Nat → Nat
  columnTo : Nat → Nat

section Images
variable (r : Relocation)

def Token.relocate (t : Token) : Token :=
  { t with line := r.line t.line, column := r.column t.column, columnTo := r.columnTo t.columnTo }

/-- The module with all its tokens moved. -/
def Module.relocate (m : Module) : Module := m.mapTokens (Token.relocate r) (Token.relocate r)

def Failure.relocate (failure : Failure) : Failure :=
  { failure with token := failure.token.map (Token.relocate r) }

end Images

/-- When names and words are mapped alike, it does not matter what is a mnemonic. -/
theorem Statement.mapTokens_self (f : Token → Token) (s : Statement) :
    s.mapTokens f f = ⟨f s.operator, s.operands.map (Value.mapTokens f f)⟩ := by
  have hvalue (value : Value) : value.mapMnemonic f f = value.mapTokens f f := by
    unfold Value.mapMnemonic
    split <;> rfl
  obtain ⟨operator, operands⟩ := s
  cases operands with
  | nil => rfl
  | cons first rest => simp [mapTokens, Value.mapOperands, hvalue]

namespace Grammar
open Matcher (Alike Follows follows_noAlternative)

/-- Tokens that have been moved, with any number of empty lines more behind line breaks. -/
inductive Padded (r : Relocation) : List Token → List Token → Prop where
  | nil : Padded r [] []
  | token {xs xs' : List Token} (t : Token) : Padded r xs xs' →
      Padded r (t :: xs) (t.relocate r :: xs')
  | blank {newline : Token} {xs xs' ys : List Token} : newline.kind = .newline →
      IsLineEnd ys () → Padded r xs xs' →
      Padded r (newline :: xs) (newline.relocate r :: (ys ++ xs'))

/-- The same where a line begins: there may be an empty line in front, too. -/
inductive PaddedLine (r : Relocation) : List Token → List Token → Prop where
  | padded {xs xs' : List Token} : Padded r xs xs' → PaddedLine r xs xs'
  | blank {xs xs' ys : List Token} : IsLineEnd ys () → Padded r xs xs' →
      PaddedLine r xs (ys ++ xs')

variable {r : Relocation} {xs xs' : List Token}

theorem padded_map (r : Relocation) (xs : List Token) : Padded r xs (xs.map (Token.relocate r)) := by
  induction xs with
  | nil => exact .nil
  | cons t xs ih => exact .token t ih

section Rules

private theorem follows_one {α : Type} {select : Token → Option α} {φ : α → α}
    (hmoved : ∀ t, select (t.relocate r) = (select t).map φ)
    (hnewline : ∀ t, t.kind = .newline → select t = none) :
    Follows (Padded r) (Padded r) φ (.one select) := by
  -- Behind a line break the lists may differ by more than places, so none must be taken.
  intro xs xs' h
  cases h with
  | nil => exact .error _ _
  | token t h =>
    rw [Matcher.eager, Matcher.eager, hmoved]
    cases select t with
    | none => exact .error _ _
    | some node => exact .ok node h (by simp)
  | blank hn _ _ =>
    rw [Matcher.eager, Matcher.eager, hmoved, hnewline _ hn]
    exact .error _ _

private theorem follows_token {accepts : Token → Bool}
    (hmoved : ∀ t : Token, accepts (t.relocate r) = accepts t)
    (hnewline : ∀ t, t.kind = .newline → accepts t = false) :
    Follows (Padded r) (Padded r) (Token.relocate r) (.token accepts) := by
  refine follows_one (fun t => ?_) fun t ht => ?_
  · rw [hmoved]
    split <;> rfl
  · rw [hnewline t ht]
    rfl

private theorem follows_kind {k : Token.Kind} (hk : k ≠ .newline) :
    Follows (Padded r) (Padded r) (Token.relocate r) (kind k) :=
  follows_token (fun _ => rfl) fun t ht => by simp [ht, hk.symm]

private theorem follows_space : Follows (Padded r) (Padded r) (Token.relocate r) space :=
  follows_kind Token.Kind.noConfusion

private theorem follows_name : Follows (Padded r) (Padded r) (Token.relocate r) name :=
  follows_kind Token.Kind.noConfusion

private theorem follows_punct {text : String} :
    Follows (Padded r) (Padded r) (Token.relocate r) (punct text) :=
  follows_token (fun _ => rfl) fun t ht => by simp [ht]

private theorem follows_keyword {text : String} :
    Follows (Padded r) (Padded r) (Token.relocate r) (keyword text) :=
  follows_token (fun _ => rfl) fun t ht => by simp [ht]

private theorem follows_newline :
    Follows (Padded r) (PaddedLine r) (Token.relocate r) (kind .newline) := by
  intro xs xs' h
  unfold kind Matcher.token
  cases h with
  | nil => exact .error _ _
  | token t h =>
    rw [Matcher.eager, Matcher.eager]
    by_cases ht : t.kind = .newline
    · have ht' : (t.relocate r).kind = .newline := ht
      simp only [ht, ht', decide_true, if_true]
      exact .ok t (.padded h) (by simp)
    · have ht' : (t.relocate r).kind ≠ .newline := ht
      simp only [ht, ht', decide_false, Bool.false_eq_true, if_false]
      exact .error _ _
  | @blank newline xs xs' ys hn hends h =>
    have hn' : (newline.relocate r).kind = .newline := hn
    rw [Matcher.eager, Matcher.eager]
    simp only [hn, hn', decide_true, if_true]
    exact .ok newline (.blank hends h) (by simp)

private theorem follows_lineEnd : Follows (Padded r) (PaddedLine r) id lineEnd :=
  ((follows_space.optional.andKeep (follows_kind Token.Kind.noConfusion)).optional.andThen
    follows_newline).map fun _ => rfl

private theorem IsLineEnd.stepsOn_append {ys rest : List Token} (h : IsLineEnd ys ()) :
    (Matcher.stepsOn lineEnd.eager (ys ++ rest)).1 = (Matcher.stepsOn lineEnd.eager rest).1 := by
  have htakes : lineEnd.eager (ys ++ rest) = .ok (rest, ()) := h.takes
  have hlt : rest.length < (ys ++ rest).length := by
    have hpos := List.length_pos_iff.mpr h.ne_nil
    rw [List.length_append]
    omega
  rw [Matcher.stepsOn, htakes]
  simp only [hlt, if_true]

private theorem length_lt_of_lineEnd {rest : List Token} {u : Unit}
    (h : lineEnd.eager xs = .ok (rest, u)) : rest.length < xs.length := by
  obtain ⟨ys, rfl, hderives⟩ := Matcher.derives_of_eager h
  have hpos := List.length_pos_iff.mpr (isLineEnd_of_derives u hderives).ne_nil
  rw [List.length_append]
  omega

/-- Empty lines are taken until there are none, however many they are. The induction takes them one
by one in the first list, and at most two at a time in the second one. -/
theorem PaddedLine.stepsOn_lineEnd (h : PaddedLine r xs xs') :
    Padded r (Matcher.stepsOn lineEnd.eager xs).1 (Matcher.stepsOn lineEnd.eager xs').1 := by
  induction hn : xs.length using Nat.strongRecOn generalizing xs xs' with
  | ind k ih =>
    have hpadded {xs'' : List Token} (h : Padded r xs xs'') :
        Padded r (Matcher.stepsOn lineEnd.eager xs).1 (Matcher.stepsOn lineEnd.eager xs'').1 := by
      have hstep := follows_lineEnd xs xs'' h
      have hmoves (rest : List Token) (u : Unit) : lineEnd.eager xs = .ok (rest, u) → _ :=
        length_lt_of_lineEnd
      rw [Matcher.stepsOn, Matcher.stepsOn]
      generalize lineEnd.eager xs = result, lineEnd.eager xs'' = result' at hstep hmoves ⊢
      cases hstep with
      | error => exact h
      | @ok rest rest' u hrest hlt =>
        have hmoves := hmoves rest u rfl
        simp only [hmoves, hlt.mp hmoves, if_true]
        exact ih rest.length (hn ▸ hmoves) hrest rfl
    cases h with
    | padded h => exact hpadded h
    | blank hends h =>
      rw [hends.stepsOn_append]
      exact hpadded h

private theorem follows_lineEnds : Follows (Padded r) (Padded r) id lineEnds := by
  -- All line ends are taken, so that what is behind them is no longer at the beginning of a line.
  intro xs xs' h
  have hfirst := follows_lineEnd xs xs' h
  have hmoves (rest : List Token) (u : Unit) : lineEnd.eager xs = .ok (rest, u) → _ :=
    length_lt_of_lineEnd
  have hmoves' (rest : List Token) (u : Unit) : lineEnd.eager xs' = .ok (rest, u) → _ :=
    length_lt_of_lineEnd
  simp only [lineEnds, Matcher.oneOrMore, Matcher.eager]
  generalize lineEnd.eager xs = result, lineEnd.eager xs' = result' at hfirst hmoves hmoves' ⊢
  cases hfirst with
  | error => exact .error _ _
  | @ok rest rest' u hrest _ =>
    have hle : (Matcher.stepsOn lineEnd.eager rest).1.length ≤ rest.length :=
      Matcher.length_le_of_eager (m := lineEnd.zeroOrMore) rfl
    have hle' : (Matcher.stepsOn lineEnd.eager rest').1.length ≤ rest'.length :=
      Matcher.length_le_of_eager (m := lineEnd.zeroOrMore) rfl
    have hlt := hmoves rest u rfl
    have hlt' := hmoves' rest' u rfl
    exact .ok () hrest.stepsOn_lineEnd (iff_of_true (by omega) (by omega))

private theorem follows_directive {text : String} :
    Follows (Padded r) (Padded r) (Token.relocate r) (directive text) :=
  follows_punct.andKeep follows_keyword

private theorem follows_specifier : Follows (Padded r) (Padded r) id specifier :=
  follows_one (fun t => Option.map_id'.symm) fun t ht => by simp [ht]

private theorem follows_importation :
    Follows (Padded r) (Padded r) (Importation.mapTokens (Token.relocate r)) importation :=
  (((follows_space.andKeep follows_name).andDrop follows_punct).andThen
    ((follows_space.andKeep follows_specifier).andDrop follows_lineEnds)).map fun _ => rfl

private theorem follows_imports :
    Follows (Padded r) (Padded r) (List.map (Importation.mapTokens (Token.relocate r))) imports :=
  (follows_directive.andThen follows_lineEnds).andKeep follows_importation.zeroOrMore

private theorem follows_label : Follows (Padded r) (Padded r) (Token.relocate r) label :=
  follows_name.andDrop (follows_punct.andThen follows_lineEnds)

private theorem follows_reference :
    Follows (Padded r) (Padded r) (Reference.mapTokens (Token.relocate r) (Token.relocate r))
      reference := by
  unfold reference
  refine Follows.orElse ?_ (Follows.orElse ?_ follows_noAlternative)
  · exact ((follows_name.andDrop follows_punct).andThen follows_name).map fun _ => rfl
  · exact follows_name.map fun _ => rfl

private theorem follows_number :
    Follows (Padded r) (Padded r) (Value.mapTokens (Token.relocate r) (Token.relocate r))
      number := by
  refine follows_one (fun t => ?_) fun t ht => by simp [ht]
  obtain ⟨kind, text, line, column, columnTo⟩ := t
  cases kind <;> rfl

private theorem follows_value :
    Follows (Padded r) (Padded r) (Value.mapTokens (Token.relocate r) (Token.relocate r)) value := by
  unfold value
  refine Follows.orElse ?_ (follows_number.orElse (Follows.orElse ?_ follows_noAlternative))
  · exact (follows_kind Token.Kind.noConfusion).map fun _ => rfl
  · exact follows_reference.map fun _ => rfl

private theorem follows_statement :
    Follows (Padded r) (Padded r) (Statement.mapTokens (Token.relocate r) (Token.relocate r))
      statement :=
  ((follows_space.andKeep follows_name).andThen
    ((follows_space.andKeep follows_value).zeroOrMore.andDrop follows_lineEnds)).map
      fun (operator, operands) => (Statement.mapTokens_self _ ⟨operator, operands⟩).symm

private theorem follows_definition :
    Follows (Padded r) (Padded r) (Definition.mapTokens (Token.relocate r) (Token.relocate r))
      definition :=
  ((follows_label.andThen follows_label.zeroOrMore).andThen
    (follows_statement.andThen follows_statement.zeroOrMore)).map fun _ => rfl

private theorem follows_exports :
    Follows (Padded r) (Padded r) (List.map (Token.relocate r)) exports :=
  (follows_directive.andThen follows_lineEnds).andKeep
    ((follows_space.andKeep follows_name).andDrop follows_lineEnds).zeroOrMore

private def body : Matcher Module :=
  .map (fun (imports, definitions, exports) => ⟨imports.getD [], definitions, exports.getD []⟩)
    (.andThen (.optional imports) (.andThen (.zeroOrMore definition) (.optional exports)))

private theorem follows_body : Follows (Padded r) (Padded r) (Module.relocate r) body :=
  (follows_imports.optional.andThen
    (follows_definition.zeroOrMore.andThen follows_exports.optional)).map
      fun (imports, definitions, exports) => by cases imports <;> cases exports <;> rfl

private theorem eager_module :
    module.eager xs = body.eager (Matcher.stepsOn lineEnd.eager xs).1 := by
  simp only [module, body, Matcher.andKeep, Matcher.eager]
  generalize (Matcher.optional imports).eager (Matcher.stepsOn lineEnd.eager xs).1 = result
  cases result with
  | error failure => rfl
  | ok found =>
    dsimp only
    generalize (Matcher.optional exports).eager (Matcher.stepsOn definition.eager found.1).1 = result
    cases result <;> rfl

end Rules

end Grammar

namespace Module
open Grammar (Padded PaddedLine IsLineEnd)
variable {r : Relocation} {ts ts' ys : List Token}

/-- Reading moved tokens gives the moved module, and fails at the moved token, whatever empty lines
have come in between. -/
theorem parse_paddedLine (h : PaddedLine r ts ts') :
    parse ts' = ((parse ts).map (Module.relocate r)).mapError (Failure.relocate r) := by
  obtain ⟨rest, m, hts⟩ := exists_eager_module ts
  have halike := Grammar.follows_body _ _ h.stepsOn_lineEnd
  rw [← Grammar.eager_module, ← Grammar.eager_module, hts] at halike
  rw [parse_eq, parse_eq, hts]
  generalize Grammar.module.eager ts' = result at halike ⊢
  cases halike with
  | ok m hrest hlt => cases hrest <;> rfl

end Module

end ActorAsm
