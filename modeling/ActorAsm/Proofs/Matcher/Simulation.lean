import ActorAsm.Proofs.Matcher.Derivation

/-! Matching on two lists at once. One relation holds between the lists in front of a match and one
between what is left behind it; matchers that keep to their relations can be put together, and
neither of the two runs ever takes an alternative or one more step alone. -/

namespace ActorAsm.Matcher

variable {α β : Type} {S T U : List Token → List Token → Prop}

/-- Both results are failures, or both are matches, with related rests and a node that is the image
of the other one. Either both have moved or none has. -/
inductive Alike (T : List Token → List Token → Prop) (φ : α → α) (xs xs' : List Token) :
    Result α → Result α → Prop where
  | error (failure failure' : Failure) : Alike T φ xs xs' (.error failure) (.error failure')
  | ok {rest rest' : List Token} (node : α) : T rest rest' →
      (rest.length < xs.length ↔ rest'.length < xs'.length) →
      Alike T φ xs xs' (.ok (rest, node)) (.ok (rest', φ node))

/-- From related lists on the matcher matches alike. -/
def Follows (S T : List Token → List Token → Prop) (φ : α → α) (m : Matcher α) : Prop :=
  ∀ xs xs', S xs xs' → Alike T φ xs xs' (m.eager xs) (m.eager xs')

theorem follows_nothing : Follows S S id nothing :=
  fun _ _ h => .ok () h (by simp)

theorem follows_noAlternative {φ : α → α} : Follows S T φ noAlternative :=
  fun _ _ _ => .error _ _

namespace Follows
variable {m second : Matcher α} {n : Matcher β} {φ : α → α} {ψ : β → β}

theorem orElse (hm : Follows S T φ m) (hs : Follows S T φ second) :
    Follows S T φ (orElse m second) := by
  intro xs xs' h
  have hfirst := hm xs xs' h
  rw [eager, eager]
  generalize m.eager xs = result, m.eager xs' = result' at hfirst ⊢
  cases hfirst with
  | error => exact hs xs xs' h
  | ok node hrest hlt => exact .ok node hrest hlt

theorem andThen (hm : Follows S T φ m) (hn : Follows T U ψ n) :
    Follows S U (Prod.map φ ψ) (andThen m n) := by
  intro xs xs' h
  have hfirst := hm xs xs' h
  have hle (rest : List Token) (node : α) : m.eager xs = .ok (rest, node) → _ := length_le_of_eager
  have hle' (rest : List Token) (node : α) : m.eager xs' = .ok (rest, node) → _ :=
    length_le_of_eager
  rw [eager, eager]
  generalize m.eager xs = result, m.eager xs' = result' at hfirst hle hle' ⊢
  cases hfirst with
  | error => exact .error _ _
  | @ok rest rest' node hrest hlt =>
    have hmiddle := hle rest node rfl
    have hmiddle' := hle' rest' (φ node) rfl
    have hsecond := hn rest rest' hrest
    have hle (left : List Token) (right : β) : n.eager rest = .ok (left, right) → _ :=
      length_le_of_eager
    have hle' (left : List Token) (right : β) : n.eager rest' = .ok (left, right) → _ :=
      length_le_of_eager
    dsimp only
    generalize n.eager rest = result, n.eager rest' = result' at hsecond hle hle' ⊢
    cases hsecond with
    | error => exact .error _ _
    | @ok left left' right hleft hlt' =>
      have hbehind := hle left right rfl
      have hbehind' := hle' left' (ψ right) rfl
      exact .ok (node, right) hleft (by omega)

theorem map {f : α → β} (hm : Follows S T φ m) (hf : ∀ node, f (φ node) = ψ (f node)) :
    Follows S T ψ (map f m) := by
  intro xs xs' h
  have hinner := hm xs xs' h
  rw [eager, eager]
  generalize m.eager xs = result, m.eager xs' = result' at hinner ⊢
  cases hinner with
  | error => exact .error _ _
  | ok node hrest hlt =>
    dsimp only
    rw [hf]
    exact .ok (f node) hrest hlt

theorem stepsOn (hm : Follows S S φ m) (xs xs' : List Token) (h : S xs xs') :
    Alike S (List.map φ) xs xs' (.ok (stepsOn m.eager xs)) (.ok (stepsOn m.eager xs')) := by
  induction hn : xs.length using Nat.strongRecOn generalizing xs xs' with
  | ind k ih =>
    have hstep := hm xs xs' h
    rw [Matcher.stepsOn, Matcher.stepsOn]
    generalize m.eager xs = result, m.eager xs' = result' at hstep ⊢
    cases hstep with
    | error => exact .ok [] h (by simp)
    | @ok rest rest' node hrest hlt =>
      by_cases hmoves : rest.length < xs.length
      · have hall := ih rest.length (hn ▸ hmoves) rest rest' hrest rfl
        have hle : (Matcher.stepsOn m.eager rest).1.length ≤ rest.length :=
          length_le_of_eager (m := m.zeroOrMore) rfl
        have hle' : (Matcher.stepsOn m.eager rest').1.length ≤ rest'.length :=
          length_le_of_eager (m := m.zeroOrMore) rfl
        have hmoves' := hlt.mp hmoves
        simp only [hmoves, hmoves', if_true]
        generalize Matcher.stepsOn m.eager rest = found, Matcher.stepsOn m.eager rest' = found'
          at hall hle hle' ⊢
        cases hall with
        | ok nodes hleft _ => exact .ok (node :: nodes) hleft (by omega)
      · simp only [hmoves, mt hlt.mpr hmoves, if_false]
        exact .ok [node] hrest hlt

theorem zeroOrMore (hm : Follows S S φ m) : Follows S S (List.map φ) m.zeroOrMore := by
  intro xs xs' h
  rw [eager, eager]
  exact hm.stepsOn xs xs' h

theorem optional (hm : Follows S S φ m) : Follows S S (Option.map φ) m.optional := by
  have hpresent : Follows S S (Option.map φ) (Matcher.map some m) := hm.map fun _ => rfl
  have habsent : Follows S S (Option.map φ) (Matcher.map (fun _ => none) nothing) :=
    follows_nothing.map fun _ => rfl
  exact hpresent.orElse (habsent.orElse follows_noAlternative)

theorem andKeep (hm : Follows S T φ m) (hn : Follows T U ψ n) : Follows S U ψ (andKeep m n) :=
  (hm.andThen hn).map fun _ => rfl

theorem andDrop (hm : Follows S T φ m) (hn : Follows T U ψ n) : Follows S U φ (andDrop m n) :=
  (hm.andThen hn).map fun _ => rfl

end Follows

end ActorAsm.Matcher
