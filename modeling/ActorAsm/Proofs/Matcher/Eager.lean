import ActorAsm.Matcher.Basic

/-! Matching on a plain list of tokens. Running a matcher on a buffer, whatever the buffer has
drawn before, comes to matching on what the list has from the position on. -/

namespace ActorAsm

namespace Buffer
variable {ts : List Token}

private theorem size_fill (position : Nat) (drawn : Array Token) (pending : List Token)
    (h : drawn.toList ++ pending = ts) :
    (fill position drawn pending h).drawn.size = max drawn.size (min ts.length (position + 1)) := by
  have hlength := congrArg List.length h
  rw [List.length_append, Array.length_toList] at hlength
  induction pending generalizing drawn with
  | nil =>
    rw [List.length_nil] at hlength
    rw [fill]
    dsimp only
    omega
  | cons t pending ih =>
    rw [List.length_cons] at hlength
    rw [fill]
    split
    · have hpush : (drawn.push t).toList ++ pending = ts := by simpa using h
      rw [ih _ hpush (by rw [Array.size_push]; omega), Array.size_push]
      omega
    · dsimp only
      omega

/-- Looking at a position draws the tokens up to it, as far as there are any. -/
theorem pulled_peek (b : Buffer ts) (position : Nat) :
    (b.peek position).2.pulled = max b.pulled (min ts.length (position + 1)) :=
  size_fill position b.drawn b.pending b.drawn_append_pending

/-- Looking at a position takes nothing back. -/
theorem pulled_le_pulled_peek (b : Buffer ts) (position : Nat) :
    b.pulled ≤ (b.peek position).2.pulled :=
  b.pulled_peek position ▸ Nat.le_max_left _ _

/-- A token that has been seen has been drawn. -/
theorem lt_pulled_peek {b : Buffer ts} {position : Nat} {t : Token}
    (h : (b.peek position).1 = some t) : position < (b.peek position).2.pulled := by
  obtain ⟨hlt, -⟩ := Array.getElem?_eq_some_iff.mp h
  exact hlt

end Buffer

namespace Matcher
variable {α β : Type}

/-- What is left behind a match and its node, or the failure. -/
abbrev Result (α : Type) : Type := Except Failure (List Token × α)

/-- Take steps while they succeed, up to the first that consumes nothing. -/
def stepsOn (step : List Token → Result α) (xs : List Token) : List Token × List α :=
  match step xs with
  | .error _ => (xs, [])
  | .ok (rest, node) =>
    if rest.length < xs.length then
      let (left, nodes) := stepsOn step rest
      (left, node :: nodes)
    else (rest, [node])
termination_by xs.length

/-- Match from the beginning of a list. -/
def eager : {α : Type} → Matcher α → List Token → Result α
  | _, .nothing, xs => .ok (xs, ())
  | _, .one _, [] => .error .endOfStream
  | _, .one select, t :: xs =>
    match select t with
    | some node => .ok (xs, node)
    | none => .error (.onToken .rejected t)
  | _, .noAlternative, xs => .error ⟨.noAlternative, xs.head?⟩
  | _, .orElse first second, xs =>
    match first.eager xs with
    | .ok found => .ok found
    | .error _ => second.eager xs
  | _, .andThen first second, xs =>
    match first.eager xs with
    | .error failure => .error failure
    | .ok (xs, left) =>
      match second.eager xs with
      | .error failure => .error failure
      | .ok (xs, right) => .ok (xs, left, right)
  | _, .map f matcher, xs =>
    match matcher.eager xs with
    | .error failure => .error failure
    | .ok (xs, node) => .ok (xs, f node)
  | _, .zeroOrMore matcher, xs => .ok (stepsOn matcher.eager xs)

section Inversion
variable {m : Matcher α} {xs rest : List Token} {node : α}

theorem eager_one_eq_ok_iff {select : Token → Option α} :
    (one select).eager xs = .ok (rest, node) ↔ ∃ t, xs = t :: rest ∧ select t = some node := by
  constructor
  · intro h
    cases xs with
    | nil => cases h
    | cons t xs =>
      rw [eager] at h
      cases hs : select t with
      | none =>
        rw [hs] at h
        cases h
      | some found =>
        rw [hs] at h
        cases h
        exact ⟨t, rfl, hs⟩
  · rintro ⟨t, rfl, hs⟩
    rw [eager, hs]

/-- The second alternative is taken only if the first one fails. -/
theorem eager_orElse_eq_ok_iff {second : Matcher α} {found : List Token × α} :
    (orElse m second).eager xs = .ok found ↔
      m.eager xs = .ok found ∨ (∀ other, m.eager xs ≠ .ok other) ∧ second.eager xs = .ok found := by
  rw [eager]
  cases m.eager xs <;> simp

theorem eager_andThen_eq_ok_iff {second : Matcher β} {right : β} :
    (andThen m second).eager xs = .ok (rest, node, right) ↔
      ∃ middle, m.eager xs = .ok (middle, node) ∧ second.eager middle = .ok (rest, right) := by
  rw [eager]
  constructor
  · intro h
    cases hm : m.eager xs with
    | error failure =>
      rw [hm] at h
      cases h
    | ok found =>
      obtain ⟨middle, left⟩ := found
      cases hs : second.eager middle with
      | error failure =>
        simp only [hm, hs] at h
        cases h
      | ok found =>
        simp only [hm, hs] at h
        cases h
        exact ⟨middle, rfl, hs⟩
  · rintro ⟨middle, hm, hs⟩
    simp only [hm, hs]

theorem eager_map_eq_ok_iff {f : α → β} {image : β} :
    (map f m).eager xs = .ok (rest, image) ↔
      ∃ node, m.eager xs = .ok (rest, node) ∧ f node = image := by
  rw [eager]
  constructor
  · intro h
    cases hm : m.eager xs with
    | error failure =>
      rw [hm] at h
      cases h
    | ok found =>
      rw [hm] at h
      cases h
      exact ⟨_, rfl, rfl⟩
  · rintro ⟨node, hm, rfl⟩
    rw [hm]

end Inversion

variable {ts : List Token} {position : Nat}

/-- A run from a position agrees with a match on the list from there. A run that moves has drawn
all that it moves over. -/
inductive Agrees (position : Nat) (b : Buffer ts) : Outcome α × Buffer ts → Result α → Prop where
  | error {failure : Failure} {b' : Buffer ts} : b.pulled ≤ b'.pulled →
      Agrees position b (.error failure, b') (.error failure)
  | ok {next : Nat} {node : α} {b' : Buffer ts} : b.pulled ≤ b'.pulled → position ≤ next →
      (position < next → next ≤ b'.pulled) →
      Agrees position b (.ok (next, node), b') (.ok (ts.drop next, node))

private theorem Agrees.after {next : Nat} {b b' : Buffer ts} {outcome : Outcome α × Buffer ts}
    {result : Result α} (h : Agrees next b' outcome result) (hb : b.pulled ≤ b'.pulled)
    (hle : position ≤ next) (hmove : position < next → next ≤ b'.pulled) :
    Agrees position b outcome result := by
  cases h with
  | error hb' => exact .error (Nat.le_trans hb hb')
  | @ok last node b'' hb' hle' hmove' =>
    refine .ok (Nat.le_trans hb hb') (Nat.le_trans hle hle') fun hlt => ?_
    by_cases hn : next < last
    · exact hmove' hn
    · have hnext := hmove (by omega)
      omega

private theorem length_drop_lt_iff {next : Nat} (h : next ≤ ts.length) :
    (ts.drop next).length < (ts.drop position).length ↔ position < next := by
  rw [List.length_drop, List.length_drop]
  omega

private theorem steps_agrees {step : Nat → Buffer ts → Outcome α × Buffer ts}
    {stepOn : List Token → Result α}
    (hstep : ∀ position b, Agrees position b (step position b) (stepOn (ts.drop position)))
    (position : Nat) (nodes : Array α) (b : Buffer ts) :
    Agrees position b (steps step position nodes b)
      (.ok ((stepsOn stepOn (ts.drop position)).1,
        nodes.toList ++ (stepsOn stepOn (ts.drop position)).2)) := by
  induction hn : ts.length - position using Nat.strongRecOn generalizing position nodes b with
  | ind n ih =>
    rw [steps, stepsOn]
    have hs := hstep position b
    generalize step position b = outcome, stepOn (ts.drop position) = result at hs ⊢
    cases hs with
    | error hb => simpa using Agrees.ok hb (Nat.le_refl _) (fun h => absurd h (Nat.lt_irrefl _))
    | @ok next node b' hb hle hmove =>
      by_cases hlt : position < next
      · have hpulled := hmove hlt
        have hnext := Nat.le_trans hpulled b'.pulled_le_length
        have hrec := ih (ts.length - next) (by omega) next (nodes.push node) b' rfl
        simp only [hlt, hpulled, and_self, if_true, (length_drop_lt_iff hnext).mpr hlt]
        rw [Array.toList_push, List.append_assoc, List.singleton_append] at hrec
        exact hrec.after hb hle hmove
      · obtain rfl : position = next := by omega
        simpa using Agrees.ok hb hle hmove

private theorem run_one_agrees (select : Token → Option α) (position : Nat) (b : Buffer ts) :
    Agrees position b ((one select).run position b) ((one select).eager (ts.drop position)) := by
  have hseen : (b.peek position).1 = (ts.drop position).head? := by
    rw [b.peek_fst, List.head?_drop]
  have hb := b.pulled_le_pulled_peek position
  have hdrawn {t : Token} (h : (b.peek position).1 = some t) := Buffer.lt_pulled_peek h
  rw [run]
  generalize b.peek position = peeked at hseen hb hdrawn ⊢
  obtain ⟨seen, b'⟩ := peeked
  subst hseen
  cases hd : ts.drop position with
  | nil => exact .error hb
  | cons t rest =>
    rw [hd, List.head?_cons] at hdrawn
    have hrest : rest = ts.drop (position + 1) := by
      rw [← List.drop_drop, hd, List.drop_succ_cons, List.drop_zero]
    simp only [List.head?_cons, eager]
    cases select t with
    | none => exact .error hb
    | some node =>
      rw [hrest]
      exact .ok hb (Nat.le_succ _) fun _ => hdrawn rfl

/-- Running a matcher is matching on what is left of the list. -/
theorem run_agrees (m : Matcher α) (position : Nat) (b : Buffer ts) :
    Agrees position b (m.run position b) (m.eager (ts.drop position)) := by
  induction m generalizing position b with
  | nothing => exact .ok (Nat.le_refl _) (Nat.le_refl _) fun h => absurd h (Nat.lt_irrefl _)
  | one select => exact run_one_agrees select position b
  | noAlternative =>
    rw [run, eager, List.head?_drop, ← b.peek_fst position]
    exact .error (b.pulled_le_pulled_peek position)
  | orElse first second ihf ihs =>
    rw [run, eager]
    have hf := ihf position b
    generalize first.run position b = outcome, first.eager (ts.drop position) = result at hf ⊢
    cases hf with
    | error hb => exact (ihs position _).after hb (Nat.le_refl _) fun h => absurd h (Nat.lt_irrefl _)
    | ok hb hle hmove => exact .ok hb hle hmove
  | andThen first second ihf ihs =>
    rw [run, eager]
    have hf := ihf position b
    generalize first.run position b = outcome, first.eager (ts.drop position) = result at hf ⊢
    cases hf with
    | error hb => exact .error hb
    | @ok next node b' hb hle hmove =>
      have hs := ihs next b'
      dsimp only
      generalize second.run next b' = outcome, second.eager (ts.drop next) = result at hs ⊢
      cases hs with
      | error hb' => exact .error (Nat.le_trans hb hb')
      | ok hb' hle' hmove' =>
        exact (Agrees.ok hb' hle' hmove').after hb hle hmove
  | map f m ih =>
    rw [run, eager]
    have h := ih position b
    generalize m.run position b = outcome, m.eager (ts.drop position) = result at h ⊢
    cases h with
    | error hb => exact .error hb
    | ok hb hle hmove => exact .ok hb hle hmove
  | zeroOrMore m ih => simpa [run, eager] using steps_agrees ih position #[] b

/-- A match does not go back, it draws all that it moves over, and it leaves behind what the list has
from its end on. -/
theorem eager_of_run {m : Matcher α} {next : Nat} {node : α} {b b' : Buffer ts}
    (h : m.run position b = (.ok (next, node), b')) :
    position ≤ next ∧ (position < next → next ≤ b'.pulled) ∧
      m.eager (ts.drop position) = .ok (ts.drop next, node) := by
  have hrun := m.run_agrees position b
  rw [h] at hrun
  generalize m.eager (ts.drop position) = result at hrun ⊢
  cases hrun with
  | ok _ hle hmove => exact ⟨hle, hmove, rfl⟩

end Matcher

end ActorAsm
