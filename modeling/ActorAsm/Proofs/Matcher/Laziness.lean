import ActorAsm.Proofs.Matcher.Eager

/-! What the buffer costs and what it cannot change. Whatever has been done on a buffer before, a
run comes to what matching on the whole list from its position comes to, and draws no token behind
the greatest position that this matching looks at. -/

namespace ActorAsm

namespace Buffer
variable {ts : List Token}

theorem drawn_eq_take (b : Buffer ts) : b.drawn.toList = ts.take b.pulled := by
  have h : b.drawn.toList <+: ts := ⟨b.pending, b.drawn_append_pending⟩
  exact List.prefix_iff_eq_take.1 h

private theorem pending_eq_drop (b : Buffer ts) : b.pending = ts.drop b.pulled := by
  obtain ⟨drawn, pending, rfl⟩ := b
  exact (List.drop_left' rfl).symm

/-- How many tokens have been drawn is all that there is to a buffer. -/
theorem eq_of_pulled_eq {b b' : Buffer ts} (h : b.pulled = b'.pulled) : b = b' := by
  have hdrawn : b.drawn = b'.drawn := by
    rw [← Array.toList_inj, drawn_eq_take, drawn_eq_take, h]
  have hpending : b.pending = b'.pending := by rw [pending_eq_drop, pending_eq_drop, h]
  cases b
  cases b'
  cases hdrawn
  cases hpending
  rfl

end Buffer

/-- One past the greatest of the positions, zero if there is none. -/
def reach (positions : List Nat) : Nat := (positions.map (· + 1)).foldr max 0

private theorem reach_nil : reach [] = 0 := rfl

private theorem reach_append (ps qs : List Nat) : reach (ps ++ qs) = max (reach ps) (reach qs) := by
  induction ps with
  | nil => exact (Nat.zero_max _).symm
  | cons p ps ih =>
    change max (p + 1) (reach (ps ++ qs)) = max (max (p + 1) (reach ps)) (reach qs)
    rw [ih, Nat.max_assoc]

theorem reach_le_iff {positions : List Nat} {n : Nat} :
    reach positions ≤ n ↔ ∀ p ∈ positions, p < n := by
  induction positions with
  | nil => simp [reach_nil]
  | cons p positions ih =>
    rw [List.forall_mem_cons, ← ih]
    exact Nat.max_le

namespace Matcher
variable {α β : Type} {ts : List Token} {position : Nat}

/-- Matching on the whole list from a position on. -/
def eagerAt (m : Matcher α) (ts : List Token) (position : Nat) : Outcome α :=
  match m.eager (ts.drop position) with
  | .error failure => .error failure
  | .ok (rest, node) => .ok (position + ((ts.drop position).length - rest.length), node)

/-- The positions at which steps look, when each is taken where the one before it ends. -/
def stepsLooks (step : List Token → Result α) (looks : Nat → List Token → List Nat)
    (position : Nat) (xs : List Token) : List Nat :=
  looks position xs ++
    match step xs with
    | .error _ => []
    | .ok (rest, _) =>
      if rest.length < xs.length then
        stepsLooks step looks (position + (xs.length - rest.length)) rest
      else []
termination_by xs.length

/-- The positions at which matching looks, for tokens of which the first is at this position. -/
def looks : {α : Type} → Matcher α → Nat → List Token → List Nat
  | _, .nothing, _, _ => []
  | _, .one _, position, _ => [position]
  | _, .noAlternative, position, _ => [position]
  | _, .orElse first second, position, xs =>
    first.looks position xs ++
      match first.eager xs with
      | .ok _ => []
      | .error _ => second.looks position xs
  | _, .andThen first second, position, xs =>
    first.looks position xs ++
      match first.eager xs with
      | .ok (rest, _) => second.looks (position + (xs.length - rest.length)) rest
      | .error _ => []
  | _, .map _ m, position, xs => m.looks position xs
  | _, .zeroOrMore m, position, xs => stepsLooks m.eager m.looks position xs

private theorem position_eq {next : Nat} (hle : position ≤ next)
    (hmove : position < next → next ≤ ts.length) :
    position + ((ts.drop position).length - (ts.drop next).length) = next := by
  rw [List.length_drop, List.length_drop]
  omega

/-- A run comes to what matching on the whole list comes to. -/
theorem run_fst (m : Matcher α) (position : Nat) (b : Buffer ts) :
    (m.run position b).1 = m.eagerAt ts position := by
  have h := m.run_agrees position b
  rw [eagerAt]
  generalize m.run position b = outcome, m.eager (ts.drop position) = result at h ⊢
  cases h with
  | error _ => rfl
  | ok _ hle hmove =>
    dsimp only
    rw [position_eq hle fun hlt => Nat.le_trans (hmove hlt) (Buffer.pulled_le_length _)]

private theorem max_min_max (pulled n p q : Nat) :
    max (max pulled (min n p)) (min n q) = max pulled (min n (max p q)) := by
  omega

private theorem pulled_steps {step : Nat → Buffer ts → Outcome α × Buffer ts}
    {stepOn : List Token → Result α} {looks : Nat → List Token → List Nat}
    (hstep : ∀ position b, Agrees position b (step position b) (stepOn (ts.drop position)))
    (hpulled : ∀ position b, (step position b).2.pulled =
      max b.pulled (min ts.length (reach (looks position (ts.drop position)))))
    (position : Nat) (nodes : Array α) (b : Buffer ts) :
    (steps step position nodes b).2.pulled = max b.pulled
      (min ts.length (reach (stepsLooks stepOn looks position (ts.drop position)))) := by
  induction hn : ts.length - position using Nat.strongRecOn generalizing position nodes b with
  | ind n ih =>
    rw [steps, stepsLooks, reach_append]
    have hs := hstep position b
    have hp := hpulled position b
    generalize step position b = outcome, stepOn (ts.drop position) = result at hs hp ⊢
    cases hs with
    | error _ =>
      dsimp only
      rw [hp, reach_nil, Nat.max_zero]
    | @ok next node b' hb hle hmove =>
      by_cases hlt : position < next
      · have hdrawn := hmove hlt
        have hnext := Nat.le_trans hdrawn b'.pulled_le_length
        have hshort : (ts.drop next).length < (ts.drop position).length := by
          rw [List.length_drop, List.length_drop]
          omega
        simp only [hlt, hdrawn, and_self, if_true, hshort]
        rw [ih (ts.length - next) (by omega) next _ b' rfl, position_eq hle fun _ => hnext, hp,
          max_min_max]
      · obtain rfl : position = next := by omega
        simp only [Nat.lt_irrefl, false_and, if_false]
        rw [hp, reach_nil, Nat.max_zero]

/-- A run draws up to the greatest position that the matching looks at, unless more has been drawn
before. -/
theorem pulled_run (m : Matcher α) (position : Nat) (b : Buffer ts) :
    (m.run position b).2.pulled =
      max b.pulled (min ts.length (reach (m.looks position (ts.drop position)))) := by
  induction m generalizing position b with
  | nothing => exact (Nat.max_eq_left (by simp [looks, reach])).symm
  | one select =>
    have hlook : ((one select).run position b).2 = (b.peek position).2 := by
      rw [run]
      generalize b.peek position = peeked
      obtain ⟨seen, b'⟩ := peeked
      cases seen with
      | none => rfl
      | some t =>
        dsimp only
        cases select t <;> rfl
    rw [hlook]
    exact b.pulled_peek position
  | noAlternative => exact b.pulled_peek position
  | orElse first second ihf ihs =>
    rw [run, looks, reach_append]
    have hf := first.run_agrees position b
    have hp := ihf position b
    generalize first.run position b = outcome, first.eager (ts.drop position) = result
      at hf hp ⊢
    cases hf with
    | error _ => exact (ihs position _).trans (by rw [hp, max_min_max])
    | ok _ _ _ => exact hp.trans (by rw [reach_nil, Nat.max_zero])
  | andThen first second ihf ihs =>
    rw [run, looks, reach_append]
    have hf := first.run_agrees position b
    have hp := ihf position b
    generalize first.run position b = outcome, first.eager (ts.drop position) = result
      at hf hp ⊢
    cases hf with
    | error _ => exact hp.trans (by rw [reach_nil, Nat.max_zero])
    | @ok next node b' hb hle hmove =>
      dsimp only
      rw [position_eq hle fun hlt => Nat.le_trans (hmove hlt) b'.pulled_le_length]
      have hs := ihs next b'
      rw [hp, max_min_max] at hs
      generalize second.run next b' = outcome at hs ⊢
      obtain ⟨_ | ⟨last, right⟩, b''⟩ := outcome <;> exact hs
  | map f m ih =>
    have hm := ih position b
    rw [run, looks]
    generalize m.run position b = outcome at hm ⊢
    obtain ⟨_ | ⟨last, node⟩, b'⟩ := outcome <;> exact hm
  | zeroOrMore m ih => exact pulled_steps m.run_agrees ih position #[] b

/-- A run that is repeated comes to the same and draws nothing more. -/
theorem run_run_snd (m : Matcher α) (position : Nat) (b : Buffer ts) :
    m.run position (m.run position b).2 = m.run position b := by
  refine Prod.ext (by rw [run_fst, run_fst]) (Buffer.eq_of_pulled_eq ?_)
  rw [pulled_run, pulled_run, Nat.max_assoc, Nat.max_self]

end Matcher

/-- What can be done on a buffer: look at the token at a position, move on to the next position, or
match from a position on. No position need be one that has a token. -/
inductive Buffer.Use where
  | token (position : Nat)
  | next (position : Nat)
  | run {α : Type} (m : Matcher α) (position : Nat)

namespace Buffer

/-- The buffer when it has been used once more. -/
def after {ts : List Token} (b : Buffer ts) : Use → Buffer ts
  | .token position => (b.peek position).2
  | .next _ => b
  | .run m position => (m.run position b).2

/-- The buffer over a stream that has been used like this. -/
def afterAll (ts : List Token) (history : List Use) : Buffer ts :=
  history.foldl after (fresh ts)

end Buffer

/-- Whatever a buffer has been used for, a run comes to what matching on the whole list comes to.
The buffer holds what the stream began with and the stream has the rest; a run draws up to the
greatest position that the matching looks at, unless more has been drawn already. -/
theorem Matcher.run_afterAll {α : Type} (ts : List Token) (history : List Buffer.Use)
    (m : Matcher α) (position : Nat) :
    let b := Buffer.afterAll ts history
    let b' := b.after (.run m position)
    (m.run position b).1 = m.eagerAt ts position ∧
      (b.drawn.toList = ts.take b.pulled ∧ b.pending = ts.drop b.pulled) ∧
      (b'.drawn.toList = ts.take b'.pulled ∧ b'.pending = ts.drop b'.pulled) ∧
      b'.pulled = max b.pulled (min ts.length (reach (m.looks position (ts.drop position)))) := by
  intro b b'
  exact ⟨m.run_fst position b, ⟨b.drawn_eq_take, b.pending_eq_drop⟩,
    ⟨b'.drawn_eq_take, b'.pending_eq_drop⟩, m.pulled_run position b⟩

end ActorAsm
