import ActorAsm.Proofs.Matcher.Laziness

/-! Repetitions. They end with every matcher, because a run that moves gets nearer to the end of the
stream and a run that does not is the last one. -/

namespace ActorAsm.Matcher
variable {α : Type} {ts : List Token} {m : Matcher α} {position next last : Nat} {node : α}
  {nodes : List α} {b b' b'' : Buffer ts} {failure : Failure}

/-- Successive runs, each from where the one before it ends, up to one that fails or consumes nothing.
The buffer is handed on from run to run. -/
inductive Repeats (m : Matcher α) : Nat → Buffer ts → Nat → List α → Buffer ts → Prop
  | fails {position : Nat} {b b' : Buffer ts} {failure : Failure} :
      m.run position b = (.error failure, b') → Repeats m position b position [] b'
  | stalls {position : Nat} {b b' : Buffer ts} {node : α} :
      m.run position b = (.ok (position, node), b') → Repeats m position b position [node] b'
  | moves {position next last : Nat} {b b' b'' : Buffer ts} {node : α} {nodes : List α} :
      m.run position b = (.ok (next, node), b') → position < next →
        Repeats m next b' last nodes b'' → Repeats m position b last (node :: nodes) b''

/-- There are such runs from every position, one at most for each token that is left and another one
that ends them. The induction is on what is left. -/
theorem exists_repeats (m : Matcher α) (position : Nat) (b : Buffer ts) :
    ∃ last nodes b', Repeats m position b last nodes b' ∧
      nodes.length ≤ ts.length - position + 1 := by
  induction hn : ts.length - position using Nat.strongRecOn generalizing position b with
  | ind n ih =>
    cases hrun : m.run position b with
    | mk outcome b' =>
    cases outcome with
    | error failure => exact ⟨position, [], b', .fails hrun, Nat.zero_le _⟩
    | ok found =>
      obtain ⟨next, node⟩ := found
      obtain ⟨hle, hmove, -⟩ := eager_of_run hrun
      rcases Nat.lt_or_eq_of_le hle with hlt | rfl
      · have hnext := Nat.le_trans (hmove hlt) b'.pulled_le_length
        obtain ⟨last, nodes, b'', hrest, hlength⟩ :=
          ih (ts.length - next) (by omega) next b' rfl
        refine ⟨last, node :: nodes, b'', .moves hrun hlt hrest, ?_⟩
        rw [List.length_cons]
        omega
      · exact ⟨position, [node], b', .stalls hrun, by simp⟩

/-- These runs are the steps of a repetition. -/
theorem Repeats.steps_eq (h : Repeats m position b last nodes b') (front : Array α) :
    steps m.run position front b = (.ok (last, front.toList ++ nodes), b') := by
  induction h generalizing front with
  | fails hrun =>
    rw [steps, hrun]
    simp
  | stalls hrun =>
    rw [steps, hrun]
    simp
  | moves hrun hlt _ ih =>
    -- A step goes on from tokens that have been drawn only, and a run that moves has drawn them.
    obtain ⟨-, hmove, -⟩ := eager_of_run hrun
    have hdrawn := hmove hlt
    rw [steps, hrun]
    simp [hlt, hdrawn, ih]

theorem Repeats.run_zeroOrMore (h : Repeats m position b last nodes b') :
    m.zeroOrMore.run position b = (.ok (last, nodes), b') := by
  rw [run, h.steps_eq]
  simp

private theorem run_oneOrMore_of_error (h : m.run position b = (.error failure, b')) :
    m.oneOrMore.run position b = (.error failure, b') := by
  simp only [oneOrMore, run, h]

theorem Repeats.run_oneOrMore (h : m.run position b = (.ok (next, node), b'))
    (hrest : Repeats m next b' last nodes b'') :
    m.oneOrMore.run position b = (.ok (last, node :: nodes), b'') := by
  have hsteps := hrest.run_zeroOrMore
  rw [run] at hsteps
  simp only [oneOrMore, run, h, hsteps]

/-- A repetition always succeeds, with the nodes of successive runs up to the first that fails or
consumes nothing. At least one match is demanded of the matcher by a repetition that fails with it,
and only with it; if the first run moves, it comes to the other repetition, and if the first run
stays, its node is there twice and not once. -/
theorem repetition_by_runs (m : Matcher α) (position : Nat) (b : Buffer ts) :
    (∃ last nodes b', m.zeroOrMore.run position b = (.ok (last, nodes), b') ∧
      Repeats m position b last nodes b' ∧ nodes.length ≤ ts.length - position + 1) ∧
    (∀ failure, (m.oneOrMore.run position b).1 = .error failure ↔
      (m.run position b).1 = .error failure) ∧
    (∀ next node b', m.run position b = (.ok (next, node), b') → position < next →
      m.oneOrMore.run position b = m.zeroOrMore.run position b) ∧
    ∀ node b', m.run position b = (.ok (position, node), b') →
      m.oneOrMore.run position b = (.ok (position, [node, node]), b') ∧
        m.zeroOrMore.run position b = (.ok (position, [node]), b') := by
  refine ⟨?_, fun failure => ?_, fun next node b' hrun hlt => ?_, fun node b' hrun => ?_⟩
  · obtain ⟨last, nodes, b', hruns, hlength⟩ := exists_repeats m position b
    exact ⟨last, nodes, b', hruns.run_zeroOrMore, hruns, hlength⟩
  · cases hrun : m.run position b with
    | mk outcome b' =>
    cases outcome with
    | error other =>
      rw [run_oneOrMore_of_error hrun]
      simp
    | ok found =>
      obtain ⟨next, node⟩ := found
      obtain ⟨last, nodes, b'', hruns, -⟩ := exists_repeats m next b'
      rw [hruns.run_oneOrMore hrun]
      simp
  · obtain ⟨last, nodes, b'', hruns, -⟩ := exists_repeats m next b'
    rw [hruns.run_oneOrMore hrun, (Repeats.moves hrun hlt hruns).run_zeroOrMore]
  · have hagain := m.run_run_snd position b
    rw [hrun] at hagain
    exact ⟨(Repeats.stalls hagain).run_oneOrMore hrun, (Repeats.stalls hrun).run_zeroOrMore⟩

private def nameThenColon : List Token := [⟨.name, "a", 0, 0, 1⟩, ⟨.punct, ":", 0, 1, 2⟩]

private def possibleName : Matcher (Option Token) := optional (token Token.isName)

/-- The name is consumed, and in front of the colon the matcher succeeds with nothing. -/
theorem repetition_by_runs_stalling :
    (∃ b, possibleName.run 0 (Buffer.fresh nameThenColon) =
      (.ok (1, some ⟨.name, "a", 0, 0, 1⟩), b)) ∧
    (∃ b, possibleName.run 1 (Buffer.fresh nameThenColon) = (.ok (1, none), b)) ∧
    (possibleName.oneOrMore.run 0 (Buffer.fresh nameThenColon)).1 =
      .ok (1, [some ⟨.name, "a", 0, 0, 1⟩, none]) ∧
    (possibleName.oneOrMore.run 1 (Buffer.fresh nameThenColon)).1 = .ok (1, [none, none]) ∧
    (possibleName.zeroOrMore.run 1 (Buffer.fresh nameThenColon)).1 = .ok (1, [none]) := by
  have hmoves : (possibleName.run 0 (Buffer.fresh nameThenColon)).1 =
      .ok (1, some ⟨.name, "a", 0, 0, 1⟩) := rfl
  have hstays : (possibleName.run 1 (Buffer.fresh nameThenColon)).1 = .ok (1, none) := rfl
  obtain ⟨-, -, hsame, -⟩ := repetition_by_runs possibleName 0 (Buffer.fresh nameThenColon)
  obtain ⟨-, -, -, htwice⟩ := repetition_by_runs possibleName 1 (Buffer.fresh nameThenColon)
  have hrepeat : (possibleName.zeroOrMore.run 0 (Buffer.fresh nameThenColon)).1 =
      .ok (1, [some ⟨.name, "a", 0, 0, 1⟩, none]) := by with_unfolding_all rfl
  obtain ⟨hmany, honce⟩ := htwice none _ (Prod.ext hstays rfl)
  refine ⟨⟨_, Prod.ext hmoves rfl⟩, ⟨_, Prod.ext hstays rfl⟩, ?_, ?_, ?_⟩
  · rw [hsame 1 _ _ (Prod.ext hmoves rfl) Nat.one_pos, hrepeat]
  · rw [hmany]
  · rw [honce]

end ActorAsm.Matcher
