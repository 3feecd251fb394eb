import ActorAsm.Proofs.Matcher.Laziness

/-! What a run depends on. Matching that looks at nothing behind some tokens comes to the same
whatever is behind them, so a run is decided by the tokens that it has drawn, as long as it asks for
none that the stream does not have. -/

namespace ActorAsm.Matcher
variable {α β : Type} {m second : Matcher α} {n : Matcher β} {ys zs zs' : List Token}

/-- The results on two lists that begin with `ys` and go on with `zs` and with `zs'`: the same
failure, or the same node with the same of `ys` left. -/
inductive SameWithin (ys zs zs' : List Token) : Result α → Result α → Prop where
  | error (failure : Failure) : SameWithin ys zs zs' (.error failure) (.error failure)
  | ok {left : List Token} (node : α) : left.length ≤ ys.length →
      SameWithin ys zs zs' (.ok (left ++ zs, node)) (.ok (left ++ zs', node))

/-- Matching that looks only at the tokens in front comes to the same whatever is behind them, and
looks at the same positions. -/
def Local (m : Matcher α) : Prop :=
  ∀ position ys zs zs', (∀ p ∈ m.looks position (ys ++ zs), p < position + ys.length) →
    SameWithin ys zs zs' (m.eager (ys ++ zs)) (m.eager (ys ++ zs')) ∧
      m.looks position (ys ++ zs') = m.looks position (ys ++ zs)

private theorem local_nothing : nothing.Local :=
  fun _ _ _ _ _ => ⟨.ok () (Nat.le_refl _), rfl⟩

private theorem exists_cons_of_look {position : Nat}
    (h : ∀ p ∈ [position], p < position + ys.length) : ∃ t left, ys = t :: left := by
  have hlook := h position (List.mem_singleton_self position)
  exact List.exists_cons_of_length_pos (by omega)

private theorem local_one (select : Token → Option α) : (one select).Local := by
  intro position ys zs zs' h
  obtain ⟨t, left, rfl⟩ := exists_cons_of_look h
  refine ⟨?_, rfl⟩
  rw [List.cons_append, List.cons_append, eager, eager]
  cases select t with
  | none => exact .error _
  | some node => exact .ok node (Nat.le_succ _)

private theorem local_noAlternative : (noAlternative : Matcher α).Local := by
  intro position ys zs zs' h
  obtain ⟨t, left, rfl⟩ := exists_cons_of_look h
  exact ⟨.error _, rfl⟩

private theorem length_consumed (left ys zs : List Token) :
    (ys ++ zs).length - (left ++ zs).length = ys.length - left.length := by
  rw [List.length_append, List.length_append, Nat.add_sub_add_right]

namespace Local

theorem orElse (hm : m.Local) (hs : second.Local) : (orElse m second).Local := by
  intro position ys zs zs' h
  rw [looks, List.forall_mem_append] at h
  obtain ⟨hfirst, hlooks⟩ := hm position ys zs zs' h.1
  rw [eager, eager, looks, looks, hlooks]
  generalize m.eager (ys ++ zs) = result, m.eager (ys ++ zs') = result' at hfirst h ⊢
  cases hfirst with
  | error failure =>
    obtain ⟨hsecond, hlooks⟩ := hs position ys zs zs' h.2
    exact ⟨hsecond, congrArg _ hlooks⟩
  | ok node hle => exact ⟨.ok node hle, rfl⟩

theorem andThen (hm : m.Local) (hn : n.Local) : (andThen m n).Local := by
  intro position ys zs zs' h
  rw [looks, List.forall_mem_append] at h
  obtain ⟨hfirst, hlooks⟩ := hm position ys zs zs' h.1
  rw [eager, eager, looks, looks, hlooks]
  generalize m.eager (ys ++ zs) = result, m.eager (ys ++ zs') = result' at hfirst h ⊢
  cases hfirst with
  | error failure => exact ⟨.error failure, rfl⟩
  | @ok left node hle =>
    have hbehind := h.2
    dsimp only at hbehind ⊢
    rw [length_consumed] at hbehind
    rw [length_consumed, length_consumed]
    obtain ⟨hsecond, hlooks⟩ := hn (position + (ys.length - left.length)) left zs zs'
      fun p hp => by have hlook := hbehind p hp; omega
    rw [hlooks]
    refine ⟨?_, rfl⟩
    generalize n.eager (left ++ zs) = result, n.eager (left ++ zs') = result' at hsecond ⊢
    cases hsecond with
    | error failure => exact .error failure
    | ok right hle' => exact .ok (node, right) (Nat.le_trans hle' hle)

theorem map {f : α → β} (hm : m.Local) : (map f m).Local := by
  intro position ys zs zs' h
  obtain ⟨hinner, hlooks⟩ := hm position ys zs zs' h
  refine ⟨?_, hlooks⟩
  rw [eager, eager]
  generalize m.eager (ys ++ zs) = result, m.eager (ys ++ zs') = result' at hinner ⊢
  cases hinner with
  | error failure => exact .error failure
  | ok node hle => exact .ok (f node) hle

/-- Each step that is followed by another one leaves less of the tokens in front. -/
theorem zeroOrMore (hm : m.Local) : m.zeroOrMore.Local := by
  intro position ys zs zs' h
  rw [eager, eager, looks, looks]
  rw [looks] at h
  induction hk : ys.length using Nat.strongRecOn generalizing position ys with
  | ind k ih =>
    rw [stepsLooks, List.forall_mem_append] at h
    obtain ⟨hstep, hlooks⟩ := hm position ys zs zs' h.1
    rw [stepsOn, stepsOn, stepsLooks, stepsLooks, hlooks]
    generalize m.eager (ys ++ zs) = result, m.eager (ys ++ zs') = result' at hstep h ⊢
    cases hstep with
    | error failure => exact ⟨.ok [] (Nat.le_refl _), rfl⟩
    | @ok left node hle =>
      have hmoves (rest : List Token) :
          (left ++ rest).length < (ys ++ rest).length ↔ left.length < ys.length := by
        rw [List.length_append, List.length_append, Nat.add_lt_add_iff_right]
      have hbehind := h.2
      simp only [hmoves, length_consumed] at hbehind ⊢
      by_cases hlt : left.length < ys.length
      · simp only [hlt, if_true] at hbehind ⊢
        obtain ⟨hall, hlooks⟩ := ih left.length (hk ▸ hlt) (position + (ys.length - left.length))
          left (fun p hp => by have hlook := hbehind p hp; omega) rfl
        rw [hlooks]
        refine ⟨?_, rfl⟩
        generalize Matcher.stepsOn m.eager (left ++ zs) = found,
          Matcher.stepsOn m.eager (left ++ zs') = found' at hall ⊢
        cases hall with
        | ok nodes hle' => exact .ok (node :: nodes) (Nat.le_trans hle' hle)
      · simp only [hlt, if_false, and_true]
        exact .ok [node] hle

end Local

/-- Every matcher is local. -/
theorem isLocal (m : Matcher α) : m.Local := by
  induction m with
  | nothing => exact local_nothing
  | one select => exact local_one select
  | noAlternative => exact local_noAlternative
  | orElse _ _ hm hs => exact hm.orElse hs
  | andThen _ _ hm hn => exact hm.andThen hn
  | map f _ hm => exact hm.map
  | zeroOrMore _ hm => exact hm.zeroOrMore

variable {ts ts' : List Token} {position : Nat}

/-- What matching on a whole list comes to, from results on what the list has from the position on. -/
theorem SameWithin.eagerAt_eq (h : SameWithin ys zs zs' (m.eager (ys ++ zs)) (m.eager (ys ++ zs')))
    (hts : ts.drop position = ys ++ zs) (hts' : ts'.drop position = ys ++ zs') :
    m.eagerAt ts' position = m.eagerAt ts position := by
  rw [eagerAt, eagerAt, hts, hts']
  generalize m.eager (ys ++ zs) = result, m.eager (ys ++ zs') = result' at h ⊢
  cases h with
  | error failure => rfl
  | ok node hle =>
    dsimp only
    rw [length_consumed, length_consumed]

/-- A run that asks for no token behind the end of the stream draws all up to the greatest position
that it looks at. -/
theorem pulled_run_fresh (h : ∀ p ∈ m.looks position (ts.drop position), p < ts.length) :
    (m.run position (Buffer.fresh ts)).2.pulled = reach (m.looks position (ts.drop position)) := by
  have hreach := reach_le_iff.mpr h
  rw [pulled_run, Nat.min_eq_right hreach]
  exact Nat.zero_max _

private theorem exists_drop_eq {count : Nat} (h : ts'.take count = ts.take count)
    (hcount : count ≤ ts.length) (position : Nat) :
    ∃ ys zs zs', ys.length = count - position ∧ ts.drop position = ys ++ zs ∧
      ts'.drop position = ys ++ zs' := by
  refine ⟨(ts.take count).drop position, (ts.drop count).drop (position - (ts.take count).length),
    (ts'.drop count).drop (position - (ts.take count).length), ?_, ?_, ?_⟩
  · rw [List.length_drop, List.length_take, Nat.min_eq_left hcount]
  · rw [← List.drop_append, List.take_append_drop]
  · rw [← List.drop_append, ← h, List.take_append_drop]

/-- A run on a fresh buffer that asks for no token behind the end of the stream depends on the tokens
that it has drawn and on no others: on every stream that begins with them it ends at the same
position with the same node, or with the same failure, and draws as many. -/
theorem run_of_drawn_alike (m : Matcher α) (position : Nat)
    (hasked : ∀ p ∈ m.looks position (ts.drop position), p < ts.length)
    (halike : ts'.take (m.run position (Buffer.fresh ts)).2.pulled =
      ts.take (m.run position (Buffer.fresh ts)).2.pulled) :
    (m.run position (Buffer.fresh ts')).1 = (m.run position (Buffer.fresh ts)).1 ∧
      (m.run position (Buffer.fresh ts')).2.pulled =
        (m.run position (Buffer.fresh ts)).2.pulled := by
  have hpulled := pulled_run_fresh hasked
  have hle := (m.run position (Buffer.fresh ts)).2.pulled_le_length
  rw [hpulled] at halike hle ⊢
  obtain ⟨ys, zs, zs', hlength, hts, hts'⟩ := exists_drop_eq halike hle position
  have hinside : ∀ p ∈ m.looks position (ys ++ zs), p < position + ys.length := fun p hp => by
    have hreach := reach_le_iff.mp (Nat.le_refl _) p (hts ▸ hp)
    omega
  obtain ⟨hsame, hlooks⟩ := m.isLocal position ys zs zs' hinside
  refine ⟨?_, ?_⟩
  · rw [run_fst, run_fst, hsame.eagerAt_eq hts hts']
  · have hlong := congrArg List.length halike
    rw [List.length_take, List.length_take, Nat.min_eq_left hle] at hlong
    rw [pulled_run, hts', hlooks, ← hts, Nat.min_comm, hlong]
    exact Nat.zero_max _

private def ab (behind : List Token) : List Token :=
  ⟨.name, "a", 0, 0, 1⟩ :: ⟨.space, " ", 0, 1, 2⟩ :: ⟨.name, "b", 0, 2, 3⟩ ::
    ⟨.punct, ":", 0, 3, 4⟩ :: behind

private def spacedNames : Matcher (List (List Token)) :=
  .zeroOrMore (sequence [token Token.isName, token (·.kind = .space)])

/-- Names with a space behind each of them. The second name is looked at, and the colon behind it, but
the match ends in front of them. A line break behind the colon changes nothing. -/
theorem run_of_drawn_alike_newline :
    spacedNames.looks 0 (ab []) = [0, 1, 2, 3] ∧
    (spacedNames.run 0 (Buffer.fresh (ab [⟨.newline, "\n", 0, 4, 5⟩]))).1 =
      .ok (2, [[⟨.name, "a", 0, 0, 1⟩, ⟨.space, " ", 0, 1, 2⟩]]) ∧
    (spacedNames.run 0 (Buffer.fresh (ab [⟨.newline, "\n", 0, 4, 5⟩]))).2.pulled = 4 := by
  have hlooks : spacedNames.looks 0 (ab []) = [0, 1, 2, 3] := by with_unfolding_all rfl
  have hasked : ∀ p ∈ spacedNames.looks 0 ((ab []).drop 0), p < (ab []).length := by
    rw [List.drop_zero, hlooks]
    decide
  have hpulled : (spacedNames.run 0 (Buffer.fresh (ab []))).2.pulled = 4 := by
    with_unfolding_all rfl
  have hfound : (spacedNames.run 0 (Buffer.fresh (ab []))).1 =
      .ok (2, [[⟨.name, "a", 0, 0, 1⟩, ⟨.space, " ", 0, 1, 2⟩]]) := by
    with_unfolding_all rfl
  have halike : (ab [⟨.newline, "\n", 0, 4, 5⟩]).take
      (spacedNames.run 0 (Buffer.fresh (ab []))).2.pulled =
        (ab []).take (spacedNames.run 0 (Buffer.fresh (ab []))).2.pulled := by
    rw [hpulled]
    rfl
  obtain ⟨hsame, hdrawn⟩ := run_of_drawn_alike spacedNames 0 hasked halike
  exact ⟨hlooks, hsame.trans hfound, hdrawn.trans hpulled⟩

end ActorAsm.Matcher
