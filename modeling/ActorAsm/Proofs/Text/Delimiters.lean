import Mathlib.Data.List.Basic

/-! What is written in front of a rest can be told from it: a run of characters of one class ends with
its last one, and characters that are escaped one by one end at a delimiter that none of them begins
with. -/

namespace ActorAsm.Text
variable {p : Char → Bool} {xs ys rest rest' : List Char}

theorem takeWhile_append_of_head (hx : ∀ c ∈ xs, p c) (hr : ∀ c ∈ rest.head?, p c = false) :
    (xs ++ rest).takeWhile p = xs := by
  have hrest : rest.takeWhile p = [] := by
    cases rest with
    | nil => rfl
    | cons c rest => exact List.takeWhile_cons_of_neg (by simp [hr c rfl])
  rw [List.takeWhile_append_of_pos hx, hrest, List.append_nil]

/-- A run ends where the next character is of another class. -/
theorem run_cancel (hx : ∀ c ∈ xs, p c) (hy : ∀ c ∈ ys, p c) (hr : ∀ c ∈ rest.head?, p c = false)
    (hr' : ∀ c ∈ rest'.head?, p c = false) (h : xs ++ rest = ys ++ rest') :
    xs = ys ∧ rest = rest' := by
  have hruns : xs = ys := by
    rw [← takeWhile_append_of_head hx hr, h, takeWhile_append_of_head hy hr']
  rw [hruns] at h
  exact ⟨hruns, List.append_cancel_left h⟩

/-- Neither a delimiter nor a character behind it can pass for a part of what is escaped in front. -/
theorem flatMap_cancel {escape : Char → List Char} {read : List Char → Option (Char × List Char)}
    {delimiter : Char} (hread : ∀ c rest, read (escape c ++ rest) = some (c, rest))
    (hend : ∀ rest, read (delimiter :: rest) = none)
    (h : xs.flatMap escape ++ delimiter :: rest = ys.flatMap escape ++ delimiter :: rest') :
    xs = ys ∧ rest = rest' := by
  induction xs generalizing ys with
  | nil =>
    cases ys with
    | nil => exact ⟨rfl, (List.cons.inj h).2⟩
    | cons c ys =>
      have hfirst := congrArg read h
      rw [List.flatMap_nil, List.nil_append, hend, List.flatMap_cons, List.append_assoc, hread]
        at hfirst
      cases hfirst
  | cons c xs ih =>
    have hfirst := congrArg read h
    rw [List.flatMap_cons, List.append_assoc, hread] at hfirst
    cases ys with
    | nil =>
      rw [List.flatMap_nil, List.nil_append, hend] at hfirst
      cases hfirst
    | cons c' ys =>
      rw [List.flatMap_cons, List.append_assoc, hread] at hfirst
      obtain ⟨rfl, hbehind⟩ := Prod.mk.inj (Option.some.inj hfirst)
      obtain ⟨rfl, hrest⟩ := ih hbehind
      exact ⟨rfl, hrest⟩

/-- Lines can be told from the text that they make, as long as none of them is broken. -/
theorem lines_cancel {newline : Char} {lines lines' : List (List Char)} (hend : p newline = false)
    (hx : ∀ line ∈ lines, ∀ c ∈ line, p c) (hy : ∀ line ∈ lines', ∀ c ∈ line, p c)
    (h : lines.flatMap (· ++ [newline]) = lines'.flatMap (· ++ [newline])) : lines = lines' := by
  induction lines generalizing lines' with
  | nil =>
    cases lines' with
    | nil => rfl
    | cons line lines' => simp at h
  | cons line lines ih =>
    cases lines' with
    | nil => simp at h
    | cons line' lines' =>
      rw [List.forall_mem_cons] at hx hy
      simp only [List.flatMap_cons, List.append_assoc, List.singleton_append] at h
      have hstop (rest : List Char) : ∀ c ∈ (newline :: rest).head?, p c = false := by simp [hend]
      obtain ⟨rfl, hrest⟩ := run_cancel hx.1 hy.1 (hstop _) (hstop _) h
      rw [ih hx.2 hy.2 (List.cons.inj hrest).2]

end ActorAsm.Text
