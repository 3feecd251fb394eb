/-!
Text measured in UTF-16 code units, the unit in which columns are counted.
-/

namespace ActorAsm.Text

/-- A character outside the basic plane takes two code units, any other character one. -/
def units (c : Char) : Nat := if c.val < 0x10000 then 1 else 2

/-- The width of a text is the sum of its characters' code units. -/
def width (cs : List Char) : Nat := cs.foldr (fun c n => units c + n) 0

theorem units_pos (c : Char) : 0 < units c := by
  unfold units
  split <;> decide

@[simp] theorem width_nil : width [] = 0 := rfl

@[simp] theorem width_cons (c : Char) (cs : List Char) : width (c :: cs) = units c + width cs :=
  rfl

@[simp] theorem width_append (cs ds : List Char) : width (cs ++ ds) = width cs + width ds := by
  induction cs with
  | nil => rw [List.nil_append, width_nil, Nat.zero_add]
  | cons c cs ih => rw [List.cons_append, width_cons, width_cons, ih, Nat.add_assoc]

theorem length_le_width (cs : List Char) : cs.length ≤ width cs := by
  induction cs with
  | nil => exact Nat.le_refl 0
  | cons c cs ih =>
    have hc := units_pos c
    simp only [List.length_cons, width_cons]
    omega

end ActorAsm.Text
