/-!
Cuts at bytes of the UTF-8 form of a text. No cut splits a character: what is cut out is a text that
stands between two others.
-/

namespace ActorAsm.Text
open String.Pos.Raw (IsValid isValid_iff_exists_append)
variable {text part contents : String} {start stop : Nat}

/-- The part of a text from one byte up to another. There is none if the first is behind the second,
or if one of them is inside a character or behind the end. -/
def cut? (text : String) (start stop : Nat) : Option String :=
  if h : start ≤ stop ∧ IsValid text ⟨start⟩ ∧ IsValid text ⟨stop⟩ then
    some (String.extract (text.pos ⟨start⟩ h.2.1) (text.pos ⟨stop⟩ h.2.2))
  else none

/-- The bytes that a cut leaves out are whole texts too. -/
theorem cut?_eq_some_iff : cut? text start stop = some part ↔
    ∃ front rest, text = front ++ (part ++ rest) ∧ front.utf8ByteSize = start ∧
      front.utf8ByteSize + part.utf8ByteSize = stop := by
  unfold cut?
  constructor
  -- Both ends of what is cut out split the text, and what they split it into are texts.
  · intro h
    split at h
    next hrange =>
      obtain ⟨hle, hstart, hstop⟩ := hrange
      have hpositions : text.pos ⟨start⟩ hstart ≤ text.pos ⟨stop⟩ hstop := hle
      rw [String.extract_eq_copy_slice _ _ hpositions, Option.some.injEq] at h
      obtain ⟨front, rest, hfirst, hlast⟩ := String.copy_slice_eq_iff_splits.mp ⟨hpositions, h⟩
      have hfront : start = front.utf8ByteSize := congrArg (·.byteIdx) hfirst.offset_eq_rawEndPos
      have hend : stop = (front ++ part).utf8ByteSize :=
        congrArg (·.byteIdx) hlast.offset_eq_rawEndPos
      rw [String.utf8ByteSize_append] at hend
      exact ⟨front, rest, hfirst.eq_append, hfront.symm, hend.symm⟩
    next => cases h
  · rintro ⟨front, rest, htext, rfl, rfl⟩
    have hbehind : text = (front ++ part) ++ rest := by rw [htext, String.append_assoc]
    have hsize : (front ++ part).utf8ByteSize = front.utf8ByteSize + part.utf8ByteSize :=
      String.utf8ByteSize_append
    have hstart : IsValid text ⟨front.utf8ByteSize⟩ :=
      isValid_iff_exists_append.mpr ⟨front, part ++ rest, htext, rfl⟩
    have hstop : IsValid text ⟨front.utf8ByteSize + part.utf8ByteSize⟩ :=
      isValid_iff_exists_append.mpr ⟨front ++ part, rest, hbehind, String.Pos.Raw.ext hsize.symm⟩
    obtain ⟨hpositions, hpart⟩ := String.copy_slice_eq_iff_splits.mpr
      ⟨front, rest, (⟨htext, rfl⟩ : (text.pos _ hstart).Splits front (part ++ rest)),
        (⟨hbehind, String.Pos.Raw.ext hsize.symm⟩ : (text.pos _ hstop).Splits (front ++ part) rest)⟩
    rw [dif_pos ⟨Nat.le_add_right _ _, hstart, hstop⟩,
      String.extract_eq_copy_slice _ _ hpositions, hpart]

/-- A cut that ends in the middle of a character, and one that ends behind it. -/
example : cut? "\"é" 1 2 = none ∧ cut? "\"é" 1 3 = some "é" := by decide

private theorem utf8Size_eq_one_iff {c : Char} : c.utf8Size = 1 ↔ c.toNat < 128 := by
  rw [Char.utf8Size_eq_one_iff, UInt32.le_iff_toNat_le]
  exact Nat.lt_succ_iff.symm

/-- One byte is one ASCII character. -/
theorem utf8ByteSize_eq_one_iff :
    text.utf8ByteSize = 1 ↔ ∃ c : Char, c.toNat < 128 ∧ text = String.singleton c := by
  constructor
  · intro h
    cases hchars : text.toList with
    | nil =>
      rw [String.toList_eq_nil_iff.mp hchars] at h
      cases h
    | cons c cs =>
      have htext : text = String.singleton c ++ String.ofList cs := by
        rw [← String.ofList_cons, ← hchars, String.ofList_toList]
      have hpos := c.utf8Size_pos
      rw [htext, String.utf8ByteSize_append, String.utf8ByteSize_singleton] at h
      have hrest : String.ofList cs = "" := String.utf8ByteSize_eq_zero_iff.mp (by omega)
      rw [hrest, String.append_empty] at htext
      exact ⟨c, utf8Size_eq_one_iff.mp (by omega), htext⟩
  · rintro ⟨c, hc, rfl⟩
    rw [String.utf8ByteSize_singleton]
    exact utf8Size_eq_one_iff.mpr hc

/-- The text is an ASCII character, these contents and an ASCII character. -/
def Encloses (text contents : String) : Prop :=
  ∃ first last : Char, first.toNat < 128 ∧ last.toNat < 128 ∧
    text = String.singleton first ++ (contents ++ String.singleton last)

/-- The text is an ASCII character and these contents. -/
def Introduces (text contents : String) : Prop :=
  ∃ first : Char, first.toNat < 128 ∧ text = String.singleton first ++ contents

private theorem utf8ByteSize_singleton_append {first : Char} (h : first.toNat < 128) :
    (String.singleton first ++ text).utf8ByteSize = 1 + text.utf8ByteSize := by
  rw [String.utf8ByteSize_append, utf8ByteSize_eq_one_iff.mpr ⟨first, h, rfl⟩]

/-- A cut behind the first byte is one behind an ASCII character. -/
theorem cut?_one_eq_some_iff : cut? text 1 stop = some contents ↔
    ∃ (first : Char) (rest : String), first.toNat < 128 ∧
      text = String.singleton first ++ (contents ++ rest) ∧ 1 + contents.utf8ByteSize = stop := by
  rw [cut?_eq_some_iff]
  constructor
  · rintro ⟨front, rest, htext, hfront, hstop⟩
    rw [hfront] at hstop
    obtain ⟨first, hfirst, rfl⟩ := utf8ByteSize_eq_one_iff.mp hfront
    exact ⟨first, rest, hfirst, htext, hstop⟩
  · rintro ⟨first, rest, hfirst, htext, hstop⟩
    have hfront := utf8ByteSize_eq_one_iff.mpr ⟨first, hfirst, rfl⟩
    exact ⟨String.singleton first, rest, htext, hfront, by rw [hfront, hstop]⟩

theorem cut?_inside_eq_some_iff :
    cut? text 1 (text.utf8ByteSize - 1) = some contents ↔ Encloses text contents := by
  rw [cut?_one_eq_some_iff]
  constructor
  · rintro ⟨first, rest, hfirst, rfl, hstop⟩
    rw [utf8ByteSize_singleton_append hfirst, String.utf8ByteSize_append] at hstop
    have hrest : rest.utf8ByteSize = 1 := by omega
    obtain ⟨last, hlast, rfl⟩ := utf8ByteSize_eq_one_iff.mp hrest
    exact ⟨first, last, hfirst, hlast, rfl⟩
  · rintro ⟨first, last, hfirst, hlast, rfl⟩
    have hrest := utf8ByteSize_eq_one_iff.mpr ⟨last, hlast, rfl⟩
    refine ⟨first, String.singleton last, hfirst, rfl, ?_⟩
    rw [utf8ByteSize_singleton_append hfirst, String.utf8ByteSize_append, hrest]
    omega

theorem cut?_behind_eq_some_iff :
    cut? text 1 text.utf8ByteSize = some contents ↔ Introduces text contents := by
  rw [cut?_one_eq_some_iff]
  constructor
  · rintro ⟨first, rest, hfirst, rfl, hstop⟩
    rw [utf8ByteSize_singleton_append hfirst, String.utf8ByteSize_append] at hstop
    have hrest : rest = "" := String.utf8ByteSize_eq_zero_iff.mp (by omega)
    exact ⟨first, hfirst, by rw [hrest, String.append_empty]⟩
  · rintro ⟨first, hfirst, rfl⟩
    exact ⟨first, "", hfirst, by rw [String.append_empty],
      (utf8ByteSize_singleton_append hfirst).symm⟩

end ActorAsm.Text
