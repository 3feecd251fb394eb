import ActorAsm.Json.Basic
import ActorAsm.Proofs.Text.Delimiters
import ActorAsm.Proofs.Token.Numeral

/-! A text is the text of one value: what is written in front of a rest can be told from it. -/

namespace ActorAsm.Json

section Escapes

/-- The value of a digit in base 16. -/
def hexValue (c : Char) : Nat := if c.isDigit then c.toNat - 48 else c.toNat - 87

/-- The first character of a string whose text goes on like this, unless the string ends here. -/
def unescape : List Char → Option (Char × List Char)
  | '\\' :: 'u' :: '0' :: '0' :: high :: low :: rest =>
    some (Char.ofNat (16 * hexValue high + hexValue low), rest)
  | '\\' :: 'b' :: rest => some ('\x08', rest)
  | '\\' :: 't' :: rest => some ('\t', rest)
  | '\\' :: 'n' :: rest => some ('\n', rest)
  | '\\' :: 'f' :: rest => some ('\x0c', rest)
  | '\\' :: 'r' :: rest => some ('\r', rest)
  | '\\' :: c :: rest => some (c, rest)
  | '"' :: _ => none
  | c :: rest => some (c, rest)
  | [] => none

theorem hexValue_digitChar : ∀ n < 16, hexValue (Nat.digitChar n) = n := by decide

private theorem unescape_escapeChar (c : Char) (rest : List Char) :
    unescape (escapeChar c ++ rest) = some (c, rest) := by
  unfold escapeChar
  split_ifs with hquote hslash hb ht hn hf hr hcontrol
  -- All escapes but the one by number are characters of their own.
  any_goals subst c; rfl
  · have hhigh := hexValue_digitChar (c.toNat / 16) (by omega)
    have hlow := hexValue_digitChar (c.toNat % 16) (by omega)
    change some (Char.ofNat (16 * _ + _), rest) = _
    rw [hhigh, hlow, Nat.div_add_mod, Char.ofNat_toNat]
  · unfold unescape
    simp_all

/-- Neither a quotation mark nor a character behind it can pass for a part of the string. -/
theorem flatMap_escapeChar_cancel {text text' rest rest' : List Char}
    (h : text.flatMap escapeChar ++ '"' :: rest = text'.flatMap escapeChar ++ '"' :: rest') :
    text = text' ∧ rest = rest' :=
  Text.flatMap_cancel unescape_escapeChar (fun _ => rfl) h

/-- What stands behind the closing quotation mark can be told from the string. -/
theorem writeString_cancel {text text' : String} {rest rest' : List Char}
    (h : writeString text rest = writeString text' rest') : text = text' ∧ rest = rest' := by
  obtain ⟨htext, hrest⟩ := flatMap_escapeChar_cancel (List.cons.inj h).2
  exact ⟨String.toList_inj.1 htext, hrest⟩

example : String.ofList (writeString "a\",\x1b\n" [',']) = "\"a\\\",\\u001b\\n\"," := by
  decide +kernel

end Escapes

section Numerals

/-- The characters that numbers are made of. -/
def isNumeral (c : Char) : Bool := c.isDigit || c == '-'

/-- A number ends where its digits end, so no digit may follow it. -/
def Delimits (rest : List Char) : Prop := ∀ c ∈ rest.head?, isNumeral c = false

private theorem delimits_nil : Delimits [] := by simp [Delimits]

private theorem delimits_cons {c : Char} (h : isNumeral c = false) (rest : List Char) :
    Delimits (c :: rest) := by simpa [Delimits] using h

theorem isNumeral_of_mem_toString {value : Int} {c : Char} (h : c ∈ (toString value).toList) :
    isNumeral c := by
  have hdigit {n : Nat} (hc : c ∈ Nat.toDigits 10 n) : isNumeral c := by
    rw [isNumeral, Nat.isDigit_of_mem_toDigits (by decide) (by decide) hc, Bool.true_or]
  rw [Int.toString_eq_repr, Int.repr_eq_if] at h
  split at h
  · exact hdigit (Nat.toList_repr ▸ h)
  · rw [String.toList_append, Nat.toList_repr] at h
    obtain hsign | hc := List.mem_append.1 h
    · obtain rfl : c = '-' := List.mem_singleton.1 hsign
      rfl
    · exact hdigit hc

private theorem toString_ne_nil (value : Int) : (toString value).toList ≠ [] := by
  intro h
  have hvalue := Lexeme.integerValue_toString value
  rw [h] at hvalue
  subst hvalue
  revert h
  decide

/-- A number is the longest run of digits and signs. -/
theorem toString_cancel {value value' : Int} {rest rest' : List Char} (hd : Delimits rest)
    (hd' : Delimits rest')
    (h : (toString value).toList ++ rest = (toString value').toList ++ rest') :
    value = value' ∧ rest = rest' := by
  obtain ⟨htext, hrest⟩ := Text.run_cancel (fun _ => isNumeral_of_mem_toString)
    (fun _ => isNumeral_of_mem_toString) hd hd' h
  have hvalue : value = value' := by
    rw [← Lexeme.integerValue_toString value, htext, Lexeme.integerValue_toString]
  exact ⟨hvalue, hrest⟩

end Numerals

section Values
variable {layout : Layout} {depth : Nat}

/-- Only blanks stand between the tokens. -/
def Layout.Blank (layout : Layout) : Prop := ∀ depth, ∀ c ∈ layout.lineBreak depth, c.isWhitespace

theorem Layout.blank_compact : compact.Blank := by
  intro depth c hc
  cases hc

/-- A token behind a line break is not mistaken for another one. -/
theorem Layout.Blank.ne_cons {c e : Char} {rest tail : List Char} (hl : layout.Blank)
    (hblank : e.isWhitespace = false) (hne : c ≠ e) :
    layout.lineBreak depth ++ c :: rest ≠ e :: tail := by
  intro h
  cases hb : layout.lineBreak depth with
  | nil =>
    rw [hb] at h
    exact hne (List.cons.inj h).1
  | cons b blanks =>
    have hmem : e ∈ layout.lineBreak depth := by
      rw [hb] at h ⊢
      exact (List.cons.inj h).1 ▸ List.mem_cons_self
    exact absurd (hl depth e hmem) (by simp [hblank])

private theorem isNumeral_of_isWhitespace {c : Char} (h : c.isWhitespace) :
    isNumeral c = false := by
  simp only [Char.isWhitespace, Bool.or_eq_true, decide_eq_true_eq] at h
  rcases h with ((rfl | rfl) | rfl) | rfl <;> rfl

private theorem Layout.Blank.delimits {c : Char} (hl : layout.Blank) (hc : isNumeral c = false)
    (rest : List Char) : Delimits (layout.lineBreak depth ++ c :: rest) := by
  cases hb : layout.lineBreak depth with
  | nil => exact delimits_cons hc rest
  | cons b blanks =>
    refine delimits_cons (isNumeral_of_isWhitespace (hl depth b ?_)) _
    rw [hb]
    exact List.mem_cons_self

private theorem delimits_writeItems (hl : layout.Blank) (items : List Json) (rest : List Char) :
    Delimits (writeItems layout depth items rest) := by
  cases items with
  | nil => exact hl.delimits rfl rest
  | cons item items => exact delimits_cons rfl _

private theorem delimits_writeFields (hl : layout.Blank) (fields : List (String × Json))
    (rest : List Char) : Delimits (writeFields layout depth fields rest) := by
  cases fields with
  | nil => exact hl.delimits rfl rest
  | cons field fields => exact delimits_cons rfl _

/-- The characters that the text of a value can begin with. -/
def Opens : Json → Char → Prop
  | .number _, c => isNumeral c
  | .string _, c => c = '"'
  | .array _, c => c = '['
  | .object _, c => c = '\x7b'

private theorem exists_opens (layout : Layout) (depth : Nat) (value : Json) (rest : List Char) :
    ∃ c tail, value.write layout depth rest = c :: tail ∧ value.Opens c := by
  cases value with
  | number value =>
    obtain ⟨c, cs, hcs⟩ := List.exists_cons_of_ne_nil (toString_ne_nil value)
    refine ⟨c, cs ++ rest, ?_, isNumeral_of_mem_toString (hcs ▸ List.mem_cons_self)⟩
    rw [write, hcs, List.cons_append]
  | string text => exact ⟨_, _, rfl, rfl⟩
  | array items => cases items <;> exact ⟨_, _, rfl, rfl⟩
  | object fields => cases fields <;> exact ⟨_, _, rfl, rfl⟩

private theorem exists_opens_of_write_eq {value value' : Json} {rest rest' : List Char}
    (h : value.write layout depth rest = value'.write layout depth rest') :
    ∃ c, value.Opens c ∧ value'.Opens c := by
  obtain ⟨c, tail, hw, hc⟩ := exists_opens layout depth value rest
  obtain ⟨c', tail', hw', hc'⟩ := exists_opens layout depth value' rest'
  rw [hw, hw'] at h
  obtain ⟨rfl, -⟩ := List.cons.inj h
  exact ⟨c, hc, hc'⟩

/-- No value begins with the end of an array. -/
theorem lineBreak_write_ne_bracket (hl : layout.Blank) (value : Json) (rest tail : List Char) :
    layout.lineBreak depth ++ value.write layout depth rest ≠ ']' :: tail := by
  obtain ⟨c, cs, hw, hc⟩ := exists_opens layout depth value rest
  rw [hw]
  refine hl.ne_cons rfl ?_
  rintro rfl
  cases value <;> simp [Opens, isNumeral] at hc

/-! What stands behind a value is the text of its siblings and of the end of their parent, so the
induction is on the first value, its items and its fields, with any rest behind them. Only a rest
that would prolong a number is ruled out, and no sibling begins like that. -/

mutual

private theorem write_cancel (hl : layout.Blank) : ∀ (value value' : Json) {depth : Nat}
    {rest rest' : List Char}, Delimits rest → Delimits rest' →
    value.write layout depth rest = value'.write layout depth rest' →
    value = value' ∧ rest = rest'
  | .number value, value', _, _, _, hd, hd', h => by
    cases value' with
    | number value' =>
      obtain ⟨rfl, hrest⟩ := toString_cancel hd hd' h
      exact ⟨rfl, hrest⟩
    | _ => exact absurd (exists_opens_of_write_eq h) (by simp [Opens, isNumeral])
  | .string text, value', _, _, _, _, _, h => by
    cases value' with
    | string text' =>
      obtain ⟨rfl, hrest⟩ := writeString_cancel h
      exact ⟨rfl, hrest⟩
    | _ => exact absurd (exists_opens_of_write_eq h) (by simp [Opens, isNumeral])
  | .array [], value', _, _, _, _, _, h => by
    cases value' with
    | array items' =>
      cases items' with
      | nil => exact ⟨rfl, (List.cons.inj (List.cons.inj h).2).2⟩
      | cons item' items' =>
        exact absurd (List.cons.inj h).2.symm (lineBreak_write_ne_bracket hl _ _ _)
    | _ => exact absurd (exists_opens_of_write_eq h) (by simp [Opens, isNumeral])
  | .array (item :: items), value', _, _, _, _, _, h => by
    cases value' with
    | array items' =>
      cases items' with
      | nil => exact absurd (List.cons.inj h).2 (lineBreak_write_ne_bracket hl _ _ _)
      | cons item' items' =>
        obtain ⟨rfl, hitems⟩ := write_cancel hl item item' (delimits_writeItems hl items _)
          (delimits_writeItems hl items' _) (List.append_cancel_left (List.cons.inj h).2)
        obtain ⟨rfl, hrest⟩ := writeItems_cancel hl items items' hitems
        exact ⟨rfl, hrest⟩
    | _ => exact absurd (exists_opens_of_write_eq h) (by simp [Opens, isNumeral])
  | .object [], value', _, _, _, _, _, h => by
    cases value' with
    | object fields' =>
      cases fields' with
      | nil => exact ⟨rfl, (List.cons.inj (List.cons.inj h).2).2⟩
      | cons field' fields' =>
        exact absurd (List.cons.inj h).2.symm (hl.ne_cons rfl (by decide))
    | _ => exact absurd (exists_opens_of_write_eq h) (by simp [Opens, isNumeral])
  | .object ((key, value) :: fields), value', _, _, _, _, _, h => by
    cases value' with
    | object fields' =>
      cases fields' with
      | nil => exact absurd (List.cons.inj h).2 (hl.ne_cons rfl (by decide))
      | cons field' fields' =>
        obtain ⟨key', value'⟩ := field'
        obtain ⟨rfl, hvalue⟩ := writeString_cancel (List.append_cancel_left (List.cons.inj h).2)
        obtain ⟨rfl, hfields⟩ := write_cancel hl value value' (delimits_writeFields hl fields _)
          (delimits_writeFields hl fields' _) (List.append_cancel_left (List.cons.inj hvalue).2)
        obtain ⟨rfl, hrest⟩ := writeFields_cancel hl fields fields' hfields
        exact ⟨rfl, hrest⟩
    | _ => exact absurd (exists_opens_of_write_eq h) (by simp [Opens, isNumeral])

theorem writeItems_cancel (hl : layout.Blank) : ∀ (items items' : List Json) {depth : Nat}
    {rest rest' : List Char}, writeItems layout depth items rest =
    writeItems layout depth items' rest' → items = items' ∧ rest = rest'
  | [], [], _, _, _, h => ⟨rfl, (List.cons.inj (List.append_cancel_left h)).2⟩
  | [], _ :: _, _, _, _, h => absurd h (hl.ne_cons rfl (by decide))
  | _ :: _, [], _, _, _, h => absurd h.symm (hl.ne_cons rfl (by decide))
  | item :: items, item' :: items', _, _, _, h => by
    obtain ⟨rfl, hitems⟩ := write_cancel hl item item' (delimits_writeItems hl items _)
      (delimits_writeItems hl items' _) (List.append_cancel_left (List.cons.inj h).2)
    obtain ⟨rfl, hrest⟩ := writeItems_cancel hl items items' hitems
    exact ⟨rfl, hrest⟩

theorem writeFields_cancel (hl : layout.Blank) : ∀ (fields fields' : List (String × Json))
    {depth : Nat} {rest rest' : List Char}, writeFields layout depth fields rest =
    writeFields layout depth fields' rest' → fields = fields' ∧ rest = rest'
  | [], [], _, _, _, h => ⟨rfl, (List.cons.inj (List.append_cancel_left h)).2⟩
  | [], _ :: _, _, _, _, h => absurd h (hl.ne_cons rfl (by decide))
  | _ :: _, [], _, _, _, h => absurd h.symm (hl.ne_cons rfl (by decide))
  | (key, value) :: fields, (key', value') :: fields', _, _, _, h => by
    obtain ⟨rfl, hvalue⟩ := writeString_cancel (List.append_cancel_left (List.cons.inj h).2)
    obtain ⟨rfl, hfields⟩ := write_cancel hl value value' (delimits_writeFields hl fields _)
      (delimits_writeFields hl fields' _) (List.append_cancel_left (List.cons.inj hvalue).2)
    obtain ⟨rfl, hrest⟩ := writeFields_cancel hl fields fields' hfields
    exact ⟨rfl, hrest⟩

end

/-- The text of a value determines the value, in every layout that writes only blanks. -/
theorem text_injective (hl : layout.Blank) : Function.Injective (text layout) := by
  intro value value' h
  exact (write_cancel hl value value' delimits_nil delimits_nil (String.ofList_injective h)).1

end Values

end ActorAsm.Json
