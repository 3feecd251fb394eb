import ActorAsm.Proofs.Token.OfSource

/-! Numbers in a source. The decimal form of an integer is read as this integer if it is in range and
as an error if it is not, however many digits it has, and nothing else is read as a number. -/

namespace ActorAsm

namespace Lexeme
variable {digits : List Char}

/-- A zero is not in front of other digits. -/
theorem eq_nil_of_zero_cons_mem_number (h : '0' :: digits ∈ language .number) : digits = [] := by
  rcases mem_number_language.mp h with h | ⟨c, behind, hc, -, h | h⟩
  · exact (List.cons.inj h).2
  · rw [← (List.cons.inj h).1] at hc
    cases hc
  · cases (List.cons.inj h).1

/-- And no sign in front of a zero. -/
theorem minus_zero_cons_not_mem_number : '-' :: '0' :: digits ∉ language .number := by
  intro h
  rcases mem_number_language.mp h with h | ⟨c, behind, hc, -, h | h⟩
  · cases (List.cons.inj h).1
  · rw [← (List.cons.inj h).1] at hc
    cases hc
  · rw [← (List.cons.inj (List.cons.inj h).2).1] at hc
    cases hc

end Lexeme

namespace Scanner
open Lexeme (Begins Becomes)
variable {s : Scanner} {rest : List Char} {value : Int}

/-- Where the decimal form of an integer stands and no further digit follows, all of it is read. -/
theorem begins_toString (hrest : s.rest = (toString value).toList ++ rest)
    (hend : ∀ c ∈ rest.head?, ¬ c.isDigit) : Begins s.rest .number (toString value).toList := by
  rw [hrest]
  exact Lexeme.begins_of_isLongest
    (Lexeme.isLongest_number (Lexeme.toString_mem_language value) hend) Lexeme.noConfusion

private theorem gives_toString (hrest : s.rest = (toString value).toList ++ rest)
    (hend : ∀ c ∈ rest.head?, ¬ c.isDigit) (hrange : value.natAbs ≤ 2 ^ 53 - 1) :
    s.Gives (.number value) (toString value).toList rest := by
  have hbecomes : Becomes .number (toString value).toList (.number value) :=
    .number (by omega) (by omega)
  have hgives := gives_of_becomes (begins_toString hrest hend) hbecomes
  rwa [hrest, List.drop_left] at hgives

private theorem gives_error_of_toString (hrest : s.rest = (toString value).toList ++ rest)
    (hend : ∀ c ∈ rest.head?, ¬ c.isDigit) (hrange : 2 ^ 53 - 1 < value.natAbs) :
    s.Gives .error [] [] :=
  gives_of_outOfRange (begins_toString hrest hend) ⟨value, rfl, by omega⟩

end Scanner

namespace Token
variable {t : Token} {value : Int}

/-- The text of a number is its decimal form. -/
theorem Spelled.text_eq_toString (h : t.Spelled) (hkind : t.kind = .number value) :
    t.text = toString value := by
  obtain ⟨lexeme, -, hbecomes⟩ := h
  rw [hkind] at hbecomes
  generalize htext : t.text.toList = text at hbecomes
  cases hbecomes with
  | number => exact String.toList_inj.mp htext

/-- Where the decimal form of an integer stands and no digit follows, the scanner gives this integer
with all of the text if it is at most 2^53 - 1 from zero, and the error if it is farther off, whatever
its size. Conversely the text of a number is its decimal form, so that no zero is in front of other
digits and no sign in front of a zero. -/
theorem numbers_exact :
    (∀ (value : Int) (s : Scanner) (rest : List Char),
      s.rest = (toString value).toList ++ rest → (∀ c ∈ rest.head?, ¬ c.isDigit) →
        (value.natAbs ≤ 2 ^ 53 - 1 → s.Gives (.number value) (toString value).toList rest) ∧
        (2 ^ 53 - 1 < value.natAbs → s.Gives .error [] [])) ∧
    ∀ (source : String), ∀ t ∈ ofSource source, ∀ value, t.kind = .number value →
      t.text = toString value ∧ value.natAbs ≤ 2 ^ 53 - 1 ∧
        (∀ digits, t.text.toList = '0' :: digits → digits = []) ∧
        ∀ digits, t.text.toList ≠ '-' :: '0' :: digits := by
  refine ⟨fun value s rest hrest hend => ⟨Scanner.gives_toString hrest hend,
    Scanner.gives_error_of_toString hrest hend⟩, fun source t ht value hkind => ?_⟩
  have hspelled : t.Spelled :=
    Scanner.spelled_of_mem_tokens ht fun herror => Kind.noConfusion (hkind.symm.trans herror)
  have hmem : t.text.toList ∈ Lexeme.number.language :=
    hspelled.mem_language (congrArg Kind.lexeme? hkind)
  refine ⟨hspelled.text_eq_toString hkind, hspelled.natAbs_le hkind, fun digits htext => ?_,
    fun digits htext => ?_⟩
  · exact Lexeme.eq_nil_of_zero_cons_mem_number (htext ▸ hmem)
  · exact Lexeme.minus_zero_cons_not_mem_number (htext ▸ hmem)

/-- The last number in range, with another sign behind it; the first that has more than 64 bits; and a
number behind two zeros, which are numbers of their own. -/
theorem numbers_exact_bounds :
    (Scanner.ofString "-9007199254740991-5").Gives (.number (-9007199254740991))
      "-9007199254740991".toList ['-', '5'] ∧
    (Scanner.ofString "18446744073709551616;").Gives .error [] [] ∧
    ofSource "0012" =
      [⟨.number 0, "0", 0, 0, 1⟩, ⟨.number 0, "0", 0, 1, 2⟩, ⟨.number 12, "12", 0, 2, 4⟩] ∧
    "12" = toString (12 : Int) := by
  obtain ⟨hread, htext⟩ := numbers_exact
  have htokens : ofSource "0012" = [⟨.number 0, "0", 0, 0, 1⟩, ⟨.number 0, "0", 0, 1, 2⟩,
      ⟨.number 12, "12", 0, 2, 4⟩] := by decide +kernel
  have hlast : (Scanner.ofString "-9007199254740991-5").rest =
      (toString (-9007199254740991 : Int)).toList ++ ['-', '5'] := by decide +kernel
  have hlong : (Scanner.ofString "18446744073709551616;").rest =
      (toString (18446744073709551616 : Int)).toList ++ [';'] := by decide +kernel
  refine ⟨?_, ?_, htokens, ?_⟩
  · exact (hread _ _ _ hlast (by rintro c ⟨⟩; decide)).1 (by decide)
  · exact (hread _ _ _ hlong (by rintro c ⟨⟩; decide)).2 (by decide)
  · exact (htext "0012" ⟨.number 12, "12", 0, 2, 4⟩ (by rw [htokens]; simp) 12 rfl).1

end Token

end ActorAsm
