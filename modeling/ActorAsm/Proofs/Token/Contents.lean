import ActorAsm.Proofs.Text.Cuts
import ActorAsm.Proofs.Token.OfSource

/-! The contents of tokens. The value of a string is its text without the first and the last byte, the
name of a literal its text without the first one. Where such a byte is only a part of a character they
are empty, but no string or literal of a source has such a text. -/

namespace ActorAsm.Token
open Text (Encloses Introduces cut?)
variable {t : Token} {contents : String}

private theorem eq_getD {value : String} {cut : Option String} {Holds : String → Prop}
    (hcut : ∀ contents, cut = some contents ↔ Holds contents)
    (hcontents : ∀ contents, Holds contents → value = contents)
    (hempty : (∀ contents, ¬ Holds contents) → value = "") : value = cut.getD "" := by
  cases cut with
  | some contents => exact hcontents contents ((hcut contents).mp rfl)
  | none => exact hempty fun contents h => Option.some_ne_none contents ((hcut contents).mpr h).symm

private theorem stringValue_of_encloses (h : Encloses t.text contents) :
    t.stringValue = contents := by
  obtain ⟨first, last, hfirst, hlast, htext⟩ := h
  have hchars : t.text.toList = first :: (contents.toList ++ [last]) := by
    rw [htext, String.toList_append, String.toList_append, String.toList_singleton,
      String.toList_singleton, List.singleton_append]
  rw [stringValue_of_text hchars hfirst hlast, String.ofList_toList]

private theorem stringValue_of_not_encloses (h : ∀ contents, ¬ Encloses t.text contents) :
    t.stringValue = "" := by
  unfold stringValue
  split
  next first second behind hchars =>
    refine if_neg fun ⟨hfirst, hlast⟩ => ?_
    have hends := List.dropLast_append_getLast (List.cons_ne_nil second behind)
    refine h (String.ofList (second :: behind).dropLast) ⟨first, _, hfirst, hlast, ?_⟩
    apply String.toList_inj.mp
    rw [hchars, String.toList_append, String.toList_append, String.toList_singleton,
      String.toList_singleton, String.toList_ofList, hends, List.singleton_append]
  next => rfl

/-- The value of a string is cut out of its text, or empty where there is nothing to be cut out. -/
theorem stringValue_eq_cut (t : Token) :
    t.stringValue = (cut? t.text 1 (t.text.utf8ByteSize - 1)).getD "" :=
  eq_getD (fun _ => Text.cut?_inside_eq_some_iff) (fun _ => stringValue_of_encloses)
    stringValue_of_not_encloses

private theorem literalName_of_introduces (h : Introduces t.text contents) :
    t.literalName = contents := by
  obtain ⟨first, hfirst, htext⟩ := h
  have hchars : t.text.toList = first :: contents.toList := by
    rw [htext, String.toList_append, String.toList_singleton, List.singleton_append]
  unfold literalName
  rw [hchars]
  simp only [hfirst, if_true, String.ofList_toList]

private theorem literalName_of_not_introduces (h : ∀ contents, ¬ Introduces t.text contents) :
    t.literalName = "" := by
  unfold literalName
  split
  next first behind hchars =>
    refine if_neg fun hfirst => h (String.ofList behind) ⟨first, hfirst, ?_⟩
    apply String.toList_inj.mp
    rw [hchars, String.toList_append, String.toList_singleton, String.toList_ofList,
      List.singleton_append]
  next => rfl

/-- The name of a literal is cut out of its text, or empty where there is nothing to be cut out. -/
theorem literalName_eq_cut (t : Token) :
    t.literalName = (cut? t.text 1 t.text.utf8ByteSize).getD "" :=
  eq_getD (fun _ => Text.cut?_behind_eq_some_iff) (fun _ => literalName_of_introduces)
    literalName_of_not_introduces

/-- A string has a quote at both ends. -/
theorem Spelled.text_eq_quotes (h : t.Spelled) (hkind : t.kind = .string) :
    t.text = "\"" ++ t.stringValue ++ "\"" := by
  obtain ⟨body, -, hchars⟩ :=
    Lexeme.mem_string_language.mp (h.mem_language (congrArg Kind.lexeme? hkind))
  rw [stringValue_of_text hchars (by decide) (by decide)]
  apply String.toList_inj.mp
  simp [hchars]

/-- A literal has a number sign in front. -/
theorem Spelled.text_eq_sign (h : t.Spelled) (hkind : t.kind = .literal) :
    t.text = "#" ++ t.literalName := by
  obtain ⟨sign, behind, hchars, hsign⟩ :=
    Lexeme.exists_initial (h.mem_language (congrArg Kind.lexeme? hkind))
  obtain rfl : sign = '#' := of_decide_eq_true hsign
  have htext : t.text = "#" ++ String.ofList behind := by
    apply String.toList_inj.mp
    simp [hchars]
  rwa [literalName_of_introduces ⟨'#', by decide, htext⟩]

/-- The value of a string is what a cut at the first and the last byte leaves: the text between two
ASCII characters if the token has such a text, and nothing in every other case. The name of a literal
is what a cut at the first byte leaves: the text behind an ASCII character, or nothing. So the strings
of a source are their values in quotes, and its literals are their names behind a number sign. -/
theorem contents_exact :
    (∀ t : Token,
      t.stringValue = (cut? t.text 1 (t.text.utf8ByteSize - 1)).getD "" ∧
      (∀ contents, Encloses t.text contents → t.stringValue = contents) ∧
      ((∀ contents, ¬ Encloses t.text contents) → t.stringValue = "") ∧
      t.literalName = (cut? t.text 1 t.text.utf8ByteSize).getD "" ∧
      (∀ contents, Introduces t.text contents → t.literalName = contents) ∧
      ((∀ contents, ¬ Introduces t.text contents) → t.literalName = "")) ∧
    ∀ (source : String), ∀ t ∈ ofSource source,
      (t.kind = .string → t.text = "\"" ++ t.stringValue ++ "\"") ∧
      (t.kind = .literal → t.text = "#" ++ t.literalName) := by
  constructor
  · exact fun t => ⟨stringValue_eq_cut t, fun _ => stringValue_of_encloses,
      stringValue_of_not_encloses, literalName_eq_cut t, fun _ => literalName_of_introduces,
      literalName_of_not_introduces⟩
  · intro source t ht
    have hspelled (hkind : t.kind ≠ .error) : t.Spelled := Scanner.spelled_of_mem_tokens ht hkind
    refine ⟨fun hkind => ?_, fun hkind => ?_⟩
    · exact (hspelled (by rw [hkind]; exact Kind.noConfusion)).text_eq_quotes hkind
    · exact (hspelled (by rw [hkind]; exact Kind.noConfusion)).text_eq_sign hkind

/-- A string with characters of more than one byte at the ends of its value and a literal behind it; a
text that ends inside such a character; and one that has nothing but a quote. -/
theorem contents_exact_wide :
    "\"é😀\"" = "\"" ++ stringValue ⟨.string, "\"é😀\"", 0, 0, 5⟩ ++ "\"" ∧
    stringValue ⟨.string, "\"é😀\"", 0, 0, 5⟩ = "é😀" ∧
    "#nil" = "#" ++ literalName ⟨.literal, "#nil", 0, 5, 9⟩ ∧
    stringValue ⟨.string, "\"é", 0, 0, 2⟩ = "" ∧
    stringValue ⟨.string, "\"", 0, 0, 1⟩ = "" := by
  obtain ⟨hcontents, hsource⟩ := contents_exact
  have htokens : ofSource "\"é😀\"#nil" =
      [⟨.string, "\"é😀\"", 0, 0, 5⟩, ⟨.literal, "#nil", 0, 5, 9⟩] := by decide +kernel
  have hencloses : Encloses "\"é😀\"" "é😀" := ⟨'"', '"', by decide, by decide, rfl⟩
  have hopen (contents : String) : ¬ Encloses "\"é" contents := fun h => by
    have hcut := Text.cut?_inside_eq_some_iff.mpr h
    rw [show cut? "\"é" 1 ("\"é".utf8ByteSize - 1) = none by decide] at hcut
    cases hcut
  obtain ⟨-, hvalue, -⟩ := hcontents ⟨.string, "\"é😀\"", 0, 0, 5⟩
  obtain ⟨-, -, hempty, -⟩ := hcontents ⟨.string, "\"é", 0, 0, 2⟩
  obtain ⟨hcut, -⟩ := hcontents ⟨.string, "\"", 0, 0, 1⟩
  refine ⟨?_, hvalue _ hencloses, ?_, hempty hopen, hcut⟩
  · exact (hsource _ ⟨.string, "\"é😀\"", 0, 0, 5⟩ (by rw [htokens]; simp)).1 rfl
  · exact (hsource _ ⟨.literal, "#nil", 0, 5, 9⟩ (by rw [htokens]; simp)).2 rfl

end ActorAsm.Token
