import ActorAsm.CommandLine.Run
import ActorAsm.Proofs.Token.Display

/-! The listing of tokens. Each token is on a line of its own, so the listing of a source without
errors, in which all lines end with a line feed, determines the source. -/

namespace ActorAsm.CommandLine
open Lexeme (isLineBreak)
open Token (display displayHiding ofSource texts)

/-- A token that is no error and, if it is a line break, a line feed. -/
def Plain (t : Token) : Prop := t.kind ≠ .error ∧ (t.kind = .newline → t.text = "\n")

instance (t : Token) : Decidable (Plain t) := inferInstanceAs (Decidable (_ ∧ _))

variable {hidden : Char → Bool} {t t' : Token} {ts ts' : List Token} {source source' : String}

private theorem toList_tokenListingHiding (hidden : Char → Bool) (source : String) :
    (tokenListingHiding hidden source).toList =
      ((ofSource source).map fun t => (t.displayHiding hidden).toList).flatMap (· ++ ['\n']) := by
  rw [tokenListingHiding, String.toList_join, List.flatMap_map, List.flatMap_map]
  simp only [String.toList_append]
  rfl

/-- The listing determines its lines. -/
theorem displays_of_listing
    (h : tokenListingHiding hidden source = tokenListingHiding hidden source') :
    (ofSource source).map (displayHiding hidden) =
      (ofSource source').map (displayHiding hidden) := by
  have hunbroken (source : String) :
      ∀ line ∈ (ofSource source).map fun t => (t.displayHiding hidden).toList,
        ∀ c ∈ line, !isLineBreak c := by
    rw [List.forall_mem_map]
    intro t _ c hc
    rw [Token.not_isLineBreak_displayHiding t c hc]
    rfl
  have hchars := congrArg String.toList h
  rw [toList_tokenListingHiding, toList_tokenListingHiding] at hchars
  have hlines := Text.lines_cancel rfl (hunbroken source) (hunbroken source') hchars
  have hmap := congrArg (List.map String.ofList) hlines
  simpa only [List.map_map, Function.comp_def, String.ofList_toList] using hmap

private theorem Plain.text_eq (ht : Plain t) (ht' : Plain t')
    (h : t.displayHiding hidden = t'.displayHiding hidden) : t.text = t'.text := by
  obtain ⟨hkind, -, -, htext⟩ := Token.displayHiding_cancel h
  by_cases hnewline : t.kind = .newline
  · have hnewline' : t'.kind = .newline := by
      rw [hnewline] at hkind
      exact Token.Kind.eq_newline_of_lexeme? hkind.symm
    rw [ht.2 hnewline, ht'.2 hnewline']
  · exact (htext (Token.Kind.isBare_eq_false_iff.mpr ⟨hnewline, ht.1⟩)).2

/-- Plain tokens with the same lines have the same texts. -/
theorem texts_eq_of_displays (hts : ∀ t ∈ ts, Plain t) (hts' : ∀ t ∈ ts', Plain t)
    (h : ts.map (displayHiding hidden) = ts'.map (displayHiding hidden)) :
    texts ts = texts ts' := by
  induction ts generalizing ts' with
  | nil => rw [List.map_eq_nil_iff.mp h.symm]
  | cons t ts ih =>
    cases ts' with
    | nil => cases h
    | cons t' ts' =>
      rw [List.forall_mem_cons] at hts hts'
      obtain ⟨hdisplay, hrest⟩ := List.cons.inj h
      rw [texts, texts, List.flatMap_cons, List.flatMap_cons, hts.1.text_eq hts'.1 hdisplay]
      exact congrArg _ (ih hts.2 hts'.2 hrest)

private theorem source_eq_of_listing (hplain : ∀ t ∈ ofSource source, Plain t)
    (hplain' : ∀ t ∈ ofSource source', Plain t)
    (h : tokenListingHiding hidden source = tokenListingHiding hidden source') :
    source = source' := by
  apply String.toList_inj.mp
  rw [← Token.texts_ofSource fun t ht => (hplain t ht).1,
    ← Token.texts_ofSource fun t ht => (hplain' t ht).1,
    texts_eq_of_displays hplain hplain' (displays_of_listing h)]

/-- The one-line forms of tokens and the listing of a source are unambiguous, whatever characters are
hidden in them: equal forms are those of tokens of one class in one place, with the same text unless
they are line breaks or errors; no form is broken into lines; and sources of plain tokens that have
the same listing are the same. -/
theorem tokenListing_unambiguous :
    (displayHiding Text.isHidden = display ∧ tokenListingHiding Text.isHidden = tokenListing) ∧
    ∀ hidden : Char → Bool,
      (∀ t t' : Token, t.displayHiding hidden = t'.displayHiding hidden →
        t.kind.lexeme? = t'.kind.lexeme? ∧ t.line = t'.line ∧ t.column = t'.column ∧
          (t.kind ≠ .newline → t.kind ≠ .error → t.columnTo = t'.columnTo ∧ t.text = t'.text)) ∧
      (∀ t : Token, '\n' ∉ (t.displayHiding hidden).toList ∧
        '\r' ∉ (t.displayHiding hidden).toList) ∧
      ∀ source source', (∀ t ∈ ofSource source, Plain t) → (∀ t ∈ ofSource source', Plain t) →
        tokenListingHiding hidden source = tokenListingHiding hidden source' →
          source = source' := by
  refine ⟨⟨rfl, rfl⟩, fun hidden => ⟨?_, ?_, ?_⟩⟩
  · intro t t' h
    obtain ⟨hkind, hline, hcolumn, htext⟩ := Token.displayHiding_cancel h
    exact ⟨hkind, hline, hcolumn, fun hnewline herror =>
      htext (Token.Kind.isBare_eq_false_iff.mpr ⟨hnewline, herror⟩)⟩
  · intro t
    have hunbroken : ∀ c ∈ (t.displayHiding hidden).toList, isLineBreak c = false :=
      Token.not_isLineBreak_displayHiding t
    exact ⟨fun hmem => absurd (hunbroken _ hmem) (by decide),
      fun hmem => absurd (hunbroken _ hmem) (by decide)⟩
  · intro source source' hplain hplain' h
    exact source_eq_of_listing hplain hplain' h

/-- A character that is hidden, and its escape written out, in comments. -/
theorem tokenListing_unambiguous_escaped :
    tokenListing "; e\\u\x7b301\x7d\n" ≠ tokenListing "; e\u0301\n" ∧
    tokenListing "; e\u0301\n" = "0:0-4 comment \"; e\\u\x7b301\x7d\"\n0:4 newline\n" ∧
    ∀ t' : Token, (⟨.number 7, "7", 0, 1, 2⟩ : Token).display = t'.display →
      t'.kind.lexeme? = some .number ∧ t'.text = "7" := by
  obtain ⟨-, hall⟩ := tokenListing_unambiguous
  obtain ⟨hdisplay, -, hlisting⟩ := hall Text.isHidden
  refine ⟨fun h => ?_, by decide +kernel, fun t' h => ?_⟩
  · have hsource := hlisting "; e\\u\x7b301\x7d\n" "; e\u0301\n" (by decide +kernel)
      (by decide +kernel) h
    exact absurd hsource (by decide)
  · obtain ⟨hkind, -, -, htext⟩ := hdisplay ⟨.number 7, "7", 0, 1, 2⟩ t' h
    exact ⟨hkind.symm, (htext Token.Kind.noConfusion Token.Kind.noConfusion).2.symm⟩

end ActorAsm.CommandLine
