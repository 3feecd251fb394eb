import ActorAsm.Proofs.Module.Spelling
import ActorAsm.Proofs.Token.LineBreaks

/-! The tokens of a source. Each has a text that is a word of its kind, and stands in the line that
the line breaks in front of it count. -/

namespace ActorAsm

namespace Token
variable {t : Token}

/-- The text is a word of the pattern of its class. -/
theorem Spelled.mem_language {lexeme : Lexeme} (h : t.Spelled)
    (hclass : t.kind.lexeme? = some lexeme) : t.text.toList ∈ lexeme.language := by
  obtain ⟨other, hmem, hbecomes⟩ := h
  cases hclass.symm.trans hbecomes.lexeme?_eq
  exact hmem

theorem Spelled.mem_name_language (h : t.Spelled) (hkind : t.kind = .name) :
    t.text.toList ∈ Lexeme.name.language :=
  h.mem_language (congrArg Kind.lexeme? hkind)

/-- A number is not too far from zero. -/
theorem Spelled.natAbs_le {value : Int} (h : t.Spelled) (hkind : t.kind = .number value) :
    value.natAbs ≤ maxNumber := by
  obtain ⟨lexeme, -, hbecomes⟩ := h
  rw [hkind] at hbecomes
  generalize t.text.toList = text at hbecomes
  cases hbecomes with
  | number hlow hhigh =>
    unfold maxNumber
    omega

/-- Between single ASCII characters stands the value of a string. -/
theorem stringValue_of_text {a b : Char} {body : List Char} (h : t.text.toList = a :: (body ++ [b]))
    (ha : a.toNat < 128) (hb : b.toNat < 128) : t.stringValue = String.ofList body := by
  obtain ⟨c, cs, hcons⟩ := List.exists_cons_of_ne_nil
    (List.append_ne_nil_of_right_ne_nil body (List.cons_ne_nil b []))
  have hlast : (c :: cs).getLast (List.cons_ne_nil c cs) = b := by simp [← hcons]
  have hinner : (c :: cs).dropLast = body := by simp [← hcons]
  unfold stringValue
  rw [h, hcons]
  simp only [hlast, hinner, ha, hb, and_self, if_true]

/-- There is no quote between the quotes of a string. -/
theorem Spelled.quote_not_mem_stringValue (h : t.Spelled) (hkind : t.kind = .string) :
    '"' ∉ t.stringValue.toList := by
  obtain ⟨body, hbody, htext⟩ :=
    Lexeme.mem_string_language.mp (h.mem_language (congrArg Kind.lexeme? hkind))
  rwa [stringValue_of_text htext (by decide) (by decide), String.toList_ofList]

end Token

namespace Scanner
open Lexeme (Becomes)
variable {s : Scanner} {t : Token} {front ts : List Token} {lexeme : Lexeme} {text rest : List Char}
  {kind : Token.Kind}

/-- Whatever is no error is spelled as its kind demands. -/
theorem spelled_of_mem_tokens (ht : t ∈ s.tokens) (hkind : t.kind ≠ .error) : t.Spelled := by
  induction s using tokens.induct with
  | case1 s hnone =>
    rw [tokens_of_next?_none hnone] at ht
    cases ht
  | case2 s first s' hnext ih =>
    rw [tokens_of_next?_some hnext] at ht
    rcases List.mem_cons.mp ht with rfl | ht
    · rcases next?_cases hnext with ⟨lexeme, kind, text, rest, -, hbegins, hbecomes, rfl, -⟩ |
        ⟨passed, -, herror⟩
      · refine ⟨lexeme, ?_, ?_⟩ <;> rw [word, String.toList_ofList]
        · exact hbegins.longest.mem
        · exact hbecomes
      · cases herror
        exact absurd rfl hkind
    · exact ih ht

/-- Behind a word the scanner is one line further on if the word is a line break. -/
theorem behind_line (h : Becomes lexeme text kind) :
    (s.behind lexeme text rest).line = s.line + if kind = .newline then 1 else 0 := by
  unfold behind
  cases h <;> rfl

/-- The line of a token is the number of line breaks in front of it. -/
theorem line_eq_countP (h : s.tokens = front ++ t :: ts) :
    t.line = s.line + front.countP (·.kind = .newline) := by
  induction front generalizing s with
  | nil =>
    cases hnext : s.next? with
    | none => cases h.symm.trans (tokens_of_next?_none hnext)
    | some result =>
      cases h.symm.trans (tokens_of_next?_some hnext)
      exact (line_of_next? hnext).1
  | cons first front ih =>
    rcases exists_word h with ⟨lexeme, rest, -, -, hbecomes, -, hrest⟩ | ⟨-, hnil, -⟩
    · rw [ih hrest.symm, behind_line hbecomes, List.countP_cons]
      simp [Nat.add_assoc, Nat.add_comm]
    · simp at hnil

end Scanner

namespace Token
variable {source : String} {t : Token}

/-- Without an error nothing of the source is lost. -/
theorem texts_ofSource (h : ∀ t ∈ ofSource source, t.kind ≠ .error) :
    texts (ofSource source) = source.toList := by
  have hlexes := (Lexeme.lexes_iff (Scanner.ofString source)).mpr rfl
  obtain ⟨rest, htexts, hrest⟩ := hlexes.texts_append
  have hplain : ∀ pair ∈ (Scanner.ofString source).pairs, pair.1 ≠ .error := List.forall_mem_map.mpr h
  have hfilter : (Scanner.ofString source).pairs.filter (·.1 ≠ .error) =
      (Scanner.ofString source).pairs :=
    List.filter_eq_self.mpr fun pair hpair => decide_eq_true (hplain pair hpair)
  rw [hfilter, hrest.mpr hplain, List.append_nil, Scanner.pairs, List.flatMap_map] at htexts
  exact htexts

/-- When a line break ends the source, all tokens stand in lines that end. -/
theorem line_lt_countP (hlast : ∀ t ∈ (ofSource source).getLast?, t.kind = .newline)
    (ht : t ∈ ofSource source) : t.line < (ofSource source).countP (·.kind = .newline) := by
  have hlines := Scanner.pairwise_line_le (Scanner.ofString source)
  have hcount {front : List Token} {newline : Token} (h : ofSource source = front ++ [newline]) :
      newline.line = front.countP (·.kind = .newline) :=
    (Scanner.line_eq_countP h).trans (Nat.zero_add _)
  change (ofSource source).Pairwise _ at hlines
  generalize ofSource source = ts at *
  rcases List.eq_nil_or_concat' ts with rfl | ⟨front, newline, rfl⟩
  · cases ht
  · have hnewline : newline.kind = .newline := hlast newline (by simp)
    have hle : t.line ≤ newline.line := by
      rcases List.mem_append.mp ht with ht | ht
      · exact (List.pairwise_append.mp hlines).2.2 t ht newline List.mem_cons_self
      · rw [List.mem_singleton.mp ht]
    rw [List.countP_append, ← hcount rfl, List.countP_singleton]
    simpa [hnewline] using Nat.lt_succ_of_le hle

end Token

end ActorAsm
