import ActorAsm.Proofs.Token.LongestMatch

/-! Where a word ends. A word in front of a text is found there as it is if no word of its class can
go on into the text, which the first character of the text tells. Behind the end of a line the text
does not matter at all. -/

namespace ActorAsm.Lexeme

open Computability

section Alphabets
variable {L M : Language Char} {p q : Char → Prop}

/-- All characters of all words pass the test. -/
def Over (p : Char → Prop) (L : Language Char) : Prop := ∀ w ∈ L, ∀ c ∈ w, p c

private theorem over_single (h : ∀ c, q c → p c) : Over p (single q) := by
  rintro w ⟨c, hc, rfl⟩ d hd
  rw [List.mem_singleton.mp hd]
  exact h c hc

private theorem over_one : Over p 1 := by
  intro w hw c hc
  rw [(Language.mem_one w).mp hw] at hc
  cases hc

theorem Over.add (hL : Over p L) (hM : Over p M) : Over p (L + M) := by
  rintro w (hw | hw)
  · exact hL w hw
  · exact hM w hw

theorem Over.mul (hL : Over p L) (hM : Over p M) : Over p (L * M) := by
  intro w hw c hc
  obtain ⟨u, hu, v, hv, rfl⟩ := Language.mem_mul.mp hw
  rcases List.mem_append.mp hc with hc | hc
  · exact hL u hu c hc
  · exact hM v hv c hc

theorem Over.kstar (hL : Over p L) : Over p L∗ := by
  intro w hw c hc
  obtain ⟨words, rfl, hwords⟩ := Language.mem_kstar.mp hw
  obtain ⟨word, hword, hc⟩ := List.mem_flatten.mp hc
  exact hL word (hwords word hword) c hc

/-- The characters that words of a class can have in them. -/
def alphabet : Lexeme → Char → Bool
  | .newline, c => c = '\n' || c = '\r'
  | .space, c => c = ' '
  | .comment, c => c ≠ '\n' && c ≠ '\r'
  | .name, c => c.isAlphanum || c = '-' || c = '_' || c = '?'
  | .literal, c => c = '#' || c.isLower || c = '_' || c = '?'
  | .number, c => c.isDigit || c = '-'
  | .string, _ => true
  | .punct, c => isPunct c

theorem over_alphabet (lexeme : Lexeme) : Over (lexeme.alphabet ·) lexeme.language := by
  cases lexeme with
  | newline =>
    exact (over_single (by simp [alphabet])).add
      ((over_single (by simp [alphabet])).mul (over_one.add (over_single (by simp [alphabet]))))
  | space => exact (over_single (by simp [alphabet])).mul (over_single (by simp [alphabet])).kstar
  | comment =>
    exact (over_single (by simp [alphabet])).mul (over_single (by simp [alphabet, and_comm])).kstar
  | name =>
    rw [language, letter_eq, alphanumeric_eq]
    have hletter : Over (alphabet .name ·) (single (Char.isAlpha ·)) :=
      over_single fun c hc => by simp [alphabet, Char.isAlphanum, hc]
    have hpart : Over (alphabet .name ·)
        ((1 + oneOf ['-', '_']) * single (Char.isAlphanum ·)) :=
      (over_one.add (over_single (by simp [alphabet]))).mul (over_single (by simp_all [alphabet]))
    exact (hletter.mul hpart.kstar).mul (over_one.add (over_single (by simp [alphabet])))
  | literal =>
    rw [language, symbolCharacter_eq]
    have hsymbol : Over (alphabet .literal ·) (single (isSymbolChar ·)) :=
      over_single fun c hc => by simp_all [alphabet, isSymbolChar, or_assoc]
    exact (over_single (by simp [alphabet])).mul (hsymbol.mul hsymbol.kstar)
  | number =>
    rw [language, nonzeroDigit_eq, digit_eq]
    have hnonzero : Over (alphabet .number ·) (single (isNonzeroDigit ·)) :=
      over_single fun c hc => by simp [alphabet, (Bool.and_eq_true_iff.mp hc).1]
    have hdigit : Over (alphabet .number ·) (single (Char.isDigit ·)) :=
      over_single fun c hc => by simp [alphabet, hc]
    exact (((over_one.add (over_single (by simp [alphabet]))).mul hnonzero).mul hdigit.kstar).add
      (over_single (by simp [alphabet]))
  | string => exact fun _ _ _ _ => rfl
  | punct => exact over_single fun c hc => by simpa [alphabet, isPunct, or_assoc] using hc

end Alphabets

theorem mem_newline_language {w : List Char} :
    w ∈ language .newline ↔ w = ['\n'] ∨ w = ['\r'] ∨ w = ['\r', '\n'] := by
  rw [language, oneOf, oneOf, Language.mem_add, mem_single_mul]
  constructor
  · rintro (⟨c, hc, rfl⟩ | ⟨c, v, hc, hv | ⟨d, hd, rfl⟩, rfl⟩)
    · exact .inl (by rw [List.mem_singleton.mp hc])
    · rw [(Language.mem_one v).mp hv, List.mem_singleton.mp hc]
      exact .inr (.inl rfl)
    · rw [List.mem_singleton.mp hd, List.mem_singleton.mp hc]
      exact .inr (.inr rfl)
  · rintro (rfl | rfl | rfl)
    · exact .inl ⟨'\n', by decide, rfl⟩
    · exact .inr ⟨'\r', [], by decide, .inl Language.nil_mem_one, rfl⟩
    · exact .inr ⟨'\r', ['\n'], by decide, .inr ⟨'\n', by decide, rfl⟩, rfl⟩

theorem mem_string_language {w : List Char} :
    w ∈ language .string ↔ ∃ body, '"' ∉ body ∧ w = '"' :: (body ++ ['"']) := by
  have hplain (body : List Char) : body ∈ (noneOf ['"'])∗ ↔ '"' ∉ body := by
    rw [noneOf, mem_kstar_single]
    exact ⟨fun h hquote => h _ hquote (by simp), fun h c hc hquote =>
      h (List.mem_singleton.mp hquote ▸ hc)⟩
  rw [language, mul_assoc, oneOf, mem_single_mul]
  constructor
  · rintro ⟨c, _, hc, hv, rfl⟩
    obtain ⟨body, hbody, _, ⟨d, hd, rfl⟩, rfl⟩ := Language.mem_mul.mp hv
    rw [List.mem_singleton.mp hc, List.mem_singleton.mp hd]
    exact ⟨body, (hplain body).mp hbody, rfl⟩
  · rintro ⟨body, hbody, rfl⟩
    exact ⟨'"', _, by simp, Language.mem_mul.mpr
      ⟨body, (hplain body).mpr hbody, _, ⟨'"', by simp, rfl⟩, rfl⟩, rfl⟩

section Initials

/-- The characters that words of a class can begin with. -/
def initial : Lexeme → Char → Bool
  | .newline, c => c = '\n' || c = '\r'
  | .space, c => c = ' '
  | .comment, c => c = ';'
  | .name, c => c.isAlpha
  | .literal, c => c = '#'
  | .number, c => c.isDigit || c = '-'
  | .string, c => c = '"'
  | .punct, c => isPunct c

variable {lexeme earlier : Lexeme} {c : Char} {w : List Char}

theorem exists_initial (hw : w ∈ lexeme.language) : ∃ c v, w = c :: v ∧ lexeme.initial c := by
  cases lexeme with
  | newline =>
    obtain rfl | rfl | rfl := mem_newline_language.mp hw
    · exact ⟨'\n', [], rfl, rfl⟩
    · exact ⟨'\r', [], rfl, rfl⟩
    · exact ⟨'\r', ['\n'], rfl, rfl⟩
  | space | comment | literal =>
    obtain ⟨c, v, hc, -, rfl⟩ := mem_single_mul.mp hw
    exact ⟨c, v, rfl, by simpa [initial] using hc⟩
  | name =>
    rw [language, letter_eq, mul_assoc] at hw
    obtain ⟨c, v, hc, -, rfl⟩ := mem_single_mul.mp hw
    exact ⟨c, v, rfl, hc⟩
  | number =>
    rcases mem_number_language.mp hw with rfl | ⟨d, digits, hd, -, rfl | rfl⟩
    · exact ⟨'0', [], rfl, rfl⟩
    · exact ⟨d, digits, rfl, by simp [initial, (Bool.and_eq_true_iff.mp hd).1]⟩
    · exact ⟨'-', d :: digits, rfl, rfl⟩
  | string =>
    rw [language, mul_assoc] at hw
    obtain ⟨c, v, hc, -, rfl⟩ := mem_single_mul.mp hw
    exact ⟨c, v, rfl, by simpa [initial] using hc⟩
  | punct =>
    obtain ⟨c, hc, rfl⟩ := hw
    exact ⟨c, [], rfl, by simpa [initial, isPunct, or_assoc] using hc⟩

private theorem not_isDigit_of_isAlpha (h : c.isAlpha) : ¬ c.isDigit := by
  intro hd
  have hA : 'A'.toNat ≤ c.toNat := by
    rcases Bool.or_eq_true_iff.mp h with hu | hl
    · exact (isUpper_iff.mp hu).1
    · exact Nat.le_trans (by decide) (isLower_iff.mp hl).1
  have h9 : c.toNat ≤ '9'.toNat := (isDigit_iff.mp hd).2
  exact absurd (hA.trans h9) (by decide)

private theorem eq_of_isPunct (h : isPunct c) : c = '.' ∨ c = ':' ∨ c = '?' ∨ c = '#' := by
  simpa [isPunct, or_assoc] using h

/-- The first character tells the class, but for a number sign. -/
theorem initial_unique (h' : earlier.initial c) (h : lexeme.initial c)
    (hrank : earlier.rank < lexeme.rank) : lexeme = .punct ∧ c = '#' := by
  have only {d : Char} (hd : c = d) (hother : lexeme.initial d = false) :
      lexeme = .punct ∧ c = '#' := by
    rw [hd, hother] at h
    cases h
  cases earlier with
  | newline =>
    rcases Bool.or_eq_true_iff.mp h' with h' | h'
    · refine only (of_decide_eq_true h') ?_
      cases lexeme <;> first | rfl | exact absurd hrank (by decide)
    · refine only (of_decide_eq_true h') ?_
      cases lexeme <;> first | rfl | exact absurd hrank (by decide)
  | space | comment | string =>
    refine only (of_decide_eq_true h') ?_
    cases lexeme <;> first | rfl | exact absurd hrank (by decide)
  | literal =>
    cases lexeme with
    | punct => exact ⟨rfl, of_decide_eq_true h'⟩
    | number | string => exact only (of_decide_eq_true h') rfl
    | _ => exact absurd hrank (by decide)
  | name =>
    cases lexeme with
    | literal | string =>
      rw [of_decide_eq_true h] at h'
      cases h'
    | number =>
      rcases Bool.or_eq_true_iff.mp h with h | h
      · exact absurd h (not_isDigit_of_isAlpha h')
      · rw [of_decide_eq_true h] at h'
        cases h'
    | punct => rcases eq_of_isPunct h with rfl | rfl | rfl | rfl <;> cases h'
    | _ => exact absurd hrank (by decide)
  | number =>
    cases lexeme with
    | string =>
      rw [of_decide_eq_true h] at h'
      cases h'
    | punct => rcases eq_of_isPunct h with rfl | rfl | rfl | rfl <;> cases h'
    | _ => exact absurd hrank (by decide)
  | punct => cases lexeme <;> exact absurd hrank (by decide)

end Initials

section Seams
variable {lexeme : Lexeme} {text rest : List Char}

/-- A word that cannot go on into the text is found there as it is. -/
theorem isLongest_of_not_mem (hmem : text ∈ lexeme.language)
    (hrest : ∀ c ∈ rest.head?, ∀ v, text ++ c :: v ∉ lexeme.language) :
    IsLongest lexeme.language (text ++ rest) text where
  mem := hmem
  isPrefix := List.prefix_append text rest
  length_le w hw hprefix := by
    rcases List.prefix_or_prefix_of_prefix hprefix (List.prefix_append text rest) with
      hshort | ⟨v, rfl⟩
    · exact hshort.length_le
    · obtain ⟨behind, rfl⟩ := (List.prefix_append_right_inj text).mp hprefix
      cases v with
      | nil => simp
      | cons c v => exact absurd hw (hrest c rfl v)

/-- A word goes on only into characters of its class. -/
theorem isLongest_of_alphabet (hmem : text ∈ lexeme.language)
    (hrest : ∀ c ∈ rest.head?, lexeme.alphabet c = false) :
    IsLongest lexeme.language (text ++ rest) text := by
  refine isLongest_of_not_mem hmem fun c hc v hw => ?_
  have hin : lexeme.alphabet c := over_alphabet lexeme _ hw c (by simp)
  rw [hrest c hc] at hin
  cases hin

/-- A sign can only stand in front of a number. -/
theorem isDigit_of_cons_mem_number {c : Char} {digits : List Char}
    (h : c :: digits ∈ language .number) : ∀ d ∈ digits, d.isDigit := by
  rcases mem_number_language.mp h with h | ⟨d, behind, hd, hbehind, h | h⟩
  all_goals obtain ⟨rfl, rfl⟩ := List.cons.inj h
  · exact List.forall_mem_nil _
  · exact hbehind
  · exact List.forall_mem_cons.mpr ⟨(Bool.and_eq_true_iff.mp hd).1, hbehind⟩

/-- So a number goes on only into digits. -/
theorem isLongest_number (hmem : text ∈ language .number) (hrest : ∀ c ∈ rest.head?, ¬ c.isDigit) :
    IsLongest (language .number) (text ++ rest) text := by
  refine isLongest_of_not_mem hmem fun c hc v hw => ?_
  obtain ⟨first, behind, rfl, -⟩ := exists_initial hmem
  rw [List.cons_append] at hw
  exact hrest c hc (isDigit_of_cons_mem_number hw c (by simp))

/-- Line breaks, but for a lone carriage return, end in themselves. -/
theorem isLongest_newline (hmem : text ∈ language .newline) (hcr : text ≠ ['\r']) :
    IsLongest (language .newline) (text ++ rest) text := by
  have h : Lexeme.newline.longest? (text ++ rest) = some text := by
    obtain rfl | rfl | rfl := mem_newline_language.mp hmem
    · rfl
    · exact absurd rfl hcr
    · rfl
  exact longest?_eq_some_iff.mp h

/-- So do strings. -/
theorem isLongest_string (hmem : text ∈ language .string) :
    IsLongest (language .string) (text ++ rest) text := by
  obtain ⟨body, hbody, rfl⟩ := mem_string_language.mp hmem
  have hplain (c : Char) (hc : c ∈ body) : decide (c ≠ '"') = true :=
    decide_eq_true fun hquote => hbody (hquote ▸ hc)
  have htake : (body ++ '"' :: rest).takeWhile (· ≠ '"') = body := by
    rw [List.takeWhile_append_of_pos hplain]
    simp
  have h : Lexeme.string.longest? ('"' :: (body ++ ['"']) ++ rest) =
      some ('"' :: (body ++ ['"'])) := by
    simpa [longest?, string?] using htake
  exact longest?_eq_some_iff.mp h

/-- And punctuation marks. -/
theorem isLongest_punct (hmem : text ∈ language .punct) :
    IsLongest (language .punct) (text ++ rest) text := by
  obtain ⟨c, hc, rfl⟩ := hmem
  exact isLongest_single hc

/-- No class before has a word in front of the text; only for a number sign another one may. -/
theorem begins_of_isLongest (h : IsLongest lexeme.language (text ++ rest) text)
    (hsign : lexeme = .punct → text ≠ ['#']) : Begins (text ++ rest) lexeme text where
  longest := h
  absent earlier hrank w hw hprefix := by
    obtain ⟨c, v, rfl, hc⟩ := exists_initial hw
    obtain ⟨d, v', rfl, hd⟩ := exists_initial h.mem
    obtain ⟨rfl, -⟩ := List.cons_prefix_cons.mp hprefix
    obtain ⟨rfl, rfl⟩ := initial_unique hc hd hrank
    obtain ⟨d, -, hsingle⟩ := h.mem
    exact hsign rfl (by rw [hsingle, (List.cons.inj hsingle).1])

end Seams

end ActorAsm.Lexeme
