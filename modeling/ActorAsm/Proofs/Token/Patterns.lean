import ActorAsm.Token.Lexeme
import Mathlib.Computability.Language

/-! The patterns of the classes of lexemes, as languages. What a class finds at the head of a text
is the longest word of its pattern that is a prefix of the text. -/

namespace ActorAsm.Lexeme

open Computability

/-- The words of one character that passes the test. -/
def single (p : Char → Prop) : Language Char := {w | ∃ c, p c ∧ w = [c]}

def oneOf (cs : List Char) : Language Char := single (· ∈ cs)

def noneOf (cs : List Char) : Language Char := single (· ∉ cs)

def between (a b : Char) : Language Char := single fun c => a ≤ c ∧ c ≤ b

/-- The pattern of each class. -/
def language : Lexeme → Language Char
  | .newline => oneOf ['\n'] + oneOf ['\r'] * (1 + oneOf ['\n'])
  | .space => oneOf [' '] * (oneOf [' '])∗
  | .comment => oneOf [';'] * (noneOf ['\r', '\n'])∗
  | .name => (between 'a' 'z' + between 'A' 'Z') *
      ((1 + oneOf ['-', '_']) * (between '0' '9' + between 'a' 'z' + between 'A' 'Z'))∗ *
      (1 + oneOf ['?'])
  | .literal => oneOf ['#'] *
      ((between 'a' 'z' + oneOf ['_', '?']) * (between 'a' 'z' + oneOf ['_', '?'])∗)
  | .number => (1 + oneOf ['-']) * between '1' '9' * (between '0' '9')∗ + oneOf ['0']
  | .string => oneOf ['"'] * (noneOf ['"'])∗ * oneOf ['"']
  | .punct => oneOf ['.', ':', '?', '#']

/-- No word of the language is a prefix of the text. -/
def Absent (L : Language Char) (cs : List Char) : Prop := ∀ w ∈ L, ¬ w <+: cs

/-- The longest word of the language that is a prefix of the text. -/
structure IsLongest (L : Language Char) (cs found : List Char) : Prop where
  mem : found ∈ L
  isPrefix : found <+: cs
  length_le : ∀ w ∈ L, w <+: cs → w.length ≤ found.length

variable {L M : Language Char} {p q : Char → Prop} {c : Char} {cs found other : List Char}

theorem IsLongest.unique (h : IsLongest L cs found) (h' : IsLongest L cs other) : found = other :=
  have hle := h'.length_le found h.mem h.isPrefix
  have hge := h.length_le other h'.mem h'.isPrefix
  (List.prefix_of_prefix_length_le h.isPrefix h'.isPrefix hle).eq_of_length (hle.antisymm hge)

theorem IsLongest.not_absent (h : IsLongest L cs found) : ¬ Absent L cs :=
  fun ha => ha found h.mem h.isPrefix

theorem Absent.add (hL : Absent L cs) (hM : Absent M cs) : Absent (L + M) cs := by
  rintro w (h | h)
  · exact hL w h
  · exact hM w h

theorem IsLongest.add_left (hL : IsLongest L cs found) (hM : Absent M cs) :
    IsLongest (L + M) cs found where
  mem := .inl hL.mem
  isPrefix := hL.isPrefix
  length_le := by
    rintro w (h | h) hw
    · exact hL.length_le w h hw
    · exact absurd hw (hM w h)

theorem IsLongest.add_right (hL : Absent L cs) (hM : IsLongest M cs found) :
    IsLongest (L + M) cs found :=
  add_comm M L ▸ hM.add_left hL

private theorem isLongest_one (cs : List Char) : IsLongest 1 cs [] where
  mem := Language.nil_mem_one
  isPrefix := List.nil_prefix
  length_le := by
    intro w h _
    rw [(Language.mem_one w).1 h]

/-- Where a word may be left out it is still taken. -/
theorem IsLongest.one_add (h : IsLongest L cs found) : IsLongest (1 + L) cs found where
  mem := .inr h.mem
  isPrefix := h.isPrefix
  length_le := by
    rintro w (hw | hw) hp
    · rw [(Language.mem_one w).1 hw]
      exact Nat.zero_le _
    · exact h.length_le w hw hp

theorem Absent.one_add (h : Absent L cs) : IsLongest (1 + L) cs [] :=
  (isLongest_one cs).add_left h

theorem mem_single_mul {w : List Char} :
    w ∈ single p * L ↔ ∃ c v, p c ∧ v ∈ L ∧ w = c :: v := by
  rw [Language.mem_mul]
  constructor
  · rintro ⟨_, ⟨c, hc, rfl⟩, v, hv, rfl⟩
    exact ⟨c, v, hc, hv, rfl⟩
  · rintro ⟨c, v, hc, hv, rfl⟩
    exact ⟨[c], ⟨c, hc, rfl⟩, v, hv, rfl⟩

theorem absent_single_mul_nil : Absent (single p * L) [] := by
  intro w hw h
  obtain ⟨c, v, -, -, rfl⟩ := mem_single_mul.1 hw
  exact List.cons_ne_nil c v (List.prefix_nil.1 h)

theorem absent_single_mul_cons (h : ¬ p c) : Absent (single p * L) (c :: cs) := by
  intro w hw hpre
  obtain ⟨d, v, hd, -, rfl⟩ := mem_single_mul.1 hw
  exact h ((List.cons_prefix_cons.1 hpre).1 ▸ hd)

theorem Absent.cons (h : Absent L cs) : Absent (single p * L) (c :: cs) := by
  intro w hw hpre
  obtain ⟨d, v, -, hv, rfl⟩ := mem_single_mul.1 hw
  exact h v hv (List.cons_prefix_cons.1 hpre).2

theorem IsLongest.cons (hc : p c) (h : IsLongest L cs found) :
    IsLongest (single p * L) (c :: cs) (c :: found) where
  mem := mem_single_mul.2 ⟨c, found, hc, h.mem, rfl⟩
  isPrefix := List.cons_prefix_cons.2 ⟨rfl, h.isPrefix⟩
  length_le := by
    intro w hw hpre
    obtain ⟨d, v, -, hv, rfl⟩ := mem_single_mul.1 hw
    exact Nat.succ_le_succ (h.length_le v hv (List.cons_prefix_cons.1 hpre).2)

private theorem absent_single_nil : Absent (single p) [] :=
  mul_one (single p) ▸ absent_single_mul_nil

theorem absent_single (h : ¬ p c) : Absent (single p) (c :: cs) :=
  mul_one (single p) ▸ absent_single_mul_cons h

theorem isLongest_single (hc : p c) : IsLongest (single p) (c :: cs) [c] :=
  mul_one (single p) ▸ (isLongest_one cs).cons hc

private theorem single_add (p q : Char → Prop) :
    single p + single q = single fun c => p c ∨ q c := by
  ext w
  constructor
  · rintro (⟨c, hc, rfl⟩ | ⟨c, hc, rfl⟩)
    · exact ⟨c, .inl hc, rfl⟩
    · exact ⟨c, .inr hc, rfl⟩
  · rintro ⟨c, hc | hc, rfl⟩
    · exact .inl ⟨c, hc, rfl⟩
    · exact .inr ⟨c, hc, rfl⟩

/-- A run of characters goes on as long as they pass the test. -/
theorem isLongest_kstar_single {t : Char → Bool} (ht : ∀ c, p c ↔ t c) (cs : List Char) :
    IsLongest (single p)∗ cs (cs.takeWhile t) := by
  rw [← Language.one_add_self_mul_kstar_eq_kstar]
  induction cs with
  | nil => exact absent_single_mul_nil.one_add
  | cons c cs ih =>
    rw [← Language.one_add_self_mul_kstar_eq_kstar]
    by_cases hc : t c
    · rw [List.takeWhile_cons_of_pos hc]
      exact (ih.cons ((ht c).2 hc)).one_add
    · rw [List.takeWhile_cons_of_neg hc]
      exact (absent_single_mul_cons fun h => hc ((ht c).1 h)).one_add

theorem mem_kstar_single {w : List Char} : w ∈ (single p)∗ ↔ ∀ c ∈ w, p c := by
  induction w with
  | nil => exact ⟨fun _ _ hc => absurd hc List.not_mem_nil, fun _ => Language.nil_mem_kstar _⟩
  | cons c w ih =>
    rw [← Language.one_add_self_mul_kstar_eq_kstar, List.forall_mem_cons, ← ih]
    constructor
    · rintro (h | h)
      · cases (Language.mem_one _).1 h
      · obtain ⟨d, v, hd, hv, he⟩ := mem_single_mul.1 h
        cases he
        exact ⟨hd, hv⟩
    · rintro ⟨hc, hw⟩
      exact .inr (mem_single_mul.2 ⟨c, w, hc, hw, rfl⟩)

theorem single_congr (h : ∀ c, p c ↔ q c) : single p = single q := by
  rw [funext fun c => propext (h c)]

theorem isUpper_iff : c.isUpper ↔ 'A' ≤ c ∧ c ≤ 'Z' := by
  change decide ('A'.val ≤ c.val ∧ c.val ≤ 'Z'.val) = true ↔ _
  exact decide_eq_true_iff

theorem isLower_iff : c.isLower ↔ 'a' ≤ c ∧ c ≤ 'z' := by
  change (decide ('a'.val ≤ c.val) && decide (c.val ≤ 'z'.val)) = true ↔ _
  rw [Bool.and_eq_true, decide_eq_true_eq, decide_eq_true_eq, Char.le_def, Char.le_def]

theorem isDigit_iff : c.isDigit ↔ '0' ≤ c ∧ c ≤ '9' :=
  Char.isDigit_iff_toNat

theorem letter_eq : between 'a' 'z' + between 'A' 'Z' = single (Char.isAlpha ·) := by
  rw [between, between, single_add]
  refine single_congr fun c => ?_
  rw [← isUpper_iff, ← isLower_iff, or_comm]
  exact Bool.or_eq_true_iff.symm

theorem digit_eq : between '0' '9' = single (Char.isDigit ·) :=
  single_congr fun _ => isDigit_iff.symm

theorem nonzeroDigit_eq : between '1' '9' = single (isNonzeroDigit ·) := by
  refine single_congr fun c => ?_
  rw [isNonzeroDigit, Bool.and_eq_true, isDigit_iff, decide_eq_true_eq, ne_eq, Char.ext_iff]
  simp only [Char.le_def, UInt32.le_iff_toNat_le, ← UInt32.toNat_inj]
  have h0 : '0'.val.toNat = 48 := rfl
  have h1 : '1'.val.toNat = 49 := rfl
  omega

theorem alphanumeric_eq :
    between '0' '9' + between 'a' 'z' + between 'A' 'Z' = single (Char.isAlphanum ·) := by
  rw [add_assoc, letter_eq, digit_eq, single_add]
  refine single_congr fun c => ?_
  rw [or_comm]
  exact Bool.or_eq_true_iff.symm

theorem symbolCharacter_eq :
    between 'a' 'z' + oneOf ['_', '?'] = single (isSymbolChar ·) := by
  rw [between, oneOf, single_add]
  refine single_congr fun c => ?_
  simp [isSymbolChar, isLower_iff, or_assoc]

/-- What a class finds at the head of a text is the longest word of the language; if it finds
nothing there is none. -/
def Reads (L : Language Char) (cs : List Char) : Option (List Char) → Prop
  | some found => IsLongest L cs found
  | none => Absent L cs

theorem Reads.add_left {result : Option (List Char)} (hL : Reads L cs result) (hM : Absent M cs) :
    Reads (L + M) cs result := by
  cases result with
  | none => exact Absent.add hL hM
  | some found => exact IsLongest.add_left hL hM

theorem Reads.add_right {result : Option (List Char)} (hL : Absent L cs) (hM : Reads M cs result) :
    Reads (L + M) cs result :=
  add_comm M L ▸ hM.add_left hL

theorem Reads.cons {result : Option (List Char)} (hc : p c) (h : Reads L cs result) :
    Reads (single p * L) (c :: cs) (result.map (c :: ·)) := by
  cases result with
  | none => exact Absent.cons h
  | some found => exact IsLongest.cons hc h

private theorem absent_oneOf_mul (h : ∀ tail, cs ≠ c :: tail) : Absent (oneOf [c] * L) cs := by
  cases cs with
  | nil => exact absent_single_mul_nil
  | cons d cs => exact absent_single_mul_cons fun hd => h cs (by rw [List.mem_singleton.1 hd])

private theorem absent_oneOf (h : ∀ tail, cs ≠ c :: tail) : Absent (oneOf [c]) cs :=
  mul_one (oneOf [c]) ▸ absent_oneOf_mul h

private theorem newline_reads (cs : List Char) : Reads (language .newline) cs (newline? cs) := by
  unfold newline?
  split
  · exact (isLongest_single (by decide)).add_left (absent_single_mul_cons (by decide))
  · exact .add_right (absent_single (by decide))
      ((isLongest_single (by decide)).one_add.cons (by decide))
  next cs hlf =>
    have hrest : Absent (oneOf ['\n']) cs := absent_oneOf fun tail h => hlf tail (h ▸ rfl)
    exact .add_right (absent_single (by decide)) (hrest.one_add.cons (by decide))
  next hlf _ hcr => exact (absent_oneOf hlf).add (absent_oneOf_mul hcr)

private theorem space_reads (cs : List Char) : Reads (language .space) cs (space? cs) := by
  unfold space?
  split
  · exact (isLongest_kstar_single (by simp) _).cons (by decide)
  next hhead => exact absent_oneOf_mul hhead

private theorem comment_reads (cs : List Char) : Reads (language .comment) cs (comment? cs) := by
  unfold comment?
  split
  · refine (isLongest_kstar_single (fun c => ?_) _).cons (by decide)
    simp [isLineBreak, not_or, and_comm]
  next hhead => exact absent_oneOf_mul hhead

private def nameEnd : Language Char :=
  ((1 + oneOf ['-', '_']) * single (Char.isAlphanum ·))∗ * (1 + oneOf ['?'])

private theorem nameEnd_eq :
    nameEnd = 1 + (oneOf ['?'] + (single (Char.isAlphanum ·) * nameEnd +
      oneOf ['-', '_'] * (single (Char.isAlphanum ·) * nameEnd))) := by
  conv_lhs => rw [nameEnd, ← Language.one_add_self_mul_kstar_eq_kstar]
  simp only [add_mul, one_mul, mul_assoc, nameEnd, add_assoc]

private theorem not_mem_of_isAlphanum {ds : List Char} (hc : c.isAlphanum)
    (hds : ds.all (!Char.isAlphanum ·)) : c ∉ ds := fun hmem => by
  have hnot := List.all_eq_true.1 hds c hmem
  rw [hc] at hnot
  cases hnot

private theorem isLongest_nameTail (cs : List Char) : IsLongest nameEnd cs (nameTail cs) := by
  fun_induction nameTail cs with
  | case1 =>
    rw [nameEnd_eq]
    exact (absent_single_nil.add (absent_single_mul_nil.add absent_single_mul_nil)).one_add
  | case2 c cs hc ih =>
    rw [nameEnd_eq]
    have hmark : c ∉ ['?'] := not_mem_of_isAlphanum hc (by decide)
    have hseparator : c ∉ ['-', '_'] := not_mem_of_isAlphanum hc (by decide)
    exact .one_add (.add_right (absent_single hmark)
      (.add_left (.cons hc ih) (absent_single_mul_cons hseparator)))
  | case3 cs hc =>
    rw [nameEnd_eq]
    exact .one_add (.add_left (isLongest_single (by decide))
      ((absent_single_mul_cons hc).add (absent_single_mul_cons (by decide))))
  | case4 c hc hmark hseparator d ds hd ih =>
    rw [nameEnd_eq]
    have hmem : c ∈ ['-', '_'] := by simpa [isSeparator] using hseparator
    exact .one_add (.add_right (absent_single (by simpa using hmark))
      (.add_right (absent_single_mul_cons hc) (.cons hmem (.cons hd ih))))
  | case5 c hc hmark hseparator d ds hd =>
    rw [nameEnd_eq]
    exact Absent.one_add ((absent_single (by simpa using hmark)).add
      ((absent_single_mul_cons hc).add (absent_single_mul_cons hd).cons))
  | case6 c hc hmark hseparator =>
    rw [nameEnd_eq]
    exact Absent.one_add ((absent_single (by simpa using hmark)).add
      ((absent_single_mul_cons hc).add absent_single_mul_nil.cons))
  | case7 c cs hc hmark hseparator =>
    rw [nameEnd_eq]
    have hmem : c ∉ ['-', '_'] := by simpa [isSeparator] using hseparator
    exact Absent.one_add ((absent_single (by simpa using hmark)).add
      ((absent_single_mul_cons hc).add (absent_single_mul_cons hmem)))

private theorem name_reads (cs : List Char) : Reads (language .name) cs (name? cs) := by
  rw [language, letter_eq, alphanumeric_eq, mul_assoc]
  unfold name?
  split
  next c cs =>
    split
    next hc => exact (isLongest_nameTail cs).cons hc
    next hc => exact absent_single_mul_cons hc
  · exact absent_single_mul_nil

private theorem symbol_reads (cs : List Char) :
    Reads (single (isSymbolChar ·) * (single (isSymbolChar ·))∗) cs
      (if (cs.takeWhile isSymbolChar).isEmpty then none else some (cs.takeWhile isSymbolChar)) := by
  cases cs with
  | nil => exact absent_single_mul_nil
  | cons c cs =>
    by_cases hc : isSymbolChar c
    · rw [List.takeWhile_cons_of_pos hc]
      exact (isLongest_kstar_single (fun _ => Iff.rfl) cs).cons hc
    · rw [List.takeWhile_cons_of_neg hc]
      exact absent_single_mul_cons hc

private theorem literal_reads (cs : List Char) : Reads (language .literal) cs (literal? cs) := by
  rw [language, symbolCharacter_eq]
  unfold literal?
  split
  next cs =>
    have h := (symbol_reads cs).cons (show '#' ∈ ['#'] by decide)
    rwa [apply_ite (Option.map ('#' :: ·))] at h
  next hhead => exact absent_oneOf_mul hhead

private theorem number_language :
    language .number = between '1' '9' * (between '0' '9')∗ +
      oneOf ['-'] * (between '1' '9' * (between '0' '9')∗) + oneOf ['0'] := by
  rw [language, add_mul, one_mul, add_mul, mul_assoc]

private theorem digits_reads (cs : List Char) :
    Reads (between '1' '9' * (between '0' '9')∗) cs (digits? cs) := by
  rw [nonzeroDigit_eq, digit_eq]
  unfold digits?
  split
  next c cs =>
    split
    next hc => exact (isLongest_kstar_single (fun _ => Iff.rfl) cs).cons hc
    next hc => exact absent_single_mul_cons hc
  · exact absent_single_mul_nil

private theorem number_reads (cs : List Char) : Reads (language .number) cs (number? cs) := by
  rw [number_language]
  unfold number?
  split
  next cs =>
    have hunsigned : Absent (between '1' '9' * (between '0' '9')∗) ('0' :: cs) :=
      absent_single_mul_cons (by decide)
    exact .add_right (hunsigned.add (absent_single_mul_cons (by decide)))
      (isLongest_single (by decide))
  next cs =>
    exact .add_left (.add_right (absent_single_mul_cons (by decide))
      ((digits_reads cs).cons (by decide))) (absent_single (by decide))
  next hzero hminus =>
    exact .add_left (.add_left (digits_reads cs) (absent_oneOf_mul hminus)) (absent_oneOf hzero)

theorem mem_number_language {w : List Char} : w ∈ language .number ↔
    w = ['0'] ∨ ∃ c digits, isNonzeroDigit c ∧ (∀ d ∈ digits, d.isDigit) ∧
      (w = c :: digits ∨ w = '-' :: c :: digits) := by
  have hdigits {v : List Char} : v ∈ between '1' '9' * (between '0' '9')∗ ↔
      ∃ c digits, isNonzeroDigit c ∧ (∀ d ∈ digits, d.isDigit) ∧ v = c :: digits := by
    rw [nonzeroDigit_eq, digit_eq, mem_single_mul]
    simp only [mem_kstar_single]
  rw [number_language, Language.mem_add, Language.mem_add, hdigits, oneOf, mem_single_mul]
  constructor
  · rintro ((⟨c, digits, hc, hd, rfl⟩ | ⟨s, v, hs, hv, rfl⟩) | ⟨c, hc, rfl⟩)
    · exact .inr ⟨c, digits, hc, hd, .inl rfl⟩
    · obtain ⟨c, digits, hc, hd, rfl⟩ := hdigits.1 hv
      exact .inr ⟨c, digits, hc, hd, .inr (by rw [List.mem_singleton.1 hs])⟩
    · exact .inl (by rw [List.mem_singleton.1 hc])
  · rintro (rfl | ⟨c, digits, hc, hd, rfl | rfl⟩)
    · exact .inr ⟨'0', by decide, rfl⟩
    · exact .inl (.inl ⟨c, digits, hc, hd, rfl⟩)
    · exact .inl (.inr ⟨'-', _, by decide, hdigits.2 ⟨c, digits, hc, hd, rfl⟩, rfl⟩)

private def stringEnd : Language Char := (noneOf ['"'])∗ * oneOf ['"']

private theorem stringEnd_eq : stringEnd = oneOf ['"'] + noneOf ['"'] * stringEnd := by
  conv_lhs => rw [stringEnd, ← Language.one_add_self_mul_kstar_eq_kstar]
  rw [add_mul, one_mul, mul_assoc, stringEnd]

private theorem stringEnd_reads (cs : List Char) :
    Reads stringEnd cs (if '"' ∈ cs then some (cs.takeWhile (· ≠ '"') ++ ['"']) else none) := by
  induction cs with
  | nil =>
    rw [stringEnd_eq]
    exact absent_single_nil.add absent_single_mul_nil
  | cons c cs ih =>
    rw [stringEnd_eq]
    by_cases hc : c = '"'
    · rw [if_pos (hc ▸ List.mem_cons_self), List.takeWhile_cons_of_neg (by simpa using hc), hc]
      exact IsLongest.add_left (isLongest_single (by decide)) (absent_single_mul_cons (by decide))
    · have hmem : c ∉ ['"'] := by simpa using hc
      have h : Reads (noneOf ['"'] * stringEnd) (c :: cs) _ := ih.cons hmem
      rw [apply_ite (Option.map (c :: ·))] at h
      rw [List.takeWhile_cons_of_pos (by simpa using hc)]
      simp only [List.mem_cons, Ne.symm hc, false_or]
      exact .add_right (absent_single (by simpa using hc)) h

private theorem string_reads (cs : List Char) : Reads (language .string) cs (string? cs) := by
  rw [language, mul_assoc]
  unfold string?
  split
  next cs =>
    have h := (stringEnd_reads cs).cons (show '"' ∈ ['"'] by decide)
    rwa [apply_ite (Option.map ('"' :: ·))] at h
  next hhead => exact absent_oneOf_mul hhead

private theorem punct_reads (cs : List Char) : Reads (language .punct) cs (punct? cs) := by
  unfold punct?
  split
  next c cs =>
    split
    next hc => exact isLongest_single (by simpa [isPunct, or_assoc] using hc)
    next hc => exact absent_single (by simpa [isPunct, or_assoc] using hc)
  · exact absent_single_nil

private theorem longest?_reads (lexeme : Lexeme) (cs : List Char) :
    Reads lexeme.language cs (lexeme.longest? cs) := by
  cases lexeme with
  | newline => exact newline_reads cs
  | space => exact space_reads cs
  | comment => exact comment_reads cs
  | name => exact name_reads cs
  | literal => exact literal_reads cs
  | number => exact number_reads cs
  | string => exact string_reads cs
  | punct => exact punct_reads cs

theorem longest?_eq_some_iff {lexeme : Lexeme} :
    lexeme.longest? cs = some found ↔ IsLongest lexeme.language cs found := by
  have h := longest?_reads lexeme cs
  cases hfound : lexeme.longest? cs with
  | none =>
    rw [hfound] at h
    exact ⟨fun hc => (by cases hc), fun hl => absurd h hl.not_absent⟩
  | some longest =>
    rw [hfound] at h
    exact ⟨fun hs => Option.some.inj hs ▸ h, fun hl => congrArg some (h.unique hl)⟩

theorem longest?_eq_none_iff {lexeme : Lexeme} :
    lexeme.longest? cs = none ↔ Absent lexeme.language cs := by
  have h := longest?_reads lexeme cs
  cases hfound : lexeme.longest? cs with
  | none =>
    rw [hfound] at h
    exact ⟨fun _ => h, fun _ => rfl⟩
  | some longest =>
    rw [hfound] at h
    exact ⟨fun hn => (by cases hn), fun ha => absurd ha (IsLongest.not_absent h)⟩

end ActorAsm.Lexeme
