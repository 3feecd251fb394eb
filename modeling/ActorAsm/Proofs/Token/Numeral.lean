import ActorAsm.Proofs.Token.Patterns
import ActorAsm.Token.Scanner

/-! Numbers as they are written: the value of a number is the one integer whose decimal form is its
text. -/

namespace ActorAsm.Lexeme

theorem naturalValue_toDigits (n : Nat) : naturalValue (Nat.toDigits 10 n) = n :=
  Nat.ofDigitChars_toDigits (by decide) (by decide)

private theorem integerValue_of_isDigit {digits : List Char} (h : ∀ c ∈ digits, c.isDigit) :
    integerValue digits = naturalValue digits := by
  unfold integerValue
  split
  next digits => exact absurd (h '-' List.mem_cons_self) (by decide)
  · rfl

/-- Reading the decimal form of an integer gives the integer back. -/
theorem integerValue_toString (value : Int) : integerValue (toString value).toList = value := by
  rw [Int.toString_eq_repr, Int.repr_eq_if]
  split
  next hpos =>
    rw [Nat.toList_repr,
      integerValue_of_isDigit fun c => Nat.isDigit_of_mem_toDigits (by decide) (by decide),
      naturalValue_toDigits, Int.toNat_of_nonneg hpos]
  next hneg =>
    rw [String.toList_append, Nat.toList_repr]
    change -(naturalValue (Nat.toDigits 10 (-value).toNat) : Int) = value
    rw [naturalValue_toDigits]
    omega

private theorem digitChar_toNat_sub {c : Char} (h : c.isDigit) :
    Nat.digitChar (c.toNat - 48) = c := by
  obtain ⟨hlow, hhigh⟩ : 48 ≤ c.toNat ∧ c.toNat ≤ 57 := Char.isDigit_iff_toNat.1 h
  apply Char.toNat_inj.1
  rw [Nat.toNat_digitChar_of_lt_ten (by omega)]
  omega

/-- Digits behind a positive number are the digits of the number they continue. -/
theorem toDigits_foldl {digits : List Char} (h : ∀ c ∈ digits, c.isDigit) {n : Nat} (hn : 0 < n) :
    Nat.toDigits 10 (digits.foldl (fun value c => 10 * value + (c.toNat - 48)) n) =
      Nat.toDigits 10 n ++ digits := by
  induction digits generalizing n with
  | nil => simp
  | cons c digits ih =>
    obtain ⟨hlow, hhigh⟩ : 48 ≤ c.toNat ∧ c.toNat ≤ 57 :=
      Char.isDigit_iff_toNat.1 (h c List.mem_cons_self)
    have hdigit : c.toNat - 48 < 10 := by omega
    calc
      _ = Nat.toDigits 10 (10 * n + (c.toNat - 48)) ++ digits :=
        ih (fun d hd => h d (List.mem_cons_of_mem c hd)) (by omega)
      _ = (Nat.toDigits 10 n ++ [c]) ++ digits := by
        rw [← Nat.toDigits_append_toDigits (by decide) hn hdigit, Nat.toDigits_of_lt_base hdigit,
          digitChar_toNat_sub (h c List.mem_cons_self)]
      _ = Nat.toDigits 10 n ++ c :: digits := by rw [List.append_assoc, List.singleton_append]

private theorem toDigits_naturalValue {c : Char} {digits : List Char} (hc : isNonzeroDigit c)
    (h : ∀ d ∈ digits, d.isDigit) : Nat.toDigits 10 (naturalValue (c :: digits)) = c :: digits := by
  obtain ⟨hdigit, hzero⟩ : c.isDigit ∧ c ≠ '0' := by simpa [isNonzeroDigit] using hc
  obtain ⟨hlow, hhigh⟩ : 48 ≤ c.toNat ∧ c.toNat ≤ 57 := Char.isDigit_iff_toNat.1 hdigit
  have hne : c.toNat ≠ 48 := fun he => hzero (Char.toNat_inj.1 he)
  have hfold : naturalValue (c :: digits) =
      digits.foldl (fun value c => 10 * value + (c.toNat - 48)) (c.toNat - 48) := by
    rw [naturalValue, List.foldl_cons, Nat.mul_zero, Nat.zero_add]
  rw [hfold, toDigits_foldl h (by omega), Nat.toDigits_of_lt_base (by omega),
    digitChar_toNat_sub hdigit, List.singleton_append]

private theorem naturalValue_pos {c : Char} {digits : List Char} (hc : isNonzeroDigit c)
    (h : ∀ d ∈ digits, d.isDigit) : 0 < naturalValue (c :: digits) := by
  refine Nat.pos_of_ne_zero fun hzero => ?_
  have hdigits := toDigits_naturalValue hc h
  rw [hzero, Nat.toDigits_zero] at hdigits
  cases hdigits
  cases hc

/-- Every word of the pattern of numbers is the decimal form of its value. -/
theorem toString_integerValue {text : List Char} (h : text ∈ language .number) :
    toString (integerValue text) = String.ofList text := by
  rw [Int.toString_eq_repr, Int.repr_eq_if]
  rcases mem_number_language.1 h with rfl | ⟨c, digits, hc, hd, rfl | rfl⟩
  · decide
  · have hdigit : c.isDigit := (Bool.and_eq_true_iff.1 hc).1
    have hvalue := integerValue_of_isDigit (List.forall_mem_cons.2 ⟨hdigit, hd⟩)
    rw [hvalue, if_pos (Int.natCast_nonneg _), Int.toNat_natCast, Nat.repr_eq_ofList_toDigits,
      toDigits_naturalValue hc hd]
  · have hpos := naturalValue_pos hc hd
    change (if 0 ≤ -(naturalValue (c :: digits) : Int) then _ else _) = _
    rw [if_neg (by omega)]
    change "-" ++ (- -(naturalValue (c :: digits) : Int)).toNat.repr = _
    rw [Int.neg_neg, Int.toNat_natCast, Nat.repr_eq_ofList_toDigits, toDigits_naturalValue hc hd]
    simp

/-- The digits of a positive number do not begin with a zero. -/
theorem exists_toDigits_eq_cons {n : Nat} (hn : 0 < n) :
    ∃ c digits, Nat.toDigits 10 n = c :: digits ∧ isNonzeroDigit c ∧ ∀ d ∈ digits, d.isDigit := by
  induction n using Nat.strongRecOn with
  | ind n ih =>
    rw [Nat.toDigits_eq_if (by decide)]
    split
    next hlt =>
      refine ⟨n.digitChar, [], rfl, ?_, by simp⟩
      have hne : n ≠ 0 := Nat.ne_of_gt hn
      simp [isNonzeroDigit, Nat.isDigit_digitChar, hlt, hne]
    next hge =>
      have hpos : 0 < n / 10 := Nat.div_pos (Nat.le_of_not_lt hge) (by decide)
      obtain ⟨c, digits, hdigits, hc, hd⟩ := ih (n / 10) (Nat.div_lt_self hn (by decide)) hpos
      refine ⟨c, digits ++ [(n % 10).digitChar], by rw [hdigits, List.cons_append], hc, ?_⟩
      rw [List.forall_mem_append]
      refine ⟨hd, ?_⟩
      simp [Nat.isDigit_digitChar, Nat.mod_lt]

/-- The decimal form of every integer is a word of the pattern of numbers. -/
theorem toString_mem_language (value : Int) : (toString value).toList ∈ language .number := by
  rw [Int.toString_eq_repr, Int.repr_eq_if, mem_number_language]
  rcases Int.lt_trichotomy value 0 with hneg | rfl | hpos
  · obtain ⟨c, digits, hdigits, hc, hd⟩ := exists_toDigits_eq_cons (n := (-value).toNat) (by omega)
    refine .inr ⟨c, digits, hc, hd, .inr ?_⟩
    rw [if_neg (by omega), String.toList_append, Nat.toList_repr, hdigits]
    rfl
  · exact .inl rfl
  · obtain ⟨c, digits, hdigits, hc, hd⟩ := exists_toDigits_eq_cons (n := value.toNat) (by omega)
    refine .inr ⟨c, digits, hc, hd, .inl ?_⟩
    rw [if_pos (by omega), Nat.toList_repr, hdigits]

end ActorAsm.Lexeme
