import ActorAsm.Proofs.Json.Unambiguous
import ActorAsm.Text.Quoted
import ActorAsm.Token.Lexeme

/-! Quoted texts. Whatever characters are hidden, a text can be told from its quoted form, and the
quoted form is one line. -/

namespace ActorAsm.Text
open Lexeme (isLineBreak)

section CodePoints

/-- The value of digits in base 16. -/
def hexNumber (digits : List Char) : Nat :=
  digits.foldl (fun value c => 16 * value + Json.hexValue c) 0

private theorem hexNumber_append_singleton (digits : List Char) (c : Char) :
    hexNumber (digits ++ [c]) = 16 * hexNumber digits + Json.hexValue c := by
  rw [hexNumber, List.foldl_append]
  rfl

private theorem hexNumber_toDigits (n : Nat) : hexNumber (Nat.toDigits 16 n) = n := by
  induction n using Nat.strongRecOn with
  | ind n ih =>
    rw [Nat.toDigits_eq_if (by decide)]
    split
    next hlt => exact (Nat.zero_add _).trans (Json.hexValue_digitChar n hlt)
    next hge =>
      rw [hexNumber_append_singleton, ih (n / 16) (by omega),
        Json.hexValue_digitChar (n % 16) (by omega), Nat.div_add_mod]

/-- A property of all single digits. -/
theorem forall_mem_toDigits {P : Char → Prop} (h : ∀ d < 16, P (Nat.digitChar d)) (n : Nat) :
    ∀ c ∈ Nat.toDigits 16 n, P c := by
  induction n using Nat.strongRecOn with
  | ind n ih =>
    rw [Nat.toDigits_eq_if (by decide)]
    split
    next hlt => exact List.forall_mem_singleton.mpr (h n hlt)
    next hge =>
      exact List.forall_mem_append.mpr ⟨ih (n / 16) (by omega),
        List.forall_mem_singleton.mpr (h (n % 16) (by omega))⟩

end CodePoints

/-- The first character of what is quoted, unless the quotes end here. -/
def unquote : List Char → Option (Char × List Char)
  | '\\' :: 'u' :: '{' :: rest =>
    let digits := rest.takeWhile (· ≠ '}')
    some (Char.ofNat (hexNumber digits), rest.drop (digits.length + 1))
  | '\\' :: '0' :: rest => some ('\x00', rest)
  | '\\' :: 't' :: rest => some ('\t', rest)
  | '\\' :: 'r' :: rest => some ('\r', rest)
  | '\\' :: 'n' :: rest => some ('\n', rest)
  | '\\' :: c :: rest => some (c, rest)
  | '"' :: _ => none
  | c :: rest => some (c, rest)
  | [] => none

variable {hidden : Char → Bool}

private theorem unquote_escapeCode (c : Char) (rest : List Char) :
    unquote (escapeCode c ++ rest) = some (c, rest) := by
  have hdigits : (Nat.toDigits 16 c.toNat ++ '}' :: rest).takeWhile (· ≠ '}') =
      Nat.toDigits 16 c.toNat :=
    takeWhile_append_of_head (forall_mem_toDigits (by decide) _) (by simp)
  have htext : escapeCode c ++ rest =
      '\\' :: 'u' :: '{' :: (Nat.toDigits 16 c.toNat ++ '}' :: rest) := by simp [escapeCode]
  rw [htext, unquote]
  simp only [hdigits, hexNumber_toDigits, Char.ofNat_toNat]
  rw [← List.drop_drop, List.drop_left]
  rfl

private theorem unquote_escapeCharHiding (c : Char) (rest : List Char) :
    unquote (escapeCharHiding hidden c ++ rest) = some (c, rest) := by
  unfold escapeCharHiding
  split_ifs with hzero ht hr hn hquote hslash hcode
  any_goals subst c; rfl
  · exact unquote_escapeCode c rest
  · unfold unquote
    simp_all

/-- The quoted form of a text determines the text. -/
theorem quotedHiding_injective : Function.Injective (quotedHiding hidden) := by
  intro s s' h
  have hbody := (List.cons.inj (String.ofList_injective h)).2
  obtain ⟨htext, -⟩ := flatMap_cancel unquote_escapeCharHiding (fun _ => rfl) hbody
  exact String.toList_inj.mp htext

/-- Line breaks are escaped, hidden or not. -/
theorem not_isLineBreak_escapeCharHiding (c : Char) :
    ∀ d ∈ escapeCharHiding hidden c, isLineBreak d = false := by
  unfold escapeCharHiding
  split_ifs with hzero ht hr hn hquote hslash hcode
  any_goals (simp [isLineBreak]; done)
  · have hdigits := forall_mem_toDigits (P := fun d => isLineBreak d = false) (by decide) c.toNat
    have hopens : ∀ d ∈ ['\\', 'u', '{'], isLineBreak d = false := by simp [isLineBreak]
    have hcloses : ∀ d ∈ ['}'], isLineBreak d = false := List.forall_mem_singleton.mpr rfl
    exact List.forall_mem_append.mpr ⟨List.forall_mem_append.mpr ⟨hopens, hdigits⟩, hcloses⟩
  · exact List.forall_mem_singleton.mpr (by simp [isLineBreak, hr, hn])

theorem not_isLineBreak_quotedHiding (s : String) :
    ∀ d ∈ (quotedHiding hidden s).toList, isLineBreak d = false := by
  rw [quotedHiding, String.toList_ofList]
  refine List.forall_mem_append.mpr ⟨List.forall_mem_cons.mpr ⟨rfl, fun d hd => ?_⟩,
    List.forall_mem_singleton.mpr rfl⟩
  obtain ⟨c, -, hc⟩ := List.mem_flatMap.mp hd
  exact not_isLineBreak_escapeCharHiding c d hc

end ActorAsm.Text
