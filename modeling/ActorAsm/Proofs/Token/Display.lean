import ActorAsm.Proofs.Text.Quoted
import ActorAsm.Proofs.Token.OfSource

/-! The one-line form of a token. It tells where the token stands, of what kind it is and, unless it is
a line break or an error, what its text is. -/

namespace ActorAsm.Token
open Lexeme (isLineBreak)

namespace Kind
variable {k k' : Kind}

private theorem isLower_of_mem_word : ∀ c ∈ k.word.toList, c.isLower := by
  cases k <;> simp [word]

/-- Classes of tokens have words of their own. -/
theorem lexeme?_eq_of_word_eq (h : k.word = k'.word) : k.lexeme? = k'.lexeme? := by
  cases k <;> cases k' <;> first | rfl | simp [word] at h

theorem eq_newline_of_lexeme? (h : k.lexeme? = some .newline) : k = .newline := by
  cases k <;> first | rfl | cases h

/-- Whether only the place of a token of this kind is displayed. -/
def isBare : Kind → Bool
  | .newline | .error => true
  | _ => false

theorem isBare_eq_false_iff : k.isBare = false ↔ k ≠ .newline ∧ k ≠ .error := by
  cases k <;> simp [isBare]

end Kind

variable {hidden : Char → Bool} {t t' : Token}

/-- What is displayed behind the place where the token begins. -/
def behindPlace (hidden : Char → Bool) (t : Token) : List Char :=
  if t.kind.isBare then ' ' :: t.kind.word.toList
  else '-' :: ((toString t.columnTo).toList ++ ' ' :: (t.kind.word.toList ++ ' ' ::
    (Text.quotedHiding hidden t.text).toList))

private theorem toList_displayHiding (hidden : Char → Bool) (t : Token) :
    (t.displayHiding hidden).toList =
      (toString t.line).toList ++ ':' :: ((toString t.column).toList ++ t.behindPlace hidden) := by
  obtain ⟨kind, text, line, column, columnTo⟩ := t
  cases kind <;> simp [displayHiding, behindPlace, Kind.isBare]

/-- A number ends where no digit follows. -/
theorem natural_cancel {n n' : Nat} {rest rest' : List Char}
    (hr : ∀ c ∈ rest.head?, c.isDigit = false) (hr' : ∀ c ∈ rest'.head?, c.isDigit = false)
    (h : (toString n).toList ++ rest = (toString n').toList ++ rest') : n = n' ∧ rest = rest' := by
  have hdigits (n : Nat) : ∀ c ∈ Nat.toDigits 10 n, c.isDigit := fun c =>
    Nat.isDigit_of_mem_toDigits (by decide) (by decide)
  simp only [Nat.toString_eq_repr, Nat.toList_repr] at h
  obtain ⟨htext, hrest⟩ := Text.run_cancel (hdigits n) (hdigits n') hr hr' h
  refine ⟨?_, hrest⟩
  rw [← Lexeme.naturalValue_toDigits n, htext, Lexeme.naturalValue_toDigits]

private theorem behindPlace_cancel (h : t.behindPlace hidden = t'.behindPlace hidden) :
    t.kind.lexeme? = t'.kind.lexeme? ∧
      (t.kind.isBare = false → t.columnTo = t'.columnTo ∧ t.text = t'.text) := by
  unfold behindPlace at h
  split_ifs at h with hbare hbare' hbare'
  · have hword := String.toList_inj.mp (List.cons.inj h).2
    exact ⟨Kind.lexeme?_eq_of_word_eq hword, fun hquoted => absurd hbare (by simp [hquoted])⟩
  · exact absurd (List.cons.inj h).1 (by decide)
  · exact absurd (List.cons.inj h).1 (by decide)
  · have hend (rest : List Char) : ∀ c ∈ (' ' :: rest).head?, c.isDigit = false := by simp
    have hend' (rest : List Char) : ∀ c ∈ (' ' :: rest).head?, c.isLower = false := by simp
    obtain ⟨hcolumn, h⟩ := natural_cancel (hend _) (hend _) (List.cons.inj h).2
    obtain ⟨hword, h⟩ := Text.run_cancel Kind.isLower_of_mem_word Kind.isLower_of_mem_word
      (hend' _) (hend' _) (List.cons.inj h).2
    have hquoted := Text.quotedHiding_injective (String.toList_inj.mp (List.cons.inj h).2)
    exact ⟨Kind.lexeme?_eq_of_word_eq (String.toList_inj.mp hword), fun _ => ⟨hcolumn, hquoted⟩⟩

/-- Equal one-line forms are those of tokens of one class in one place, and of one text if they show
it. -/
theorem displayHiding_cancel (h : t.displayHiding hidden = t'.displayHiding hidden) :
    t.kind.lexeme? = t'.kind.lexeme? ∧ t.line = t'.line ∧ t.column = t'.column ∧
      (t.kind.isBare = false → t.columnTo = t'.columnTo ∧ t.text = t'.text) := by
  have hchars := congrArg String.toList h
  rw [toList_displayHiding, toList_displayHiding] at hchars
  have hbehind (t : Token) : ∀ c ∈ (t.behindPlace hidden).head?, c.isDigit = false := by
    unfold behindPlace
    split <;> simp
  obtain ⟨hline, hchars⟩ := natural_cancel (by simp) (by simp) hchars
  obtain ⟨hcolumn, hchars⟩ := natural_cancel (hbehind t) (hbehind t') (List.cons.inj hchars).2
  obtain ⟨hkind, htext⟩ := behindPlace_cancel hchars
  exact ⟨hkind, hline, hcolumn, htext⟩

section LineBreaks

private theorem not_isLineBreak_of_lt {c : Char} (h : 32 ≤ c.toNat) : isLineBreak c = false := by
  have hfeed : c ≠ '\n' := by rintro rfl; exact absurd h (by decide)
  have hreturn : c ≠ '\r' := by rintro rfl; exact absurd h (by decide)
  simp [isLineBreak, hfeed, hreturn]

private theorem not_isLineBreak_toString (n : Nat) :
    ∀ c ∈ (toString n).toList, isLineBreak c = false := by
  intro c hc
  rw [Nat.toString_eq_repr, Nat.toList_repr] at hc
  have hdigit := Nat.isDigit_of_mem_toDigits (by decide) (by decide) hc
  have hlow : 48 ≤ c.toNat := (Char.isDigit_iff_toNat.mp hdigit).1
  exact not_isLineBreak_of_lt (by omega)

/-- The one-line form is one line. -/
theorem not_isLineBreak_displayHiding (t : Token) :
    ∀ c ∈ (t.displayHiding hidden).toList, isLineBreak c = false := by
  have hword : ∀ c ∈ t.kind.word.toList, isLineBreak c = false := by
    cases t.kind <;> simp [Kind.word, isLineBreak]
  have hbehind : ∀ c ∈ t.behindPlace hidden, isLineBreak c = false := by
    unfold behindPlace
    split
    · exact List.forall_mem_cons.mpr ⟨rfl, hword⟩
    · refine List.forall_mem_cons.mpr ⟨rfl, List.forall_mem_append.mpr
        ⟨not_isLineBreak_toString t.columnTo, List.forall_mem_cons.mpr ⟨rfl, ?_⟩⟩⟩
      exact List.forall_mem_append.mpr ⟨hword, List.forall_mem_cons.mpr
        ⟨rfl, Text.not_isLineBreak_quotedHiding t.text⟩⟩
  rw [toList_displayHiding]
  refine List.forall_mem_append.mpr ⟨not_isLineBreak_toString t.line, ?_⟩
  exact List.forall_mem_cons.mpr ⟨rfl, List.forall_mem_append.mpr
    ⟨not_isLineBreak_toString t.column, hbehind⟩⟩

end LineBreaks

end ActorAsm.Token
