import ActorAsm.Text.Units
import ActorAsm.Token
import ActorAsm.Token.Lexeme

/-!
The scanner: a source text becomes tokens, one lexeme after another. Where no lexeme begins, or
where a number is out of range, one error token ends the stream.
-/

namespace ActorAsm

/-- The largest magnitude a number may have, 2^53 - 1. -/
def Token.maxNumber : Nat := 9007199254740991

namespace Lexeme

/-- The value of a run of decimal digits. -/
def naturalValue (digits : List Char) : Nat :=
  digits.foldl (fun value c => 10 * value + (c.toNat - 48)) 0

/-- The value of a number, with its sign. -/
def integerValue : List Char → Int
  | '-' :: digits => -(naturalValue digits : Int)
  | digits => naturalValue digits

/-- The kind of token a lexeme makes; none for a number out of range. -/
def kind? : Lexeme → List Char → Option Token.Kind
  | .newline, _ => some .newline
  | .space, _ => some .space
  | .comment, _ => some .comment
  | .name, _ => some .name
  | .literal, _ => some .literal
  | .number, text =>
    let value := integerValue text
    if value.natAbs ≤ Token.maxNumber then some (.number value) else none
  | .string, _ => some .string
  | .punct, _ => some .punct

end Lexeme

/-- What is still to be read, and the place where it begins. -/
structure Scanner where
  rest : List Char
  line : Nat
  column : Nat

namespace Scanner

def ofString (source : String) : Scanner := ⟨source.toList, 0, 0⟩

/-- The error token at a column, with nothing left to read behind it. -/
def stop (s : Scanner) (column : Nat) : Token × Scanner :=
  (⟨.error, "", s.line, column, column⟩, ⟨[], s.line, column⟩)

/-- The next token and the scanner behind it, unless the stream is over. Only a newline token
begins a new line; a number out of range is passed over before its error is placed. -/
def next? (s : Scanner) : Option (Token × Scanner) :=
  if s.rest = [] then none
  else match Lexeme.first? s.rest with
    | none => some (s.stop s.column)
    | some (lexeme, text) =>
      let columnTo := s.column + Text.width text
      let rest := s.rest.drop text.length
      match lexeme.kind? text with
      | none => some (s.stop columnTo)
      | some kind =>
        let token : Token := ⟨kind, String.ofList text, s.line, s.column, columnTo⟩
        if lexeme = .newline then some (token, ⟨rest, s.line + 1, 0⟩)
        else some (token, ⟨rest, s.line, columnTo⟩)

/-- Every token leaves less to read. -/
theorem length_rest_lt_of_next? {s s' : Scanner} {t : Token} (h : s.next? = some (t, s')) :
    s'.rest.length < s.rest.length := by
  unfold next? at h
  split at h
  · cases h
  next hrest =>
    have hpos : 0 < s.rest.length := List.length_pos_iff.2 hrest
    split at h
    · cases h
      exact hpos
    next lexeme text hfirst =>
      have htext := List.length_pos_iff.2 (Lexeme.ne_nil_of_first? hfirst)
      have hdrop : (s.rest.drop text.length).length < s.rest.length := by
        rw [List.length_drop]
        omega
      simp only at h
      split at h
      · cases h
        exact hpos
      · split at h <;> cases h <;> exact hdrop

/-- All tokens that are still to come. -/
def tokens (s : Scanner) : List Token :=
  match _h : s.next? with
  | none => []
  | some (token, s') => token :: s'.tokens
termination_by s.rest.length
decreasing_by exact length_rest_lt_of_next? (by assumption)

end Scanner

/-- The tokens of a source text. -/
def Token.ofSource (source : String) : List Token := (Scanner.ofString source).tokens

end ActorAsm
