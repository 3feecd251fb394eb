import ActorAsm.Proofs.Assembly.Failures
import ActorAsm.Proofs.Token.OfSource
import Mathlib.Data.List.DropRight
import Mathlib.Data.Prod.Lex

/-! Positions of tokens. The scanner keeps count of lines and columns on the way; from the source
alone, columns are the width of what has been read since the last line break. No two tokens are in
the same place, so an error record tells which token it is about. -/

namespace ActorAsm

/-- The tokens behind the last line break. A line break within a string is none of these. -/
def Token.lastLine (front : List Token) : List Token := front.rtakeWhile (·.kind ≠ .newline)

/-- Tokens are in order line by line, and in a line column by column. -/
def Token.place (t : Token) : Nat ×ₗ Nat := toLex (t.line, t.column)

/-- How the position of a token is read off the source and the tokens in front of it. The error has
no text, and is placed behind all that has been passed over. -/
structure Token.Located (source : String) (front : List Token) (t : Token) : Prop where
  line : t.line = front.countP (·.kind = .newline)
  word : t.kind ≠ .error →
    ∃ rest, source.toList = Token.texts front ++ (t.text.toList ++ rest) ∧
      t.column = Text.width (Token.texts (Token.lastLine front)) ∧
      t.columnTo = t.column + Text.width t.text.toList
  error : t.kind = .error →
    ∃ passed rest, source.toList = Token.texts front ++ (passed ++ rest) ∧
      Lexeme.BreaksOff (passed ++ rest) passed ∧
      t.column = Text.width (Token.texts (Token.lastLine front) ++ passed) ∧
      t.columnTo = t.column

namespace Lexeme
variable {cs passed : List Char} {lexeme : Lexeme} {text : List Char} {kind : Token.Kind}

theorem BreaksOff.isPrefix (h : BreaksOff cs passed) : passed <+: cs := by
  cases h with
  | unknown => exact List.nil_prefix
  | outOfRange hbegins => exact hbegins.longest.isPrefix

private theorem Becomes.ne_error (h : Becomes lexeme text kind) : kind ≠ .error := by
  cases h <;> exact Token.Kind.noConfusion

end Lexeme

namespace Token
variable {front : List Token} {t : Token}

private theorem texts_concat : texts (front ++ [t]) = texts front ++ t.text.toList := by
  rw [texts, List.flatMap_append, List.flatMap_singleton]
  rfl

private theorem lastLine_concat :
    lastLine (front ++ [t]) = if t.kind = .newline then [] else lastLine front ++ [t] := by
  rw [lastLine, List.rtakeWhile_concat]
  by_cases h : t.kind = .newline <;> simp [h, lastLine]

end Token

namespace Scanner
open Lexeme (Becomes)
variable {s : Scanner} {t : Token} {front ts : List Token} {lexeme : Lexeme} {kind : Token.Kind}
  {text rest : List Char}

def place (s : Scanner) : Nat ×ₗ Nat := toLex (s.line, s.column)

private theorem behind_column (h : Becomes lexeme text kind) :
    (s.behind lexeme text rest).column =
      if kind = .newline then 0 else s.column + Text.width text := by
  unfold behind
  cases h <;> rfl

/-- Words are not empty, so the scanner moves on with each of them. -/
theorem place_lt_behind (h : text ≠ []) : s.place < (s.behind lexeme text rest).place := by
  have hwidth : 0 < Text.width text :=
    (List.length_pos_iff.mpr h).trans_le (Text.length_le_width text)
  unfold place behind
  rw [Prod.Lex.toLex_lt_toLex]
  split
  · exact .inl (Nat.lt_succ_self s.line)
  · exact .inr ⟨rfl, Nat.lt_add_of_pos_right hwidth⟩

private theorem place_le_of_mem_tokens (ht : t ∈ s.tokens) : s.place ≤ t.place := by
  induction hts : s.tokens generalizing s with
  | nil =>
    rw [hts] at ht
    cases ht
  | cons first ts ih =>
    rw [hts, List.mem_cons] at ht
    rcases exists_word hts with ⟨lexeme, rest, -, hbegins, -, hfirst, hbehind⟩ |
      ⟨-, rfl, passed, -, hfirst⟩
    · rcases ht with rfl | ht
      · exact (congrArg Token.place hfirst).ge
      · exact (place_lt_behind hbegins.found_ne_nil).le.trans (ih (hbehind ▸ ht) hbehind.symm)
    · rcases ht with rfl | ht
      · rw [hfirst]
        exact Prod.Lex.toLex_le_toLex.mpr (.inr ⟨rfl, Nat.le_add_right _ _⟩)
      · cases ht

private theorem pairwise_place (s : Scanner) : s.tokens.Pairwise fun t u => t.place < u.place := by
  induction hts : s.tokens generalizing s with
  | nil => exact .nil
  | cons t ts ih =>
    rcases exists_word hts with ⟨lexeme, rest, -, hbegins, -, ht, hbehind⟩ | ⟨-, rfl, -⟩
    · refine .cons (fun u hu => ?_) (ih _ hbehind.symm)
      calc t.place
        _ = s.place := congrArg Token.place ht
        _ < (s.behind lexeme t.text.toList rest).place := place_lt_behind hbegins.found_ne_nil
        _ ≤ u.place := place_le_of_mem_tokens (hbehind ▸ hu)
    · exact List.pairwise_singleton _ _

/-- The scanner in front of the remaining tokens. Its column is the width of what has been read since
the last line break. The induction adds one token at the end of those that have been read. -/
theorem exists_scanner (hcolumn : s.column = 0) (h : s.tokens = front ++ ts) (hts : ts ≠ []) :
    ∃ s' : Scanner, s'.tokens = ts ∧ s.rest = Token.texts front ++ s'.rest ∧
      s'.column = Text.width (Token.texts (Token.lastLine front)) := by
  induction front using List.reverseRecOn generalizing ts with
  | nil => exact ⟨s, h, rfl, hcolumn⟩
  | append_singleton front t ih =>
    rw [List.append_assoc, List.singleton_append] at h
    obtain ⟨s', htokens, hrest, hwidth⟩ := ih h (List.cons_ne_nil t ts)
    rcases exists_word htokens with ⟨lexeme, rest, hword, -, hbecomes, -, hbehind⟩ | ⟨-, hnil, -⟩
    · refine ⟨_, hbehind.symm, ?_, ?_⟩
      · rw [hrest, hword, behind_rest, Token.texts_concat, List.append_assoc]
      · rw [behind_column hbecomes, hwidth, Token.lastLine_concat]
        split
        · rfl
        · rw [Token.texts_concat, Text.width_append]
    · exact absurd hnil hts

end Scanner

namespace Token
variable {source file : String} {front ts : List Token} {t u : Token}

private theorem located_of_split (h : ofSource source = front ++ t :: ts) :
    t.Located source front := by
  have hline : t.line = front.countP (·.kind = .newline) :=
    (Scanner.line_eq_countP h).trans (Nat.zero_add _)
  obtain ⟨s, htokens, hsource, hcolumn⟩ := Scanner.exists_scanner rfl h (List.cons_ne_nil t ts)
  change source.toList = texts front ++ s.rest at hsource
  rcases Scanner.exists_word htokens with ⟨lexeme, rest, hrest, -, hbecomes, ht, -⟩ |
    ⟨herror, -, passed, hbreaks, ht⟩
  · refine ⟨hline, fun _ => ⟨rest, by rw [hsource, hrest], ?_, ?_⟩, fun herror => ?_⟩
    · exact (congrArg Token.column ht).trans hcolumn
    · have hcolumnTo : t.columnTo = s.column + Text.width t.text.toList :=
        congrArg Token.columnTo ht
      rw [hcolumnTo, congrArg Token.column ht]
      rfl
    · exact absurd herror hbecomes.ne_error
  · refine ⟨hline, fun hkind => absurd herror hkind, fun _ => ?_⟩
    obtain ⟨rest, hrest⟩ := hbreaks.isPrefix
    refine ⟨passed, rest, by rw [hsource, hrest], by rwa [hrest], ?_, ?_⟩
    · rw [Text.width_append, ← hcolumn]
      exact congrArg Token.column ht
    · rw [ht]
      rfl

/-- There is one token in a place. -/
theorem eq_of_place_eq (ht : t ∈ ofSource source) (hu : u ∈ ofSource source)
    (h : t.place = u.place) : t = u := by
  have hnodup : ((ofSource source).map place).Nodup :=
    List.pairwise_map.mpr ((Scanner.pairwise_place _).imp ne_of_lt)
  exact List.inj_on_of_nodup_map hnodup ht hu h

private theorem existsUnique_of_record {record : ErrorRecord}
    (h : Assembly.assemble source file = .error record) :
    ∃! t, t ∈ ofSource source ∧ record.line = some t.line ∧ record.column = some t.column := by
  rw [Assembly.assemble_eq] at h
  split at h
  · cases h
  next failure hcompile =>
    cases h
    obtain ⟨fault, t, ht, rfl, -⟩ := Failure.isIn_of_compile hcompile
    refine ⟨t, ⟨ht, rfl, rfl⟩, fun u ⟨hu, hline, hcolumn⟩ => eq_of_place_eq hu ht ?_⟩
    have hl : t.line = u.line := Option.some.inj hline
    have hc : t.column = u.column := Option.some.inj hcolumn
    rw [place, place, hl, hc]

/-- Lines are the line breaks in front of a token, columns the width of the text between the last of
them and the token. So tokens follow each other place by place, and the place that an error record
gives is the place of one token. -/
theorem places_exact (source : String) :
    (∀ front t ts, ofSource source = front ++ t :: ts → t.Located source front) ∧
      (ofSource source).Pairwise (fun t u => t.place < u.place) ∧
      ∀ file record, Assembly.assemble source file = .error record →
        ∃! t, t ∈ ofSource source ∧ record.line = some t.line ∧ record.column = some t.column :=
  ⟨fun _ _ _ => located_of_split, Scanner.pairwise_place _, fun _ _ => existsUnique_of_record⟩

private def spilling : String := "\"é😀\n\" x\r\n 9007199254740992"

/-- A string over two lines, with a character of two units in it, and in the line behind it a number
that is out of range. -/
theorem places_exact_spilling :
    Located spilling [] ⟨.string, "\"é😀\n\"", 0, 0, 6⟩ ∧
    (∃ front, ofSource spilling = front ++ [⟨.error, "", 1, 17, 17⟩] ∧
      Located spilling front ⟨.error, "", 1, 17, 17⟩) ∧
    ∃ record, Assembly.assemble spilling "main.asm" = .error record ∧
      ∃! t, t ∈ ofSource spilling ∧ record.line = some t.line ∧ record.column = some t.column := by
  obtain ⟨hlocated, -, hrecord⟩ := places_exact spilling
  have htokens : ofSource spilling = [⟨.string, "\"é😀\n\"", 0, 0, 6⟩, ⟨.space, " ", 0, 6, 7⟩,
      ⟨.name, "x", 0, 7, 8⟩, ⟨.newline, "\r\n", 0, 8, 10⟩, ⟨.space, " ", 1, 0, 1⟩] ++
      [⟨.error, "", 1, 17, 17⟩] := by decide +kernel
  have hassemble : Assembly.assemble spilling "main.asm" =
      .error ⟨"Unexpected token.", "main.asm", some 0, some 0⟩ := by decide +kernel
  exact ⟨hlocated [] _ _ htokens, ⟨_, htokens, hlocated _ _ [] htokens⟩, _, hassemble,
    hrecord _ _ hassemble⟩

end Token

end ActorAsm
