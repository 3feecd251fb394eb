import ActorAsm.Proofs.Assembly.Stages
import ActorAsm.Proofs.Document.Relocation
import ActorAsm.Proofs.Token.LineBreaks

/-! Blank lines. Wherever a line begins, one more line with nothing but a comment on it changes no
outcome, except that all below it is one line further down. -/

namespace ActorAsm

/-- A line with nothing on it, or with a comment and spaces in front of it. -/
inductive BlankLine : String → Prop where
  | empty : BlankLine "\n"
  | comment (spaces : Nat) (text : List Char) : (∀ c ∈ text, c ≠ '\r' ∧ c ≠ '\n') →
      BlankLine (String.ofList (List.replicate spaces ' ' ++ (';' :: text ++ ['\n'])))

/-- Between the two parts of a source a line begins, and this is its number. Behind a carriage
return a line feed would still belong to the same line break. -/
inductive LineStart (before behind : String) : Nat → Prop where
  | source : before = "" → LineStart before behind 0
  | newline {front ts : List Token} {newline : Token} :
      Token.ofSource (before ++ behind) = front ++ newline :: ts → newline.kind = .newline →
      newline.text ≠ "\r" → before = String.join ((front ++ [newline]).map Token.text) →
      LineStart before behind (newline.line + 1)

/-- All lines from this one on move down by one. -/
def Relocation.down (start : Nat) : Relocation :=
  ⟨fun line => if start ≤ line then line + 1 else line, id, id⟩

section Lines
open Grammar (IsLineEnd Padded PaddedLine padded_map)
open Lexeme (Begins isLongest_of_alphabet begins_of_isLongest mem_single_mul mem_kstar_single)
open Scanner (tokens_of_becomes tokens_of_newline tokens_of_line tokens_relocate
  pairwise_line_le)
variable {line before behind : String} {start : Nat} {rest : List Char} {s : Scanner}

private theorem lineFeed_mem : ['\n'] ∈ Lexeme.newline.language :=
  Lexeme.mem_newline_language.mpr (.inl rfl)

private theorem tokens_of_spaces {spaces : Nat}
    (hrest : s.rest = List.replicate (spaces + 1) ' ' ++ (';' :: rest)) :
    ∃ (space : Token) (column : Nat), space.kind = .space ∧
      s.tokens = space :: (⟨';' :: rest, s.line, column⟩ : Scanner).tokens := by
  have hmem : List.replicate (spaces + 1) ' ' ∈ Lexeme.space.language :=
    mem_single_mul.mpr ⟨' ', _, by simp, mem_kstar_single.mpr (by simp), rfl⟩
  have hbegins : Begins s.rest .space (List.replicate (spaces + 1) ' ') := by
    rw [hrest]
    exact begins_of_isLongest (isLongest_of_alphabet hmem (by simp [Lexeme.alphabet]))
      Lexeme.noConfusion
  refine ⟨_, _, ?_, tokens_of_becomes hrest hbegins (.space _)⟩
  rfl

private theorem tokens_of_comment {text : List Char} (htext : ∀ c ∈ text, c ≠ '\r' ∧ c ≠ '\n')
    (s : Scanner) (hrest : s.rest = ';' :: text ++ ('\n' :: rest)) :
    ∃ comment newline : Token, comment.kind = .comment ∧ newline.kind = .newline ∧
      s.tokens = comment :: newline :: (⟨rest, s.line + 1, 0⟩ : Scanner).tokens := by
  have hmem : ';' :: text ∈ Lexeme.comment.language :=
    mem_single_mul.mpr ⟨';', text, by simp, mem_kstar_single.mpr (by simpa using htext), rfl⟩
  have hbegins : Begins s.rest .comment (';' :: text) := by
    rw [hrest]
    exact begins_of_isLongest (isLongest_of_alphabet hmem (by simp [Lexeme.alphabet]))
      Lexeme.noConfusion
  refine ⟨_, _, rfl, ?_, (tokens_of_becomes hrest hbegins (.comment _)).trans
    (congrArg (_ :: ·) (tokens_of_newline lineFeed_mem (by decide) rfl))⟩
  rfl

/-- A blank line is read as the end of a line. -/
theorem BlankLine.tokens_eq (h : BlankLine line) (start : Nat) (rest : List Char) :
    ∃ ys, IsLineEnd ys () ∧ (⟨line.toList ++ rest, start, 0⟩ : Scanner).tokens =
      ys ++ (⟨rest, start + 1, 0⟩ : Scanner).tokens := by
  cases h with
  | empty => exact ⟨[_], .plain rfl, tokens_of_newline lineFeed_mem (by decide) rfl⟩
  | comment spaces text htext =>
    have hcomment : ';' :: text ++ ['\n'] ++ rest = ';' :: text ++ ('\n' :: rest) := by simp
    rw [String.toList_ofList, List.append_assoc, hcomment]
    cases spaces with
    | zero =>
      obtain ⟨comment, newline, hc, hn, htokens⟩ := tokens_of_comment htext
        ⟨';' :: text ++ ('\n' :: rest), start, 0⟩ rfl
      exact ⟨[comment, newline], .comment hc hn, htokens⟩
    | succ spaces =>
      obtain ⟨space, column, hs, hspaces⟩ := tokens_of_spaces
        (s := ⟨List.replicate (spaces + 1) ' ' ++ (';' :: text ++ ('\n' :: rest)), start, 0⟩) rfl
      obtain ⟨comment, newline, hc, hn, htokens⟩ := tokens_of_comment htext
        ⟨';' :: text ++ ('\n' :: rest), start, column⟩ rfl
      exact ⟨[space, comment, newline], .spaced hs hc hn,
        hspaces.trans (congrArg (space :: ·) htokens)⟩

private theorem tokens_below (start : Nat) (rest : List Char) :
    (⟨rest, start + 1, 0⟩ : Scanner).tokens =
      (⟨rest, start, 0⟩ : Scanner).tokens.map (Token.relocate (.down start)) := by
  have hmoved : (⟨rest, start, 0⟩ : Scanner).relocate (.down start) = ⟨rest, start + 1, 0⟩ := by
    simp [Scanner.relocate, Relocation.down]
  rw [← hmoved]
  refine tokens_relocate (fun l hl => ?_) rfl rfl
  have hl : start ≤ l := hl
  simp [Relocation.down, hl, Nat.le_succ_of_le hl]

private theorem relocate_down_of_lt {t : Token} (h : t.line < start) :
    t.relocate (.down start) = t := by
  simp [Token.relocate, Relocation.down, Nat.not_le.mpr h]

private theorem padded_append {front xs xs' : List Token} (h : Padded (.down start) xs xs')
    (hfront : ∀ t ∈ front, t.line < start) :
    Padded (.down start) (front ++ xs) (front ++ xs') := by
  induction front with
  | nil => exact h
  | cons t front ih =>
    obtain ⟨ht, hfront⟩ := List.forall_mem_cons.mp hfront
    have hpadded := Padded.token t (ih hfront)
    rwa [relocate_down_of_lt ht] at hpadded

/-- The blank line ends a line once more where a line has just ended, and all below moves down. -/
theorem LineStart.paddedLine (hstart : LineStart before behind start) (hline : BlankLine line) :
    PaddedLine (.down start) (Token.ofSource (before ++ behind))
      (Token.ofSource (before ++ line ++ behind)) := by
  obtain ⟨ys, hends, htokens⟩ := hline.tokens_eq start behind.toList
  rw [tokens_below] at htokens
  have hbelow := padded_map (.down start) (⟨behind.toList, start, 0⟩ : Scanner).tokens
  cases hstart with
  | source hbefore =>
    have hblank : PaddedLine (.down 0) _ _ := .blank hends hbelow
    rw [← htokens] at hblank
    simpa [Token.ofSource, Scanner.ofString, hbefore] using hblank
  | @newline front ts newline h hkind hcr hbefore =>
    have hsource (rest : String) : (Scanner.ofString (before ++ rest)) =
        ⟨Token.texts (front ++ [newline]) ++ rest.toList, 0, 0⟩ := by
      simp [Scanner.ofString, hbefore, Token.texts, String.toList_join, List.flatMap_map]
    rw [Token.ofSource, hsource] at h
    obtain ⟨rfl, -, hagain⟩ := tokens_of_line h hkind hcr rfl
    have hfront (t : Token) (ht : t ∈ front) : t.line < newline.line + 1 := by
      have hlines := h ▸ pairwise_line_le _
      exact Nat.lt_succ_of_le
        ((List.pairwise_append.mp hlines).2.2 t ht newline List.mem_cons_self)
    have hblank : Padded (.down (newline.line + 1)) _ _ :=
      padded_append (.blank hkind hends hbelow) hfront
    rw [relocate_down_of_lt (Nat.lt_succ_self _), ← htokens, ← hagain, ← hagain] at hblank
    rw [Token.ofSource, Token.ofSource, String.append_assoc, hsource, hsource, String.toList_append]
    exact .padded hblank

end Lines

/-- A blank line, put in where a line begins, changes the outcome only by moving all that is below
one line down. The source is assembled if and only if it was before, into the same document but for
the lines from there on. Otherwise it fails in the same way at the same token, which has moved down
if it is below. -/
theorem compile_insert_blankLine {before line behind : String} {start : Nat}
    (hstart : LineStart before behind start) (hline : BlankLine line) (file : String) :
    ((∃ doc, compile (before ++ line ++ behind) file = .ok doc) ↔
      ∃ doc, compile (before ++ behind) file = .ok doc) ∧
    (∀ doc, compile (before ++ behind) file = .ok doc →
      compile (before ++ line ++ behind) file = .ok (doc.relocate (.down start) file)) ∧
    ∀ failure, compile (before ++ behind) file = .error failure →
      compile (before ++ line ++ behind) file = .error (failure.relocate (.down start)) := by
  have hlonger : compile (before ++ line ++ behind) file =
      ((compile (before ++ behind) file).map (Document.relocate (.down start) file)).mapError
        (Failure.relocate (.down start)) := by
    rw [compile_eq, compile_eq, Module.parse_paddedLine (hstart.paddedLine hline)]
    cases Module.parse (Token.ofSource (before ++ behind)) with
    | error failure => rfl
    | ok m => exact Module.generate_relocate_eq (.down start) m file file
  rw [hlonger]
  cases compile (before ++ behind) file with
  | ok doc =>
    refine ⟨iff_of_true ⟨_, rfl⟩ ⟨_, rfl⟩, ?_, ?_⟩
    · rintro doc ⟨⟩
      rfl
    · rintro failure ⟨⟩
  | error failure =>
    refine ⟨iff_of_false ?_ ?_, ?_, ?_⟩
    · rintro ⟨doc, ⟨⟩⟩
    · rintro ⟨doc, ⟨⟩⟩
    · rintro doc ⟨⟩
    · rintro failure ⟨⟩
      rfl

private def main : Token := ⟨.name, "main", 0, 0, 4⟩

private def colon : Token := ⟨.punct, ":", 0, 4, 5⟩

private def lineBreak : Token := ⟨.newline, "\r\n", 0, 5, 7⟩

private theorem lineStart_main (behind : String) (ts : List Token)
    (h : Token.ofSource ("main:\r\n" ++ behind) = [main, colon] ++ lineBreak :: ts) :
    LineStart "main:\r\n" behind 1 :=
  .newline h rfl (by decide) (by decide)

/-- The line of the definition is the first, and the comment gets in behind it. In the first source
an instruction moves down, in the second one an unknown name. -/
theorem compile_insert_blankLine_main :
    LineStart "main:\r\n" "  end commit\n" 1 ∧ LineStart "main:\r\n" "  ref stop\n" 1 ∧
      BlankLine "  ; stop\n" ∧
      compile ("main:\r\n" ++ "  ; stop\n" ++ "  end commit\n") "main.asm" =
        .ok ⟨[], [("main", .finish "commit" ⟨"main.asm", 2⟩)], []⟩ ∧
      compile ("main:\r\n" ++ "  ; stop\n" ++ "  ref stop\n") "main.asm" =
        .error (.onToken .notDefined ⟨.name, "stop", 2, 6, 10⟩) := by
  have hok : LineStart "main:\r\n" "  end commit\n" 1 := lineStart_main _ [
    ⟨.space, "  ", 1, 0, 2⟩, ⟨.name, "end", 1, 2, 5⟩, ⟨.space, " ", 1, 5, 6⟩,
    ⟨.name, "commit", 1, 6, 12⟩, ⟨.newline, "\n", 1, 12, 13⟩] (by decide +kernel)
  have hfails : LineStart "main:\r\n" "  ref stop\n" 1 := lineStart_main _ [
    ⟨.space, "  ", 1, 0, 2⟩, ⟨.name, "ref", 1, 2, 5⟩, ⟨.space, " ", 1, 5, 6⟩,
    ⟨.name, "stop", 1, 6, 10⟩, ⟨.newline, "\n", 1, 10, 11⟩] (by decide +kernel)
  have hline : BlankLine "  ; stop\n" :=
    .comment 2 [' ', 's', 't', 'o', 'p'] (by simp)
  obtain ⟨-, hdoc, -⟩ := compile_insert_blankLine hok hline "main.asm"
  obtain ⟨-, -, hfailure⟩ := compile_insert_blankLine hfails hline "main.asm"
  refine ⟨hok, hfails, hline, hdoc ⟨[], [("main", .finish "commit" ⟨"main.asm", 1⟩)], []⟩ ?_,
    hfailure (.onToken .notDefined ⟨.name, "stop", 1, 6, 10⟩) ?_⟩
  · decide +kernel
  · decide +kernel

end ActorAsm
