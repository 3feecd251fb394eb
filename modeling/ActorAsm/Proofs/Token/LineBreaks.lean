import ActorAsm.Proofs.Module.Relocation
import ActorAsm.Proofs.Token.Seams

/-! Line breaks as places to begin anew. What is read up to a line break does not depend on what
stands behind it, and from there on only the number of the line is remembered. Hence a blank line
that is put in there becomes the end of a line, and all that is behind it only moves down. -/

namespace ActorAsm

/-- What the tokens were cut from. -/
def Token.texts (ts : List Token) : List Char := ts.flatMap (·.text.toList)

namespace Lexeme
variable {lexeme other : Lexeme} {text front rest w : List Char}

private theorem prefix_or_eq_string (hw : w ∈ other.language)
    (hw' : w <+: front ++ ['\n'] ++ rest) : w <+: front ++ ['\n'] ∨ other = .string := by
  refine (List.prefix_or_prefix_of_prefix hw' (List.prefix_append _ rest)).elim .inl ?_
  rintro ⟨v, rfl⟩
  have hfeed : other.alphabet '\n' := over_alphabet other _ hw '\n' (by simp)
  cases other with
  | newline =>
    refine .inl ?_
    rcases mem_newline_language.mp hw with h | h | h
    all_goals
      rcases front with - | ⟨c, - | ⟨d, front⟩⟩ <;> simp_all
  | string => exact .inr rfl
  | _ => cases hfeed

/-- What a text begins with is settled where a line ends, unless it ends there itself. -/
theorem Begins.of_line (h : Begins (text ++ (front ++ ['\n'] ++ rest)) lexeme text)
    (rest' : List Char) : Begins (text ++ (front ++ ['\n'] ++ rest')) lexeme text := by
  have hline : text ++ (front ++ ['\n']) <+: text ++ (front ++ ['\n'] ++ rest) := by simp
  have hshort {other : Lexeme} {w : List Char} (hw : w ∈ other.language)
      (hw' : w <+: text ++ (front ++ ['\n'] ++ rest')) :
      w <+: text ++ (front ++ ['\n'] ++ rest) ∨ other = .string := by
    rw [← List.append_assoc, ← List.append_assoc] at hw'
    refine (prefix_or_eq_string hw hw').imp_left fun hw => ?_
    rw [List.append_assoc] at hw
    exact hw.trans hline
  refine ⟨fun earlier hrank w hw hw' => ?_, h.longest.mem, List.prefix_append _ _,
    fun w hw hw' => ?_⟩
  · rcases hshort hw hw' with hw' | rfl
    · exact h.absent earlier hrank w hw hw'
    -- A string begins with its quote, and the word that is there begins with none.
    · obtain ⟨c, v, rfl, hc⟩ := exists_initial hw
      obtain ⟨d, v', rfl, hd⟩ := exists_initial h.longest.mem
      obtain ⟨rfl, -⟩ := List.cons_prefix_cons.mp hw'
      obtain ⟨-, rfl⟩ := initial_unique hc hd hrank
      cases hc
  · rcases hshort hw hw' with hw' | rfl
    · exact h.longest.length_le w hw hw'
    · exact (isLongest_string h.longest.mem).length_le w hw hw'

end Lexeme

namespace Scanner
open Lexeme (Begins Becomes BreaksOff)
variable {s s' : Scanner} {t : Token} {lexeme : Lexeme} {kind : Token.Kind} {text rest : List Char}

/-- The token that a word makes here. -/
def word (s : Scanner) (kind : Token.Kind) (text : List Char) : Token :=
  ⟨kind, String.ofList text, s.line, s.column, s.column + Text.width text⟩

/-- The scanner behind a word, with this left to read. -/
def behind (s : Scanner) (lexeme : Lexeme) (text rest : List Char) : Scanner :=
  if lexeme = .newline then ⟨rest, s.line + 1, 0⟩
  else ⟨rest, s.line, s.column + Text.width text⟩

theorem behind_rest (s : Scanner) (lexeme : Lexeme) :
    (s.behind lexeme text rest).rest = rest := by
  unfold behind
  split <;> rfl

private theorem next?_of_becomes (hrest : s.rest = text ++ rest)
    (hbegins : Begins s.rest lexeme text) (hkind : Becomes lexeme text kind) :
    s.next? = some (s.word kind text, s.behind lexeme text rest) := by
  have hkind? := (Lexeme.kind?_eq_some_iff hbegins.longest.mem).mpr hkind
  have hdrop : s.rest.drop text.length = rest := by rw [hrest, List.drop_left]
  simp only [next?, if_neg hbegins.ne_nil, Lexeme.first?_eq_some_iff.mpr hbegins, hkind?, hdrop]
  unfold behind
  split <;> rfl

/-- A call gives a word, or the error with nothing behind it, placed behind what is passed over. -/
theorem next?_cases (h : s.next? = some (t, s')) :
    (∃ lexeme kind text rest, s.rest = text ++ rest ∧ Begins s.rest lexeme text ∧
      Becomes lexeme text kind ∧ t = s.word kind text ∧ s' = s.behind lexeme text rest) ∨
    ∃ passed, BreaksOff s.rest passed ∧ s.stop (s.column + Text.width passed) = (t, s') := by
  by_cases hnil : s.rest = []
  · rw [next?_of_rest_nil hnil] at h
    cases h
  cases hfirst : Lexeme.first? s.rest with
  | none =>
    simp only [next?, if_neg hnil, hfirst] at h
    exact .inr ⟨[], .unknown hnil (Lexeme.first?_eq_none_iff.mp hfirst), Option.some.inj h⟩
  | some found =>
    obtain ⟨lexeme, text⟩ := found
    have hbegins := Lexeme.first?_eq_some_iff.mp hfirst
    cases hkind : lexeme.kind? text with
    | none =>
      obtain ⟨rfl, hrange⟩ := (Lexeme.kind?_eq_none_iff hbegins.longest.mem).mp hkind
      simp only [next?, if_neg hnil, hfirst, hkind] at h
      exact .inr ⟨text, .outOfRange hbegins hrange, Option.some.inj h⟩
    | some kind =>
      obtain ⟨rest, hrest⟩ := hbegins.longest.isPrefix
      have hbecomes := (Lexeme.kind?_eq_some_iff hbegins.longest.mem).mp hkind
      cases h.symm.trans (next?_of_becomes hrest.symm hbegins hbecomes)
      exact .inl ⟨lexeme, kind, text, rest, hrest.symm, hbegins, hbecomes, rfl, rfl⟩

theorem line_of_next? (h : s.next? = some (t, s')) : t.line = s.line ∧ s.line ≤ s'.line := by
  rcases next?_cases h with ⟨lexeme, kind, text, rest, -, -, -, rfl, rfl⟩ | ⟨passed, -, h⟩
  · refine ⟨rfl, ?_⟩
    unfold behind
    split
    · exact Nat.le_succ s.line
    · exact Nat.le_refl s.line
  · cases h
    exact ⟨rfl, Nat.le_refl s.line⟩

theorem tokens_of_becomes (hrest : s.rest = text ++ rest) (hbegins : Begins s.rest lexeme text)
    (hkind : Becomes lexeme text kind) :
    s.tokens = s.word kind text :: (s.behind lexeme text rest).tokens :=
  tokens_of_next?_some (next?_of_becomes hrest hbegins hkind)

/-- Tokens come line after line. -/
theorem line_le_of_mem_tokens (ht : t ∈ s.tokens) : s.line ≤ t.line := by
  induction s using tokens.induct with
  | case1 s hnone =>
    rw [tokens_of_next?_none hnone] at ht
    cases ht
  | case2 s first s' hnext ih =>
    obtain ⟨hfirst, hle⟩ := line_of_next? hnext
    rw [tokens_of_next?_some hnext] at ht
    rcases List.mem_cons.mp ht with rfl | ht
    · exact hfirst.ge
    · exact hle.trans (ih ht)

theorem pairwise_line_le (s : Scanner) : s.tokens.Pairwise fun t u => t.line ≤ u.line := by
  induction s using tokens.induct with
  | case1 s hnone =>
    rw [tokens_of_next?_none hnone]
    exact .nil
  | case2 s t s' hnext ih =>
    obtain ⟨ht, hle⟩ := line_of_next? hnext
    rw [tokens_of_next?_some hnext]
    exact .cons (fun u hu => ht.trans_le (hle.trans (line_le_of_mem_tokens hu))) ih

section Shifted
variable {r : Relocation}

def relocate (r : Relocation) (s : Scanner) : Scanner :=
  { s with line := r.line s.line, column := r.column s.column }

/-- The line is only passed on and counted. -/
theorem next?_relocate (hline : r.line (s.line + 1) = r.line s.line + 1) (hcolumn : r.column = id)
    (hcolumnTo : r.columnTo = id) :
    (s.relocate r).next? = s.next?.map (Prod.map (Token.relocate r) (relocate r)) := by
  unfold next?
  simp only [relocate, hcolumn, id_eq]
  split
  · rfl
  split
  · simp [stop, Token.relocate, relocate, hcolumn, hcolumnTo]
  split
  · simp [stop, Token.relocate, relocate, hcolumn, hcolumnTo]
  split <;> simp [Token.relocate, relocate, hcolumn, hcolumnTo, hline]

/-- So are the tokens only moved if the scanner is moved to another line. -/
theorem tokens_relocate (hline : ∀ l, s.line ≤ l → r.line (l + 1) = r.line l + 1)
    (hcolumn : r.column = id) (hcolumnTo : r.columnTo = id) :
    (s.relocate r).tokens = s.tokens.map (Token.relocate r) := by
  induction s using tokens.induct with
  | case1 s hnone =>
    have hmoved := next?_relocate (hline s.line (Nat.le_refl _)) hcolumn hcolumnTo
    rw [hnone] at hmoved
    rw [tokens_of_next?_none hnone, tokens_of_next?_none hmoved, List.map_nil]
  | case2 s t s' hnext ih =>
    have hmoved := next?_relocate (hline s.line (Nat.le_refl _)) hcolumn hcolumnTo
    have hbehind := (line_of_next? hnext).2
    rw [hnext] at hmoved
    rw [tokens_of_next?_some hnext, tokens_of_next?_some hmoved, List.map_cons,
      ih fun l hl => hline l (hbehind.trans hl)]

end Shifted

section Lines
variable {newline : Token} {front ts : List Token} {after : List Char}

/-- The first token is a word with the other tokens behind it, or it is the error and the last. -/
theorem exists_word (h : s.tokens = t :: ts) :
    (∃ lexeme rest, s.rest = t.text.toList ++ rest ∧ Begins s.rest lexeme t.text.toList ∧
      Becomes lexeme t.text.toList t.kind ∧ t = s.word t.kind t.text.toList ∧
      ts = (s.behind lexeme t.text.toList rest).tokens) ∨ t.kind = .error ∧ ts = [] ∧
      ∃ passed, BreaksOff s.rest passed ∧ t = (s.stop (s.column + Text.width passed)).1 := by
  cases hnext : s.next? with
  | none => cases h.symm.trans (tokens_of_next?_none hnext)
  | some result =>
    obtain ⟨first, s'⟩ := result
    cases h.symm.trans (tokens_of_next?_some hnext)
    rcases next?_cases hnext with ⟨lexeme, kind, text, rest, hrest, hbegins, hkind, rfl, rfl⟩ |
      ⟨passed, hbreaks, herror⟩
    · have htext : (s.word kind text).text.toList = text := String.toList_ofList
      exact .inl ⟨lexeme, rest, by rwa [htext], by rwa [htext], by rwa [htext], by rw [htext]; rfl,
        by rw [htext]⟩
    · cases herror
      exact .inr ⟨rfl, tokens_of_next?_none (next?_of_rest_nil rfl), passed, hbreaks, rfl⟩

/-- A line break is read whatever stands behind it. -/
theorem tokens_of_newline (hmem : text ∈ Lexeme.newline.language) (hcr : text ≠ ['\r'])
    (hrest : s.rest = text ++ rest) :
    s.tokens = s.word .newline text :: (⟨rest, s.line + 1, 0⟩ : Scanner).tokens := by
  refine tokens_of_becomes hrest ?_ (.newline text)
  rw [hrest]
  exact Lexeme.begins_of_isLongest (Lexeme.isLongest_newline hmem hcr) Lexeme.noConfusion

/-- Up to a line break the tokens are the same whatever stands behind it, and there the scanner
begins anew. -/
theorem tokens_of_line (h : s.tokens = front ++ newline :: ts) (hkind : newline.kind = .newline)
    (hcr : newline.text ≠ "\r") (hrest : s.rest = Token.texts (front ++ [newline]) ++ after) :
    ts = (⟨after, newline.line + 1, 0⟩ : Scanner).tokens ∧
      (∃ line, Token.texts (front ++ [newline]) = line ++ ['\n']) ∧
      ∀ other : List Char,
        { s with rest := Token.texts (front ++ [newline]) ++ other }.tokens =
          front ++ newline :: (⟨other, newline.line + 1, 0⟩ : Scanner).tokens := by
  induction front generalizing s with
  | nil =>
    obtain ⟨lexeme, rest, -, hbegins, hbecomes, hnewline, -⟩ | ⟨herror, -⟩ := exists_word h
    · have htexts : Token.texts ([] ++ [newline]) = newline.text.toList := by simp [Token.texts]
      rw [htexts] at hrest ⊢
      have hmem : newline.text.toList ∈ Lexeme.newline.language := by
        have hlexeme : lexeme = .newline := by
          rw [hkind] at hbecomes
          generalize newline.text.toList = text at hbecomes
          cases hbecomes
          rfl
        exact hlexeme ▸ hbegins.longest.mem
      have hcr' : newline.text.toList ≠ ['\r'] := fun htext => hcr (String.toList_inj.mp htext)
      have hread (other : List Char) :
          { s with rest := newline.text.toList ++ other }.tokens =
            newline :: (⟨other, newline.line + 1, 0⟩ : Scanner).tokens := by
        have hline : newline.line = s.line := by rw [hnewline]; rfl
        rw [tokens_of_newline hmem hcr' rfl, hline]
        exact congrArg (· :: _) (hkind ▸ hnewline).symm
      have hs : { s with rest := newline.text.toList ++ after } = s := by rw [← hrest]
      refine ⟨(List.cons.inj (h.symm.trans (hs ▸ hread after))).2, ?_, hread⟩
      rcases Lexeme.mem_newline_language.mp hmem with h | h | h
      · exact ⟨[], h⟩
      · exact absurd h hcr'
      · exact ⟨['\r'], h⟩
    · cases hkind.symm.trans herror
  | cons t front ih =>
    obtain ⟨lexeme, rest, hword, hbegins, hbecomes, ht, hts⟩ | ⟨-, hnil, -⟩ := exists_word h
    · have htexts : Token.texts (t :: front ++ [newline]) =
        t.text.toList ++ Token.texts (front ++ [newline]) := List.flatMap_cons
      rw [htexts, List.append_assoc] at hrest
      obtain rfl := List.append_cancel_left (hword.symm.trans hrest)
      obtain ⟨hanew, ⟨line, hline⟩, hsame⟩ := ih hts.symm (behind_rest s lexeme)
      refine ⟨hanew, ⟨t.text.toList ++ line, by rw [htexts, hline, List.append_assoc]⟩,
        fun other => ?_⟩
      rw [hword, hline] at hbegins
      have hbegins' := hbegins.of_line other
      rw [← hline] at hbegins'
      have hagain :
          { s with rest := t.text.toList ++ (Token.texts (front ++ [newline]) ++ other) }.tokens =
            t :: { s.behind lexeme t.text.toList (Token.texts (front ++ [newline]) ++ after) with
              rest := Token.texts (front ++ [newline]) ++ other }.tokens := by
        rw [tokens_of_becomes rfl hbegins' hbecomes]
        refine congrArg₂ (· :: tokens ·) ht.symm ?_
        unfold behind
        split <;> rfl
      rw [htexts, List.append_assoc, hagain, hsame]
      rfl
    · cases (List.append_eq_nil_iff.mp hnil).2

end Lines

end Scanner

end ActorAsm
