import ActorAsm.Proofs.Token.Numeral
import Mathlib.Logic.Function.Iterate

/-! The rule by which a text is cut into tokens: the first class that has a word at the head of the
text, with the longest such word, over and over. The tokens of a source are what the rule says. -/

namespace ActorAsm

namespace Lexeme

/-- The place of a class among the classes; where several have a word at the head of the text, the
one with the least rank is taken. -/
def rank : Lexeme → Nat
  | .newline => 0
  | .space => 1
  | .comment => 2
  | .name => 3
  | .literal => 4
  | .number => 5
  | .string => 6
  | .punct => 7

/-- The text begins with this longest word of the class, and with no word of a class before it. -/
structure Begins (cs : List Char) (lexeme : Lexeme) (found : List Char) : Prop where
  absent : ∀ earlier : Lexeme, earlier.rank < lexeme.rank → Absent earlier.language cs
  longest : IsLongest lexeme.language cs found

/-- The kind of token that a word becomes. A number is the integer whose decimal form it is, within
2^53 - 1 of zero. -/
inductive Becomes : Lexeme → List Char → Token.Kind → Prop
  | newline (text : List Char) : Becomes .newline text .newline
  | space (text : List Char) : Becomes .space text .space
  | comment (text : List Char) : Becomes .comment text .comment
  | name (text : List Char) : Becomes .name text .name
  | literal (text : List Char) : Becomes .literal text .literal
  | number {value : Int} (hlow : -9007199254740991 ≤ value) (hhigh : value ≤ 9007199254740991) :
      Becomes .number (toString value).toList (.number value)
  | string (text : List Char) : Becomes .string text .string
  | punct (text : List Char) : Becomes .punct text .punct

/-- The decimal form of an integer that is too far from zero. -/
def OutOfRange (text : List Char) : Prop :=
  ∃ value : Int, text = (toString value).toList ∧
    (value < -9007199254740991 ∨ 9007199254740991 < value)

/-- Where reading breaks off: either nothing that can be read is there, or a number that is out of
range, which is passed over. -/
inductive BreaksOff : List Char → List Char → Prop
  | unknown {cs : List Char} (hne : cs ≠ [])
      (habsent : ∀ lexeme : Lexeme, Absent lexeme.language cs) : BreaksOff cs []
  | outOfRange {cs found : List Char} (hbegins : Begins cs .number found)
      (hrange : OutOfRange found) : BreaksOff cs found

/-- The kinds and texts of the tokens into which the rule cuts a text. -/
inductive Lexes : List Char → List (Token.Kind × String) → Prop
  | done : Lexes [] []
  | token {lexeme : Lexeme} {found rest : List Char} {kind : Token.Kind}
      {tokens : List (Token.Kind × String)} (hbegins : Begins (found ++ rest) lexeme found)
      (hkind : Becomes lexeme found kind) (hrest : Lexes rest tokens) :
      Lexes (found ++ rest) ((kind, String.ofList found) :: tokens)
  | unknown {cs : List Char} (hne : cs ≠ [])
      (habsent : ∀ lexeme : Lexeme, Absent lexeme.language cs) : Lexes cs [(.error, "")]
  | outOfRange {cs found : List Char} (hbegins : Begins cs .number found)
      (hrange : OutOfRange found) : Lexes cs [(.error, "")]

private theorem mem_classes (lexeme : Lexeme) : lexeme ∈ classes := by
  cases lexeme <;> decide

private theorem classes_pairwise : classes.Pairwise fun a b => a.rank < b.rank := by
  decide

private theorem mem_front_iff {front behind : List Lexeme} {lexeme earlier : Lexeme}
    (h : classes = front ++ lexeme :: behind) : earlier ∈ front ↔ earlier.rank < lexeme.rank := by
  have hpairwise := h ▸ classes_pairwise
  obtain ⟨-, htail, hfront⟩ := List.pairwise_append.1 hpairwise
  refine ⟨fun hmem => hfront earlier hmem lexeme List.mem_cons_self, fun hrank => ?_⟩
  rcases List.mem_append.1 (h ▸ mem_classes earlier) with hmem | hmem
  · exact hmem
  rcases List.mem_cons.1 hmem with rfl | hmem
  · exact absurd hrank (Nat.lt_irrefl _)
  · exact absurd hrank ((List.pairwise_cons.1 htail).1 earlier hmem).asymm

theorem first?_eq_some_iff {cs found : List Char} {lexeme : Lexeme} :
    first? cs = some (lexeme, found) ↔ Begins cs lexeme found := by
  rw [first?, List.findSome?_eq_some_iff]
  constructor
  · rintro ⟨front, other, behind, hclasses, hfound, hnone⟩
    obtain ⟨longest, hlongest, he⟩ := Option.map_eq_some_iff.1 hfound
    cases he
    refine ⟨fun earlier hrank => ?_, longest?_eq_some_iff.1 hlongest⟩
    have hearlier := hnone earlier ((mem_front_iff hclasses).2 hrank)
    exact longest?_eq_none_iff.1 (Option.map_eq_none_iff.1 hearlier)
  · intro h
    obtain ⟨front, behind, hclasses⟩ := List.append_of_mem (mem_classes lexeme)
    refine ⟨front, lexeme, behind, hclasses, ?_, fun earlier hmem => ?_⟩
    · rw [longest?_eq_some_iff.2 h.longest, Option.map_some]
    · have habsent := h.absent earlier ((mem_front_iff hclasses).1 hmem)
      rw [longest?_eq_none_iff.2 habsent, Option.map_none]

theorem first?_eq_none_iff {cs : List Char} :
    first? cs = none ↔ ∀ lexeme : Lexeme, Absent lexeme.language cs := by
  rw [first?, List.findSome?_eq_none_iff]
  refine ⟨fun h lexeme => ?_, fun h lexeme _ => ?_⟩
  · exact longest?_eq_none_iff.1 (Option.map_eq_none_iff.1 (h lexeme (mem_classes lexeme)))
  · rw [longest?_eq_none_iff.2 (h lexeme), Option.map_none]

theorem Begins.found_ne_nil {cs found : List Char} {lexeme : Lexeme}
    (h : Begins cs lexeme found) : found ≠ [] :=
  ne_nil_of_first? (first?_eq_some_iff.2 h)

theorem Begins.ne_nil {cs found : List Char} {lexeme : Lexeme} (h : Begins cs lexeme found) :
    cs ≠ [] := by
  rintro rfl
  exact h.found_ne_nil (List.prefix_nil.1 h.longest.isPrefix)

private theorem exists_value {found : List Char} (h : found ∈ language .number) :
    ∃ value : Int, found = (toString value).toList :=
  ⟨integerValue found, by rw [toString_integerValue h, String.toList_ofList]⟩

private theorem kind?_number (value : Int) :
    kind? .number (toString value).toList =
      if -9007199254740991 ≤ value ∧ value ≤ 9007199254740991 then some (.number value)
      else none := by
  have hrange : value.natAbs ≤ Token.maxNumber ↔
      -9007199254740991 ≤ value ∧ value ≤ 9007199254740991 := by
    rw [Token.maxNumber]
    omega
  simp only [kind?, integerValue_toString, hrange]

theorem kind?_eq_some_iff {lexeme : Lexeme} {found : List Char} {kind : Token.Kind}
    (h : found ∈ lexeme.language) : lexeme.kind? found = some kind ↔ Becomes lexeme found kind := by
  constructor
  · intro hkind
    cases lexeme with
    | newline | space | comment | name | literal | string | punct =>
      cases hkind
      constructor
    | number =>
      obtain ⟨value, rfl⟩ := exists_value h
      rw [kind?_number] at hkind
      split at hkind
      next hrange =>
        cases hkind
        exact .number hrange.1 hrange.2
      · cases hkind
  · intro hbecomes
    cases hbecomes with
    | newline | space | comment | name | literal | string | punct => rfl
    | number hlow hhigh => rw [kind?_number, if_pos ⟨hlow, hhigh⟩]

theorem kind?_eq_none_iff {lexeme : Lexeme} {found : List Char} (h : found ∈ lexeme.language) :
    lexeme.kind? found = none ↔ lexeme = .number ∧ OutOfRange found := by
  cases lexeme with
  | newline | space | comment | name | literal | string | punct =>
    exact ⟨fun hkind => (by cases hkind), fun hnumber => (by cases hnumber.1)⟩
  | number =>
    obtain ⟨value, rfl⟩ := exists_value h
    rw [kind?_number]
    constructor
    · intro hkind
      refine ⟨rfl, value, rfl, ?_⟩
      by_contra hrange
      rw [if_pos (by omega)] at hkind
      cases hkind
    · rintro ⟨-, other, he, hrange⟩
      have hvalue : value = other := by
        rw [← integerValue_toString value, he, integerValue_toString]
      rw [if_neg (by omega)]

end Lexeme

namespace Scanner
open Lexeme
variable {s : Scanner} {lexeme : Lexeme} {found : List Char} {kind : Token.Kind}

/-- The next call gives a token of this kind and text and leaves that to be read. -/
def Gives (s : Scanner) (kind : Token.Kind) (text rest : List Char) : Prop :=
  ∃ token behind, s.next? = some (token, behind) ∧
    (token.kind, token.text) = (kind, String.ofList text) ∧ behind.rest = rest

theorem gives_of_becomes (hbegins : Begins s.rest lexeme found)
    (hkind : Becomes lexeme found kind) : s.Gives kind found (s.rest.drop found.length) := by
  have hkind? := (kind?_eq_some_iff hbegins.longest.mem).2 hkind
  simp only [Gives, next?, if_neg hbegins.ne_nil, first?_eq_some_iff.2 hbegins, hkind?]
  split <;> exact ⟨_, _, rfl, rfl, rfl⟩

private theorem gives_of_absent (hne : s.rest ≠ [])
    (h : ∀ lexeme : Lexeme, Absent lexeme.language s.rest) : s.Gives .error [] [] := by
  simp only [Gives, next?, if_neg hne, first?_eq_none_iff.2 h]
  exact ⟨_, _, rfl, rfl, rfl⟩

theorem gives_of_outOfRange (hbegins : Begins s.rest .number found) (hrange : OutOfRange found) :
    s.Gives .error [] [] := by
  have hkind? := (kind?_eq_none_iff hbegins.longest.mem).2 ⟨rfl, hrange⟩
  simp only [Gives, next?, if_neg hbegins.ne_nil, first?_eq_some_iff.2 hbegins, hkind?]
  exact ⟨_, _, rfl, rfl, rfl⟩

theorem next?_of_rest_nil (h : s.rest = []) : s.next? = none := by
  rw [next?, if_pos h]

theorem tokens_of_next?_none (h : s.next? = none) : s.tokens = [] := by
  rw [tokens]
  split
  · rfl
  next token behind hsome => cases h.symm.trans hsome

theorem tokens_of_next?_some {token : Token} {behind : Scanner}
    (h : s.next? = some (token, behind)) : s.tokens = token :: behind.tokens := by
  rw [tokens]
  split
  next hnone => cases h.symm.trans hnone
  next hsome =>
    cases h.symm.trans hsome
    rfl

/-- The kinds and texts of the tokens still to come. -/
def pairs (s : Scanner) : List (Token.Kind × String) := s.tokens.map fun t => (t.kind, t.text)

private theorem pairs_of_rest_nil (h : s.rest = []) : s.pairs = [] := by
  rw [pairs, tokens_of_next?_none (next?_of_rest_nil h), List.map_nil]

private theorem Gives.pairs {text rest : List Char} (h : s.Gives kind text rest) :
    ∃ behind : Scanner, behind.rest = rest ∧
      s.pairs = (kind, String.ofList text) :: behind.pairs := by
  obtain ⟨token, behind, hnext, htoken, hrest⟩ := h
  refine ⟨behind, hrest, ?_⟩
  rw [Scanner.pairs, tokens_of_next?_some hnext, List.map_cons, htoken, Scanner.pairs]

private theorem Gives.pairs_error (h : s.Gives .error [] []) : s.pairs = [(.error, "")] := by
  obtain ⟨behind, hrest, hpairs⟩ := h.pairs
  rw [hpairs, pairs_of_rest_nil hrest]

/-- The rule says nothing else than what the tokens still to come are. -/
theorem pairs_of_lexes {cs : List Char} {tokens : List (Token.Kind × String)}
    (h : Lexes cs tokens) : ∀ s : Scanner, s.rest = cs → s.pairs = tokens := by
  induction h with
  | done => exact fun s hs => pairs_of_rest_nil hs
  | @token lexeme found rest kind tokens hbegins hkind hrest ih =>
    intro s hs
    obtain ⟨behind, hbehind, hpairs⟩ := (gives_of_becomes (hs ▸ hbegins) hkind).pairs
    rw [hs, List.drop_left] at hbehind
    rw [hpairs, ih behind hbehind]
  | unknown hne habsent => exact fun s hs => (gives_of_absent (hs ▸ hne) (hs ▸ habsent)).pairs_error
  | outOfRange hbegins hrange =>
    exact fun s hs => (gives_of_outOfRange (hs ▸ hbegins) hrange).pairs_error

end Scanner

namespace Lexeme

/-- The rule always says something. -/
theorem exists_lexes (cs : List Char) : ∃ tokens, Lexes cs tokens := by
  induction hlength : cs.length using Nat.strong_induction_on generalizing cs with
  | _ n ih =>
    by_cases hnil : cs = []
    · exact ⟨[], hnil ▸ .done⟩
    cases hfirst : first? cs with
    | none => exact ⟨_, .unknown hnil (first?_eq_none_iff.1 hfirst)⟩
    | some result =>
      obtain ⟨lexeme, found⟩ := result
      have hbegins := first?_eq_some_iff.1 hfirst
      obtain ⟨rest, rfl⟩ := hbegins.longest.isPrefix
      cases hkind : lexeme.kind? found with
      | none =>
        obtain ⟨rfl, hrange⟩ := (kind?_eq_none_iff hbegins.longest.mem).1 hkind
        exact ⟨_, .outOfRange hbegins hrange⟩
      | some kind =>
        have hpos := List.length_pos_iff.2 hbegins.found_ne_nil
        rw [List.length_append] at hlength
        obtain ⟨tokens, htokens⟩ := ih rest.length (by omega) rest rfl
        exact ⟨_, .token hbegins ((kind?_eq_some_iff hbegins.longest.mem).1 hkind) htokens⟩

theorem lexes_iff (s : Scanner) {tokens : List (Token.Kind × String)} :
    Lexes s.rest tokens ↔ s.pairs = tokens := by
  constructor
  · exact fun h => Scanner.pairs_of_lexes h s rfl
  · rintro rfl
    obtain ⟨tokens, htokens⟩ := exists_lexes s.rest
    rwa [Scanner.pairs_of_lexes htokens s rfl]

variable {cs : List Char} {tokens : List (Token.Kind × String)}

/-- The words that are read, and behind them either nothing or the error. -/
theorem Lexes.exists_front (h : Lexes cs tokens) :
    ∃ front rest, (∀ t ∈ front, t.1 ≠ .error ∧ t.2 ≠ "") ∧
      front.flatMap (·.2.toList) ++ rest = cs ∧
      (rest = [] ∧ tokens = front ∨ rest ≠ [] ∧ tokens = front ++ [(.error, "")]) := by
  induction h with
  | done => exact ⟨[], [], by simp, rfl, .inl ⟨rfl, rfl⟩⟩
  | @token lexeme found rest kind tokens hbegins hkind hrest ih =>
    obtain ⟨front, left, hfront, rfl, hend⟩ := ih
    have hword : kind ≠ .error ∧ String.ofList found ≠ "" := by
      refine ⟨fun herror => ?_, fun hempty => hbegins.found_ne_nil ?_⟩
      · rw [herror] at hkind
        cases hkind
      · rw [← String.toList_ofList (l := found), hempty, String.toList_empty]
    refine ⟨(kind, String.ofList found) :: front, left,
      List.forall_mem_cons.2 ⟨hword, hfront⟩, ?_, ?_⟩
    · rw [List.flatMap_cons, String.toList_ofList, List.append_assoc]
    · obtain ⟨hnil, rfl⟩ | ⟨hne, rfl⟩ := hend
      · exact .inl ⟨hnil, rfl⟩
      · exact .inr ⟨hne, rfl⟩
  | @unknown cs hne _ => exact ⟨[], cs, by simp, rfl, .inr ⟨hne, rfl⟩⟩
  | @outOfRange cs found hbegins _ => exact ⟨[], cs, by simp, rfl, .inr ⟨hbegins.ne_nil, rfl⟩⟩

private theorem Lexes.text_ne (h : Lexes cs tokens) : ∀ t ∈ tokens, t.1 ≠ .error → t.2 ≠ "" := by
  obtain ⟨front, rest, hfront, -, ⟨-, rfl⟩ | ⟨-, rfl⟩⟩ := h.exists_front
  · exact fun t ht _ => (hfront t ht).2
  · intro t ht hne
    rcases List.mem_append.1 ht with ht | ht
    · exact (hfront t ht).2
    · exact absurd (by rw [List.mem_singleton.1 ht]) hne

private theorem Lexes.error_last (h : Lexes cs tokens) : ∀ t ∈ tokens.dropLast, t.1 ≠ .error := by
  obtain ⟨front, rest, hfront, -, ⟨-, rfl⟩ | ⟨-, rfl⟩⟩ := h.exists_front
  · exact fun t ht => (hfront t (List.mem_of_mem_dropLast ht)).1
  · rw [List.dropLast_concat]
    exact fun t ht => (hfront t ht).1

theorem Lexes.texts_append (h : Lexes cs tokens) :
    ∃ rest, (tokens.filter (·.1 ≠ .error)).flatMap (·.2.toList) ++ rest = cs ∧
      (rest = [] ↔ ∀ t ∈ tokens, t.1 ≠ .error) := by
  obtain ⟨front, rest, hfront, htexts, hend⟩ := h.exists_front
  have hfilter : front.filter (·.1 ≠ .error) = front := by
    simpa using fun a b hab => (hfront (a, b) hab).1
  refine ⟨rest, ?_, ?_⟩
  · obtain ⟨-, rfl⟩ | ⟨-, rfl⟩ := hend
    · rw [hfilter, htexts]
    · rw [List.filter_append, hfilter]
      simpa using htexts
  · obtain ⟨hnil, rfl⟩ | ⟨hne, rfl⟩ := hend
    · exact ⟨fun _ t ht => (hfront t ht).1, fun _ => hnil⟩
    · exact ⟨fun hnil => absurd hnil hne,
        fun hall => absurd rfl (hall (.error, "") (by simp))⟩

end Lexeme

namespace Scanner

/-- The scanner behind a call, the same one if the stream is over. -/
def afterCall (s : Scanner) : Scanner :=
  match s.next? with
  | none => s
  | some (_, behind) => behind

/-- Call by call a scanner gives its tokens, and nothing behind them. -/
theorem next?_iterate (s : Scanner) (n : Nat) :
    (afterCall^[n] s).next?.map Prod.fst = s.tokens[n]? := by
  induction n generalizing s with
  | zero =>
    rw [Function.iterate_zero_apply]
    cases hnext : s.next? with
    | none => rw [tokens_of_next?_none hnext, Option.map_none, List.getElem?_nil]
    | some result =>
      rw [tokens_of_next?_some hnext, Option.map_some, List.getElem?_cons_zero]
  | succ n ih =>
    rw [Function.iterate_succ_apply, ih, afterCall]
    cases hnext : s.next? with
    | none => simp only [tokens_of_next?_none hnext, List.getElem?_nil]
    | some result => simp only [tokens_of_next?_some hnext, List.getElem?_cons_succ]

end Scanner

open Scanner in
/-- The tokens of a source are what the rule of the first class and its longest word says, and
nothing else is. So no token but the error is empty, their texts are the source up to the error, if
there is one, which comes last; and the calls of the scanner give these tokens one by one and never
any behind them. -/
theorem Token.ofSource_longest_match (source : String) :
    (∀ tokens, Lexeme.Lexes source.toList tokens ↔
      (ofSource source).map (fun t => (t.kind, t.text)) = tokens) ∧
    (∀ t ∈ ofSource source, t.kind ≠ .error → t.text ≠ "") ∧
    (∃ rest, ((ofSource source).filter (·.kind ≠ .error)).flatMap (·.text.toList) ++ rest =
      source.toList ∧ (rest = [] ↔ ∀ t ∈ ofSource source, t.kind ≠ .error)) ∧
    (∀ t ∈ (ofSource source).dropLast, t.kind ≠ .error) ∧
    (∀ n, (afterCall^[n] (ofString source)).next?.map Prod.fst = (ofSource source)[n]?) ∧
    (∀ n, (∃ t ∈ (ofSource source).take n, t.kind = .error) →
      (afterCall^[n] (ofString source)).next? = none) := by
  have hlexes : Lexeme.Lexes source.toList (ofString source).pairs :=
    (Lexeme.lexes_iff (ofString source)).2 rfl
  have herror : ∀ t ∈ (ofSource source).dropLast, t.kind ≠ .error := by
    have hlast := hlexes.error_last
    rw [pairs, ← List.map_dropLast, List.forall_mem_map] at hlast
    exact hlast
  refine ⟨fun _ => Lexeme.lexes_iff (ofString source), List.forall_mem_map.1 hlexes.text_ne, ?_,
    herror, next?_iterate (ofString source), ?_⟩
  · obtain ⟨rest, htexts, hrest⟩ := hlexes.texts_append
    refine ⟨rest, ?_, hrest.trans List.forall_mem_map⟩
    rwa [pairs, List.filter_map, List.flatMap_map] at htexts
  · rintro n ⟨t, ht, hkind⟩
    have hlength : (ofSource source).length ≤ n := by
      by_contra hlt
      have hle : n ≤ (ofSource source).length - 1 := by omega
      rw [List.dropLast_eq_take] at herror
      exact herror t ((List.take_subset_take_left _ hle) ht) hkind
    have hnone := next?_iterate (ofString source) n
    rw [← ofSource, List.getElem?_eq_none hlength] at hnone
    exact Option.map_eq_none_iff.1 hnone

end ActorAsm
