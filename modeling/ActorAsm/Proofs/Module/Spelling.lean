import ActorAsm.Proofs.Module.Relocation
import ActorAsm.Proofs.Token.Seams
import Mathlib.Data.List.Chain

/-! Writing a module down. Tokens that make a module stand so that none of them can go on into the
next one. Hence their texts, put together, are cut into the same tokens again. -/

namespace ActorAsm

namespace Token

/-- The text is a word of the class that makes tokens of this kind, and makes this one. -/
def Spelled (t : Token) : Prop :=
  ∃ lexeme : Lexeme, t.text.toList ∈ lexeme.language ∧ Lexeme.Becomes lexeme t.text.toList t.kind

/-- The class that makes tokens of a kind. -/
def Kind.lexeme? : Kind → Option Lexeme
  | .newline => some .newline
  | .space => some .space
  | .comment => some .comment
  | .name => some .name
  | .literal => some .literal
  | .number _ => some .number
  | .string => some .string
  | .punct => some .punct
  | .error => none

/-- The end of a line, or what may stand between two names. -/
def IsBreak (t : Token) : Prop := t.kind = .newline ∨ t.kind = .space ∨ t.kind = .comment

/-- Which tokens the grammar lets follow each other. -/
def Precedes (t u : Token) : Prop :=
  match t.kind with
  | .newline | .string => True
  | .punct => t.text ≠ "#"
  | .space => u.kind ≠ .space
  | .comment => u.kind = .newline
  | .name => u.IsBreak ∨ u.IsPunct "." ∨ u.IsPunct ":"
  | .literal | .number _ => u.IsBreak
  | .error => False

end Token

section Lexing
open Lexeme (Begins Becomes Lexes)
variable {t u : Token} {lexeme : Lexeme} {c : Char}

theorem Lexeme.Becomes.lexeme?_eq {text : List Char} {kind : Token.Kind}
    (h : Becomes lexeme text kind) : kind.lexeme? = some lexeme := by
  cases h <;> rfl

private theorem Token.Kind.eq_of_lexeme?_eq {kind : Token.Kind} (h : kind.lexeme? = some lexeme) :
    (lexeme = .newline → kind = .newline) ∧ (lexeme = .space → kind = .space) ∧
      (lexeme = .punct → kind = .punct) := by
  cases kind <;> cases h <;> simp

/-- The class of a token tells with which character its text can begin. -/
theorem Token.Spelled.initial_head (h : t.Spelled) (hclass : t.kind.lexeme? = some lexeme)
    (hc : c ∈ t.text.toList.head?) : lexeme.initial c := by
  obtain ⟨other, hmem, hbecomes⟩ := h
  obtain ⟨d, v, htext, hd⟩ := Lexeme.exists_initial hmem
  rw [htext] at hc
  cases hc
  cases hclass.symm.trans hbecomes.lexeme?_eq
  exact hd

private theorem Token.IsBreak.alphabet_eq_false (h : u.IsBreak) (hu : u.Spelled)
    (hc : c ∈ u.text.toList.head?) :
    Lexeme.name.alphabet c = false ∧ Lexeme.literal.alphabet c = false ∧
      Lexeme.number.alphabet c = false := by
  have hchar : c = '\n' ∨ c = '\r' ∨ c = ' ' ∨ c = ';' := by
    rcases h with h | h | h
    · have hinitial : Lexeme.newline.initial c := hu.initial_head (by rw [h]; rfl) hc
      rcases Bool.or_eq_true_iff.mp hinitial with hd | hd
      · exact .inl (of_decide_eq_true hd)
      · exact .inr (.inl (of_decide_eq_true hd))
    · have hinitial : Lexeme.space.initial c := hu.initial_head (by rw [h]; rfl) hc
      exact .inr (.inr (.inl (of_decide_eq_true hinitial)))
    · have hinitial : Lexeme.comment.initial c := hu.initial_head (by rw [h]; rfl) hc
      exact .inr (.inr (.inr (of_decide_eq_true hinitial)))
  rcases hchar with rfl | rfl | rfl | rfl <;> decide

private theorem Token.IsPunct.alphabet_eq_false {text : String} {mark : Char} (h : u.IsPunct text)
    (htext : text.toList = [mark]) (hmark : Lexeme.name.alphabet mark = false)
    (hc : c ∈ u.text.toList.head?) : Lexeme.name.alphabet c = false := by
  rw [h.2, htext] at hc
  cases hc
  exact hmark

/-- The text of a token does not go on into that of the next one. -/
theorem Token.Precedes.isLongest (h : t.Precedes u) (hu : u.Spelled)
    (hmem : t.text.toList ∈ lexeme.language) (hclass : t.kind.lexeme? = some lexeme)
    (hcr : lexeme = .newline → t.text.toList ≠ ['\r']) (rest : List Char) :
    Lexeme.IsLongest lexeme.language (t.text.toList ++ (u.text.toList ++ rest)) t.text.toList := by
  have hhead (c : Char) (hc : c ∈ (u.text.toList ++ rest).head?) : c ∈ u.text.toList.head? := by
    obtain ⟨other, hother, -⟩ := hu
    obtain ⟨d, v, htext, -⟩ := Lexeme.exists_initial hother
    rw [htext] at hc ⊢
    exact hc
  have hopen (hchar : ∀ c ∈ u.text.toList.head?, lexeme.alphabet c = false) :=
    Lexeme.isLongest_of_alphabet hmem fun c hc => hchar c (hhead c hc)
  unfold Precedes at h
  cases hkind : t.kind with
  | newline =>
    rw [hkind] at hclass
    cases hclass
    exact Lexeme.isLongest_newline hmem (hcr rfl)
  | string =>
    rw [hkind] at hclass
    cases hclass
    exact Lexeme.isLongest_string hmem
  | punct =>
    rw [hkind] at hclass
    cases hclass
    exact Lexeme.isLongest_punct hmem
  | error =>
    rw [hkind] at hclass
    cases hclass
  | space =>
    rw [hkind] at hclass h
    cases hclass
    refine hopen fun c hc => ?_
    obtain ⟨other, -, hbecomes⟩ := id hu
    have hinitial : other.initial c := hu.initial_head hbecomes.lexeme?_eq hc
    refine decide_eq_false fun hspace => h ?_
    rw [hspace] at hinitial
    have hother : other = .space := by cases other <;> first | rfl | cases hinitial
    exact (Token.Kind.eq_of_lexeme?_eq hbecomes.lexeme?_eq).2.1 hother
  | comment =>
    rw [hkind] at hclass h
    cases hclass
    refine hopen fun c hc => ?_
    have hinitial : Lexeme.newline.initial c := hu.initial_head (by rw [h]; rfl) hc
    rcases Bool.or_eq_true_iff.mp hinitial with hd | hd <;> rw [of_decide_eq_true hd] <;> rfl
  | name =>
    rw [hkind] at hclass h
    cases hclass
    refine hopen fun c hc => ?_
    rcases h with h | h | h
    · exact (h.alphabet_eq_false hu hc).1
    · exact h.alphabet_eq_false (rfl : ".".toList = ['.']) rfl hc
    · exact h.alphabet_eq_false (rfl : ":".toList = [':']) rfl hc
  | literal =>
    rw [hkind] at hclass h
    cases hclass
    exact hopen fun c hc => (h.alphabet_eq_false hu hc).2.1
  | number value =>
    rw [hkind] at hclass h
    cases hclass
    exact hopen fun c hc => (h.alphabet_eq_false hu hc).2.2

/-- A token is found in front of one that it may precede. -/
theorem Token.Precedes.begins (h : t.Precedes u) (hu : u.Spelled)
    (hmem : t.text.toList ∈ lexeme.language) (hclass : t.kind.lexeme? = some lexeme)
    (hcr : lexeme = .newline → t.text.toList ≠ ['\r']) (rest : List Char) :
    Begins (t.text.toList ++ (u.text.toList ++ rest)) lexeme t.text.toList := by
  refine Lexeme.begins_of_isLongest (h.isLongest hu hmem hclass hcr rest) fun hpunct htext => ?_
  subst hpunct
  unfold Precedes at h
  rw [(Token.Kind.eq_of_lexeme?_eq hclass).2.2 rfl] at h
  exact h (String.toList_inj.mp htext)

/-- Texts of tokens that may follow each other are cut into these tokens, if the last one ends its
line. -/
theorem lexes_of_isChain {ts : List Token} (h : ts.IsChain Token.Precedes)
    (hlast : ∀ t ∈ ts.getLast?, t.kind = .newline) (hspelled : ∀ t ∈ ts, t.Spelled)
    (hcr : ∀ t ∈ ts, t.kind = .newline → t.text ≠ "\r") :
    Lexes (ts.flatMap (·.text.toList)) (ts.map fun t => (t.kind, t.text)) := by
  induction ts with
  | nil => exact .done
  | cons t ts ih =>
    obtain ⟨ht, hspelled⟩ := List.forall_mem_cons.mp hspelled
    obtain ⟨htcr, hcr⟩ := List.forall_mem_cons.mp hcr
    obtain ⟨lexeme, hmem, hbecomes⟩ := id ht
    have hclass := hbecomes.lexeme?_eq
    have hcr' (hl : lexeme = .newline) : t.text.toList ≠ ['\r'] := fun htext =>
      htcr ((Token.Kind.eq_of_lexeme?_eq hclass).1 hl) (String.toList_inj.mp htext)
    have hbegins : Begins (t.text.toList ++ ts.flatMap (·.text.toList)) lexeme t.text.toList ∧
        Lexes (ts.flatMap (·.text.toList)) (ts.map fun t => (t.kind, t.text)) := by
      cases ts with
      | nil =>
        have hn : t.kind = .newline := hlast t rfl
        rw [hn] at hclass
        cases hclass
        exact ⟨Lexeme.begins_of_isLongest (Lexeme.isLongest_newline hmem (hcr' rfl))
          Lexeme.noConfusion, .done⟩
      | cons u ts =>
        obtain ⟨hprecedes, hchain⟩ := List.isChain_cons_cons.mp h
        exact ⟨hprecedes.begins (hspelled u List.mem_cons_self) hmem hclass hcr' _,
          ih hchain hlast hspelled hcr⟩
    have hlexes := Lexes.token hbegins.1 hbecomes hbegins.2
    rwa [String.ofList_toList] at hlexes

end Lexing

namespace Grammar
open Reading (Repeated AtLeastOne Possible)
open Token (Precedes IsBreak)
variable {t u : Token} {xs ys : List Token}

/-- Each token may precede the next one, and the last one ends a line. -/
structure Tied (xs : List Token) : Prop where
  chain : xs.IsChain Precedes
  last : ∀ t ∈ xs.getLast?, t.kind = .newline

private theorem tied_nil : Tied [] := ⟨.nil, by simp⟩

theorem Tied.cons (h : Tied (u :: xs)) (ht : t.Precedes u) : Tied (t :: u :: xs) where
  chain := List.isChain_cons_cons.mpr ⟨ht, h.chain⟩
  last := h.last

/-- Behind the end of a line anything may begin. -/
theorem Tied.append (hx : Tied xs) (hy : Tied ys) : Tied (xs ++ ys) where
  chain := by
    refine List.isChain_append.mpr ⟨hx.chain, hy.chain, fun t ht u _ => ?_⟩
    rw [Precedes, hx.last t ht]
    trivial
  last t ht := by
    rw [List.getLast?_append, Option.mem_def, Option.or_eq_some_iff] at ht
    rcases ht with ht | ⟨-, ht⟩
    · exact hy.last t ht
    · exact hx.last t ht

theorem Tied.repeated {α : Type} {R : Reading α} {nodes : List α}
    (htied : ∀ xs node, R xs node → Tied xs) (h : Repeated R xs nodes) : Tied xs := by
  induction h with
  | nil => exact tied_nil
  | cons hx _ ih => exact (htied _ _ hx).append ih

theorem Tied.atLeastOne {α : Type} {R : Reading α} {nodes : List α}
    (htied : ∀ xs node, R xs node → Tied xs) (h : AtLeastOne R xs nodes) : Tied xs := by
  obtain ⟨hx, hxs⟩ := h
  exact (htied _ _ hx).append (Tied.repeated htied hxs)

theorem Tied.possible {α : Type} {R : Reading α} {node : Option α}
    (htied : ∀ xs node, R xs node → Tied xs) (h : Possible R xs node) : Tied xs := by
  cases h with
  | absent => exact tied_nil
  | present hx => exact htied _ _ hx

/-- Tokens of which the first one may come behind a name or an operand. -/
def Opens (xs : List Token) : Prop := ∃ u rest, xs = u :: rest ∧ u.IsBreak

private theorem Opens.append (h : Opens xs) : Opens (xs ++ ys) := by
  obtain ⟨u, rest, rfl, hu⟩ := h
  exact ⟨u, rest ++ ys, rfl, hu⟩

/-- A token that may precede any break. -/
theorem Tied.cons_opens (h : Tied xs) (hopens : Opens xs) (ht : ∀ u : Token, u.IsBreak → t.Precedes u) :
    Tied (t :: xs) := by
  obtain ⟨u, rest, rfl, hu⟩ := hopens
  exact h.cons (ht u hu)

private theorem precedes_of_name (ht : t.kind = .name) (hu : u.IsBreak) : t.Precedes u := by
  rw [Precedes, ht]
  exact .inl hu

private theorem precedes_of_name_punct {text : String} (ht : t.kind = .name) (hu : u.IsPunct text)
    (htext : text = "." ∨ text = ":") : t.Precedes u := by
  rw [Precedes, ht]
  rcases htext with rfl | rfl
  · exact .inr (.inl hu)
  · exact .inr (.inr hu)

theorem precedes_of_space (ht : t.kind = .space) (hu : u.kind ≠ .space) : t.Precedes u := by
  rw [Precedes, ht]
  exact hu

theorem precedes_of_punct {text : String} (ht : t.IsPunct text) (htext : text ≠ "#") :
    t.Precedes u := by
  rw [Precedes, ht.1, ht.2]
  exact htext

private theorem IsLineEnd.tied {v : Unit} (h : IsLineEnd xs v) : Tied xs := by
  have hnewline {newline : Token} (hn : newline.kind = .newline) : Tied [newline] :=
    ⟨List.isChain_singleton newline, by simpa using hn⟩
  have hcomment {comment newline : Token} (hc : comment.kind = .comment)
      (hn : newline.kind = .newline) : comment.Precedes newline := by
    rw [Precedes, hc]
    exact hn
  cases h with
  | plain hn => exact hnewline hn
  | comment hc hn => exact (hnewline hn).cons (hcomment hc hn)
  | spaced hs hc hn =>
    exact ((hnewline hn).cons (hcomment hc hn)).cons (precedes_of_space hs (by simp [hc]))

private theorem IsLineEnd.opens {v : Unit} (h : IsLineEnd xs v) : Opens xs := by
  cases h with
  | plain hn => exact ⟨_, _, rfl, .inl hn⟩
  | comment hc _ => exact ⟨_, _, rfl, .inr (.inr hc)⟩
  | spaced hs _ _ => exact ⟨_, _, rfl, .inr (.inl hs)⟩

theorem AreLineEnds.tied (h : AreLineEnds xs) : Tied xs := by
  obtain ⟨ends, h⟩ := h
  exact Tied.atLeastOne (fun _ _ hx => hx.tied) h

theorem AreLineEnds.opens (h : AreLineEnds xs) : Opens xs := by
  obtain ⟨ends, hx, -⟩ := h
  exact hx.opens.append

private theorem IsImportation.tied {i : Importation} (h : IsImportation xs i) : Tied xs := by
  cases h with
  | intro hspace hname hcolon hspace' hstring hends =>
    have hback := hends.tied.cons_opens hends.opens
      fun u _ => show Precedes _ u by rw [Precedes, hstring]; trivial
    exact (((hback.cons (precedes_of_space hspace' (by simp [hstring]))).cons
      (precedes_of_punct hcolon (by decide))).cons
        (precedes_of_name_punct hname hcolon (.inr rfl))).cons
          (precedes_of_space hspace (by simp [hname]))

private theorem IsLabel.tied {name : Token} (h : IsLabel xs name) : Tied xs := by
  cases h with
  | intro hname hcolon hends =>
    exact (hends.tied.cons_opens hends.opens fun u _ => precedes_of_punct hcolon (by decide)).cons
      (precedes_of_name_punct hname hcolon (.inr rfl))

private theorem tied_named {space name : Token} (hspace : space.kind = .space)
    (hname : name.kind = .name) (h : Tied xs) (hopens : Opens xs) :
    Tied (space :: name :: xs) :=
  (h.cons_opens hopens fun _ => precedes_of_name hname).cons
    (precedes_of_space hspace (by simp [hname]))

private theorem IsExportation.tied {name : Token} (h : IsExportation xs name) : Tied xs := by
  cases h with
  | intro hspace hname hends => exact tied_named hspace hname hends.tied hends.opens

private theorem IsValue.tied_append {v : Value} (h : IsValue xs v) (hy : Tied ys)
    (hopens : Opens ys) : Tied (xs ++ ys) := by
  cases h with
  | literal ht =>
    exact hy.cons_opens hopens fun u hu => by rw [Precedes, ht]; exact hu
  | number ht =>
    exact hy.cons_opens hopens fun u hu => by rw [Precedes, ht]; exact hu
  | reference hx =>
    cases hx with
    | bare hname => exact hy.cons_opens hopens fun _ => precedes_of_name hname
    | qualified hmodule hdot hname =>
      exact ((hy.cons_opens hopens fun _ => precedes_of_name hname).cons
        (precedes_of_punct hdot (by decide))).cons
          (precedes_of_name_punct hmodule hdot (.inl rfl))

private theorem IsOperand.tied_append {v : Value} (h : IsOperand xs v) (hy : Tied ys)
    (hopens : Opens ys) : Tied (xs ++ ys) ∧ Opens (xs ++ ys) := by
  cases h with
  | @intro space xs v hspace hv =>
    refine ⟨?_, space, xs ++ ys, rfl, .inr (.inl hspace)⟩
    have hvalue := hv.tied_append hy hopens
    obtain ⟨u, zs, heq, hu⟩ : ∃ u zs, xs ++ ys = u :: zs ∧ u.kind ≠ .space := by
      cases hv with
      | literal ht | number ht => exact ⟨_, _, rfl, by simp [ht]⟩
      | reference hx =>
        cases hx with
        | bare hn => exact ⟨_, _, rfl, by simp [hn]⟩
        | qualified hn _ _ => exact ⟨_, _, rfl, by simp [hn]⟩
    change Tied (space :: (xs ++ ys))
    rw [heq] at hvalue ⊢
    exact hvalue.cons (precedes_of_space hspace hu)

private theorem tied_operands {operands : List Value} (h : Repeated IsOperand xs operands)
    (hy : Tied ys) (hopens : Opens ys) : Tied (xs ++ ys) ∧ Opens (xs ++ ys) := by
  induction h with
  | nil => exact ⟨hy, hopens⟩
  | cons hx _ ih =>
    rw [List.append_assoc]
    exact hx.tied_append ih.1 ih.2

private theorem IsStatement.tied {s : Statement} (h : IsStatement xs s) : Tied xs := by
  cases h with
  | intro hspace hname hoperands hends =>
    obtain ⟨hback, hopens⟩ := tied_operands hoperands hends.tied hends.opens
    exact tied_named hspace hname hback hopens

private theorem IsDefinition.tied {d : Definition} (h : IsDefinition xs d) : Tied xs := by
  cases h with
  | intro hlabels hstatements =>
    exact (Tied.atLeastOne (fun _ _ hx => hx.tied) hlabels).append
      (Tied.atLeastOne (fun _ _ hx => hx.tied) hstatements)

private theorem tied_directive {text : String} {dot word : Token} (hdot : dot.IsPunct ".")
    (hword : word.IsKeyword text) (hends : AreLineEnds xs) (hy : Tied ys) :
    Tied (dot :: word :: (xs ++ ys)) :=
  ((hends.tied.append hy).cons_opens hends.opens.append fun _ => precedes_of_name hword.1).cons
    (precedes_of_punct hdot (by decide))

private theorem IsImports.tied {is : List Importation} (h : IsImports xs is) : Tied xs := by
  cases h with
  | intro hdot hword hends himports =>
    exact tied_directive hdot hword hends (Tied.repeated (fun _ _ hx => hx.tied) himports)

private theorem IsExports.tied {names : List Token} (h : IsExports xs names) : Tied xs := by
  cases h with
  | intro hdot hword hends hnames =>
    exact tied_directive hdot hword hends (Tied.repeated (fun _ _ hx => hx.tied) hnames)

/-- No two neighbours in a module could be read as anything but themselves. -/
theorem IsModule.tied {m : Module} (h : IsModule xs m) : Tied xs := by
  cases h with
  | intro hends himports hdefinitions hexports =>
    exact (Tied.repeated (fun _ _ hx => hx.tied) hends).append
      ((Tied.possible (fun _ _ hx => hx.tied) himports).append
        ((Tied.repeated (fun _ _ hx => hx.tied) hdefinitions).append
          (Tied.possible (fun _ _ hx => hx.tied) hexports)))

end Grammar

namespace Module
open Grammar (IsModule padded_map)

/-- Forgetting where tokens stand. -/
def unplaced : Relocation := ⟨fun _ => 0, fun _ => 0, fun _ => 0⟩

private theorem relocate_unplaced_eq {ts ts' : List Token}
    (h : ts'.map (fun t => (t.kind, t.text)) = ts.map fun t => (t.kind, t.text)) :
    ts'.map (Token.relocate unplaced) = ts.map (Token.relocate unplaced) := by
  have hunplaced (ts : List Token) : ts.map (Token.relocate unplaced) =
      (ts.map fun t => (t.kind, t.text)).map fun (kind, text) => ⟨kind, text, 0, 0, 0⟩ := by
    rw [List.map_map]
    rfl
  rw [hunplaced, hunplaced, h]

/-- The texts of the tokens of a module are cut into the same tokens again, so that reading them
gives the module, in whatever places its tokens stand then. Texts are those that tokens of their
kinds can have, and lines do not end with a lone carriage return. -/
theorem ofSource_join_texts {ts : List Token} {m : Module} (h : IsModule ts m)
    (hspelled : ∀ t ∈ ts, t.Spelled)
    (hnewline : ∀ t ∈ ts, t.kind = .newline → t.text = "\n" ∨ t.text = "\r\n") :
    (Token.ofSource (String.join (ts.map Token.text))).map (fun t => (t.kind, t.text)) =
      ts.map (fun t => (t.kind, t.text)) ∧
    (∀ t ∈ Token.ofSource (String.join (ts.map Token.text)), t.kind ≠ .error) ∧
    ∃ m', parse (Token.ofSource (String.join (ts.map Token.text))) = .ok m' ∧
      m'.relocate unplaced = m.relocate unplaced := by
  have hlexes := lexes_of_isChain h.tied.chain h.tied.last hspelled fun t ht hk => by
    rcases hnewline t ht hk with htext | htext <;> rw [htext] <;> decide
  have hsource : (String.join (ts.map Token.text)).toList = ts.flatMap (·.text.toList) := by
    rw [String.toList_join, List.flatMap_map]
  have hpairs := (Lexeme.lexes_iff (Scanner.ofString (String.join (ts.map Token.text)))).mp
    (show Lexeme.Lexes _ _ by rw [Scanner.ofString, hsource]; exact hlexes)
  change (Token.ofSource _).map _ = _ at hpairs
  generalize Token.ofSource (String.join (ts.map Token.text)) = ts' at hpairs ⊢
  refine ⟨hpairs, fun t ht hkind => ?_, ?_⟩
  · have hmem : (t.kind, t.text) ∈ ts.map fun t => (t.kind, t.text) :=
      hpairs ▸ List.mem_map_of_mem ht
    obtain ⟨u, hu, heq⟩ := List.mem_map.mp hmem
    obtain ⟨lexeme, -, hbecomes⟩ := hspelled u hu
    have hclass := hbecomes.lexeme?_eq
    rw [(Prod.mk.inj heq).1, hkind] at hclass
    cases hclass
  · have hmoved := parse_paddedLine (.padded (padded_map unplaced ts))
    have hmoved' := parse_paddedLine (.padded (padded_map unplaced ts'))
    rw [relocate_unplaced_eq hpairs, hmoved, parse_eq_ok_iff.mpr h] at hmoved'
    generalize parse ts' = result at hmoved' ⊢
    cases result with
    | error failure => cases hmoved'
    | ok m' => exact ⟨m', rfl, (Except.ok.inj hmoved').symm⟩

private def piece (kind : Token.Kind) (text : String) : Token := ⟨kind, text, 7, 7, 7⟩

private def written : List Token :=
  [piece .name "a-b?", piece .punct ":", piece .newline "\r\n", piece .space "  ",
    piece .name "ref", piece .space " ", piece (.number (-12)) "-12", piece .space " ",
    piece .comment ";?", piece .newline "\n"]

private def minusTwelve : Module :=
  ⟨[], [⟨piece .name "a-b?", [],
    ⟨piece .name "ref", [.number (-12) (piece (.number (-12)) "-12")]⟩, []⟩], []⟩

private theorem spelled_written : ∀ t ∈ written, t.Spelled := by
  have word {t : Token} {lexeme : Lexeme} (hkind : Lexeme.Becomes lexeme t.text.toList t.kind)
      (hlongest : lexeme.longest? t.text.toList = some t.text.toList) : t.Spelled :=
    ⟨lexeme, (Lexeme.longest?_eq_some_iff.mp hlongest).mem, hkind⟩
  have hnumber : Lexeme.Becomes .number (toString (-12 : Int)).toList (.number (-12)) :=
    .number (by decide) (by decide)
  simp only [written, List.forall_mem_cons]
  refine ⟨word (.name _) (by decide), word (.punct _) (by decide), word (.newline _) (by decide),
    word (.space _) (by decide), word (.name _) (by decide), word (.space _) (by decide),
    word hnumber (by decide), word (.space _) (by decide), word (.comment _) (by decide),
    word (.newline _) (by decide), by simp⟩

/-- A label with a question mark at its end, and a negative number in front of a comment. -/
theorem ofSource_join_texts_written : IsModule written minusTwelve ∧
    (Token.ofSource "a-b?:\r\n  ref -12 ;?\n").map (fun t => (t.kind, t.text)) =
      written.map (fun t => (t.kind, t.text)) ∧
    ∃ m', parse (Token.ofSource "a-b?:\r\n  ref -12 ;?\n") = .ok m' ∧
      m'.relocate unplaced = minusTwelve.relocate unplaced := by
  have h : IsModule written minusTwelve :=
    parse_eq_ok_iff.mp (by with_unfolding_all rfl)
  have hsource : String.join (written.map Token.text) = "a-b?:\r\n  ref -12 ;?\n" := by decide
  obtain ⟨hpairs, -, hparse⟩ := ofSource_join_texts h spelled_written (by decide)
  rw [hsource] at hpairs hparse
  exact ⟨h, hpairs, hparse⟩

end Module

end ActorAsm
