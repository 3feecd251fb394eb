import ActorAsm.Proofs.Module.Parsing

/-! Where the parser stops on tokens that are no module. Whatever follows, each matcher of the
grammar moves at least over what its rule derives. So the match of a module ends behind the longest
prefix that is one, and the token that is left there is reported. -/

namespace ActorAsm

namespace Matcher
open Reading (Repeated AtLeastOne Possible)
variable {α β : Type} {m : Matcher α} {xs ys : List Token}

/-- The matcher succeeds and moves at least over these tokens, whatever follows them. -/
def Reaches (m : Matcher α) (xs : List Token) : Prop :=
  ∀ rest, ∃ left node, m.eager (xs ++ rest) = .ok (left, node) ∧ left.length ≤ rest.length

private theorem reaches_nil_of_total (h : ∀ xs, ∃ found, m.eager xs = .ok found) :
    m.Reaches [] := by
  intro rest
  obtain ⟨⟨left, node⟩, hm⟩ := h rest
  exact ⟨left, node, hm, length_le_of_eager hm⟩

theorem Takes.reaches (h : ∀ rest, ∃ node, m.Takes xs node rest) : m.Reaches xs := by
  intro rest
  obtain ⟨node, hm⟩ := h rest
  exact ⟨rest, node, hm, Nat.le_refl _⟩

theorem Reaches.map (f : α → β) (h : m.Reaches xs) : (map f m).Reaches xs := by
  intro rest
  obtain ⟨left, node, hm, hle⟩ := h rest
  exact ⟨left, f node, eager_map_eq_ok_iff.mpr ⟨node, hm, rfl⟩, hle⟩

private theorem reaches_optional_nil (m : Matcher α) : m.optional.Reaches [] := by
  refine reaches_nil_of_total fun xs => ?_
  cases hm : (map some m).eager xs with
  | ok found => exact ⟨found, eager_orElse_eq_ok_iff.mpr (.inl hm)⟩
  | error failure =>
    have hfails : (map some m).Fails xs := fun found => by simp [hm]
    exact ⟨_, Takes.orElse_right (takes_nothing.map fun _ => none).orElse_left hfails⟩

theorem Reaches.optional (h : m.Reaches xs) : m.optional.Reaches xs := by
  intro rest
  obtain ⟨left, node, hm, hle⟩ := h.map some rest
  exact ⟨left, node, eager_orElse_eq_ok_iff.mpr (.inl hm), hle⟩

/-- A part that ends exactly where the next one begins. -/
theorem Reaches.andThen_of_takes {second : Matcher β}
    (h : ∀ rest, ∃ node, m.Takes xs node (ys ++ rest)) (hs : second.Reaches ys) :
    (andThen m second).Reaches (xs ++ ys) := by
  intro rest
  obtain ⟨left, hm⟩ := h rest
  obtain ⟨behind, right, hs, hle⟩ := hs rest
  refine ⟨behind, (left, right), ?_, hle⟩
  rw [List.append_assoc]
  exact eager_andThen_eq_ok_iff.mpr ⟨_, hm, hs⟩

/-- A part behind which the next one derives nothing may end anywhere further on. -/
theorem Reaches.andThen_nil {second : Matcher β} (h : m.Reaches xs) (hs : second.Reaches []) :
    (andThen m second).Reaches xs := by
  intro rest
  obtain ⟨middle, left, hm, hle⟩ := h rest
  obtain ⟨behind, right, hs, hle'⟩ := hs middle
  exact ⟨behind, (left, right), eager_andThen_eq_ok_iff.mpr ⟨_, hm, hs⟩, Nat.le_trans hle' hle⟩

/-- Only the last part that derives anything may end further on. -/
theorem Reaches.andThen {second : Matcher β} (h : m.Reaches xs) (hs : second.Reaches ys)
    (htakes : ys ≠ [] → ∀ rest, ∃ node, m.Takes xs node (ys ++ rest)) :
    (andThen m second).Reaches (xs ++ ys) := by
  by_cases hnil : ys = []
  · subst hnil
    rw [List.append_nil]
    exact h.andThen_nil hs
  · exact andThen_of_takes (htakes hnil) hs

private theorem reaches_zeroOrMore_nil (m : Matcher α) : m.zeroOrMore.Reaches [] :=
  reaches_nil_of_total fun xs => ⟨_, by rw [eager]⟩

private theorem eager_zeroOrMore_cons {middle rest : List Token} {node : α} {nodes : List α}
    (h : m.eager xs = .ok (middle, node)) (hlt : middle.length < xs.length)
    (hbehind : m.zeroOrMore.eager middle = .ok (rest, nodes)) :
    m.zeroOrMore.eager xs = .ok (rest, node :: nodes) := by
  rw [eager, Except.ok.injEq] at hbehind ⊢
  rw [stepsOn, h]
  simp only [hlt, if_true, hbehind]

namespace Parts
variable {R : Reading α} {F : List Token → Prop} {nodes : List α}

/-- Of the parts of a repetition, too, only the last one may end further on. -/
theorem reaches_zeroOrMore (hp : Parts m R F) (hreaches : ∀ ys node, R ys node → m.Reaches ys)
    (h : Repeated R xs nodes) : m.zeroOrMore.Reaches xs := by
  induction h with
  | nil => exact reaches_zeroOrMore_nil m
  | @cons ys zs node nodes hy hz ih =>
    intro rest
    have hpos := List.length_pos_iff.mpr (hp.ne_nil ys node hy)
    have hstep : ∃ middle node', m.eager (ys ++ (zs ++ rest)) = .ok (middle, node') ∧
        middle.length ≤ (zs ++ rest).length ∧
        ∃ left nodes', m.zeroOrMore.eager middle = .ok (left, nodes') ∧
          left.length ≤ rest.length := by
      by_cases hnil : zs = []
      · subst hnil
        obtain ⟨middle, node', hm, hle⟩ := hreaches ys node hy rest
        obtain ⟨left, nodes', hleft, hle'⟩ := reaches_zeroOrMore_nil m middle
        exact ⟨middle, node', hm, hle, left, nodes', hleft, Nat.le_trans hle' hle⟩
      · have hfollow : F (zs ++ rest) := hz.append_of_ne_nil hp.follow hnil
        exact ⟨_, node, hp.takes ys node _ hy hfollow, Nat.le_refl _, ih rest⟩
    obtain ⟨middle, node', hm, hle, left, nodes', hleft, hle'⟩ := hstep
    refine ⟨left, node' :: nodes', ?_, hle'⟩
    rw [List.append_assoc]
    exact eager_zeroOrMore_cons hm (by rw [List.length_append]; omega) hleft

private theorem reaches_andThen_zeroOrMore (hp : Parts m R F)
    (hreaches : ∀ ys node, R ys node → m.Reaches ys) (h : AtLeastOne R xs nodes) :
    (andThen m m.zeroOrMore).Reaches xs := by
  cases h with
  | @cons ys zs node nodes hy hz =>
    refine (hreaches ys node hy).andThen (hp.reaches_zeroOrMore hreaches hz) fun hne rest => ?_
    exact ⟨node, hp.takes ys node _ hy (hz.append_of_ne_nil hp.follow hne)⟩

end Parts

end Matcher

namespace Grammar
open Matcher (andDrop andKeep Takes Reaches)
open Reading (Repeated AtLeastOne Possible)
variable {xs : List Token}

private theorem IsLineEnd.reaches {u : Unit} (h : IsLineEnd xs u) : lineEnd.Reaches xs :=
  Takes.reaches fun _ => ⟨u, h.takes⟩

theorem AreLineEnds.reaches (h : AreLineEnds xs) : lineEnds.Reaches xs := by
  obtain ⟨ends, h⟩ := h
  exact ((parts_lineEnd.reaches_andThen_zeroOrMore (fun _ _ hx => hx.reaches) h).map _).map _

private theorem IsImportation.reaches {i : Importation} (h : IsImportation xs i) :
    importation.Reaches xs := by
  cases h with
  | intro hspace hname hcolon hspace' hstring hends =>
    have hback := (Reaches.andThen_of_takes
      (fun _ => ⟨_, (kind_takes hspace').andKeep (specifier_takes hstring)⟩) hends.reaches).map
        Prod.fst
    exact (Reaches.andThen_of_takes (fun _ => ⟨_, ((kind_takes hspace).andKeep
      (kind_takes hname)).andDrop (punct_takes hcolon)⟩) hback).map _

private theorem IsExportation.reaches {t : Token} (h : IsExportation xs t) :
    (andDrop (andKeep space name) lineEnds).Reaches xs := by
  cases h with
  | intro hspace hname hends =>
    exact (Reaches.andThen_of_takes
      (fun _ => ⟨_, (kind_takes hspace).andKeep (kind_takes hname)⟩) hends.reaches).map _

private theorem IsStatement.reaches {s : Statement} (h : IsStatement xs s) :
    statement.Reaches xs := by
  cases h with
  | intro hspace hname hoperands hends =>
    have hback := (Reaches.andThen_of_takes
      (fun _ => ⟨_, operands_take hoperands hends.atLineEnd⟩) hends.reaches).map Prod.fst
    exact (Reaches.andThen_of_takes
      (fun _ => ⟨_, (kind_takes hspace).andKeep (kind_takes hname)⟩) hback).map _

/-- Lines under a directive. -/
theorem Indented.reaches_directive {α : Type} {m : Matcher α} {R : Reading α} {nodes : List α}
    (h : Indented m R) (hreaches : ∀ ys node, R ys node → m.Reaches ys)
    {text : String} {dot word : Token} {ends : List Token} (hdot : dot.IsPunct ".")
    (hword : word.IsKeyword text) (hends : AreLineEnds ends) (hr : Repeated R xs nodes) :
    (andKeep (.andThen (directive text) lineEnds) (.zeroOrMore m)).Reaches
      (dot :: word :: (ends ++ xs)) := by
  have hfront : (Matcher.andThen (directive text) lineEnds).Reaches ([dot, word] ++ ends) :=
    Reaches.andThen_of_takes (fun _ => ⟨word, directive_takes hdot hword⟩) hends.reaches
  have hback := h.parts.reaches_zeroOrMore hreaches hr
  refine (hfront.andThen hback fun hne rest => ?_).map Prod.snd
  have hbehind : ¬ AtLineEnd (xs ++ rest) :=
    hr.append_of_ne_nil (F := fun xs => ¬ AtLineEnd xs) h.parts.follow hne
  exact ⟨_, (directive_takes hdot hword).andThen (hends.takes hbehind)⟩

private theorem IsImports.reaches {is : List Importation} (h : IsImports xs is) :
    imports.Reaches xs := by
  cases h with
  | intro hdot hword hends himports =>
    exact indented_importation.reaches_directive (fun _ _ hx => hx.reaches) hdot hword hends
      himports

private theorem IsExports.reaches {names : List Token} (h : IsExports xs names) :
    exports.Reaches xs := by
  cases h with
  | intro hdot hword hends hnames =>
    exact indented_exportation.reaches_directive (fun _ _ hx => hx.reaches) hdot hword hends hnames

private theorem IsDefinition.reaches {d : Definition} (h : IsDefinition xs d) :
    definition.Reaches xs := by
  cases h with
  | @intro xs ys label aliases statement following hlabels hstatements =>
    have hback := indented_statement.parts.reaches_andThen_zeroOrMore
      (fun _ _ hx => hx.reaches) hstatements
    have hline (rest : List Token) : AtLine (ys ++ rest) :=
      hstatements.append_of (fun _ _ _ hx => hx.atLine) rest
    exact (Reaches.andThen_of_takes (fun rest => ⟨_, labels_take hlabels (hline rest)⟩) hback).map _

private theorem possible_reaches {α : Type} {m : Matcher α} {R : Reading α} {node : Option α}
    (h : Possible R xs node) (hreaches : ∀ ys node, R ys node → m.Reaches ys) :
    m.optional.Reaches xs := by
  cases h with
  | absent => exact Matcher.reaches_optional_nil m
  | present hx => exact (hreaches _ _ hx).optional

section Parts
variable {ys zs rest : List Token} {imports? : Option (List Importation)}
  {definitions : List Definition} {exports? : Option (List Token)}

private theorem atTop_definitions (hdefinitions : Repeated IsDefinition ys definitions)
    (hexports : Possible IsExports zs exports?) (hne : ys ++ zs ≠ []) :
    AtTop (ys ++ zs ++ rest) := by
  rw [List.append_assoc]
  by_cases hnil : ys = []
  · cases hexports with
    | absent => exact absurd (by rw [hnil, List.append_nil]) hne
    | present hx => exact hdefinitions.append_of parts_definition.follow hx.atTop
  · exact hdefinitions.append_of_ne_nil parts_definition.follow hnil

private theorem atTop_imports (himports : Possible IsImports xs imports?)
    (hdefinitions : Repeated IsDefinition ys definitions)
    (hexports : Possible IsExports zs exports?) (hne : xs ++ (ys ++ zs) ≠ []) :
    AtTop (xs ++ (ys ++ zs) ++ rest) := by
  rw [List.append_assoc]
  cases himports with
  | absent => exact atTop_definitions hdefinitions hexports hne
  | present hx => exact hx.atTop

end Parts

/-- A module is never left before its end, whatever follows. -/
theorem IsModule.reaches {m : Module} (h : IsModule xs m) : module.Reaches xs := by
  cases h with
  | @intro ws xs ys zs ends imports? definitions exports? hends himports hdefinitions hexports =>
    have hback : (Matcher.andThen definition.zeroOrMore (Matcher.optional exports)).Reaches
        (ys ++ zs) := by
      have hall := parts_definition.reaches_zeroOrMore (fun _ _ hx => hx.reaches) hdefinitions
      refine hall.andThen (possible_reaches hexports fun _ _ hx => hx.reaches) fun hne rest => ?_
      cases hexports with
      | absent => exact absurd rfl hne
      | present hx =>
        have hname : kindAt (zs ++ rest) 0 ≠ some .name := by
          rw [hx.kindAt_zero]
          simp
        exact ⟨_, definitions_take hdefinitions hx.atTop hname⟩
    have hmiddle := (possible_reaches himports fun _ _ hx => hx.reaches).andThen hback
      fun hne rest => by
        have htop : AtTop (ys ++ zs ++ rest) := atTop_definitions hdefinitions hexports hne
        have hfails : imports.Fails (ys ++ zs ++ rest) := by
          rw [List.append_assoc]
          exact imports_fails hdefinitions hexports fun hnil => absurd hnil hne
        exact ⟨_, possible_takes himports (fun _ _ hx => hx.takes htop) hfails⟩
    have hfront := parts_lineEnd.reaches_zeroOrMore (fun _ _ hx => hx.reaches) hends
    exact ((hfront.andThen hmiddle fun hne _ =>
      ⟨_, blankLines_take hends (atTop_imports himports hdefinitions hexports hne)⟩).map _).map _

end Grammar

namespace Module
variable {ts : List Token}

/-- The empty module can always be read. -/
theorem exists_eager_module (ts : List Token) :
    ∃ rest m, Grammar.module.eager ts = .ok (rest, m) := by
  have hempty : Grammar.IsModule [] ⟨[], [], []⟩ := .intro .nil .absent .nil .absent
  obtain ⟨rest, m, heager, -⟩ := hempty.reaches ts
  exact ⟨rest, m, heager⟩

/-- Tokens that are no module are refused at the end of the longest prefix that is one. -/
theorem parse_error_longest_prefix (h : ∀ m, ¬ Grammar.IsModule ts m) :
    ∃ p, ∃ hp : p < ts.length, (∃ m, Grammar.IsModule (ts.take p) m) ∧
      (∀ q ≤ ts.length, (∃ m, Grammar.IsModule (ts.take q) m) → q ≤ p) ∧
      parse ts = .error (.onToken .trailingToken ts[p]) := by
  obtain ⟨left, m, heager⟩ := exists_eager_module ts
  obtain ⟨xs, rfl, hderives⟩ := Matcher.derives_of_eager heager
  have hxs := Grammar.isModule_of_derives hderives
  cases left with
  | nil =>
    rw [List.append_nil] at h
    exact absurd hxs (h m)
  | cons t rest =>
    refine ⟨xs.length, by simp, ⟨m, by rwa [List.take_left]⟩, ?_, ?_⟩
    · rintro q hq ⟨found, hfound⟩
      obtain ⟨left, node, hreaches, hle⟩ := hfound.reaches ((xs ++ t :: rest).drop q)
      rw [List.take_append_drop, heager] at hreaches
      cases hreaches
      rw [List.length_drop] at hle
      simp only [List.length_append, List.length_cons] at hle hq
      omega
    · rw [parse_eq, heager]
      simp

private def unfinished : List Token :=
  [.ofText .name "main", .ofText .punct ":", .ofText .newline "\n",
    .ofText .space " ", .ofText .name "push", .ofText .space " ", .ofText .literal "#nil",
    .ofText .newline "\n", .ofText .space " ", .ofText .comment ";", .ofText .newline "\n",
    .ofText .space " ", .ofText .name "end", .ofText .space " "]

/-- A definition whose second statement does not end. The module in front of it ends behind the
comment line. -/
theorem parse_error_longest_prefix_unfinished : (∀ m, ¬ Grammar.IsModule unfinished m) ∧
    ∃ p, ∃ hp : p < unfinished.length, (∃ m, Grammar.IsModule (unfinished.take p) m) ∧
      (∀ q ≤ unfinished.length, (∃ m, Grammar.IsModule (unfinished.take q) m) → q ≤ p) ∧
      parse unfinished = .error (.onToken .trailingToken unfinished[p]) := by
  have herror : parse unfinished = .error (.onToken .trailingToken (.ofText .space " ")) := by
    with_unfolding_all rfl
  have h : ∀ m, ¬ Grammar.IsModule unfinished m := by
    intro m hm
    rw [parse_eq_ok_iff.mpr hm] at herror
    cases herror
  exact ⟨h, parse_error_longest_prefix h⟩

end Module

end ActorAsm
