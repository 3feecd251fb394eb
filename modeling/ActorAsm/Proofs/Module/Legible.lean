import ActorAsm.Proofs.Module.Provenance
import ActorAsm.Proofs.Token.OfSource

/-! What can stand in a module that has been read from well-spelled tokens: names out of the pattern
of names, numbers within range, and specifiers without quotes. -/

namespace ActorAsm

/-- White space as Unicode has it, in closed ranges of code points. -/
def Text.isWhiteSpace (c : Char) : Bool :=
  [(0x9, 0xd), (0x20, 0x20), (0x85, 0x85), (0xa0, 0xa0), (0x1680, 0x1680), (0x2000, 0x200a),
    (0x2028, 0x2029), (0x202f, 0x202f), (0x205f, 0x205f), (0x3000, 0x3000)].any
      fun range => range.1 ≤ c.toNat && c.toNat ≤ range.2

/-- White space lies outside of what names are spelled with. -/
theorem Text.not_isWhiteSpace {c : Char} (h : Lexeme.name.alphabet c) : ¬ isWhiteSpace c := by
  have hrange : 0x2d ≤ c.toNat ∧ c.toNat ≤ 0x7a := by
    have hbetween {a b : Char} (h : a ≤ c ∧ c ≤ b) (ha : 0x2d ≤ a.toNat) (hb : b.toNat ≤ 0x7a) :
        0x2d ≤ c.toNat ∧ c.toNat ≤ 0x7a := ⟨ha.trans h.1, Nat.le_trans h.2 hb⟩
    simp only [Lexeme.alphabet, Char.isAlphanum, Bool.or_eq_true, decide_eq_true_eq] at h
    rcases h with (((h | hdigit) | rfl) | rfl) | rfl
    · rcases Bool.or_eq_true_iff.mp h with hupper | hlower
      · exact hbetween (Lexeme.isUpper_iff.mp hupper) (by decide) (by decide)
      · exact hbetween (Lexeme.isLower_iff.mp hlower) (by decide) (by decide)
    · exact hbetween (Lexeme.isDigit_iff.mp hdigit) (by decide) (by decide)
    all_goals decide
  simp only [isWhiteSpace, List.any_cons, List.any_nil, Bool.or_false, Bool.or_eq_true,
    Bool.and_eq_true, decide_eq_true_eq]
  omega

/-- A letter, then letters and digits, each of them behind at most one separator, and at the very
end possibly a question mark. -/
def IsName (text : String) : Prop := text.toList ∈ Lexeme.name.language

/-- Names are all visible, and the dot behind a module name is no part of it. -/
theorem IsName.of_mem {text : String} {c : Char} (h : IsName text) (hc : c ∈ text.toList) :
    c ≠ '.' ∧ ¬ Text.isWhiteSpace c := by
  have halphabet : Lexeme.name.alphabet c := Lexeme.over_alphabet .name _ h c hc
  refine ⟨?_, Text.not_isWhiteSpace halphabet⟩
  rintro rfl
  exact absurd halphabet (by decide)

namespace Reading
variable {α : Type} {R : Reading α} {P : α → Prop}

/-- What is read from well-spelled tokens has the property. -/
def Ensures (P : α → Prop) (R : Reading α) : Prop :=
  ∀ xs node, R xs node → (∀ t ∈ xs, t.Spelled) → P node

theorem Ensures.repeated (h : Ensures P R) : Ensures (∀ node ∈ ·, P node) (Repeated R) := by
  intro xs nodes hr
  induction hr with
  | nil => simp
  | cons hx _ ih =>
    intro hspelled
    obtain ⟨hxs, hys⟩ := List.forall_mem_append.mp hspelled
    exact List.forall_mem_cons.mpr ⟨h _ _ hx hxs, ih hys⟩

theorem Ensures.atLeastOne (h : Ensures P R) : Ensures (∀ node ∈ ·, P node) (AtLeastOne R) := by
  rintro _ _ ⟨hx, hxs⟩
  exact h.repeated _ _ (.cons hx hxs)

theorem Ensures.possible {R : Reading (List α)} (h : Ensures (∀ node ∈ ·, P node) R) :
    Ensures (∀ node ∈ Option.getD · [], P node) (Possible R) := by
  rintro xs _ (_ | hx) hspelled
  · simp
  · exact h xs _ hx hspelled

end Reading

/-- Names of references are words of the pattern, and numbers are within range. -/
def Value.Legible : Value → Prop
  | .literal _ => True
  | .number n _ => n.natAbs ≤ Token.maxNumber
  | .reference (.bare name) => IsName name.text
  | .reference (.qualified moduleName name) => IsName moduleName.text ∧ IsName name.text

/-- Whatever in the module has been spelled is of the pattern or within the range of its kind. -/
structure Module.Legible (m : Module) : Prop where
  imports : ∀ i ∈ m.imports, IsName i.moduleName.text ∧ '"' ∉ i.specifier.toList
  labels : ∀ d ∈ m.definitions, ∀ name ∈ d.labels, IsName name.text
  operands : ∀ d ∈ m.definitions, ∀ s ∈ d.statements, ∀ value ∈ s.operands, value.Legible
  exports : ∀ name ∈ m.exports, IsName name.text

namespace Grammar
open Reading (Ensures)

private theorem importation_ensures :
    Ensures (fun i => IsName i.moduleName.text ∧ '"' ∉ i.specifier.toList) IsImportation := by
  rintro _ _ ⟨-, hname, -, -, hstring, -⟩ hspelled
  exact ⟨(hspelled _ (by simp)).mem_name_language hname,
    (hspelled _ (by simp)).quote_not_mem_stringValue hstring⟩

private theorem imports_ensures :
    Ensures (∀ i ∈ ·, IsName i.moduleName.text ∧ '"' ∉ i.specifier.toList) IsImports := by
  rintro _ imports ⟨-, -, -, himports⟩ hspelled
  exact importation_ensures.repeated _ imports himports fun t ht => hspelled t (by simp [ht])

private theorem label_ensures : Ensures (fun name => IsName name.text) IsLabel := by
  rintro _ _ ⟨hname, -, -⟩ hspelled
  exact (hspelled _ (by simp)).mem_name_language hname

private theorem operand_ensures : Ensures Value.Legible IsOperand := by
  rintro _ value ⟨-, hvalue⟩ hspelled
  obtain ⟨-, hspelled⟩ := List.forall_mem_cons.mp hspelled
  rcases hvalue with ht | ht | (⟨hmodule, -, hname⟩ | hname)
  · trivial
  · exact (hspelled _ (by simp)).natAbs_le ht
  · exact ⟨(hspelled _ (by simp)).mem_name_language hmodule,
      (hspelled _ (by simp)).mem_name_language hname⟩
  · exact (hspelled _ (by simp)).mem_name_language hname

private theorem statement_ensures :
    Ensures (fun s => ∀ value ∈ s.operands, value.Legible) IsStatement := by
  rintro _ _ ⟨-, -, hoperands, -⟩ hspelled
  exact operand_ensures.repeated _ _ hoperands fun t ht => hspelled t (by simp [ht])

private theorem definition_ensures :
    Ensures (fun d => (∀ name ∈ d.labels, IsName name.text) ∧
      ∀ s ∈ d.statements, ∀ value ∈ s.operands, value.Legible) IsDefinition := by
  rintro _ _ ⟨hlabels, hstatements⟩ hspelled
  obtain ⟨hxs, hys⟩ := List.forall_mem_append.mp hspelled
  exact ⟨label_ensures.atLeastOne _ _ hlabels hxs,
    statement_ensures.atLeastOne _ _ hstatements hys⟩

private theorem exports_ensures : Ensures (∀ name ∈ ·, IsName name.text) IsExports := by
  have hexportation : Ensures (fun name => IsName name.text) IsExportation := by
    rintro _ _ ⟨-, hname, -⟩ hspelled
    exact (hspelled _ (by simp)).mem_name_language hname
  rintro _ names ⟨-, -, -, hnames⟩ hspelled
  exact hexportation.repeated _ names hnames fun t ht => hspelled t (by simp [ht])

private theorem module_ensures : Ensures Module.Legible IsModule := by
  rintro _ _ ⟨-, himports, hdefinitions, hexports⟩ hspelled
  simp only [List.forall_mem_append] at hspelled
  obtain ⟨-, hxs, hys, hzs⟩ := hspelled
  have hd := definition_ensures.repeated _ _ hdefinitions hys
  exact ⟨imports_ensures.possible _ _ himports hxs, fun d hmem => (hd d hmem).1,
    fun d hmem => (hd d hmem).2, exports_ensures.possible _ _ hexports hzs⟩

end Grammar

/-- Modules read from a source are legible, because errors are not read. -/
theorem Module.legible_of_parse {source : String} {m : Module}
    (h : parse (Token.ofSource source) = .ok m) : m.Legible := by
  have hread := parse_eq_ok_iff.mp h
  refine Grammar.module_ensures _ m hread fun t ht => ?_
  exact Scanner.spelled_of_mem_tokens ht ((Grammar.module_copies _ m hread).2 t ht)

/-- Its tokens stand in lines that end. -/
theorem Module.line_lt_of_parse {source : String} {m : Module} {t : Token}
    (h : parse (Token.ofSource source) = .ok m) (ht : t ∈ m.tokens) :
    t.line < (Token.ofSource source).countP (·.kind = .newline) :=
  Token.line_lt_countP (parse_eq_ok_iff.mp h).tied.last (tokens_subset_of_parse h ht)

end ActorAsm
