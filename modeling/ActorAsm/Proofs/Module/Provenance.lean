import ActorAsm.Proofs.Module.Flaws
import ActorAsm.Proofs.Module.LongestPrefix

/-! Where the tokens of a module come from. A tree is made of tokens that were read, in the order in
which they were, and an error token is never among these. -/

namespace ActorAsm

namespace Reading
variable {α : Type} {R : Reading α} {tokens : α → List Token}

/-- What is read holds the tokens of the node in their order, and no error. -/
def Copies (tokens : α → List Token) (R : Reading α) : Prop :=
  ∀ xs node, R xs node → (tokens node).Sublist xs ∧ ∀ t ∈ xs, t.kind ≠ .error

theorem Copies.repeated (h : Copies tokens R) :
    Copies (List.flatMap tokens) (Repeated R) := by
  intro xs nodes hr
  induction hr with
  | nil => simp
  | @cons xs ys node nodes hx _ ih =>
    obtain ⟨hnode, hxs⟩ := h xs node hx
    exact ⟨hnode.append ih.1, List.forall_mem_append.2 ⟨hxs, ih.2⟩⟩

theorem Copies.atLeastOne (h : Copies tokens R) :
    Copies (List.flatMap tokens) (AtLeastOne R) := by
  rintro _ _ ⟨hx, hxs⟩
  exact h.repeated _ _ (.cons hx hxs)

theorem Copies.possible {R : Reading (List α)} {tokens : List α → List Token}
    (h : Copies tokens R) (hnil : tokens [] = []) :
    Copies (fun nodes => tokens (nodes.getD [])) (Possible R) := by
  rintro xs _ (_ | hx)
  · simp [hnil]
  · exact h xs _ hx

end Reading

namespace Grammar
open Reading (Copies)
variable {xs : List Token}

private theorem lineEnd_copies : Copies (fun _ => []) IsLineEnd := by
  rintro _ _ (hnewline | ⟨hcomment, hnewline⟩ | ⟨hspace, hcomment, hnewline⟩) <;> simp [*]

theorem AreLineEnds.kind_ne_error (h : AreLineEnds xs) : ∀ t ∈ xs, t.kind ≠ .error := by
  obtain ⟨ends, hends⟩ := h
  exact (lineEnd_copies.atLeastOne xs ends hends).2

private theorem importation_copies : Copies (fun i => [i.moduleName]) IsImportation := by
  rintro _ _ ⟨hspace, hname, hcolon, hspace', hstring, hends⟩
  simpa [hspace, hname, hcolon.1, hspace', hstring] using hends.kind_ne_error

private theorem imports_copies : Copies (List.map (·.moduleName)) IsImports := by
  rintro _ imports ⟨hdot, hword, hends, himports⟩
  obtain ⟨hsub, hkind⟩ := importation_copies.repeated _ imports himports
  rw [← List.map_eq_flatMap] at hsub
  refine ⟨((hsub.trans (List.sublist_append_right _ _)).cons _).cons _, ?_⟩
  simpa [hdot.1, hword.1, or_imp, forall_and] using ⟨hends.kind_ne_error, hkind⟩

private theorem label_copies : Copies (fun name => [name]) IsLabel := by
  rintro _ _ ⟨hname, hcolon, hends⟩
  simpa [hname, hcolon.1] using hends.kind_ne_error

private theorem value_copies : Copies Value.tokens IsValue := by
  rintro _ _ (ht | ht | (⟨hmodule, hdot, hname⟩ | hname))
  · simp [Value.tokens, ht]
  · simp [Value.tokens, ht]
  · simp [Value.tokens, hmodule, hdot.1, hname]
  · simp [Value.tokens, hname]

private theorem operand_copies : Copies Value.tokens IsOperand := by
  rintro _ value ⟨hspace, hvalue⟩
  obtain ⟨hsub, hkind⟩ := value_copies _ value hvalue
  exact ⟨hsub.cons _, by simpa [hspace] using hkind⟩

private theorem statement_copies : Copies Statement.tokens IsStatement := by
  rintro _ ⟨operator, operands⟩ ⟨hspace, hname, hoperands, hends⟩
  obtain ⟨hsub, hkind⟩ := operand_copies.repeated _ operands hoperands
  refine ⟨((hsub.trans (List.sublist_append_left _ _)).cons_cons _).cons _, ?_⟩
  simpa [hspace, hname, or_imp, forall_and] using ⟨hkind, hends.kind_ne_error⟩

private theorem exportation_copies : Copies (fun name => [name]) IsExportation := by
  rintro _ _ ⟨hspace, hname, hends⟩
  simpa [hspace, hname] using hends.kind_ne_error

private theorem definition_copies : Copies Definition.tokens IsDefinition := by
  rintro _ _ ⟨hlabels, hstatements⟩
  obtain ⟨hlabel, hkind⟩ := label_copies.atLeastOne _ _ hlabels
  obtain ⟨hstatement, hkind'⟩ := statement_copies.atLeastOne _ _ hstatements
  rw [List.flatMap_singleton'] at hlabel
  exact ⟨hlabel.append hstatement, List.forall_mem_append.2 ⟨hkind, hkind'⟩⟩

private theorem exports_copies : Copies id IsExports := by
  rintro _ names ⟨hdot, hword, hends, hnames⟩
  obtain ⟨hsub, hkind⟩ := exportation_copies.repeated _ names hnames
  rw [List.flatMap_singleton'] at hsub
  refine ⟨((hsub.trans (List.sublist_append_right _ _)).cons _).cons _, ?_⟩
  simpa [hdot.1, hword.1, or_imp, forall_and] using ⟨hends.kind_ne_error, hkind⟩

/-- A module is made of tokens that were read, in their order, and no error was read. -/
theorem module_copies : Copies Module.tokens IsModule := by
  rintro _ _ ⟨hends, himports, hdefinitions, hexports⟩
  obtain ⟨-, hend⟩ := lineEnd_copies.repeated _ _ hends
  obtain ⟨himport, himport'⟩ := imports_copies.possible rfl _ _ himports
  obtain ⟨hdefinition, hdefinition'⟩ := definition_copies.repeated _ _ hdefinitions
  obtain ⟨hexport, hexport'⟩ := exports_copies.possible rfl _ _ hexports
  refine ⟨?_, ?_⟩
  · rw [Module.tokens, List.append_assoc]
    exact (himport.append (hdefinition.append hexport)).trans (List.sublist_append_right _ _)
  · simp only [List.forall_mem_append]
    exact ⟨hend, himport', hdefinition', hexport'⟩

end Grammar

namespace Module
variable {ts : List Token} {m : Module} {failure : Failure}

theorem tokens_sublist_of_parse (h : parse ts = .ok m) : m.tokens.Sublist ts :=
  (Grammar.module_copies ts m (parse_eq_ok_iff.mp h)).1

theorem tokens_subset_of_parse (h : parse ts = .ok m) : m.tokens ⊆ ts :=
  (tokens_sublist_of_parse h).subset

/-- What is no module is refused at a token of it. -/
theorem exists_trailing_of_parse (h : parse ts = .error failure) :
    ∃ t ∈ ts, failure = .onToken .trailingToken t := by
  obtain ⟨left, m, heager⟩ := exists_eager_module ts
  obtain ⟨xs, rfl, -⟩ := Matcher.derives_of_eager heager
  rw [parse_eq, heager] at h
  cases left with
  | nil => cases h
  | cons t rest =>
    cases h
    exact ⟨t, by simp, rfl⟩

theorem exists_trailing_of_error_mem {t : Token} (ht : t ∈ ts) (hkind : t.kind = .error) :
    ∃ t' ∈ ts, parse ts = .error (.onToken .trailingToken t') := by
  cases h : parse ts with
  | error failure =>
    obtain ⟨t', ht', rfl⟩ := exists_trailing_of_parse h
    exact ⟨t', ht', rfl⟩
  | ok m =>
    exact absurd hkind ((Grammar.module_copies ts m (parse_eq_ok_iff.mp h)).2 t ht)

end Module

end ActorAsm
