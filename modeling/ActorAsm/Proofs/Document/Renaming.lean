import ActorAsm.Proofs.Document.Translation

/-! Names mean nothing but themselves. A label may be spelled like an operator or a mnemonic: when
the names of a module are spelled anew, its document changes in these names only. -/

namespace ActorAsm

/-- A name spelled anew, in the same place. -/
def Token.rename (r : String → String) (t : Token) : Token := { t with text := r t.text }

/-- The module with its labels and module names spelled anew, and all references to them. Operators,
mnemonics, literals and the names of definitions of other modules stay. -/
def Module.rename (r : String → String) (m : Module) : Module := m.mapTokens (Token.rename r) id

/-- The document with all its names spelled anew. -/
def Document.rename (r : String → String) (d : Document) : Document := d.translate r id

/-- A renaming tells different names apart, and moves no token. -/
def Translation.renaming {r : String → String} (hr : Function.Injective r) (m : Module)
    (file : String) : Translation (Scope.ofModule m file) (Scope.ofModule (m.rename r) file) where
  name := Token.rename r
  word := id
  spell := r
  origin := id
  injective := hr
  text_name _ := rfl
  text_word _ := rfl
  debug_name _ := rfl
  debug_word _ := rfl
  labels := by
    simp [Scope.ofModule, Module.rename, Module.labels_mapTokens, Token.rename, Function.comp_def]
  moduleNames := by
    simp [Scope.ofModule, Module.rename, Module.mapTokens, Importation.mapTokens, Token.rename,
      Function.comp_def]

namespace Module

/-- A renamed module is accepted if and only if the module is. It generates the renamed document
then, and otherwise fails with the same fault in the same place. -/
theorem generate_rename {r : String → String} (hr : Function.Injective r) (m : Module)
    (file : String) :
    ((∃ doc, (m.rename r).generate file = .ok doc) ↔ ∃ doc, m.generate file = .ok doc) ∧
    (∀ doc, m.generate file = .ok doc → (m.rename r).generate file = .ok (doc.rename r)) ∧
    ∀ failure, m.generate file = .error failure → ∃ failure',
      (m.rename r).generate file = .error failure' ∧
      failure'.fault = failure.fault.translate r ∧
      failure'.line? = failure.line? ∧ failure'.column? = failure.column? := by
  have hcarries := generate_carries (Translation.renaming hr m file) rfl
  generalize m.generate file = result at *
  generalize (m.rename r).generate file = result' at *
  cases hcarries with
  | ok doc =>
    refine ⟨iff_of_true ⟨_, rfl⟩ ⟨_, rfl⟩, fun found hfound => ?_, fun failure hfailure => ?_⟩
    · cases hfound
      rfl
    · cases hfailure
  | @error failure failure' hblames =>
    have hfails {failure : Failure} : ¬ ∃ doc : Document, Except.error failure = .ok doc := by simp
    refine ⟨iff_of_false hfails hfails, fun found hfound => ?_, fun found hfound => ?_⟩
    · cases hfound
    · cases hfound
      refine ⟨failure', rfl, ?_⟩
      cases hblames with
      | name fault token => exact ⟨rfl, rfl, rfl⟩
      | word fault token => exact ⟨rfl, rfl, rfl⟩

private def commit : Definition :=
  ⟨.named 0 "commit", [], ⟨.named 1 "push", [.named 1 "commit"]⟩,
    [⟨.named 2 "end", [.named 2 "commit"]⟩]⟩

private def owned (name : String) : String := "my-" ++ name

private theorem owned_injective : Function.Injective owned := by
  intro a b h
  simpa [owned] using h

private def renamed : Definition :=
  ⟨.named 0 "my-commit", [], ⟨.named 1 "push", [.named 1 "my-commit"]⟩,
    [⟨.named 2 "end", [.named 2 "commit"]⟩]⟩

/-- A label is spelled like the mnemonic that its chain ends with. The mnemonic stays, while the
label and the reference to it are renamed; and where the label is given twice the second one is
blamed under its new name. -/
theorem generate_rename_owned : Function.Injective owned ∧
    (⟨[], [commit], []⟩ : Module).rename owned = ⟨[], [renamed], []⟩ ∧
    (∃ doc, (⟨[], [commit], []⟩ : Module).generate "f" = .ok doc ∧
      (⟨[], [renamed], []⟩ : Module).generate "f" = .ok (doc.rename owned)) ∧
    ∃ failure failure', (⟨[], [commit, commit], []⟩ : Module).generate "f" = .error failure ∧
      (⟨[], [renamed, renamed], []⟩ : Module).generate "f" = .error failure' ∧
      failure'.fault = .redefinition "my-commit" ∧ failure'.line? = failure.line? ∧
      failure'.column? = failure.column? := by
  have hone : (⟨[], [commit], []⟩ : Module).rename owned = ⟨[], [renamed], []⟩ := by decide
  have htwo : (⟨[], [commit, commit], []⟩ : Module).rename owned =
      ⟨[], [renamed, renamed], []⟩ := by decide
  have hok : (⟨[], [commit], []⟩ : Module).generate "f" =
      .ok (document "f" ⟨[], [commit], []⟩) := by decide
  have hfails : (⟨[], [commit, commit], []⟩ : Module).generate "f" =
      .error (.onToken (.redefinition "commit") (.named 0 "commit")) := by decide
  have h := generate_rename owned_injective ⟨[], [commit], []⟩ "f"
  have h' := generate_rename owned_injective ⟨[], [commit, commit], []⟩ "f"
  rw [hone] at h
  rw [htwo] at h'
  obtain ⟨failure', hfails', hfault, hplace⟩ := h'.2.2 _ hfails
  exact ⟨owned_injective, hone, ⟨_, hok, h.2.1 _ hok⟩, _, failure', hfails, hfails', hfault, hplace⟩

end Module

end ActorAsm
