import ActorAsm.Document.Resolution
import Mathlib.Combinatorics.Pigeonhole
import Mathlib.Data.List.Nodup
import Mathlib.Data.Nat.Find
import Mathlib.Logic.Relation

/-! Following names through a table of definitions. The search for an instruction behind a name,
which gives up after as many lookups as there are entries and one more, misses nothing: a path
that ends takes no entry twice. Where it gives up, the name does lead into a circle. -/

namespace ActorAsm

/-- What a name has to end at to stand for an instruction. Definitions of other modules are
trusted. -/
def Node.isTarget : Node → Bool
  | .reference (.external _ _) _ => true
  | node => node.isInstruction

/-- What can stand in no place for an instruction, wherever it leads. -/
def Node.isData : Node → Bool
  | .reference _ _ => false
  | node => !node.isInstruction

namespace DefineTable

/-- Following references to labels from entry to entry, the name gets to an instruction or to a
definition of another module. -/
inductive LeadsToInstruction (define : DefineTable) : String → Prop where
  | target {name : String} {node : Node} : define.lookup name = some node → node.isTarget →
      LeadsToInstruction define name
  | follow {name next : String} {debug : Debug} :
      define.lookup name = some (.reference (.label next) debug) →
      LeadsToInstruction define next → LeadsToInstruction define name

variable {define : DefineTable} {name : String} {n k : Nat}

private theorem instructionFault?_succ_eq_none_iff :
    define.instructionFault? (n + 1) name = none ↔
      (∃ node, define.lookup name = some node ∧ node.isTarget) ∨
        ∃ next debug, define.lookup name = some (.reference (.label next) debug) ∧
          define.instructionFault? n next = none := by
  rw [instructionFault?]
  cases define.lookup name with
  | none => simp
  | some node =>
    cases node with
    | reference target debug => cases target <;> simp [Node.isTarget, Node.isInstruction]
    | _ => simp [Node.isTarget, Node.isInstruction]

private theorem instructionFault?_mono (h : define.instructionFault? n name = none) (hk : n ≤ k) :
    define.instructionFault? k name = none := by
  induction n generalizing name k with
  | zero => cases h
  | succ n ih =>
    obtain ⟨k, rfl⟩ := Nat.exists_eq_add_one_of_ne_zero (show k ≠ 0 by omega)
    rw [instructionFault?_succ_eq_none_iff] at h ⊢
    rcases h with htarget | ⟨next, debug, hl, hnext⟩
    · exact .inl htarget
    · exact .inr ⟨next, debug, hl, ih hnext (by omega)⟩

private theorem exists_path (h : define.instructionFault? n name = none)
    (hmin : ∀ k < n, define.instructionFault? k name ≠ none) :
    ∃ path : List String, path.length = n ∧ path.Nodup ∧ path ⊆ define.map Prod.fst ∧
      ∀ x ∈ path, ∃ k ≤ n, define.instructionFault? k x = none := by
  have mem_keys {x : String} {node : Node} (hx : define.lookup x = some node) :
      x ∈ define.map Prod.fst := by
    obtain ⟨before, behind, he, -⟩ := List.lookup_eq_some_iff.mp hx
    simp [he]
  induction n generalizing name with
  | zero => cases h
  | succ n ih =>
    rcases instructionFault?_succ_eq_none_iff.mp h with ⟨node, hl, ht⟩ | ⟨next, debug, hl, hnext⟩
    · have hone : define.instructionFault? 1 name = none :=
        instructionFault?_succ_eq_none_iff.mpr (.inl ⟨node, hl, ht⟩)
      have hn : n = 0 := by
        by_contra hn
        exact hmin 1 (by omega) hone
      subst hn
      exact ⟨[name], rfl, List.nodup_singleton name, by simpa using mem_keys hl,
        by simpa using ⟨1, le_rfl, hone⟩⟩
    · have hmin' : ∀ k < n, define.instructionFault? k next ≠ none := fun k hk hfound =>
        hmin (k + 1) (by omega)
          (instructionFault?_succ_eq_none_iff.mpr (.inr ⟨next, debug, hl, hfound⟩))
      obtain ⟨path, hlength, hnodup, hkeys, hrank⟩ := ih hnext hmin'
      refine ⟨name :: path, by simp [hlength], List.nodup_cons.mpr ⟨fun hmem => ?_, hnodup⟩,
        List.cons_subset.mpr ⟨mem_keys hl, hkeys⟩, List.forall_mem_cons.mpr ⟨⟨n + 1, le_rfl, h⟩, ?_⟩⟩
      -- A name met again would have been done with fewer lookups.
      · obtain ⟨k, hk, hfound⟩ := hrank name hmem
        exact hmin k (by omega) hfound
      · intro x hx
        obtain ⟨k, hk, hfound⟩ := hrank x hx
        exact ⟨k, by omega, hfound⟩

private theorem exists_lookups (h : define.LeadsToInstruction name) :
    ∃ n, define.instructionFault? n name = none := by
  induction h with
  | target hl ht => exact ⟨1, instructionFault?_succ_eq_none_iff.mpr (.inl ⟨_, hl, ht⟩)⟩
  | follow hl _ ih =>
    obtain ⟨n, hn⟩ := ih
    exact ⟨n + 1, instructionFault?_succ_eq_none_iff.mpr (.inr ⟨_, _, hl, hn⟩)⟩

private theorem leadsToInstruction_of_lookups (h : define.instructionFault? n name = none) :
    define.LeadsToInstruction name := by
  induction n generalizing name with
  | zero => cases h
  | succ n ih =>
    rcases instructionFault?_succ_eq_none_iff.mp h with ⟨node, hl, ht⟩ | ⟨next, debug, hl, hnext⟩
    · exact .target hl ht
    · exact .follow hl (ih hnext)

/-- The lookups that the search is given suffice. -/
theorem instructionFault?_eq_none_iff :
    define.instructionFault? (define.length + 1) name = none ↔ define.LeadsToInstruction name := by
  constructor
  · exact leadsToInstruction_of_lookups
  · intro h
    have hex := exists_lookups h
    obtain ⟨path, hlength, hnodup, hkeys, -⟩ := exists_path (Nat.find_spec hex)
      fun k hk => Nat.find_min hex hk
    apply instructionFault?_mono (Nat.find_spec hex)
    have hle := hnodup.length_le_of_subset hkeys
    rw [List.length_map] at hle
    omega

theorem checkInstruction_eq_ok_iff {token : Token} :
    define.checkInstruction token = .ok () ↔ define.LeadsToInstruction token.text := by
  rw [← instructionFault?_eq_none_iff, checkInstruction]
  cases define.instructionFault? (define.length + 1) token.text <;> simp [Failure.raise]

section Failing
open Relation (ReflTransGen TransGen)

/-- An entry that refers to a label leads on to it. -/
def Follows (define : DefineTable) (name next : String) : Prop :=
  ∃ debug, define.lookup name = some (.reference (.label next) debug)

theorem Follows.mem_keys {next : String} (h : define.Follows name next) :
    name ∈ define.map Prod.fst := by
  obtain ⟨debug, hl⟩ := h
  obtain ⟨before, behind, rfl, -⟩ := List.lookup_eq_some_iff.mp hl
  simp

private theorem instructionFault?_cases {fault : Fault}
    (h : define.instructionFault? n name = some fault) :
    (fault = .cyclicReference ∧
      ∃ path : Nat → String, path 0 = name ∧ ∀ i < n, define.Follows (path i) (path (i + 1))) ∨
    ∃ last, ReflTransGen define.Follows name last ∧
      (fault = .notDefined ∧ define.lookup last = none ∨
        fault = .expectedInstruction ∧ ∃ node, define.lookup last = some node ∧ node.isData) := by
  induction n generalizing name with
  | zero =>
    cases h
    exact .inl ⟨rfl, fun _ => name, rfl, fun i hi => absurd hi (Nat.not_lt_zero i)⟩
  | succ n ih =>
    rw [instructionFault?] at h
    cases hl : define.lookup name with
    | none =>
      rw [hl] at h
      cases h
      exact .inr ⟨name, .refl, .inl ⟨rfl, hl⟩⟩
    | some node =>
      rw [hl] at h
      by_cases hlabel : ∃ next debug, node = .reference (.label next) debug
      · obtain ⟨next, debug, rfl⟩ := hlabel
        rcases ih h with ⟨hfault, path, hstart, hpath⟩ | ⟨last, hreach, hend⟩
        · refine .inl ⟨hfault, fun | 0 => name | i + 1 => path i, rfl, fun i hi => ?_⟩
          cases i with
          | zero =>
            subst hstart
            exact ⟨debug, hl⟩
          | succ i => exact hpath i (by omega)
        · exact .inr ⟨last, .head ⟨debug, hl⟩ hreach, hend⟩
      · have hdata : node.isData ∧ fault = .expectedInstruction := by
          cases node with
          | reference target debug =>
            cases target with
            | label next => exact absurd ⟨next, debug, rfl⟩ hlabel
            | external moduleName name => cases h
          | _ => simp_all [Node.isData, Node.isInstruction]
        exact .inr ⟨name, .refl, .inr ⟨hdata.2, node, hl, hdata.1⟩⟩

private theorem exists_circle {path : Nat → String}
    (h : ∀ i < define.length + 1, define.Follows (path i) (path (i + 1))) :
    ∃ last, ReflTransGen define.Follows (path 0) last ∧ TransGen define.Follows last last := by
  have hreach (i k : Nat) (hk : i + k ≤ define.length + 1) :
      ReflTransGen define.Follows (path i) (path (i + k)) := by
    induction k with
    | zero => exact .refl
    | succ k ih => exact (ih (by omega)).tail (h (i + k) (by omega))
  have hcard : (define.map Prod.fst).toFinset.card < (Finset.range (define.length + 1)).card := by
    have hle := (define.map Prod.fst).toFinset_card_le
    rw [List.length_map] at hle
    rw [Finset.card_range]
    omega
  have hmaps : ∀ i ∈ Finset.range (define.length + 1), path i ∈ (define.map Prod.fst).toFinset :=
    fun i hi => List.mem_toFinset.mpr (h i (Finset.mem_range.mp hi)).mem_keys
  -- With one lookup more than there are entries, two of them take the same one.
  obtain ⟨i, hi, j, hj, hne, heq⟩ := Finset.exists_ne_map_eq_of_card_lt_of_maps_to hcard hmaps
  rw [Finset.mem_range] at hi hj
  wlog hlt : i < j generalizing i j
  · exact this j hj i hi hne.symm heq.symm (by omega)
  obtain ⟨k, rfl⟩ := Nat.exists_eq_add_of_lt hlt
  have hfrom := hreach 0 i (by omega)
  have hround := TransGen.head' (h i hi) (hreach (i + 1) k (by omega))
  rw [show i + 1 + k = i + k + 1 by omega, ← heq] at hround
  rw [Nat.zero_add] at hfrom
  exact ⟨path i, hfrom, hround⟩

/-- What a name that stands for no instruction leads to. -/
theorem exists_of_instructionFault? {fault : Fault}
    (h : define.instructionFault? (define.length + 1) name = some fault) :
    ∃ last, ReflTransGen define.Follows name last ∧
      (fault = .notDefined ∧ define.lookup last = none ∨
        fault = .expectedInstruction ∧ (∃ node, define.lookup last = some node ∧ node.isData) ∨
        fault = .cyclicReference ∧ TransGen define.Follows last last) := by
  rcases instructionFault?_cases h with ⟨hfault, path, rfl, hpath⟩ | ⟨last, hreach, hend⟩
  · obtain ⟨last, hreach, hround⟩ := exists_circle hpath
    exact ⟨last, hreach, .inr (.inr ⟨hfault, hround⟩)⟩
  · exact ⟨last, hreach, hend.imp_right .inl⟩

end Failing

end DefineTable

end ActorAsm
