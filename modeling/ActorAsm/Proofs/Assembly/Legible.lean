import ActorAsm.Proofs.Assembly.Stages
import ActorAsm.Proofs.Document.Closure
import ActorAsm.Proofs.Module.Legible
import ActorAsm.Proofs.Node.Origins

/-! What a loader may rely on. Numbers in a document made from a source are within range, names and
specifiers need no quoting, and lines are lines of the source. -/

namespace ActorAsm

namespace Node

/-- The number that the node itself says. -/
def fixnum? : Node → Option Int
  | .fixnum value => some value
  | .fixnumOp _ imm _ _ => some imm
  | _ => none

/-- The names that the node itself says. -/
def names : Node → List String
  | .reference (.label name) _ => [name]
  | .reference (.external moduleName name) _ => [moduleName, name]
  | _ => []

/-- What the node itself says is of the pattern or within the range of its kind. -/
structure Legible (lines : Nat) (node : Node) : Prop where
  number : ∀ n, node.fixnum? = some n → n.natAbs ≤ Token.maxNumber
  names : ∀ name ∈ node.names, IsName name
  line : ∀ debug, node.debug? = some debug → debug.line < lines

end Node

namespace Link
variable {link : Link} {k : Node}

def debug : Link → Debug
  | .pair _ debug | .dict _ _ debug | .typeq _ debug | .fixnumOp _ _ debug | .exprOp _ _ debug
  | .depth debug | .branch _ _ debug | .mnemonicOp _ _ debug => debug

private theorem debug?_close : (link.close k).debug? = some link.debug := by
  unfold close
  split <;> rfl

private theorem names_close : (link.close k).names = [] := by
  unfold close
  split <;> rfl

private theorem eq_fixnumOp_of_fixnum?_close {n : Int} (h : (link.close k).fixnum? = some n) :
    ∃ op debug, link = .fixnumOp op n debug := by
  unfold close at h
  split at h <;> cases h
  exact ⟨_, _, rfl⟩

end Link

section Operands
variable {file : String} {lines : Nat} {value : Value}

private theorem Value.Legible.natAbs_fixnum_le (h : value.Legible) :
    value.fixnum.natAbs ≤ Token.maxNumber := by
  cases value with
  | number n token => exact h
  | _ => exact Nat.zero_le _

private theorem Value.Legible.node (h : value.Legible)
    (hlines : ∀ t ∈ value.tokens, t.line < lines) : (value.node file).Legible lines := by
  have hfrom : (value.node file).ComesFrom file (.operand value) := value.comesFrom_node
  generalize value.node file = node at hfrom
  cases hfrom with
  | fixnum n token =>
    refine ⟨?_, by simp [Node.names], by simp [Node.debug?]⟩
    rintro _ ⟨⟩
    exact h
  | literal token value | typeTag token tag =>
    exact ⟨by simp [Node.fixnum?], by simp [Node.names], by simp [Node.debug?]⟩
  | label name =>
    refine ⟨by simp [Node.fixnum?], List.forall_mem_singleton.mpr h, ?_⟩
    rintro _ ⟨⟩
    exact hlines name List.mem_cons_self
  | external moduleName name =>
    refine ⟨by simp [Node.fixnum?], ?_, ?_⟩
    · exact List.forall_mem_cons.mpr ⟨h.1, List.forall_mem_singleton.mpr h.2⟩
    · rintro _ ⟨⟩
      exact hlines moduleName List.mem_cons_self

end Operands

namespace Statement
variable {m : Module} {file : String} {lines : Nat} {s : Statement} {k node : Node}

private theorem debug_link : (s.link file).debug = ⟨file, s.operator.line⟩ := by
  unfold link
  split <;> rfl

/-- The number in a link is an operand of its statement. -/
theorem exists_fixnum_eq_of_link_eq {op : FixnumOp} {n : Int} {debug : Debug}
    (h : s.link file = .fixnumOp op n debug) : ∃ value ∈ s.operands, value.fixnum = n := by
  unfold link at h
  split at h <;> cases h
  next imm rest hs _ => exact ⟨imm, hs ▸ List.mem_cons_self, rfl⟩

/-- Legible statements in lines that there are give legible nodes. -/
theorem Gives.legible (h : s.Gives m file node) (hoperands : ∀ value ∈ s.operands, value.Legible)
    (hlines : ∀ t ∈ s.tokens, t.line < lines) : node.Legible lines := by
  obtain ⟨hline, hlines⟩ := List.forall_mem_cons.mp hlines
  cases h with
  | link k =>
    refine ⟨fun n hn => ?_, by simp [Link.names_close], fun debug hdebug => ?_⟩
    · obtain ⟨op, debug, hlink⟩ := Link.eq_fixnumOp_of_fixnum?_close hn
      obtain ⟨value, hmem, rfl⟩ := exists_fixnum_eq_of_link_eq hlink
      exact (hoperands value hmem).natAbs_fixnum_le
    · rw [Link.debug?_close, debug_link] at hdebug
      cases hdebug
      exact hline
  | finish imm =>
    refine ⟨by simp [Node.fixnum?], by simp [Node.names], ?_⟩
    rintro _ ⟨⟩
    exact hline
  | operand hmem =>
    exact (hoperands _ hmem).node fun t ht => hlines t (List.mem_flatMap.mpr ⟨_, hmem, ht⟩)

end Statement

namespace Module
variable {m : Module} {file : String} {lines : Nat}

/-- All that is defined by a legible module whose tokens stand in lines that there are. -/
theorem Legible.define (h : m.Legible) (hwell : ∀ d ∈ m.definitions, d.WellFormed m)
    (hlines : ∀ t ∈ m.tokens, t.line < lines) {entry : String × Node}
    (hentry : entry ∈ (m.document file).define) :
    IsName entry.1 ∧ ∀ part ∈ entry.2.subnodes, part.Legible lines := by
  obtain ⟨d, hd, hentry⟩ := List.mem_flatMap.mp hentry
  have hlabels := h.labels d hd
  have hlines {t : Token} (ht : t ∈ d.tokens) : t.line < lines :=
    hlines t (by
      simp only [tokens, List.mem_append, List.mem_flatMap]
      exact .inl (.inr ⟨d, hd, ht⟩))
  have hlabel : IsName d.label.text := hlabels d.label List.mem_cons_self
  obtain ⟨name, node⟩ := entry
  rcases Definition.mem_entries_iff.mp hentry with ⟨rfl, rfl⟩ | ⟨other, hother, rfl, rfl⟩
  · refine ⟨hlabel, fun part hpart => ?_⟩
    have hformed := Definition.formed_iff_wellFormed.mpr (hwell d hd)
    obtain ⟨s, hs, hgives⟩ := hformed.exists_gives_of_mem_subnodes hpart
    refine hgives.legible (h.operands d hd s hs) fun t ht => hlines ?_
    exact List.mem_append_right _ (List.mem_flatMap.mpr ⟨s, hs, ht⟩)
  · refine ⟨hlabels other (List.mem_cons_of_mem _ hother), fun part hpart => ?_⟩
    rw [List.mem_singleton.mp hpart]
    refine ⟨by simp [Node.fixnum?], List.forall_mem_singleton.mpr hlabel, ?_⟩
    rintro _ ⟨⟩
    exact hlines (List.mem_append_left _ (List.mem_cons_of_mem _ hother))

end Module

/-- Whatever is assembled from a source is safe to load: its numbers are not too far from zero, its
names are words of the pattern of names, so that there is neither a dot nor white space in them, no
specifier has a quote in it, and its lines are among those that the source ends. -/
theorem compile_legible {source file : String} {doc : Document}
    (h : compile source file = .ok doc) :
    (∀ entry ∈ doc.define, ∀ part ∈ entry.2.subnodes,
      (∀ n, part.fixnum? = some n → -(2 ^ 53 - 1) ≤ n ∧ n ≤ 2 ^ 53 - 1) ∧
      (∀ name ∈ part.names, IsName name) ∧
      ∀ debug, part.debug? = some debug →
        debug.line < (Token.ofSource source).countP (·.kind = .newline)) ∧
    (∀ name ∈ doc.imports.map Prod.fst ++ doc.define.map Prod.fst ++ doc.exports, IsName name) ∧
    (∀ specifier ∈ doc.imports.map Prod.snd, '"' ∉ specifier.toList) ∧
    ∀ name, IsName name → ∀ c ∈ name.toList, c ≠ '.' ∧ ¬ Text.isWhiteSpace c := by
  rw [compile_eq, bind_eq_ok_iff] at h
  obtain ⟨m, hparse, hgenerate⟩ := h
  obtain ⟨hwell, rfl⟩ := Module.generate_eq_ok_iff.mp hgenerate
  have hlegible : m.Legible := Module.legible_of_parse hparse
  have hdefine {entry : String × Node} (hentry : entry ∈ (m.document file).define) :=
    hlegible.define hwell.definitions (fun t ht => Module.line_lt_of_parse hparse ht) hentry
  refine ⟨fun entry hentry part hpart => ?_, ?_, ?_, fun name hname c hc => hname.of_mem hc⟩
  · obtain ⟨hnumber, hnames, hline⟩ := (hdefine hentry).2 part hpart
    refine ⟨fun n hn => ?_, hnames, hline⟩
    have hle : n.natAbs ≤ 9007199254740991 := hnumber n hn
    omega
  · have himports : (m.document file).imports.map Prod.fst = m.imports.map (·.moduleName.text) := by
      simp [Module.document, Function.comp_def]
    rw [himports]
    simp only [Module.document, List.forall_mem_append, List.forall_mem_map]
    exact ⟨⟨fun i hi => (hlegible.imports i hi).1, fun entry hentry => (hdefine hentry).1⟩,
      hlegible.exports⟩
  · simp only [Module.document, List.forall_mem_map]
    exact fun i hi => (hlegible.imports i hi).2

private def outermost : String :=
  ".import\n  dev-io: \"./dev io.asm\"\nmain:\n  msg -9007199254740991 dev-io.is_on?\n"

private def outermostDocument : Document where
  imports := [("dev-io", "./dev io.asm")]
  define := [("main", .fixnumOp .msg (-9007199254740991)
    (.reference (.external "dev-io" "is_on?") ⟨"outer.asm", 3⟩) ⟨"outer.asm", 3⟩)]
  exports := []

/-- The least number that there is, names with separators, and a specifier with a space. -/
theorem compile_legible_outermost : compile outermost "outer.asm" = .ok outermostDocument ∧
    IsName "dev-io" ∧ IsName "is_on?" ∧ '"' ∉ "./dev io.asm".toList ∧
    3 < (Token.ofSource outermost).countP (·.kind = .newline) := by
  have h : compile outermost "outer.asm" = .ok outermostDocument := by decide +kernel
  obtain ⟨hparts, hnames, hspecifiers, -⟩ := compile_legible h
  have hpart := hparts _ (List.mem_singleton_self _)
    (.reference (.external "dev-io" "is_on?") ⟨"outer.asm", 3⟩) (by simp [Node.subnodes])
  exact ⟨h, hnames "dev-io" (by decide), hpart.2.1 "is_on?" (by decide),
    hspecifiers _ (List.mem_singleton_self _), hpart.2.2 _ rfl⟩

end ActorAsm
