import ActorAsm.Matcher.Pattern
import ActorAsm.Proofs.Matcher.Derivation

/-! The tokens in a node. A pattern keeps each token that it consumes as a leaf, so the leaves of its
node are the tokens of the stream from the start of the match to its end. -/

namespace ActorAsm

namespace Matcher
variable {α β : Type} {m second : Matcher α} {n : Matcher β} {leaves : α → List Token}
  {leaves' : β → List Token} {ms : List (Matcher α)}

/-- What is read off a node are the tokens from which the matcher derives it. -/
def Accounts (m : Matcher α) (leaves : α → List Token) : Prop :=
  ∀ xs node, m.Derives xs node → leaves node = xs

private theorem accounts_nothing : nothing.Accounts fun _ => [] :=
  fun _ _ h => h.symm

private theorem accounts_token (accepts : Token → Bool) : (token accepts).Accounts ([·]) :=
  fun _ _ h => (derives_token_iff.mp h).1.symm

private theorem accounts_noAlternative : noAlternative.Accounts leaves :=
  fun _ _ h => absurd h id

namespace Accounts

theorem orElse (hm : m.Accounts leaves) (hs : second.Accounts leaves) :
    (orElse m second).Accounts leaves := by
  rintro xs node (h | h)
  · exact hm xs node h
  · exact hs xs node h

theorem andThen (hm : m.Accounts leaves) (hn : n.Accounts leaves') :
    (andThen m n).Accounts fun node => leaves node.1 ++ leaves' node.2 := by
  rintro _ ⟨left, right⟩ ⟨ys, zs, rfl, hy, hz⟩
  dsimp only
  rw [hm ys left hy, hn zs right hz]

theorem map {f : α → β} (hm : m.Accounts leaves) (hf : ∀ node, leaves' (f node) = leaves node) :
    (map f m).Accounts leaves' := by
  rintro xs _ ⟨node, h, rfl⟩
  rw [hf, hm xs node h]

theorem zeroOrMore (hm : m.Accounts leaves) : m.zeroOrMore.Accounts (·.flatMap leaves) := by
  intro xs nodes h
  dsimp only
  induction h with
  | nil => rfl
  | cons hx _ ih => rw [List.flatMap_cons, hm _ _ hx, ih]

theorem oneOrMore (hm : m.Accounts leaves) : m.oneOrMore.Accounts (·.flatMap leaves) :=
  (hm.andThen hm.zeroOrMore).map fun _ => rfl

theorem firstOf (hms : ∀ m ∈ ms, m.Accounts leaves) : (firstOf ms).Accounts leaves := by
  induction ms with
  | nil => exact accounts_noAlternative
  | cons m ms ih =>
    obtain ⟨hm, hms⟩ := List.forall_mem_cons.mp hms
    exact hm.orElse (ih hms)

theorem sequence (hms : ∀ m ∈ ms, m.Accounts leaves) :
    (sequence ms).Accounts (·.flatMap leaves) := by
  induction ms with
  | nil => exact accounts_nothing.map fun _ => rfl
  | cons m ms ih =>
    obtain ⟨hm, hms⟩ := List.forall_mem_cons.mp hms
    exact (hm.andThen (ih hms)).map fun _ => rfl

theorem optional (hm : m.Accounts leaves) :
    m.optional.Accounts fun node => node.elim [] leaves := by
  refine firstOf (List.forall_mem_cons.mpr ⟨?_, List.forall_mem_singleton.mpr ?_⟩)
  · exact hm.map fun _ => rfl
  · exact accounts_nothing.map fun _ => rfl

/-- So a match that succeeds has the tokens in its node over which it has moved. -/
theorem leaves_eq {ts : List Token} {position next : Nat} {b b' : Buffer ts} {node : α}
    (hm : m.Accounts leaves) (hposition : position ≤ ts.length)
    (h : m.run position b = (.ok (next, node), b')) :
    position ≤ next ∧ next ≤ ts.length ∧
      leaves node = (ts.drop position).take (next - position) := by
  obtain ⟨hle, hmove, heager⟩ := eager_of_run h
  have hnext : next ≤ ts.length := by
    have hpulled := b'.pulled_le_length
    omega
  obtain ⟨ys, hdrop, hderives⟩ := derives_of_eager heager
  have hlength : ys.length = next - position := by
    have hlengths := congrArg List.length hdrop
    rw [List.length_append, List.length_drop, List.length_drop] at hlengths
    omega
  exact ⟨hle, hnext, by rw [hm ys node hderives, hdrop, List.take_left' hlength]⟩

end Accounts

end Matcher

namespace Tree

mutual

/-- The tokens at the leaves, from left to right. -/
def tokens : Tree → List Token
  | .empty => []
  | .token t => [t]
  | .list nodes => tokensOfAll nodes
  | .absent => []
  | .present node => node.tokens
  | .pair first second => first.tokens ++ second.tokens
  | .tagged _ node => node.tokens

def tokensOfAll : List Tree → List Token
  | [] => []
  | node :: nodes => node.tokens ++ tokensOfAll nodes

end

theorem tokens_list (nodes : List Tree) : (list nodes).tokens = nodes.flatMap tokens := by
  rw [tokens]
  induction nodes with
  | nil => rfl
  | cons node nodes ih => rw [tokensOfAll, ih, List.flatMap_cons]

end Tree

namespace Pattern
open Matcher (Accounts accounts_nothing accounts_token)

mutual

/-- Every pattern keeps its tokens, as long as the patterns that it is made of do. -/
theorem accounts_matcher : (pattern : Pattern) → pattern.matcher.Accounts Tree.tokens
  | .nothing => accounts_nothing.map fun _ => rfl
  | .one accepts => (accounts_token accepts).map fun _ => rfl
  | .firstOf patterns => .firstOf (accounts_matchers patterns)
  | .sequence patterns => (Accounts.sequence (accounts_matchers patterns)).map Tree.tokens_list
  | .zeroOrMore pattern => (accounts_matcher pattern).zeroOrMore.map Tree.tokens_list
  | .oneOrMore pattern => (accounts_matcher pattern).oneOrMore.map Tree.tokens_list
  | .optional pattern => (accounts_matcher pattern).optional.map fun node => by cases node <;> rfl
  | .andThen first second =>
    ((accounts_matcher first).andThen (accounts_matcher second)).map fun _ => rfl
  | .tagged _ pattern => (accounts_matcher pattern).map fun _ => rfl

theorem accounts_matchers : (patterns : List Pattern) →
    ∀ m ∈ matchers patterns, m.Accounts Tree.tokens
  | [] => List.forall_mem_nil _
  | pattern :: patterns =>
    List.forall_mem_cons.mpr ⟨accounts_matcher pattern, accounts_matchers patterns⟩

end

/-- A pattern that matches from a position on in the stream ends in the stream and not before that
position. The leaves of its node are the tokens between the two, each of them once and in order, so
what an alternative or a repetition has looked at in vain leaves no trace. -/
theorem tokens_of_match (pattern : Pattern) {ts : List Token} {start last : Nat} {b : Buffer ts}
    {node : Tree} (hstart : start ≤ ts.length)
    (h : (pattern.matcher.run start b).1 = .ok (last, node)) :
    start ≤ last ∧ last ≤ ts.length ∧ node.tokens = (ts.drop start).take (last - start) :=
  (accounts_matcher pattern).leaves_eq hstart (Prod.ext h rfl)

private def stream : List Token :=
  [⟨.newline, "\n", 0, 0, 1⟩, ⟨.name, "a", 1, 0, 1⟩, ⟨.space, " ", 1, 1, 2⟩,
    ⟨.name, "b", 1, 2, 3⟩, ⟨.space, " ", 1, 3, 4⟩, ⟨.punct, ":", 1, 4, 5⟩]

private def ofKind (kind : Token.Kind) : Pattern := .one (·.kind = kind)

private def names : Pattern :=
  .sequence [
    .firstOf [.sequence [ofKind .name, ofKind .space, ofKind .punct], ofKind .name],
    .zeroOrMore (.tagged "further" (.andThen (ofKind .space) (ofKind .name))),
    .oneOrMore (.optional (ofKind .name))]

/-- A name with any number of further ones, each behind a space. The first alternative goes as far as
the second name, the repetition as far as the colon, and the last part is there twice with nothing in
it. -/
theorem tokens_of_match_names :
    1 ≤ stream.length ∧
    ∃ node, (names.matcher.run 1 (Buffer.fresh stream)).1 = .ok (4, node) ∧ node.tokens =
      [⟨.name, "a", 1, 0, 1⟩, ⟨.space, " ", 1, 1, 2⟩, ⟨.name, "b", 1, 2, 3⟩] := by
  have hstart : 1 ≤ stream.length := by decide
  have hmatch : (names.matcher.run 1 (Buffer.fresh stream)).1 =
      .ok (4, .list [.token ⟨.name, "a", 1, 0, 1⟩,
        .list [.tagged "further"
          (.pair (.token ⟨.space, " ", 1, 1, 2⟩) (.token ⟨.name, "b", 1, 2, 3⟩))],
        .list [.absent, .absent]]) := by
    with_unfolding_all rfl
  exact ⟨hstart, _, hmatch, (tokens_of_match names hstart hmatch).2.2⟩

end Pattern

end ActorAsm
