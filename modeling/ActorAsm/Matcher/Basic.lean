import ActorAsm.Failure
import ActorAsm.Matcher.Buffer

/-!
Matchers: expressions that recognise tokens from a position on. Choice is ordered, repetition is
greedy, and a failed alternative leaves nothing behind but the tokens it has drawn.
-/

namespace ActorAsm

/-- A matcher that makes a node of type `α` out of the tokens it consumes. -/
inductive Matcher : Type → Type 1 where
  | nothing : Matcher Unit
  | one {α : Type} (select : Token → Option α) : Matcher α
  | noAlternative {α : Type} : Matcher α
  | orElse {α : Type} (first second : Matcher α) : Matcher α
  | andThen {α β : Type} (first : Matcher α) (second : Matcher β) : Matcher (α × β)
  | map {α β : Type} (f : α → β) (matcher : Matcher α) : Matcher β
  | zeroOrMore {α : Type} (matcher : Matcher α) : Matcher (List α)

namespace Matcher

/-- The position behind the match and its node, or the failure. -/
abbrev Outcome (α : Type) : Type := Except Failure (Nat × α)

variable {ts : List Token}

/-- Take steps while they succeed, keeping their nodes. A step that consumes nothing is the last
one, because it would succeed for ever. -/
def steps {α : Type} (step : Nat → Buffer ts → Outcome α × Buffer ts) (position : Nat)
    (nodes : Array α) (b : Buffer ts) : Outcome (List α) × Buffer ts :=
  match step position b with
  | (.error _, b) => (.ok (position, nodes.toList), b)
  | (.ok (next, node), b) =>
    if position < next ∧ next ≤ b.pulled then steps step next (nodes.push node) b
    else (.ok (next, (nodes.push node).toList), b)
termination_by ts.length - position
decreasing_by
  have hb := Buffer.pulled_le_length ‹Buffer ts›
  omega

/-- Run a matcher from a position on. -/
def run : {α : Type} → Matcher α → Nat → Buffer ts → Outcome α × Buffer ts
  | _, .nothing, position, b => (.ok (position, ()), b)
  | _, .one select, position, b =>
    match b.peek position with
    | (none, b) => (.error .endOfStream, b)
    | (some token, b) =>
      match select token with
      | some node => (.ok (position + 1, node), b)
      | none => (.error (.onToken .rejected token), b)
  | _, .noAlternative, position, b =>
    let (token, b) := b.peek position
    (.error ⟨.noAlternative, token⟩, b)
  | _, .orElse first second, position, b =>
    match first.run position b with
    | (.ok found, b) => (.ok found, b)
    | (.error _, b) => second.run position b
  | _, .andThen first second, position, b =>
    match first.run position b with
    | (.error failure, b) => (.error failure, b)
    | (.ok (position, left), b) =>
      match second.run position b with
      | (.error failure, b) => (.error failure, b)
      | (.ok (position, right), b) => (.ok (position, left, right), b)
  | _, .map f matcher, position, b =>
    match matcher.run position b with
    | (.error failure, b) => (.error failure, b)
    | (.ok (position, node), b) => (.ok (position, f node), b)
  | _, .zeroOrMore matcher, position, b => steps matcher.run position #[] b

/-- The first alternative that matches. If there is none, the failure is at the token where the
choice stands. -/
def firstOf {α : Type} : List (Matcher α) → Matcher α
  | [] => .noAlternative
  | matcher :: matchers => .orElse matcher (firstOf matchers)

/-- All matchers, one behind the other. -/
def sequence {α : Type} : List (Matcher α) → Matcher (List α)
  | [] => .map (fun _ => []) .nothing
  | matcher :: matchers =>
    .map (fun (node, nodes) => node :: nodes) (.andThen matcher (sequence matchers))

/-- A match followed by any number of further ones. -/
def oneOrMore {α : Type} (matcher : Matcher α) : Matcher (List α) :=
  .map (fun (node, nodes) => node :: nodes) (.andThen matcher (.zeroOrMore matcher))

/-- A match if there is one. -/
def optional {α : Type} (matcher : Matcher α) : Matcher (Option α) :=
  firstOf [.map some matcher, .map (fun _ => none) .nothing]

/-- Two matchers of which only the second's node is kept. -/
def andKeep {α β : Type} (first : Matcher α) (second : Matcher β) : Matcher β :=
  .map Prod.snd (.andThen first second)

/-- Two matchers of which only the first's node is kept. -/
def andDrop {α β : Type} (first : Matcher α) (second : Matcher β) : Matcher α :=
  .map Prod.fst (.andThen first second)

/-- One token that passes a test. -/
def token (accepts : Token → Bool) : Matcher Token :=
  .one fun t => if accepts t then some t else none

end Matcher

end ActorAsm
