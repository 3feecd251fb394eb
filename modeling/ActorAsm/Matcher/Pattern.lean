import ActorAsm.Matcher.Basic

/-!
Patterns: matchers whose nodes are trees over the tokens they consumed.
-/

namespace ActorAsm

/-- What a pattern makes of the tokens it consumes. -/
inductive Tree where
  | empty
  | token (t : Token)
  | list (nodes : List Tree)
  | absent
  | present (node : Tree)
  | pair (first second : Tree)
  | tagged (tag : String) (node : Tree)

inductive Pattern where
  | nothing
  | one (accepts : Token → Bool)
  | firstOf (patterns : List Pattern)
  | sequence (patterns : List Pattern)
  | zeroOrMore (pattern : Pattern)
  | oneOrMore (pattern : Pattern)
  | optional (pattern : Pattern)
  | andThen (first second : Pattern)
  | tagged (tag : String) (pattern : Pattern)

namespace Pattern

mutual

/-- The matcher of a pattern. -/
def matcher : Pattern → Matcher Tree
  | .nothing => .map (fun _ => .empty) .nothing
  | .one accepts => .map .token (.token accepts)
  | .firstOf patterns => .firstOf (matchers patterns)
  | .sequence patterns => .map .list (.sequence (matchers patterns))
  | .zeroOrMore pattern => .map .list (.zeroOrMore pattern.matcher)
  | .oneOrMore pattern => .map .list (.oneOrMore pattern.matcher)
  | .optional pattern =>
    .map (fun | some node => .present node | none => .absent) (.optional pattern.matcher)
  | .andThen first second =>
    .map (fun (left, right) => .pair left right) (.andThen first.matcher second.matcher)
  | .tagged tag pattern => .map (.tagged tag) pattern.matcher

def matchers : List Pattern → List (Matcher Tree)
  | [] => []
  | pattern :: patterns => pattern.matcher :: matchers patterns

end

end Pattern

end ActorAsm
