import ActorAsm.Token

/-!
Buffers over a token stream. Tokens are drawn from the stream only when a position past the last
drawn one is looked at, and are kept, so that a match can start again from an earlier position.
-/

namespace ActorAsm

/-- What has been drawn from the stream `ts`, and what is still in it. -/
structure Buffer (ts : List Token) where
  drawn : Array Token
  pending : List Token
  drawn_append_pending : drawn.toList ++ pending = ts

namespace Buffer

variable {ts : List Token}

/-- A buffer that has drawn nothing yet. -/
def fresh (ts : List Token) : Buffer ts := ⟨#[], ts, rfl⟩

/-- Draw from the stream until `position` is filled or the stream is over. -/
def fill (position : Nat) (drawn : Array Token) : (pending : List Token) →
    drawn.toList ++ pending = ts → Buffer ts
  | [], h => ⟨drawn, [], h⟩
  | t :: pending, h =>
    if drawn.size ≤ position then fill position (drawn.push t) pending (by simpa using h)
    else ⟨drawn, t :: pending, h⟩

/-- The token at a position, or none past the end of the stream. -/
def peek (b : Buffer ts) (position : Nat) : Option Token × Buffer ts :=
  let b' := fill position b.drawn b.pending b.drawn_append_pending
  (b'.drawn[position]?, b')

/-- How many tokens have been drawn. -/
def pulled (b : Buffer ts) : Nat := b.drawn.size

theorem pulled_le_length (b : Buffer ts) : b.pulled ≤ ts.length := by
  have h := congrArg List.length b.drawn_append_pending
  simp only [List.length_append, Array.length_toList] at h
  unfold pulled
  omega

private theorem getElem?_fill (position : Nat) (drawn : Array Token) (pending : List Token)
    (h : drawn.toList ++ pending = ts) :
    (fill position drawn pending h).drawn[position]? = ts[position]? := by
  induction pending generalizing drawn with
  | nil =>
    rw [List.append_nil] at h
    rw [fill, ← Array.getElem?_toList, h]
  | cons t pending ih =>
    rw [fill]
    split
    · exact ih _ _
    next hd =>
      have hp : position < drawn.toList.length := by
        rw [Array.length_toList]
        omega
      subst h
      rw [List.getElem?_append_left hp, Array.getElem?_toList]

/-- Looking at a position shows what the stream has there, whatever has been drawn before. -/
theorem peek_fst (b : Buffer ts) (position : Nat) : (b.peek position).1 = ts[position]? :=
  getElem?_fill position b.drawn b.pending b.drawn_append_pending

end Buffer

end ActorAsm
