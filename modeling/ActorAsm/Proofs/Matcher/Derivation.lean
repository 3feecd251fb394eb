import ActorAsm.Proofs.Matcher.Eager

/-! Matchers read as plain grammars. What a matcher takes it derives, with choice unordered and
repetition anything but greedy. Conversely a derivation is taken if the alternatives in front of it
fail, and if a repetition fails where the derivation ends it. -/

namespace ActorAsm

/-- Which nodes a list of tokens can stand for. -/
abbrev Reading (α : Type) : Type := List Token → α → Prop

namespace Reading
variable {α : Type} {R S : Reading α} {xs : List Token}

/-- Any number of parts, one behind the other. -/
inductive Repeated (R : Reading α) : Reading (List α) where
  | nil : Repeated R [] []
  | cons {xs ys : List Token} {node : α} {nodes : List α} : R xs node → Repeated R ys nodes →
      Repeated R (xs ++ ys) (node :: nodes)

/-- One part or more. -/
inductive AtLeastOne (R : Reading α) : Reading (List α) where
  | cons {xs ys : List Token} {node : α} {nodes : List α} : R xs node → Repeated R ys nodes →
      AtLeastOne R (xs ++ ys) (node :: nodes)

/-- One part, or none. -/
inductive Possible (R : Reading α) : Reading (Option α) where
  | absent : Possible R [] none
  | present {xs : List Token} {node : α} : R xs node → Possible R xs (some node)

theorem Repeated.imp {nodes : List α} (h : ∀ xs node, R xs node → S xs node)
    (hr : Repeated R xs nodes) : Repeated S xs nodes := by
  induction hr with
  | nil => exact .nil
  | cons hx _ ih => exact .cons (h _ _ hx) ih

/-- What holds where a part begins, and behind all parts, holds where they begin. -/
theorem Repeated.append_of {F : List Token → Prop} {rest : List Token} {nodes : List α}
    (h : Repeated R xs nodes) (hpart : ∀ ys node rest, R ys node → F (ys ++ rest))
    (hrest : F rest) : F (xs ++ rest) := by
  cases h with
  | nil => exact hrest
  | cons hx _ =>
    rw [List.append_assoc]
    exact hpart _ _ _ hx

theorem Repeated.append_of_ne_nil {F : List Token → Prop} {rest : List Token} {nodes : List α}
    (h : Repeated R xs nodes) (hpart : ∀ ys node rest, R ys node → F (ys ++ rest))
    (hne : xs ≠ []) : F (xs ++ rest) := by
  cases h with
  | nil => exact absurd rfl hne
  | cons hx _ =>
    rw [List.append_assoc]
    exact hpart _ _ _ hx

theorem AtLeastOne.append_of {F : List Token → Prop} {nodes : List α}
    (h : AtLeastOne R xs nodes) (hpart : ∀ ys node rest, R ys node → F (ys ++ rest))
    (rest : List Token) : F (xs ++ rest) := by
  cases h with
  | cons hx _ =>
    rw [List.append_assoc]
    exact hpart _ _ _ hx

theorem Possible.append_of {F : List Token → Prop} {rest : List Token} {node : Option α}
    (h : Possible R xs node) (hpart : ∀ ys node rest, R ys node → F (ys ++ rest))
    (hrest : F rest) : F (xs ++ rest) := by
  cases h with
  | absent => exact hrest
  | present hx => exact hpart _ _ _ hx

theorem AtLeastOne.imp {nodes : List α} (h : ∀ xs node, R xs node → S xs node)
    (hr : AtLeastOne R xs nodes) : AtLeastOne S xs nodes := by
  cases hr with
  | cons hx hxs => exact .cons (h _ _ hx) (hxs.imp h)

theorem Possible.imp {node : Option α} (h : ∀ xs node, R xs node → S xs node)
    (hr : Possible R xs node) : Possible S xs node := by
  cases hr with
  | absent => exact .absent
  | present hx => exact .present (h _ _ hx)

end Reading

namespace Matcher
open Reading (Repeated AtLeastOne Possible)
variable {α β : Type} {m : Matcher α} {xs ys rest : List Token} {node : α}

/-- What the matcher derives, when its alternatives have no order and its repetitions can end
anywhere. -/
def Derives : {α : Type} → Matcher α → Reading α
  | _, .nothing, xs, _ => xs = []
  | _, .one select, xs, node => ∃ t, xs = [t] ∧ select t = some node
  | _, .noAlternative, _, _ => False
  | _, .orElse first second, xs, node => first.Derives xs node ∨ second.Derives xs node
  | _, .andThen first second, xs, (left, right) =>
    ∃ ys zs, xs = ys ++ zs ∧ first.Derives ys left ∧ second.Derives zs right
  | _, .map f m, xs, node => ∃ inner, m.Derives xs inner ∧ f inner = node
  | _, .zeroOrMore m, xs, nodes => Repeated m.Derives xs nodes

theorem derives_token_iff {accepts : Token → Bool} {t : Token} :
    (token accepts).Derives xs t ↔ xs = [t] ∧ accepts t := by
  simp only [token, Derives, Option.ite_none_right_eq_some, Option.some.injEq]
  constructor
  · rintro ⟨t, rfl, ht, rfl⟩
    exact ⟨rfl, ht⟩
  · rintro ⟨rfl, ht⟩
    exact ⟨t, rfl, ht, rfl⟩

theorem derives_oneOrMore_iff {nodes : List α} :
    m.oneOrMore.Derives xs nodes ↔ AtLeastOne m.Derives xs nodes := by
  constructor
  · rintro ⟨⟨node, nodes⟩, ⟨ys, zs, rfl, hy, hz⟩, rfl⟩
    exact .cons hy hz
  · rintro ⟨hy, hz⟩
    exact ⟨(_, _), ⟨_, _, rfl, hy, hz⟩, rfl⟩

theorem derives_optional_iff {node : Option α} :
    m.optional.Derives xs node ↔ Possible m.Derives xs node := by
  constructor
  · rintro (⟨found, hm, rfl⟩ | ⟨⟨⟩, rfl, rfl⟩ | hnone)
    · exact .present hm
    · exact .absent
    · cases hnone
  · intro h
    cases h with
    | absent => exact .inr (.inl ⟨(), rfl, rfl⟩)
    | present hm => exact .inl ⟨_, hm, rfl⟩

theorem derives_andKeep_iff {first : Matcher β} :
    (andKeep first m).Derives xs node ↔
      ∃ ys zs left, xs = ys ++ zs ∧ first.Derives ys left ∧ m.Derives zs node := by
  constructor
  · rintro ⟨⟨left, right⟩, ⟨ys, zs, hx, hy, hz⟩, rfl⟩
    exact ⟨ys, zs, left, hx, hy, hz⟩
  · rintro ⟨ys, zs, left, hx, hy, hz⟩
    exact ⟨(left, node), ⟨ys, zs, hx, hy, hz⟩, rfl⟩

theorem derives_andDrop_iff {second : Matcher β} :
    (andDrop m second).Derives xs node ↔
      ∃ ys zs right, xs = ys ++ zs ∧ m.Derives ys node ∧ second.Derives zs right := by
  constructor
  · rintro ⟨⟨left, right⟩, ⟨ys, zs, hx, hy, hz⟩, rfl⟩
    exact ⟨ys, zs, right, hx, hy, hz⟩
  · rintro ⟨ys, zs, right, hx, hy, hz⟩
    exact ⟨(node, right), ⟨ys, zs, hx, hy, hz⟩, rfl⟩

private theorem stepsOn_derives {step : List Token → Result α} {R : Reading α}
    (hstep : ∀ xs rest node, step xs = .ok (rest, node) → ∃ ys, xs = ys ++ rest ∧ R ys node)
    (xs : List Token) :
    ∃ ys, xs = ys ++ (stepsOn step xs).1 ∧ Repeated R ys (stepsOn step xs).2 := by
  induction hn : xs.length using Nat.strongRecOn generalizing xs with
  | ind n ih =>
    rw [stepsOn]
    cases hs : step xs with
    | error failure => exact ⟨[], rfl, .nil⟩
    | ok found =>
      obtain ⟨rest, node⟩ := found
      obtain ⟨ys, rfl, hy⟩ := hstep xs rest node hs
      by_cases hlt : rest.length < (ys ++ rest).length
      · obtain ⟨zs, hrest, hz⟩ := ih rest.length (hn ▸ hlt) rest rfl
        simp only [hlt, if_true]
        refine ⟨ys ++ zs, ?_, .cons hy hz⟩
        rw [List.append_assoc, ← hrest]
      · simp only [hlt, if_false]
        refine ⟨ys, rfl, ?_⟩
        simpa using Repeated.cons hy .nil

/-- A matcher takes nothing but what it derives. -/
theorem derives_of_eager (h : m.eager xs = .ok (rest, node)) :
    ∃ ys, xs = ys ++ rest ∧ m.Derives ys node := by
  induction m generalizing xs rest with
  | nothing =>
    cases h
    exact ⟨[], rfl, rfl⟩
  | one select =>
    obtain ⟨t, rfl, hs⟩ := eager_one_eq_ok_iff.mp h
    exact ⟨[t], rfl, t, rfl, hs⟩
  | noAlternative => cases h
  | orElse first second ihf ihs =>
    rcases eager_orElse_eq_ok_iff.mp h with hf | ⟨-, hs⟩
    · obtain ⟨ys, hx, hy⟩ := ihf hf
      exact ⟨ys, hx, .inl hy⟩
    · obtain ⟨ys, hx, hy⟩ := ihs hs
      exact ⟨ys, hx, .inr hy⟩
  | andThen first second ihf ihs =>
    obtain ⟨left, right⟩ := node
    obtain ⟨middle, hf, hs⟩ := eager_andThen_eq_ok_iff.mp h
    obtain ⟨ys, rfl, hy⟩ := ihf hf
    obtain ⟨zs, rfl, hz⟩ := ihs hs
    exact ⟨ys ++ zs, (List.append_assoc ..).symm, ys, zs, rfl, hy, hz⟩
  | map f m ih =>
    obtain ⟨inner, hm, rfl⟩ := eager_map_eq_ok_iff.mp h
    obtain ⟨ys, hx, hy⟩ := ih hm
    exact ⟨ys, hx, inner, hy, rfl⟩
  | zeroOrMore m ih =>
    have hs := stepsOn_derives (fun _ _ _ => ih) xs
    have heq : stepsOn m.eager xs = (rest, node) := Except.ok.inj h
    rw [heq] at hs
    exact hs

theorem length_le_of_eager (h : m.eager xs = .ok (rest, node)) : rest.length ≤ xs.length := by
  obtain ⟨ys, rfl, -⟩ := derives_of_eager h
  rw [List.length_append]
  omega

/-- The matcher takes the tokens as the node, and leaves the rest behind. -/
def Takes (m : Matcher α) (xs : List Token) (node : α) (rest : List Token) : Prop :=
  m.eager (xs ++ rest) = .ok (rest, node)

/-- The matcher finds nothing to take. -/
def Fails (m : Matcher α) (xs : List Token) : Prop := ∀ found, m.eager xs ≠ .ok found

/-- Where nothing that is derived begins, the matcher fails. -/
theorem fails_of_not_derives (h : ∀ ys rest node, m.Derives ys node → xs ≠ ys ++ rest) :
    m.Fails xs := by
  rintro ⟨rest, node⟩ hm
  obtain ⟨ys, hx, hy⟩ := derives_of_eager hm
  exact h ys rest node hy hx

theorem Fails.map (f : α → β) (h : m.Fails xs) : (map f m).Fails xs := by
  rintro ⟨rest, image⟩ hm
  obtain ⟨node, hm, -⟩ := eager_map_eq_ok_iff.mp hm
  exact h _ hm

theorem takes_nothing : nothing.Takes [] () rest := rfl

theorem takes_one {select : Token → Option α} {t : Token} (h : select t = some node) :
    (one select).Takes [t] node rest :=
  eager_one_eq_ok_iff.mpr ⟨t, rfl, h⟩

theorem Takes.orElse_left {second : Matcher α} (h : m.Takes xs node rest) :
    (orElse m second).Takes xs node rest :=
  eager_orElse_eq_ok_iff.mpr (.inl h)

theorem Takes.orElse_right {first : Matcher α} (h : m.Takes xs node rest)
    (hf : first.Fails (xs ++ rest)) : (orElse first m).Takes xs node rest :=
  eager_orElse_eq_ok_iff.mpr (.inr ⟨hf, h⟩)

theorem Takes.andThen {second : Matcher β} {right : β} (h : m.Takes xs node (ys ++ rest))
    (hs : second.Takes ys right rest) : (andThen m second).Takes (xs ++ ys) (node, right) rest := by
  unfold Takes at h
  rw [← List.append_assoc] at h
  exact eager_andThen_eq_ok_iff.mpr ⟨_, h, hs⟩

theorem Takes.map (f : α → β) (h : m.Takes xs node rest) : (map f m).Takes xs (f node) rest :=
  eager_map_eq_ok_iff.mpr ⟨node, h, rfl⟩

theorem Takes.andKeep {second : Matcher β} {right : β} (h : m.Takes xs node (ys ++ rest))
    (hs : second.Takes ys right rest) : (andKeep m second).Takes (xs ++ ys) right rest :=
  (h.andThen hs).map Prod.snd

theorem Takes.andDrop {second : Matcher β} {right : β} (h : m.Takes xs node (ys ++ rest))
    (hs : second.Takes ys right rest) : (andDrop m second).Takes (xs ++ ys) node rest :=
  (h.andThen hs).map Prod.fst

theorem Takes.optional (h : m.Takes xs node rest) : m.optional.Takes xs (some node) rest :=
  (h.map some).orElse_left

theorem takes_optional_none (h : m.Fails rest) : m.optional.Takes [] none rest :=
  ((takes_nothing.map fun _ => none).orElse_left).orElse_right (h.map some)

/-- Parts that a matcher takes wherever the condition holds behind them. It holds in front of each
part, so that the next one lets a part end. -/
structure Parts (m : Matcher α) (R : Reading α) (F : List Token → Prop) : Prop where
  ne_nil : ∀ xs node, R xs node → xs ≠ []
  follow : ∀ xs node rest, R xs node → F (xs ++ rest)
  takes : ∀ xs node rest, R xs node → F rest → m.Takes xs node rest

namespace Parts
variable {R : Reading α} {F : List Token → Prop} {nodes : List α}

/-- A repetition takes all parts, if there is not another one behind them. -/
theorem takes_zeroOrMore (hp : Parts m R F) (hrest : F rest) (hfails : m.Fails rest)
    (h : Repeated R xs nodes) : m.zeroOrMore.Takes xs nodes rest := by
  unfold Takes
  rw [eager]
  induction h with
  | nil =>
    rw [List.nil_append, stepsOn]
    cases hx : m.eager rest with
    | ok found => exact absurd hx (hfails found)
    | error failure => rfl
  | @cons ys zs node nodes hy hz ih =>
    have hstep := hp.takes ys node (zs ++ rest) hy (hz.append_of hp.follow hrest)
    have hpos := List.length_pos_iff.mpr (hp.ne_nil ys node hy)
    unfold Takes at hstep
    rw [List.append_assoc, stepsOn, hstep]
    have hlt : (zs ++ rest).length < (ys ++ (zs ++ rest)).length := by
      simp only [List.length_append]
      omega
    simp only [hlt, if_true]
    rw [Except.ok.injEq] at ih
    rw [ih]

theorem takes_andThen_zeroOrMore (hp : Parts m R F) (hrest : F rest) (hfails : m.Fails rest)
    (h : AtLeastOne R xs (node :: nodes)) :
    (andThen m m.zeroOrMore).Takes xs (node, nodes) rest := by
  cases h with
  | cons hx hxs =>
    have hfirst := hp.takes _ _ _ hx (hxs.append_of hp.follow hrest)
    exact hfirst.andThen (hp.takes_zeroOrMore hrest hfails hxs)

end Parts

end Matcher

end ActorAsm
