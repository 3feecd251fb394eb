import ActorAsm.Proofs.Json.Unambiguous

/-! One value in two layouts. Texts of a value differ in the spaces and line feeds between their
tokens only, and what stands in a string is neither such a gap nor a control character. -/

namespace ActorAsm.Json

/-- Where a character of a text stands: outside strings, in a string, or in a string behind a
backslash that is not escaped itself. -/
inductive Region where
  | outside
  | inside
  | escaped
  deriving DecidableEq

/-- Where the next character stands. -/
def Region.behind (region : Region) (c : Char) : Region :=
  match region with
  | .outside => if c = '"' then .inside else .outside
  | .inside => if c = '"' then .outside else if c = '\\' then .escaped else .inside
  | .escaped => .inside

/-- The characters of a text, each with the region where it stands. The first one stands in the
given region. -/
def placed : Region → List Char → List (Region × Char)
  | _, [] => []
  | region, c :: cs => (region, c) :: placed (region.behind c) cs

/-- A space or a line feed outside strings. -/
def isGap (located : Region × Char) : Bool :=
  located.1 = .outside && (located.2 = ' ' || located.2 = '\n')

/-- What is left of a text when the spaces and line feeds outside its strings are deleted. -/
def withoutGaps (text : String) : String :=
  String.ofList (((placed .outside text.toList).filter (!isGap ·)).map Prod.snd)

/-- No control character stands in a string of the text, whether behind a backslash or not. -/
def PlainStrings (text : String) : Prop :=
  ∀ located ∈ placed .outside text.toList, located.1 ≠ .outside → 32 ≤ located.2.toNat

section Regions

private theorem placed_append (region : Region) (cs ds : List Char) :
    placed region (cs ++ ds) = placed region cs ++ placed (cs.foldl Region.behind region) ds := by
  induction cs generalizing region with
  | nil => rfl
  | cons c cs ih => rw [List.cons_append, placed, ih, placed, List.foldl_cons, List.cons_append]

private theorem map_snd_placed (region : Region) (cs : List Char) :
    (placed region cs).map Prod.snd = cs := by
  induction cs generalizing region with
  | nil => rfl
  | cons c cs ih => rw [placed, List.map_cons, ih]

private theorem placed_outside_cons {c : Char} (h : c ≠ '"') (cs : List Char) :
    placed .outside (c :: cs) = (.outside, c) :: placed .outside cs := by
  rw [placed, Region.behind, if_neg h]

/-- Characters that may stand in a row in a string: none of them ends it, and none is a control
character. -/
def StaysInside (cs : List Char) : Prop :=
  cs.foldl Region.behind .inside = .inside ∧
    ∀ located ∈ placed .inside cs, located.1 ≠ .outside ∧ 32 ≤ located.2.toNat

theorem StaysInside.append {cs ds : List Char} (hc : StaysInside cs) (hd : StaysInside ds) :
    StaysInside (cs ++ ds) := by
  refine ⟨by rw [List.foldl_append, hc.1, hd.1], ?_⟩
  rw [placed_append, hc.1]
  exact List.forall_mem_append.mpr ⟨hc.2, hd.2⟩

instance (cs : List Char) : Decidable (StaysInside cs) := inferInstanceAs (Decidable (_ ∧ _))

private theorem staysInside_digitChar : ∀ n < 16, StaysInside [Nat.digitChar n] := by decide

/-- Whatever is escaped stays in the string. -/
theorem staysInside_escapeChar (c : Char) : StaysInside (escapeChar c) := by
  unfold escapeChar
  split_ifs with hquote hslash hb ht hn hf hr hcontrol
  any_goals decide
  · have hhigh := staysInside_digitChar (c.toNat / 16) (by omega)
    have hlow := staysInside_digitChar (c.toNat % 16) (by omega)
    exact (show StaysInside ['\\', 'u', '0', '0'] by decide).append (hhigh.append hlow)
  · have hbehind : Region.behind .inside c = .inside := by simp [Region.behind, hquote, hslash]
    exact ⟨hbehind, by simp [placed]; omega⟩

theorem staysInside_flatMap (text : List Char) : StaysInside (text.flatMap escapeChar) := by
  induction text with
  | nil => exact ⟨rfl, by simp [placed]⟩
  | cons c text ih =>
    rw [List.flatMap_cons]
    exact (staysInside_escapeChar c).append ih

/-- Behind a string one is outside again. -/
theorem placed_writeString (text : String) (rest : List Char) :
    placed .outside (writeString text rest) =
      (.outside, '"') :: placed .inside (text.toList.flatMap escapeChar) ++
        (.inside, '"') :: placed .outside rest := by
  have hopens : Region.behind .outside '"' = .inside := rfl
  rw [writeString, List.cons_append, placed, hopens, placed_append,
    (staysInside_flatMap text.toList).1]
  rfl

end Regions

section Tokens
variable {layout : Layout} {cs ds : List Char}

/-- The second text is the first one without gaps. A token that is no string is read as the
characters that it consists of. -/
inductive SameTokens : List Char → List Char → Prop where
  | nil : SameTokens [] []
  | gap {c : Char} {cs ds : List Char} : c = ' ' ∨ c = '\n' → SameTokens cs ds →
      SameTokens (c :: cs) ds
  | sign {c : Char} {cs ds : List Char} : 32 < c.toNat → c ≠ '"' → SameTokens cs ds →
      SameTokens (c :: cs) (c :: ds)
  | string {cs ds : List Char} (text : String) : SameTokens cs ds →
      SameTokens (writeString text cs) (writeString text ds)

private theorem ne_quote_of_gap {c : Char} (h : c = ' ' ∨ c = '\n') : c ≠ '"' := by
  rcases h with rfl | rfl <;> decide

namespace SameTokens

theorem gaps {blanks : List Char} (hb : ∀ c ∈ blanks, c = ' ' ∨ c = '\n') (h : SameTokens cs ds) :
    SameTokens (blanks ++ cs) ds := by
  induction blanks with
  | nil => exact h
  | cons b blanks ih =>
    rw [List.forall_mem_cons] at hb
    exact .gap hb.1 (ih hb.2)

theorem signs (token : List Char) (ht : ∀ c ∈ token, 32 < c.toNat ∧ c ≠ '"')
    (h : SameTokens cs ds) : SameTokens (token ++ cs) (token ++ ds) := by
  induction token with
  | nil => exact h
  | cons c token ih =>
    rw [List.forall_mem_cons] at ht
    exact .sign ht.1.1 ht.1.2 (ih ht.2)

theorem filter_placed (h : SameTokens cs ds) :
    ((placed .outside cs).filter (!isGap ·)).map Prod.snd = ds := by
  induction h with
  | nil => rfl
  | @gap c cs ds hc _ ih =>
    have hgap : isGap (.outside, c) := by simpa [isGap] using hc
    rw [placed_outside_cons (ne_quote_of_gap hc), List.filter_cons_of_neg (by simp [hgap]), ih]
  | @sign c cs ds hc hquote _ ih =>
    have hspace : c ≠ ' ' := by rintro rfl; exact absurd hc (by decide)
    have hfeed : c ≠ '\n' := by rintro rfl; exact absurd hc (by decide)
    have hgap : isGap (.outside, c) = false := by simp [isGap, hspace, hfeed]
    rw [placed_outside_cons hquote, List.filter_cons_of_pos (by simp [hgap]), List.map_cons, ih]
  | @string cs ds text _ ih =>
    have hstays : (placed .inside (text.toList.flatMap escapeChar)).filter (!isGap ·) =
        placed .inside (text.toList.flatMap escapeChar) := by
      refine List.filter_eq_self.mpr fun located hlocated => ?_
      have houtside := ((staysInside_flatMap text.toList).2 located hlocated).1
      simp [isGap, houtside]
    rw [placed_writeString, List.filter_append, List.filter_cons_of_pos rfl, hstays,
      List.filter_cons_of_pos rfl, List.map_append, List.map_cons, map_snd_placed, List.map_cons, ih]
    rfl

theorem plain_placed (h : SameTokens cs ds) :
    ∀ located ∈ placed .outside cs, located.1 ≠ .outside → 32 ≤ located.2.toNat := by
  induction h with
  | nil => simp [placed]
  | gap hc _ ih =>
    rw [placed_outside_cons (ne_quote_of_gap hc)]
    exact List.forall_mem_cons.mpr ⟨fun h => absurd rfl h, ih⟩
  | sign _ hquote _ ih =>
    rw [placed_outside_cons hquote]
    exact List.forall_mem_cons.mpr ⟨fun h => absurd rfl h, ih⟩
  | string text _ ih =>
    rw [placed_writeString]
    refine List.forall_mem_append.mpr ⟨List.forall_mem_cons.mpr ⟨fun h => absurd rfl h, ?_⟩,
      List.forall_mem_cons.mpr ⟨fun _ => by decide, ih⟩⟩
    exact fun located hlocated _ => ((staysInside_flatMap text.toList).2 located hlocated).2

/-- Without gaps there are no control characters at all. -/
theorem printable (h : SameTokens cs ds) : ∀ c ∈ ds, 32 ≤ c.toNat := by
  induction h with
  | nil => simp
  | gap _ _ ih => exact ih
  | sign hc _ _ ih => exact List.forall_mem_cons.mpr ⟨hc.le, ih⟩
  | string text _ ih =>
    have hstays := (staysInside_flatMap text.toList).2
    rw [writeString, List.cons_append]
    refine List.forall_mem_cons.mpr ⟨by decide, List.forall_mem_append.mpr
      ⟨fun c hc => ?_, List.forall_mem_cons.mpr ⟨by decide, ih⟩⟩⟩
    rw [← map_snd_placed .inside (text.toList.flatMap escapeChar)] at hc
    obtain ⟨located, hlocated, rfl⟩ := List.mem_map.mp hc
    exact (hstays located hlocated).2

end SameTokens

/-- Only spaces and line feeds stand between the tokens. -/
structure Layout.Spaced (layout : Layout) : Prop where
  lineBreak : ∀ depth, ∀ c ∈ layout.lineBreak depth, c = ' ' ∨ c = '\n'
  gap : ∀ c ∈ layout.gap, c = ' ' ∨ c = '\n'

theorem Layout.spaced_compact : compact.Spaced :=
  ⟨fun _ _ hc => absurd hc List.not_mem_nil, fun _ hc => absurd hc List.not_mem_nil⟩

theorem Layout.spaced_pretty : pretty.Spaced := by
  refine ⟨fun depth => List.forall_mem_cons.mpr ⟨.inr rfl, fun c hc => ?_⟩,
    List.forall_mem_singleton.mpr (.inl rfl)⟩
  exact .inl (List.eq_of_mem_replicate hc)

private theorem sign_of_mem_toString {value : Int} {c : Char} (h : c ∈ (toString value).toList) :
    32 < c.toNat ∧ c ≠ '"' := by
  have hnumeral := isNumeral_of_mem_toString h
  simp only [isNumeral, Bool.or_eq_true, beq_iff_eq] at hnumeral
  rcases hnumeral with hdigit | rfl
  · have hlow : 48 ≤ c.toNat := (Char.isDigit_iff_toNat.mp hdigit).1
    refine ⟨by omega, ?_⟩
    rintro rfl
    exact absurd hlow (by decide)
  · decide

/-! The induction is on a value, its items and its fields, whatever follows it in the two texts. -/

mutual

private theorem sameTokens_write (hl : layout.Spaced) : ∀ (value : Json) {depth depth' : Nat}
    {rest rest' : List Char}, SameTokens rest rest' →
    SameTokens (value.write layout depth rest) (value.write .compact depth' rest')
  | .number value, _, _, _, _, h => h.signs _ fun _ => sign_of_mem_toString
  | .string text, _, _, _, _, h => .string text h
  | .array [], _, _, _, _, h => h.signs ['[', ']'] (by simp)
  | .array (item :: items), _, _, _, _, h => by
    refine .sign (by decide) (by decide) (.gaps (hl.lineBreak _) ?_)
    exact sameTokens_write hl item (sameTokens_writeItems hl items h)
  | .object [], _, _, _, _, h => h.signs ['\x7b', '\x7d'] (by simp)
  | .object ((key, value) :: fields), _, _, _, _, h => by
    refine .sign (by decide) (by decide) (.gaps (hl.lineBreak _) (.string key ?_))
    refine .sign (by decide) (by decide) (.gaps hl.gap ?_)
    exact sameTokens_write hl value (sameTokens_writeFields hl fields h)

theorem sameTokens_writeItems (hl : layout.Spaced) : ∀ (items : List Json) {depth depth' : Nat}
    {rest rest' : List Char}, SameTokens rest rest' →
    SameTokens (writeItems layout depth items rest) (writeItems .compact depth' items rest')
  | [], _, _, _, _, h => .gaps (hl.lineBreak _) (.sign (by decide) (by decide) h)
  | item :: items, _, _, _, _, h => by
    refine .sign (by decide) (by decide) (.gaps (hl.lineBreak _) ?_)
    exact sameTokens_write hl item (sameTokens_writeItems hl items h)

theorem sameTokens_writeFields (hl : layout.Spaced) : ∀ (fields : List (String × Json))
    {depth depth' : Nat} {rest rest' : List Char}, SameTokens rest rest' →
    SameTokens (writeFields layout depth fields rest) (writeFields .compact depth' fields rest')
  | [], _, _, _, _, h => .gaps (hl.lineBreak _) (.sign (by decide) (by decide) h)
  | (key, value) :: fields, _, _, _, _, h => by
    refine .sign (by decide) (by decide) (.gaps (hl.lineBreak _) (.string key ?_))
    refine .sign (by decide) (by decide) (.gaps hl.gap ?_)
    exact sameTokens_write hl value (sameTokens_writeFields hl fields h)

end

theorem sameTokens_text (hl : layout.Spaced) (value : Json) :
    SameTokens (value.text layout).toList (value.text .compact).toList := by
  rw [text, text, String.toList_ofList, String.toList_ofList]
  exact sameTokens_write hl value .nil

/-- All layouts come to the compact one when gaps are deleted. -/
theorem withoutGaps_text (hl : layout.Spaced) (value : Json) :
    withoutGaps (value.text layout) = value.text .compact := by
  rw [withoutGaps, (sameTokens_text hl value).filter_placed, String.ofList_toList]

example : withoutGaps "\x7b\n  \"a \\\" b\": [],\n  \"c\": -1\n\x7d" =
    "\x7b\"a \\\" b\":[],\"c\":-1\x7d" := by decide +kernel

/-- No string of a text has a control character in it, in whatever layout. -/
theorem plainStrings_text (hl : layout.Spaced) (value : Json) : PlainStrings (value.text layout) :=
  (sameTokens_text hl value).plain_placed

/-- The two layouts have the same tokens, no control character stands in a string, and in the compact
layout none stands anywhere, so that it is one line. -/
structure LayoutsAgree (value : Json) : Prop where
  withoutGaps_pretty : withoutGaps (value.text .pretty) = value.text .compact
  pretty : PlainStrings (value.text .pretty)
  compact : PlainStrings (value.text .compact)
  line : ∀ c ∈ (value.text .compact).toList, 32 ≤ c.toNat

end Tokens

end ActorAsm.Json
