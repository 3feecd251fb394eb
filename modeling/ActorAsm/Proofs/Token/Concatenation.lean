import ActorAsm.Proofs.Token.OfSource

/-! Sources put together. If a line ends where the first one ends, its tokens stay as they are, and
those of the second one only come as many lines further down as the first one has line breaks. -/

namespace ActorAsm.Token
variable {source before : String}

/-- The token, this many lines further down. -/
def moveDown (lines : Nat) (t : Token) : Token := { t with line := t.line + lines }

/-- Behind the source a line begins. A lone carriage return does not count, because a line feed
behind it would belong to the same line break. -/
inductive EndsLine (source : String) : Prop where
  | empty : source = "" → EndsLine source
  | newline {newline : Token} : (∀ t ∈ ofSource source, t.kind ≠ .error) →
      (ofSource source).getLast? = some newline → newline.kind = .newline → newline.text ≠ "\r" →
      EndsLine source

/-- The line in which a scanner begins is only added to the lines that it counts. -/
theorem tokens_moveDown (lines : Nat) (rest : List Char) :
    (⟨rest, lines, 0⟩ : Scanner).tokens =
      (⟨rest, 0, 0⟩ : Scanner).tokens.map (moveDown lines) := by
  have hmoved : (⟨rest, 0, 0⟩ : Scanner).relocate ⟨(· + lines), id, id⟩ = ⟨rest, lines, 0⟩ := by
    simp [Scanner.relocate]
  rw [← hmoved]
  exact Scanner.tokens_relocate (fun l _ => Nat.add_right_comm l 1 lines) rfl rfl

/-- Where a line begins the scanner begins anew. So the tokens of two sources put together there are
the tokens of the first one, then those of the second one, moved down by the lines of the first. -/
theorem ofSource_append (h : EndsLine before) (behind : String) :
    ofSource (before ++ behind) = ofSource before ++
      (ofSource behind).map (moveDown ((ofSource before).countP (·.kind = .newline))) := by
  cases h with
  | empty hempty =>
    have hnone : ofSource "" = [] := Scanner.tokens_of_next?_none (Scanner.next?_of_rest_nil rfl)
    have hstay : moveDown 0 = id := rfl
    rw [hempty, String.empty_append, hnone, List.countP_nil, hstay, List.map_id, List.nil_append]
  | @newline newline hplain hlast hkind hcr =>
    obtain ⟨front, hfront⟩ := List.getLast?_eq_some_iff.mp hlast
    have htexts : texts (front ++ [newline]) = before.toList := hfront ▸ texts_ofSource hplain
    have hread : (Scanner.ofString before).rest = texts (front ++ [newline]) ++ [] := by
      rw [htexts, List.append_nil]
      rfl
    obtain ⟨-, -, hagain⟩ := Scanner.tokens_of_line hfront hkind hcr hread
    have hlines : newline.line + 1 = (ofSource before).countP (·.kind = .newline) := by
      have hline := Scanner.line_eq_countP hfront
      rw [hfront, List.countP_append, hline]
      simp [hkind, Scanner.ofString]
    calc ofSource (before ++ behind)
      _ = { Scanner.ofString before with
            rest := texts (front ++ [newline]) ++ behind.toList }.tokens := by
        rw [htexts, ← String.toList_append]
        rfl
      _ = front ++ newline :: (⟨behind.toList, newline.line + 1, 0⟩ : Scanner).tokens :=
        hagain behind.toList
      _ = ofSource before ++
          (ofSource behind).map (moveDown ((ofSource before).countP (·.kind = .newline))) := by
        rw [tokens_moveDown, hlines, hfront, List.append_assoc, List.singleton_append]
        rfl

/-- The string in front goes over two lines, and a quote is left open in the comment. Behind it comes
a number that is out of range. -/
theorem ofSource_append_commented :
    EndsLine "\"a\r\" ;\"\r\n" ∧ ofSource ("\"a\r\" ;\"\r\n" ++ "x\n 9007199254740992") =
      [⟨.string, "\"a\r\"", 0, 0, 4⟩, ⟨.space, " ", 0, 4, 5⟩, ⟨.comment, ";\"", 0, 5, 7⟩,
        ⟨.newline, "\r\n", 0, 7, 9⟩, ⟨.name, "x", 1, 0, 1⟩, ⟨.newline, "\n", 1, 1, 2⟩,
        ⟨.space, " ", 2, 0, 1⟩, ⟨.error, "", 2, 17, 17⟩] := by
  have hbefore : ofSource "\"a\r\" ;\"\r\n" = [⟨.string, "\"a\r\"", 0, 0, 4⟩,
      ⟨.space, " ", 0, 4, 5⟩, ⟨.comment, ";\"", 0, 5, 7⟩, ⟨.newline, "\r\n", 0, 7, 9⟩] := by
    decide +kernel
  have hbehind : ofSource "x\n 9007199254740992" = [⟨.name, "x", 0, 0, 1⟩,
      ⟨.newline, "\n", 0, 1, 2⟩, ⟨.space, " ", 1, 0, 1⟩, ⟨.error, "", 1, 17, 17⟩] := by
    decide +kernel
  have h : EndsLine "\"a\r\" ;\"\r\n" :=
    .newline (by rw [hbefore]; decide) (by rw [hbefore]; rfl) rfl (by decide)
  refine ⟨h, ?_⟩
  rw [ofSource_append h, hbefore, hbehind]
  rfl

end ActorAsm.Token
