import ActorAsm.Proofs.Matcher.Derivation
import ActorAsm.Module.Grammar

/-! The grammar of modules as derivations, one relation for each of its rules. Nothing here knows
of matchers: alternatives have no order, and a repetition may end anywhere. The second half shows
that the matchers derive nothing else. -/

namespace ActorAsm

/-- A punctuation mark. -/
def Token.IsPunct (t : Token) (text : String) : Prop := t.kind = .punct ∧ t.text = text

/-- A name that is spelled like this. -/
def Token.IsKeyword (t : Token) (text : String) : Prop := t.kind = .name ∧ t.text = text

namespace Grammar
open Reading (Repeated AtLeastOne Possible)

/-- line end = (space? comment)? NEWLINE -/
inductive IsLineEnd : Reading Unit where
  | plain {newline : Token} : newline.kind = .newline → IsLineEnd [newline] ()
  | comment {comment newline : Token} : comment.kind = .comment → newline.kind = .newline →
      IsLineEnd [comment, newline] ()
  | spaced {space comment newline : Token} : space.kind = .space → comment.kind = .comment →
      newline.kind = .newline → IsLineEnd [space, comment, newline] ()

/-- line end+ -/
def AreLineEnds (xs : List Token) : Prop := ∃ ends, AtLeastOne IsLineEnd xs ends

/-- importation = space name ":" space STRING line end+ -/
inductive IsImportation : Reading Importation where
  | intro {space name colon space' string : Token} {ends : List Token} :
      space.kind = .space → name.kind = .name → colon.IsPunct ":" → space'.kind = .space →
      string.kind = .string → AreLineEnds ends →
      IsImportation (space :: name :: colon :: space' :: string :: ends) ⟨name, string.stringValue⟩

/-- imports = "." "import" line end+ importation* -/
inductive IsImports : Reading (List Importation) where
  | intro {dot word : Token} {ends xs : List Token} {imports : List Importation} :
      dot.IsPunct "." → word.IsKeyword "import" → AreLineEnds ends →
      Repeated IsImportation xs imports → IsImports (dot :: word :: (ends ++ xs)) imports

/-- label = name ":" line end+ -/
inductive IsLabel : Reading Token where
  | intro {name colon : Token} {ends : List Token} : name.kind = .name → colon.IsPunct ":" →
      AreLineEnds ends → IsLabel (name :: colon :: ends) name

/-- reference = name "." name | name -/
inductive IsReference : Reading Reference where
  | qualified {moduleName dot name : Token} : moduleName.kind = .name → dot.IsPunct "." →
      name.kind = .name → IsReference [moduleName, dot, name] (.qualified moduleName name)
  | bare {name : Token} : name.kind = .name → IsReference [name] (.bare name)

/-- value = LITERAL | NUMBER | reference -/
inductive IsValue : Reading Value where
  | literal {t : Token} : t.kind = .literal → IsValue [t] (.literal t)
  | number {t : Token} {value : Int} : t.kind = .number value → IsValue [t] (.number value t)
  | reference {xs : List Token} {target : Reference} : IsReference xs target →
      IsValue xs (.reference target)

/-- operand = space value -/
inductive IsOperand : Reading Value where
  | intro {space : Token} {xs : List Token} {value : Value} : space.kind = .space →
      IsValue xs value → IsOperand (space :: xs) value

/-- statement = space name operand* line end+ -/
inductive IsStatement : Reading Statement where
  | intro {space name : Token} {xs ends : List Token} {operands : List Value} :
      space.kind = .space → name.kind = .name → Repeated IsOperand xs operands →
      AreLineEnds ends → IsStatement (space :: name :: (xs ++ ends)) ⟨name, operands⟩

/-- definition = label+ statement+ -/
inductive IsDefinition : Reading Definition where
  | intro {xs ys : List Token} {label : Token} {aliases : List Token} {statement : Statement}
      {following : List Statement} : AtLeastOne IsLabel xs (label :: aliases) →
      AtLeastOne IsStatement ys (statement :: following) →
      IsDefinition (xs ++ ys) ⟨label, aliases, statement, following⟩

/-- exportation = space name line end+ -/
inductive IsExportation : Reading Token where
  | intro {space name : Token} {ends : List Token} : space.kind = .space → name.kind = .name →
      AreLineEnds ends → IsExportation (space :: name :: ends) name

/-- exports = "." "export" line end+ exportation* -/
inductive IsExports : Reading (List Token) where
  | intro {dot word : Token} {ends xs : List Token} {exports : List Token} :
      dot.IsPunct "." → word.IsKeyword "export" → AreLineEnds ends →
      Repeated IsExportation xs exports → IsExports (dot :: word :: (ends ++ xs)) exports

/-- module = line end* imports? definition* exports? -/
inductive IsModule : Reading Module where
  | intro {ws xs ys zs : List Token} {ends : List Unit} {imports : Option (List Importation)}
      {definitions : List Definition} {exports : Option (List Token)} :
      Repeated IsLineEnd ws ends → Possible IsImports xs imports →
      Repeated IsDefinition ys definitions → Possible IsExports zs exports →
      IsModule (ws ++ (xs ++ (ys ++ zs))) ⟨imports.getD [], definitions, exports.getD []⟩

section Soundness
open Matcher (andKeep andDrop derives_token_iff derives_oneOrMore_iff derives_optional_iff
  derives_andKeep_iff derives_andDrop_iff)
variable {xs : List Token}

theorem of_derives_kind {k : Token.Kind} {t : Token} (h : (kind k).Derives xs t) :
    xs = [t] ∧ t.kind = k := by
  simpa using derives_token_iff.mp h

theorem of_derives_punct {text : String} {t : Token} (h : (punct text).Derives xs t) :
    xs = [t] ∧ t.IsPunct text := by
  simpa [Token.IsPunct] using derives_token_iff.mp h

private theorem of_derives_directive {text : String} {t : Token}
    (h : (directive text).Derives xs t) :
    ∃ dot : Token, xs = [dot, t] ∧ dot.IsPunct "." ∧ t.IsKeyword text := by
  obtain ⟨ys, zs, dot, rfl, ddot, dword⟩ := derives_andKeep_iff.mp h
  obtain ⟨rfl, hdot⟩ := of_derives_punct ddot
  obtain ⟨rfl, hword⟩ := derives_token_iff.mp dword
  exact ⟨dot, rfl, hdot, by simpa [Token.IsKeyword] using hword⟩

theorem isLineEnd_of_derives (node : Unit) (h : lineEnd.Derives xs node) : IsLineEnd xs node := by
  obtain ⟨⟨comment?, newline⟩, ⟨ys, zs, rfl, dfront, dnewline⟩, -⟩ := h
  obtain ⟨rfl, hnewline⟩ := of_derives_kind dnewline
  cases derives_optional_iff.mp dfront with
  | absent => exact .plain hnewline
  | present dfront' =>
    obtain ⟨us, vs, space?, rfl, dspace, dcomment⟩ := derives_andKeep_iff.mp dfront'
    obtain ⟨rfl, hcomment⟩ := of_derives_kind dcomment
    cases derives_optional_iff.mp dspace with
    | absent => exact .comment hcomment hnewline
    | present dspace' =>
      obtain ⟨rfl, hspace⟩ := of_derives_kind dspace'
      exact .spaced hspace hcomment hnewline

private theorem areLineEnds_of_derives {node : Unit} (h : lineEnds.Derives xs node) :
    AreLineEnds xs := by
  obtain ⟨ends, hends, -⟩ := h
  exact ⟨ends, (derives_oneOrMore_iff.mp hends).imp fun _ => isLineEnd_of_derives⟩

theorem isImportation_of_derives (i : Importation) (h : importation.Derives xs i) :
    IsImportation xs i := by
  obtain ⟨⟨name, specifier⟩, ⟨ys, zs, rfl, dfront, dback⟩, rfl⟩ := h
  obtain ⟨ys, us, colon, rfl, dbegin, dcolon⟩ := derives_andDrop_iff.mp dfront
  obtain ⟨ys, vs, space, rfl, dspace, dname⟩ := derives_andKeep_iff.mp dbegin
  obtain ⟨zs, ws, _, rfl, dmiddle, dends⟩ := derives_andDrop_iff.mp dback
  obtain ⟨zs, ts, space', rfl, dspace', string, rfl, dstring⟩ := derives_andKeep_iff.mp dmiddle
  obtain ⟨rfl, hspace⟩ := of_derives_kind dspace
  obtain ⟨rfl, hname⟩ := of_derives_kind dname
  obtain ⟨rfl, hcolon⟩ := of_derives_punct dcolon
  obtain ⟨rfl, hspace'⟩ := of_derives_kind dspace'
  obtain ⟨hstring, hspecifier⟩ := Option.ite_none_right_eq_some.mp dstring
  cases hspecifier
  exact .intro hspace hname hcolon hspace' hstring (areLineEnds_of_derives dends)

theorem isImports_of_derives (is : List Importation) (h : imports.Derives xs is) :
    IsImports xs is := by
  obtain ⟨ys, zs, _, rfl, ⟨us, vs, rfl, dword, dends⟩, dimports⟩ := derives_andKeep_iff.mp h
  obtain ⟨dot, rfl, hdot, hword⟩ := of_derives_directive dword
  exact .intro hdot hword (areLineEnds_of_derives dends)
    (dimports.imp fun _ => isImportation_of_derives)

theorem isLabel_of_derives (t : Token) (h : label.Derives xs t) : IsLabel xs t := by
  obtain ⟨ys, zs, _, rfl, dname, us, vs, rfl, dcolon, dends⟩ := derives_andDrop_iff.mp h
  obtain ⟨rfl, hname⟩ := of_derives_kind dname
  obtain ⟨rfl, hcolon⟩ := of_derives_punct dcolon
  exact .intro hname hcolon (areLineEnds_of_derives dends)

private theorem isReference_of_derives (target : Reference) (h : reference.Derives xs target) :
    IsReference xs target := by
  rcases h with ⟨⟨moduleName, name⟩, ⟨ys, zs, rfl, dfront, dname⟩, rfl⟩ | ⟨name, dname, rfl⟩ | hnone
  · obtain ⟨ys, us, dot, rfl, dmodule, ddot⟩ := derives_andDrop_iff.mp dfront
    obtain ⟨rfl, hmodule⟩ := of_derives_kind dmodule
    obtain ⟨rfl, hdot⟩ := of_derives_punct ddot
    obtain ⟨rfl, hname⟩ := of_derives_kind dname
    exact .qualified hmodule hdot hname
  · obtain ⟨rfl, hname⟩ := of_derives_kind dname
    exact .bare hname
  · cases hnone

private theorem isValue_of_derives (v : Value) (h : value.Derives xs v) : IsValue xs v := by
  rcases h with ⟨t, dt, rfl⟩ | ⟨t, rfl, dt⟩ | ⟨target, dtarget, rfl⟩ | hnone
  · obtain ⟨rfl, ht⟩ := of_derives_kind dt
    exact .literal ht
  · dsimp only at dt
    split at dt
    next value hk =>
      cases dt
      exact .number hk
    · cases dt
  · exact .reference (isReference_of_derives target dtarget)
  · cases hnone

theorem isOperand_of_derives (v : Value) (h : (andKeep space value).Derives xs v) :
    IsOperand xs v := by
  obtain ⟨ys, zs, s, rfl, dspace, dvalue⟩ := derives_andKeep_iff.mp h
  obtain ⟨rfl, hspace⟩ := of_derives_kind dspace
  exact .intro hspace (isValue_of_derives v dvalue)

theorem isStatement_of_derives (s : Statement) (h : statement.Derives xs s) :
    IsStatement xs s := by
  obtain ⟨⟨operator, operands⟩, ⟨ys, zs, rfl, dfront, dback⟩, rfl⟩ := h
  obtain ⟨ys, us, space, rfl, dspace, dname⟩ := derives_andKeep_iff.mp dfront
  obtain ⟨zs, vs, _, rfl, doperands, dends⟩ := derives_andDrop_iff.mp dback
  obtain ⟨rfl, hspace⟩ := of_derives_kind dspace
  obtain ⟨rfl, hname⟩ := of_derives_kind dname
  change IsStatement (space :: operator :: (zs ++ vs)) ⟨operator, operands⟩
  exact .intro hspace hname (doperands.imp fun _ => isOperand_of_derives)
    (areLineEnds_of_derives dends)

theorem isDefinition_of_derives (d : Definition) (h : definition.Derives xs d) :
    IsDefinition xs d := by
  obtain ⟨⟨⟨label, aliases⟩, statement, following⟩, ⟨ys, zs, rfl, dfront, dback⟩, rfl⟩ := h
  obtain ⟨ys, us, rfl, dlabel, daliases⟩ := dfront
  obtain ⟨zs, vs, rfl, dstatement, dfollowing⟩ := dback
  exact .intro
    (.cons (isLabel_of_derives label dlabel) (daliases.imp fun _ => isLabel_of_derives))
    (.cons (isStatement_of_derives statement dstatement)
      (dfollowing.imp fun _ => isStatement_of_derives))

theorem isExportation_of_derives (t : Token)
    (h : (andDrop (andKeep space name) lineEnds).Derives xs t) : IsExportation xs t := by
  obtain ⟨ys, zs, _, rfl, dfront, dends⟩ := derives_andDrop_iff.mp h
  obtain ⟨ys, us, space, rfl, dspace, dname⟩ := derives_andKeep_iff.mp dfront
  obtain ⟨rfl, hspace⟩ := of_derives_kind dspace
  obtain ⟨rfl, hname⟩ := of_derives_kind dname
  exact .intro hspace hname (areLineEnds_of_derives dends)

theorem isExports_of_derives (names : List Token) (h : exports.Derives xs names) :
    IsExports xs names := by
  obtain ⟨ys, zs, _, rfl, ⟨us, vs, rfl, dword, dends⟩, dnames⟩ := derives_andKeep_iff.mp h
  obtain ⟨dot, rfl, hdot, hword⟩ := of_derives_directive dword
  exact .intro hdot hword (areLineEnds_of_derives dends)
    (dnames.imp fun _ => isExportation_of_derives)

theorem isModule_of_derives {m : Module} (h : module.Derives xs m) : IsModule xs m := by
  obtain ⟨⟨imports?, definitions, exports?⟩, dparts, rfl⟩ := h
  obtain ⟨ws, vs, ends, rfl, dends, xs, us, rfl, dimports, ys, zs, rfl, ddefinitions, dexports⟩ :=
    derives_andKeep_iff.mp dparts
  exact .intro (dends.imp fun _ => isLineEnd_of_derives)
    ((derives_optional_iff.mp dimports).imp fun _ => isImports_of_derives)
    (ddefinitions.imp fun _ => isDefinition_of_derives)
    ((derives_optional_iff.mp dexports).imp fun _ => isExports_of_derives)

end Soundness

end Grammar

end ActorAsm
