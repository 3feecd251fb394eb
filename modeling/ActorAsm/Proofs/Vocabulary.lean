import ActorAsm.Module.Basic
import ActorAsm.Operator

/-! Words by themselves. Names are unambiguous: an operator, a type or a constant is found under its
own name and under no other. -/

namespace ActorAsm

/-- A token of this kind, wherever it stands. -/
def Token.ofText (kind : Kind) (text : String) : Token := ⟨kind, text, 0, 0, 0⟩

/-- A name on a line. -/
def Token.named (line : Nat) (text : String) : Token := { ofText .name text with line := line }

/-- A name on a line as an operand. -/
def Value.named (line : Nat) (text : String) : Value := .reference (.bare (.named line text))

namespace Literal

theorem ofSymbol?_symbol (value : Literal) : ofSymbol? value.symbol = some value := by
  cases value <;> decide

theorem ofSymbol?_eq_some_iff {symbol : String} {value : Literal} :
    ofSymbol? symbol = some value ↔ value.symbol = symbol := by
  constructor
  · intro h
    simpa using List.find?_some h
  · rintro rfl
    exact ofSymbol?_symbol value

theorem text_injective : Function.Injective text := by
  intro value value' h
  cases value <;> cases value' <;> first | rfl | exact absurd h (by decide)

end Literal

namespace TypeTag

theorem ofName?_name (tag : TypeTag) : ofName? tag.name = some tag := by
  cases tag <;> decide

theorem ofName?_eq_some_iff {name : String} {tag : TypeTag} :
    ofName? name = some tag ↔ tag.name = name := by
  constructor
  · intro h
    simpa using List.find?_some h
  · rintro rfl
    exact ofName?_name tag

theorem name_injective : Function.Injective name := fun tag _ h =>
  Option.some.inj ((ofName?_name tag).symm.trans (ofName?_eq_some_iff.mpr h.symm))

end TypeTag

namespace Operator

theorem ofName?_name (op : Operator) : ofName? op.name = some op := by
  cases op with
  | fixnum op | expr op | mnemonic op | branch op => cases op <;> decide
  | _ => decide

theorem ofName?_eq_some_iff {name : String} {op : Operator} :
    ofName? name = some op ↔ op.name = name := by
  constructor
  · intro h
    simpa using List.find?_some h
  · rintro rfl
    exact ofName?_name op

theorem name_injective : Function.Injective name := fun op _ h =>
  Option.some.inj ((ofName?_name op).symm.trans (ofName?_eq_some_iff.mpr h.symm))

example : all.length = 28 ∧ ofName? "if_not" = some (.branch true) := by decide

end Operator

end ActorAsm
