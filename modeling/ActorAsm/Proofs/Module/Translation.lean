import ActorAsm.Document.Basic
import ActorAsm.Node.OfStatements
import ActorAsm.Proofs.Module.WellFormed
import Mathlib.Data.List.Basic

/-! Modules with other tokens in the same places. Labels, module names and references to them are
names; everything else is a word, mnemonics among it, although they are spelled like names. -/

namespace ActorAsm

/-- Operators whose first operand is a mnemonic. -/
def Operator.takesMnemonic : Operator → Bool
  | .mnemonic _ | .finish => true
  | _ => false

section Tokens
variable (name word : Token → Token)

/-- The name behind a module name belongs to that module, and is a word in this one. -/
def Reference.mapTokens : Reference → Reference
  | .bare n => .bare (name n)
  | .qualified moduleName n => .qualified (name moduleName) (word n)

def Value.mapTokens : Value → Value
  | .literal token => .literal (word token)
  | .number value token => .number value (word token)
  | .reference target => .reference (target.mapTokens name word)

/-- A value where a mnemonic is asked for. -/
def Value.mapMnemonic : Value → Value
  | .reference (.bare n) => .reference (.bare (word n))
  | value => value.mapTokens name word

/-- Operands, the first of which may be a mnemonic. -/
def Value.mapOperands (mnemonic : Bool) : List Value → List Value
  | [] => []
  | first :: rest =>
    (if mnemonic then first.mapMnemonic name word else first.mapTokens name word) ::
      rest.map (Value.mapTokens name word)

def Statement.mapTokens (s : Statement) : Statement where
  operator := word s.operator
  operands := Value.mapOperands name word (s.operation?.any Operator.takesMnemonic) s.operands

def Definition.mapTokens (d : Definition) : Definition where
  label := name d.label
  aliases := d.aliases.map name
  statement := d.statement.mapTokens name word
  following := d.following.map (Statement.mapTokens name word)

def Importation.mapTokens (i : Importation) : Importation := { i with moduleName := name i.moduleName }

def Module.mapTokens (m : Module) : Module where
  imports := m.imports.map (Importation.mapTokens name)
  definitions := m.definitions.map (Definition.mapTokens name word)
  exports := m.exports.map name

theorem Module.labels_mapTokens (m : Module) :
    (m.mapTokens name word).labels = m.labels.map name := by
  simp [Module.labels, Module.mapTokens, Definition.labels, Definition.mapTokens,
    List.flatMap_map, List.map_flatMap]

end Tokens

section Documents
variable (spell : String → String) (origin : Debug → Debug)

/-- A target with its name spelled anew. Names of definitions of other modules stay. -/
def Target.translate : Target → Target
  | .label name => .label (spell name)
  | .external moduleName name => .external (spell moduleName) name

/-- A node with names spelled anew and other origins, at every depth. -/
def Node.translate : Node → Node
  | .literal value => .literal value
  | .typeTag tag => .typeTag tag
  | .fixnum value => .fixnum value
  | .reference target debug => .reference (target.translate spell) (origin debug)
  | .pair head tail debug => .pair head.translate tail.translate (origin debug)
  | .dict key value next debug =>
    .dict key.translate value.translate next.translate (origin debug)
  | .typeq imm k debug => .typeq imm k.translate (origin debug)
  | .fixnumOp op imm k debug => .fixnumOp op imm k.translate (origin debug)
  | .exprOp op imm k debug => .exprOp op imm.translate k.translate (origin debug)
  | .depth k debug => .depth k.translate (origin debug)
  | .branch onTrue onFalse debug => .branch onTrue.translate onFalse.translate (origin debug)
  | .mnemonicOp op imm k debug => .mnemonicOp op imm k.translate (origin debug)
  | .finish imm debug => .finish imm (origin debug)

def Document.translate (d : Document) : Document where
  imports := d.imports.map (Prod.map spell id)
  define := d.define.map (Prod.map spell (Node.translate spell origin))
  exports := d.exports.map spell

/-- Only a redefinition tells a name. -/
def Fault.translate : Fault → Fault
  | .redefinition name => .redefinition (spell name)
  | fault => fault

end Documents

/-- Other tokens for what is generated in one scope, to generate the same in another scope. Names
are spelled anew, different ones differently, and words keep their texts. Where nodes say they come
from changes as the tokens do. -/
structure Translation (scope scope' : Scope) where
  name : Token → Token
  word : Token → Token
  spell : String → String
  origin : Debug → Debug
  injective : Function.Injective spell
  text_name : ∀ t, (name t).text = spell t.text
  text_word : ∀ t, (word t).text = t.text
  debug_name : ∀ t, scope'.debug (name t) = origin (scope.debug t)
  debug_word : ∀ t, scope'.debug (word t) = origin (scope.debug t)
  labels : scope'.labels = scope.labels.map spell
  moduleNames : scope'.moduleNames = scope.moduleNames.map spell

namespace Translation
variable {scope scope' : Scope} (T : Translation scope scope') {α β : Type}

/-- The same fault, at the token in the place of the blamed one. -/
inductive Blames : Failure → Failure → Prop where
  | name (fault : Fault) (token : Token) :
      Blames (.onToken fault token) (.onToken (fault.translate T.spell) (T.name token))
  | word (fault : Fault) (token : Token) :
      Blames (.onToken fault token) (.onToken (fault.translate T.spell) (T.word token))

/-- What succeeds does so with the image of the result, and what fails does so alike. -/
inductive Carries (g : α → β) : Except Failure α → Except Failure β → Prop where
  | ok (a : α) : Carries g (.ok a) (.ok (g a))
  | error {failure failure' : Failure} : T.Blames failure failure' →
      Carries g (.error failure) (.error failure')

theorem mem_labels_iff (name : String) : T.spell name ∈ scope'.labels ↔ name ∈ scope.labels := by
  rw [T.labels, List.mem_map_of_injective T.injective]

theorem mem_moduleNames_iff (name : String) :
    T.spell name ∈ scope'.moduleNames ↔ name ∈ scope.moduleNames := by
  rw [T.moduleNames, List.mem_map_of_injective T.injective]

theorem literalName_word (t : Token) : (T.word t).literalName = t.literalName := by
  rw [Token.literalName, Token.literalName, T.text_word]

/-- An operand is blamed at its first token, be it a name or not. -/
theorem blames_token (fault : Fault) (value : Value) :
    T.Blames (.onToken fault value.token)
      (.onToken (fault.translate T.spell) (value.mapTokens T.name T.word).token) := by
  cases value with
  | literal token => exact .word fault token
  | number n token => exact .word fault token
  | reference target =>
    cases target with
    | bare name => exact .name fault name
    | qualified moduleName name => exact .name fault moduleName

theorem carries_ok {g : α → β} {b : β} (a : α) (h : b = g a) : T.Carries g (.ok a) (.ok b) := by
  subst h
  exact .ok a

namespace Carries
variable {T}

theorem bind {γ δ : Type} {g : α → β} {k : γ → δ} {x : Except Failure α} {y : Except Failure β}
    {f : α → Except Failure γ} {f' : β → Except Failure δ} (hx : T.Carries g x y)
    (hf : ∀ a, x = .ok a → T.Carries k (f a) (f' (g a))) : T.Carries k (x >>= f) (y >>= f') := by
  cases hx with
  | ok a => exact hf a rfl
  | error h => exact .error h

theorem map {γ δ : Type} {g : α → β} {k : γ → δ} {x : Except Failure α} {y : Except Failure β}
    {f : α → γ} {f' : β → δ} (hx : T.Carries g x y) (hf : ∀ a, f' (g a) = k (f a)) :
    T.Carries k (x.map f) (y.map f') := by
  cases hx with
  | ok a => exact T.carries_ok (f a) (hf a)
  | error h => exact .error h

theorem foldlM {σ τ : Type} {g : σ → τ} {k : α → β} {f : σ → α → Except Failure σ}
    {f' : τ → β → Except Failure τ} (hf : ∀ s a, T.Carries g (f s a) (f' (g s) (k a)))
    (l : List α) (s : σ) : T.Carries g (l.foldlM f s) ((l.map k).foldlM f' (g s)) := by
  induction l generalizing s with
  | nil => exact .ok s
  | cons a l ih =>
    rw [List.map_cons, List.foldlM_cons, List.foldlM_cons]
    exact (hf s a).bind fun t _ => ih t

end Carries

end Translation

end ActorAsm
