import ActorAsm.Text.Quoted

/-!
Tokens: lexical units with their kind, text and place in the source.
-/

namespace ActorAsm

/-- A number carries its value; all other kinds are plain. -/
inductive Token.Kind where
  | newline
  | space
  | comment
  | name
  | literal
  | number (value : Int)
  | string
  | punct
  | error
  deriving DecidableEq

/-- Lines and columns count from zero. `columnTo` is one past the last column. -/
structure Token where
  kind : Token.Kind
  text : String
  line : Nat
  column : Nat
  columnTo : Nat
  deriving DecidableEq

namespace Token

/-- The word for a kind in a token's one-line form. -/
def Kind.word : Kind → String
  | .newline => "newline"
  | .space => "space"
  | .comment => "comment"
  | .name => "name"
  | .literal => "literal"
  | .number _ => "number"
  | .string => "string"
  | .punct => "punct"
  | .error => "error"

/-- The kind as it is named when a token is described field by field. -/
def Kind.description : Kind → String
  | .newline => "Newline"
  | .space => "Space"
  | .comment => "Comment"
  | .name => "Name"
  | .literal => "Literal"
  | .number value => "Number(" ++ toString value ++ ")"
  | .string => "Str"
  | .punct => "Punct"
  | .error => "Error"

/-- The one-line form, when these characters are hidden. Line breaks and errors show only where they
are. -/
def displayHiding (hidden : Char → Bool) (t : Token) : String :=
  let place := toString t.line ++ ":" ++ toString t.column
  match t.kind with
  | .newline | .error => place ++ " " ++ t.kind.word
  | _ =>
    place ++ "-" ++ toString t.columnTo ++ " " ++ t.kind.word ++ " " ++
      Text.quotedHiding hidden t.text

/-- The one-line form. -/
def display (t : Token) : String := t.displayHiding Text.isHidden

/-- All fields of the token on one line. -/
def description (t : Token) : String :=
  "Token \x7b kind: " ++ t.kind.description ++ ", text: " ++ Text.quoted t.text ++
    ", line: " ++ toString t.line ++ ", column: " ++ toString t.column ++
    ", column_to: " ++ toString t.columnTo ++ " \x7d"

def isName (t : Token) : Bool := t.kind = .name

/-- The text behind its first character, provided that character is ASCII. -/
def literalName (t : Token) : String :=
  match t.text.toList with
  | c :: cs => if c.toNat < 128 then String.ofList cs else ""
  | [] => ""

/-- The text between its first and last characters, provided both are ASCII. -/
def stringValue (t : Token) : String :=
  match t.text.toList with
  | c :: d :: cs =>
    let inner := (d :: cs).dropLast
    let last := (d :: cs).getLast (List.cons_ne_nil d cs)
    if c.toNat < 128 ∧ last.toNat < 128 then String.ofList inner else ""
  | _ => ""

end Token

end ActorAsm
