/-!
JSON values and their text. Fields keep the order in which they are given. A layout says what is
written between the tokens, so all texts of one value differ in blanks only.
-/

namespace ActorAsm

inductive Json where
  | number (value : Int)
  | string (text : String)
  | array (items : List Json)
  | object (fields : List (String × Json))

namespace Json

/-- What separates tokens: a line break in front of a token at some depth, and a gap behind a
colon. -/
structure Layout where
  lineBreak : Nat → List Char
  gap : List Char

namespace Layout

/-- Everything on one line, without blanks. -/
def compact : Layout := ⟨fun _ => [], []⟩

/-- One item to a line, two spaces deeper than what it is part of. -/
def pretty : Layout := ⟨fun depth => '\n' :: List.replicate (2 * depth) ' ', [' ']⟩

end Layout

/-- Control characters are escaped by number, unless they have a letter of their own. -/
def escapeChar (c : Char) : List Char :=
  if c = '"' then ['\\', '"']
  else if c = '\\' then ['\\', '\\']
  else if c = '\x08' then ['\\', 'b']
  else if c = '\t' then ['\\', 't']
  else if c = '\n' then ['\\', 'n']
  else if c = '\x0c' then ['\\', 'f']
  else if c = '\r' then ['\\', 'r']
  else if c.toNat < 32 then
    ['\\', 'u', '0', '0', Nat.digitChar (c.toNat / 16), Nat.digitChar (c.toNat % 16)]
  else [c]

/-- A string between quotes, in front of a rest. -/
def writeString (text : String) (rest : List Char) : List Char :=
  '"' :: text.toList.flatMap escapeChar ++ '"' :: rest

mutual

/-- A value at some depth, in front of a rest. -/
def write (layout : Layout) (depth : Nat) : Json → List Char → List Char
  | .number value, rest => (toString value).toList ++ rest
  | .string text, rest => writeString text rest
  | .array [], rest => '[' :: ']' :: rest
  | .array (item :: items), rest =>
    '[' :: layout.lineBreak (depth + 1) ++ write layout (depth + 1) item
      (writeItems layout depth items rest)
  | .object [], rest => '{' :: '}' :: rest
  | .object ((key, value) :: fields), rest =>
    '{' :: layout.lineBreak (depth + 1) ++ writeString key (':' :: layout.gap ++
      write layout (depth + 1) value (writeFields layout depth fields rest))

/-- The items behind the first one, and the end of the array. -/
def writeItems (layout : Layout) (depth : Nat) : List Json → List Char → List Char
  | [], rest => layout.lineBreak depth ++ ']' :: rest
  | item :: items, rest =>
    ',' :: layout.lineBreak (depth + 1) ++ write layout (depth + 1) item
      (writeItems layout depth items rest)

/-- The fields behind the first one, and the end of the object. -/
def writeFields (layout : Layout) (depth : Nat) : List (String × Json) → List Char → List Char
  | [], rest => layout.lineBreak depth ++ '}' :: rest
  | (key, value) :: fields, rest =>
    ',' :: layout.lineBreak (depth + 1) ++ writeString key (':' :: layout.gap ++
      write layout (depth + 1) value (writeFields layout depth fields rest))

end

/-- The text of a value. -/
def text (layout : Layout) (value : Json) : String := String.ofList (value.write layout 0 [])

end Json

end ActorAsm
