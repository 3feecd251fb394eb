import ActorAsm.Text.Hidden

/-!
Quoted text: between double quotes, on one line, with every hidden character spelled out.
-/

namespace ActorAsm.Text

/-- A code point written as `\u`, then its hexadecimal digits in braces. -/
def escapeCode (c : Char) : List Char :=
  '\\' :: 'u' :: '{' :: Nat.toDigits 16 c.toNat ++ ['}']

/-- What stands for a character between the quotes, when these characters are hidden. -/
def escapeCharHiding (hidden : Char → Bool) (c : Char) : List Char :=
  if c = '\x00' then ['\\', '0']
  else if c = '\t' then ['\\', 't']
  else if c = '\r' then ['\\', 'r']
  else if c = '\n' then ['\\', 'n']
  else if c = '"' then ['\\', '"']
  else if c = '\\' then ['\\', '\\']
  else if hidden c then escapeCode c
  else [c]

/-- The quoted form of a text, when these characters are hidden. -/
def quotedHiding (hidden : Char → Bool) (s : String) : String :=
  String.ofList ('"' :: s.toList.flatMap (escapeCharHiding hidden) ++ ['"'])

/-- The quoted form of a text. -/
def quoted (s : String) : String := quotedHiding isHidden s

end ActorAsm.Text
