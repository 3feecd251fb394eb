/-!
The classes of lexemes. Each class says which is its longest lexeme at the head of a text, if
there is one; lexemes are never empty.
-/

namespace ActorAsm

inductive Lexeme where
  | newline
  | space
  | comment
  | name
  | literal
  | number
  | string
  | punct
  deriving DecidableEq

namespace Lexeme

/-- The classes in the order in which they are tried. -/
def classes : List Lexeme :=
  [.newline, .space, .comment, .name, .literal, .number, .string, .punct]

def isLineBreak (c : Char) : Bool := c = '\n' || c = '\r'

def isSeparator (c : Char) : Bool := c = '-' || c = '_'

def isNonzeroDigit (c : Char) : Bool := c.isDigit && c ≠ '0'

def isSymbolChar (c : Char) : Bool := c.isLower || c = '_' || c = '?'

def isPunct (c : Char) : Bool := c = '.' || c = ':' || c = '?' || c = '#'

/-- A line feed, or a carriage return with the line feed behind it, if any. -/
def newline? : List Char → Option (List Char)
  | '\n' :: _ => some ['\n']
  | '\r' :: '\n' :: _ => some ['\r', '\n']
  | '\r' :: _ => some ['\r']
  | _ => none

def space? : List Char → Option (List Char)
  | ' ' :: cs => some (' ' :: cs.takeWhile (· = ' '))
  | _ => none

/-- From a semicolon to the end of the line. -/
def comment? : List Char → Option (List Char)
  | ';' :: cs => some (';' :: cs.takeWhile (!isLineBreak ·))
  | _ => none

/-- The rest of a name: letters and digits, each behind at most one separator, and at the very
end possibly a question mark. -/
def nameTail : List Char → List Char
  | [] => []
  | c :: cs =>
    if c.isAlphanum then c :: nameTail cs
    else if c = '?' then [c]
    else if isSeparator c then
      match cs with
      | d :: ds => if d.isAlphanum then c :: d :: nameTail ds else []
      | [] => []
    else []

def name? : List Char → Option (List Char)
  | c :: cs => if c.isAlpha then some (c :: nameTail cs) else none
  | [] => none

def literal? : List Char → Option (List Char)
  | '#' :: cs =>
    let symbol := cs.takeWhile isSymbolChar
    if symbol.isEmpty then none else some ('#' :: symbol)
  | _ => none

/-- Digits that do not begin with a zero. -/
def digits? : List Char → Option (List Char)
  | c :: cs => if isNonzeroDigit c then some (c :: cs.takeWhile Char.isDigit) else none
  | [] => none

/-- A lone zero, or digits with possibly a minus sign. A leading zero ends the number. -/
def number? : List Char → Option (List Char)
  | '0' :: _ => some ['0']
  | '-' :: cs => (digits? cs).map ('-' :: ·)
  | cs => digits? cs

/-- Everything up to the next double quote, line breaks included. -/
def string? : List Char → Option (List Char)
  | '"' :: cs =>
    if '"' ∈ cs then some ('"' :: cs.takeWhile (· ≠ '"') ++ ['"']) else none
  | _ => none

def punct? : List Char → Option (List Char)
  | c :: _ => if isPunct c then some [c] else none
  | [] => none

/-- The longest lexeme of the class that is a prefix of the text. -/
def longest? : Lexeme → List Char → Option (List Char)
  | .newline => newline?
  | .space => space?
  | .comment => comment?
  | .name => name?
  | .literal => literal?
  | .number => number?
  | .string => string?
  | .punct => punct?

/-- The first class that has a lexeme at the head of the text, with its longest one. -/
def first? (cs : List Char) : Option (Lexeme × List Char) :=
  classes.findSome? fun lexeme => (lexeme.longest? cs).map (lexeme, ·)

private theorem ne_nil_of_digits? {cs found : List Char} (h : digits? cs = some found) :
    found ≠ [] := by
  unfold digits? at h
  split at h
  · split at h
    · cases h
      exact List.cons_ne_nil _ _
    · cases h
  · cases h

theorem ne_nil_of_longest? {lexeme : Lexeme} {cs found : List Char}
    (h : lexeme.longest? cs = some found) : found ≠ [] := by
  rintro rfl
  cases lexeme with
  | newline =>
    simp only [longest?, newline?] at h
    split at h <;> cases h
  | space =>
    simp only [longest?, space?] at h
    split at h <;> cases h
  | comment =>
    simp only [longest?, comment?] at h
    split at h <;> cases h
  | name =>
    simp only [longest?, name?] at h
    split at h
    · split at h <;> cases h
    · cases h
  | literal =>
    simp only [longest?, literal?] at h
    split at h
    · split at h <;> cases h
    · cases h
  | number =>
    simp only [longest?, number?] at h
    split at h
    · cases h
    · obtain ⟨_, _, hc⟩ := Option.map_eq_some_iff.1 h
      cases hc
    · exact ne_nil_of_digits? h rfl
  | string =>
    simp only [longest?, string?] at h
    split at h
    · split at h <;> cases h
    · cases h
  | punct =>
    simp only [longest?, punct?] at h
    split at h
    · split at h <;> cases h
    · cases h

theorem ne_nil_of_first? {lexeme : Lexeme} {cs found : List Char}
    (h : first? cs = some (lexeme, found)) : found ≠ [] := by
  obtain ⟨c, _, hc⟩ := List.exists_of_findSome?_eq_some h
  obtain ⟨l, hl, he⟩ := Option.map_eq_some_iff.1 hc
  cases he
  exact ne_nil_of_longest? hl

end Lexeme

end ActorAsm
