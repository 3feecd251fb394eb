/-!
The arguments of the command line. A word that begins with a hyphen holds flags, unless it is a
lone hyphen; behind a double hyphen all words are plain.
-/

namespace ActorAsm.CommandLine

structure Options where
  input : String
  output : Option String
  fileId : Option String
  verbosity : Nat
  tokensOnly : Bool
  compact : Bool
  listing : Bool
  deriving DecidableEq

/-- What a command line asks for. -/
inductive Request where
  | assemble (options : Options)
  | help
  | version
  | misuse
  deriving DecidableEq

/-- The options that take a value. -/
inductive Valued where
  | output
  | fileId
  deriving DecidableEq

/-- Everything given so far. An option with a value is listed each time it is given, without the
value if that is missing. -/
structure Given where
  input : Option String
  outputs : List (Option String)
  fileIds : List (Option String)
  verbosity : Nat
  tokensOnly : Nat
  compact : Nat
  listing : Nat

namespace Given

def nothing : Given := ⟨none, [], [], 0, 0, 0, 0⟩

def addValued (g : Given) (option : Valued) (value : Option String) : Given :=
  match option with
  | .output => { g with outputs := g.outputs ++ [value] }
  | .fileId => { g with fileIds := g.fileIds ++ [value] }

/-- There is only one input. -/
def addInput (g : Given) (word : String) : Except Request Given :=
  match g.input with
  | none => .ok { g with input := some word }
  | some _ => .error .misuse

/-- The value of an option, which must not be given twice nor without a value. -/
def valueOf : List (Option String) → Except Request (Option String)
  | [] => .ok none
  | [some value] => .ok (some value)
  | _ => .error .misuse

/-- A flag that must not be given twice. -/
def flagOf (count : Nat) : Except Request Bool :=
  if count ≤ 1 then .ok (count = 1) else .error .misuse

/-- The options of a whole command line. The input is required. -/
def options (g : Given) : Except Request Options := do
  let input ← match g.input with
    | some input => .ok input
    | none => .error .misuse
  return {
    input
    output := ← valueOf g.outputs
    fileId := ← valueOf g.fileIds
    verbosity := g.verbosity
    tokensOnly := ← flagOf g.tokensOnly
    compact := ← flagOf g.compact
    listing := ← flagOf g.listing }

/-- A long flag, without its hyphens. A value behind an equals sign is ignored. -/
def addLong (g : Given) (word : List Char) : Except Request Given :=
  let name := String.ofList (word.takeWhile (· ≠ '='))
  if name = "compact" then .ok { g with compact := g.compact + 1 }
  else if name = "help" then .error .help
  else if name = "version" then .error .version
  else .error .misuse

/-- A cluster of short flags. An option takes what is behind it as its value, less any equals signs
in front; with nothing behind it, it still waits for its value. -/
def addCluster (g : Given) : List Char → Except Request (Given × Option Valued)
  | [] => .ok (g, none)
  | c :: cs =>
    let valued (option : Valued) : Given × Option Valued :=
      if cs.isEmpty then (g, some option)
      else (g.addValued option (some (String.ofList (cs.dropWhile (· = '=')))), none)
    match c with
    | 'v' => addCluster { g with verbosity := g.verbosity + 1 } cs
    | 't' => addCluster { g with tokensOnly := g.tokensOnly + 1 } cs
    | 'c' => addCluster { g with compact := g.compact + 1 } cs
    | 'd' => addCluster { g with listing := g.listing + 1 } cs
    | 'o' => .ok (valued .output)
    | 'f' => .ok (valued .fileId)
    | 'h' => .error .help
    | 'V' => .error .version
    | _ => .error .misuse

/-- An option that waits no longer for its value. -/
def giveUp (g : Given) : Option Valued → Given
  | some option => g.addValued option none
  | none => g

/-- Add all words, with the option that waits for its value, if any. -/
def addWords (g : Given) (waiting : Option Valued) : List String → Except Request Given
  | [] => .ok (g.giveUp waiting)
  | word :: words =>
    match word.toList, waiting with
    | ['-', '-'], _ => words.foldlM addInput (g.giveUp waiting)
    | '-' :: '-' :: cs, _ => do
      let g ← (g.giveUp waiting).addLong (cs.dropWhile (· = '-'))
      addWords g none words
    | '-' :: c :: cs, _ => do
      let (g, waiting) ← (g.giveUp waiting).addCluster (c :: cs)
      addWords g waiting words
    | _, some option => addWords (g.addValued option (some word)) none words
    | _, none => do
      let g ← g.addInput word
      addWords g none words

end Given

/-- What the arguments ask for. Requests for help or the version are met as soon as they are read,
repeated flags and missing values are found only at the end. -/
def Request.ofArguments (arguments : List String) : Request :=
  match Given.nothing.addWords none arguments >>= Given.options with
  | .ok options => .assemble options
  | .error request => request

end ActorAsm.CommandLine
