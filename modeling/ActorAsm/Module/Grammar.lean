import ActorAsm.Matcher.Basic
import ActorAsm.Module.Basic

/-!
The grammar of modules.

    line end    = (space? comment)? NEWLINE
    module      = line end* imports? definition* exports?
    imports     = "." "import" line end+ importation*
    importation = space name ":" space STRING line end+
    definition  = label+ statement+
    label       = name ":" line end+
    statement   = space name (space value)* line end+
    value       = LITERAL | NUMBER | reference
    reference   = name "." name | name
    exports     = "." "export" line end+ (space name line end+)*
-/

namespace ActorAsm.Grammar

open Matcher (andDrop andKeep firstOf oneOrMore optional)

def kind (k : Token.Kind) : Matcher Token := .token (·.kind = k)

def punct (text : String) : Matcher Token := .token fun t => t.kind = .punct ∧ t.text = text

def keyword (text : String) : Matcher Token := .token fun t => t.kind = .name ∧ t.text = text

def name : Matcher Token := kind .name

def space : Matcher Token := kind .space

/-- The end of a line, with the comment before it if there is one. -/
def lineEnd : Matcher Unit :=
  .map (fun _ => ())
    (.andThen (optional (andKeep (optional space) (kind .comment))) (kind .newline))

/-- The end of a line and the empty lines behind it. -/
def lineEnds : Matcher Unit := .map (fun _ => ()) (oneOrMore lineEnd)

def directive (text : String) : Matcher Token := andKeep (punct ".") (keyword text)

/-- The contents of a string token. -/
def specifier : Matcher String :=
  .one fun t => if t.kind = .string then some t.stringValue else none

def importation : Matcher Importation :=
  .map (fun (name, specifier) => ⟨name, specifier⟩)
    (.andThen (andDrop (andKeep space name) (punct ":"))
      (andDrop (andKeep space specifier) lineEnds))

def imports : Matcher (List Importation) :=
  andKeep (.andThen (directive "import") lineEnds) (.zeroOrMore importation)

def label : Matcher Token := andDrop name (.andThen (punct ":") lineEnds)

/-- The qualified form is tried first, because it begins like the bare one. -/
def reference : Matcher Reference :=
  firstOf [
    .map (fun (moduleName, name) => .qualified moduleName name)
      (.andThen (andDrop name (punct ".")) name),
    .map .bare name]

def number : Matcher Value :=
  .one fun t => match t.kind with
    | .number value => some (.number value t)
    | _ => none

def value : Matcher Value :=
  firstOf [.map .literal (kind .literal), number, .map .reference reference]

def statement : Matcher Statement :=
  .map (fun (operator, operands) => ⟨operator, operands⟩)
    (.andThen (andKeep space name) (andDrop (.zeroOrMore (andKeep space value)) lineEnds))

def definition : Matcher Definition :=
  .map (fun ((label, aliases), statement, following) => ⟨label, aliases, statement, following⟩)
    (.andThen (.andThen label (.zeroOrMore label)) (.andThen statement (.zeroOrMore statement)))

def exports : Matcher (List Token) :=
  andKeep (.andThen (directive "export") lineEnds)
    (.zeroOrMore (andDrop (andKeep space name) lineEnds))

def module : Matcher Module :=
  .map (fun (imports, definitions, exports) => ⟨imports.getD [], definitions, exports.getD []⟩)
    (andKeep (.zeroOrMore lineEnd)
      (.andThen (optional imports) (.andThen (.zeroOrMore definition) (optional exports))))

end Grammar

namespace Module

/-- Read a module from a token stream. A token left behind the module is a failure. The buffer
tells which tokens have been looked at. -/
def read (ts : List Token) : Except Failure Module × Buffer ts :=
  match Grammar.module.run 0 (Buffer.fresh ts) with
  | (.error failure, b) => (.error failure, b)
  | (.ok (position, m), b) =>
    match b.peek position with
    | (some token, b) => (.error (.onToken .trailingToken token), b)
    | (none, b) => (.ok m, b)

/-- The module that a whole list of tokens makes. -/
def parse (ts : List Token) : Except Failure Module := (read ts).1

end Module

end ActorAsm
