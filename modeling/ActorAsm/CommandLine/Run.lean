import ActorAsm.Assembly
import ActorAsm.CommandLine.FileTree
import ActorAsm.CommandLine.Listing
import ActorAsm.CommandLine.Options

/-!
A run of the command line: the input is read and assembled, and the result is written as JSON.
-/

namespace ActorAsm.CommandLine

/-- A line of the log, with the part of the program that reports it. -/
structure LogEntry where
  target : String
  level : Level
  message : String

namespace LogEntry

def ofEvent (event : Event) : LogEntry := ⟨event.target, event.level, event.message⟩

/-- Reports of the command line itself. -/
def own (level : Level) (message : String) : LogEntry := ⟨"ufork_asm", level, message⟩

def render (entry : LogEntry) : String :=
  "[" ++ entry.target ++ "][" ++ entry.level.name ++ "] " ++ entry.message

end LogEntry

/-- What a run leaves behind besides files. A complaint is about the arguments. -/
structure Outcome where
  success : Bool
  output : String
  log : List LogEntry
  complaint : Option String

namespace Outcome

/-- Zero for success. -/
def exitCode (o : Outcome) : UInt8 := if o.success then 0 else 1

end Outcome

namespace Options

/-- The least urgent level that is shown. -/
def threshold (o : Options) : Level :=
  match o.verbosity with
  | 0 => .error
  | 1 => .warn
  | 2 => .info
  | _ => .debug

/-- Nodes say they come from the input, unless another name is given. -/
def file (o : Options) : String := o.fileId.getD o.input

def layout (o : Options) : Json.Layout := if o.compact then .compact else .pretty

/-- The options as they are reported. -/
def report (o : Options) : LogEntry :=
  .own .debug ("Arguments:\n\tVerbosity: " ++ o.threshold.name ++ "\n\tTokens Only: " ++
    toString o.tokensOnly ++ "\n\tOutfile: " ++ o.output.getD "None" ++ "\n\tInfile: " ++ o.input ++
    "\n\tFile id: " ++ o.file)

/-- The log of a run, without what is not urgent enough. -/
def shown (o : Options) (log : List LogEntry) : List LogEntry :=
  log.filter (·.level.within o.threshold)

/-- The outcome of a run that is over. -/
def outcome (o : Options) (success : Bool) (output : String) (log : List LogEntry) : Outcome :=
  ⟨success, output, o.shown (o.report :: log), none⟩

end Options

/-- All tokens of a text, one to a line, when these characters are hidden. -/
def tokenListingHiding (hidden : Char → Bool) (source : String) : String :=
  String.join ((Token.ofSource source).map fun token => token.displayHiding hidden ++ "\n")

/-- All tokens of a text, one to a line. -/
def tokenListing (source : String) : String := tokenListingHiding Text.isHidden source

/-- A number that users count from one. -/
def ordinal : Option Nat → String
  | some n => toString (n + 1)
  | none => "?"

/-- An error record as it is reported. -/
def LogEntry.ofRecord (r : ErrorRecord) : LogEntry :=
  .own .error (r.file ++ ":" ++ ordinal r.line ++ ":" ++ ordinal r.column ++ ": " ++ r.message)

namespace Options

/-- What goes to the output in front of the JSON text: the listing, if it is asked for. -/
def preamble (o : Options) : Assembly → String
  | .document d => if o.listing then Listing.ofDocument d else ""
  | .error _ => ""

/-- What is reported about the result itself. -/
def verdict : Assembly → List LogEntry
  | .document _ => []
  | .error r => [.ofRecord r]

/-- The JSON text of a result, on lines of its own. -/
def encode (o : Options) (assembly : Assembly) : String := assembly.toJson.text o.layout ++ "\n"

/-- Run with options that make sense. -/
def run {m : Type → Type} [Monad m] (files : FileSystem m) (o : Options) : m Outcome := do
  match ← files.read o.input with
  | .error reason =>
    return o.outcome false ""
      [.own .error ("fatal: unable to read input file `" ++ o.input ++ "`: " ++ reason)]
  | .ok source =>
    if o.tokensOnly then return o.outcome true (tokenListing source) []
    let (assembly, events) := Assembly.ofSource source o.file
    let log := events.toList.map LogEntry.ofEvent ++ verdict assembly
    match o.output with
    | none =>
      return o.outcome assembly.isDocument (o.preamble assembly ++ o.encode assembly) log
    | some path =>
      match ← files.write path (o.encode assembly) with
      | .done => return o.outcome assembly.isDocument (o.preamble assembly) log
      | .notOpened reason =>
        return o.outcome false (o.preamble assembly)
          (log ++ [.own .error ("fatal: unable to open output file `" ++ path ++ "`: " ++ reason)])
      | .notWritten reason =>
        return o.outcome false (o.preamble assembly)
          (log ++
            [.own .error ("fatal: unable to write to output file `" ++ path ++ "`: " ++ reason)])

end Options

def versionText : String := "ufork-asm 0.1.0\n"

def usage : String := "USAGE:\n    ufork-asm [FLAGS] [OPTIONS] <INPUT>\n"

def helpText : String :=
  versionText ++ "\n" ++ usage ++
    "\nFLAGS:\n" ++
    "    -c, --compact    writes the output as a single line of JSON\n" ++
    "    -h, --help       Prints help information\n" ++
    "    -d               prints a listing of the assembled definitions to STDOUT\n" ++
    "    -t               tokenize only, printing the token stream\n" ++
    "    -V, --version    Prints version information\n" ++
    "    -v               Sets the level of verbosity\n" ++
    "\nOPTIONS:\n" ++
    "    -f <file>          file name recorded in debug info (defaults to INPUT)\n" ++
    "    -o <output>        write output to an outfile instead of STDOUT\n" ++
    "\nARGS:\n" ++
    "    <INPUT>    Sets the input file to use\n"

/-- Run with arguments as they are given. -/
def run {m : Type → Type} [Monad m] (files : FileSystem m) (arguments : List String) :
    m Outcome :=
  match Request.ofArguments arguments with
  | .assemble options => options.run files
  | .help => return ⟨true, helpText, [], none⟩
  | .version => return ⟨true, versionText, [], none⟩
  | .misuse => return ⟨false, "", [], some ("error: The arguments make no sense.\n\n" ++ usage)⟩

end ActorAsm.CommandLine
