import ActorAsm.Main
import ActorAsm.Matcher.Pattern
import ActorAsm.Proofs.Document.Acceptance
import ActorAsm.Proofs.Document.Blame
import ActorAsm.Proofs.Document.DefinitionOrder
import ActorAsm.Proofs.Document.Generation
import ActorAsm.Proofs.Document.InstructionPositions
import ActorAsm.Proofs.Document.Resolution
import ActorAsm.Proofs.Matcher.Derivation
import ActorAsm.Proofs.Matcher.Eager
import ActorAsm.Proofs.Matcher.Laziness
import ActorAsm.Proofs.Module.Derivation
import ActorAsm.Proofs.Module.Flaws
import ActorAsm.Proofs.Module.LongestPrefix
import ActorAsm.Proofs.Module.Parsing
import ActorAsm.Proofs.Module.WellFormed
import ActorAsm.Proofs.Node.Blame
import ActorAsm.Proofs.Node.Chains
import ActorAsm.Proofs.Node.Definitions
import ActorAsm.Proofs.Node.Operands
import ActorAsm.Proofs.Node.Shape
import ActorAsm.Proofs.Token.LongestMatch
import ActorAsm.Proofs.Token.Numeral
import ActorAsm.Proofs.Token.Patterns
import ActorAsm.Proofs.Vocabulary
import ActorAsm.Proofs.Document.Closure
import ActorAsm.Proofs.Module.Translation
import ActorAsm.Proofs.Node.Translation
import ActorAsm.Proofs.Document.Translation
import ActorAsm.Proofs.Document.Renaming
import ActorAsm.Proofs.Json.Unambiguous
import ActorAsm.Proofs.Node.Encoding
import ActorAsm.Proofs.Assembly.Stages
import ActorAsm.Proofs.Document.Encoding
import ActorAsm.Proofs.Module.Provenance
import ActorAsm.Proofs.Assembly.Failures
import ActorAsm.Proofs.Node.Origins
import ActorAsm.Proofs.Document.Relocation
import ActorAsm.Proofs.Matcher.Simulation
import ActorAsm.Proofs.Token.Seams
import ActorAsm.Proofs.Module.Spelling
import ActorAsm.Proofs.Token.LineBreaks
import ActorAsm.Proofs.Assembly.BlankLines
import ActorAsm.Proofs.Node.LabelSlots
import ActorAsm.Proofs.Document.Reports
import ActorAsm.Proofs.Assembly.LogLines
import ActorAsm.Proofs.Node.Recursion
import ActorAsm.Proofs.Token.OfSource
import ActorAsm.Proofs.Module.Legible
import ActorAsm.Proofs.Assembly.Legible
import ActorAsm.Proofs.CommandLine.FileTree
import ActorAsm.Proofs.CommandLine.Run
import ActorAsm.Proofs.Document.Search
import ActorAsm.Proofs.Document.ForwardPass
import ActorAsm.Proofs.Document.Verification
import ActorAsm.Proofs.Node.Statements
import ActorAsm.Proofs.Document.Statements
import ActorAsm.Proofs.Document.TrailingReference
import ActorAsm.Proofs.Document.InstructionSlots
import ActorAsm.Proofs.Node.Arity
import ActorAsm.Proofs.Document.FirstFailure
import ActorAsm.Proofs.Node.Linear
import ActorAsm.Proofs.Document.Linear
import ActorAsm.Proofs.Assembly.Positions
import ActorAsm.Proofs.Token.Concatenation
import ActorAsm.Proofs.Token.Numbers
import ActorAsm.Proofs.Matcher.Repetition
import ActorAsm.Proofs.Matcher.Leaves
import ActorAsm.Proofs.Matcher.Locality
import ActorAsm.Proofs.Json.Layouts
import ActorAsm.Proofs.Text.Delimiters
import ActorAsm.Proofs.Text.Quoted
import ActorAsm.Proofs.Token.Display
import ActorAsm.Proofs.CommandLine.TokenListing
import ActorAsm.Proofs.Document.ChainLengths
import ActorAsm.Proofs.Token.Contents
