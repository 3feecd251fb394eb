import ActorAsm.Failure

/-!
What is reported while a source is assembled.
-/

namespace ActorAsm

/-- Levels from the most to the least urgent. -/
inductive Level where
  | error
  | warn
  | info
  | debug
  | trace
  deriving DecidableEq

namespace Level

def name : Level → String
  | .error => "ERROR"
  | .warn => "WARN"
  | .info => "INFO"
  | .debug => "DEBUG"
  | .trace => "TRACE"

def rank : Level → Nat
  | .error => 0
  | .warn => 1
  | .info => 2
  | .debug => 3
  | .trace => 4

/-- Whether a report of this level is shown when only `threshold` and more urgent ones are. -/
def within (level threshold : Level) : Bool := level.rank ≤ threshold.rank

end Level

/-- Reports in the order in which they arise. -/
inductive Event where
  | drawn (token : Token)
  | parsed (tokens imports definitions exports : Nat)
  | imported (count : Nat)
  | closed (length : Nat)
  | defined (count : Nat)
  | verified (count : Nat)
  | exportedAgain (file : String) (line : Nat) (name : String)
  | assembled (file : String) (definitions : Nat)
  | failed (file : String) (failure : Failure)
  deriving DecidableEq

namespace Event

def level : Event → Level
  | .drawn _ | .closed _ => .trace
  | .parsed _ _ _ _ | .imported _ | .defined _ | .verified _ | .failed _ _ => .debug
  | .assembled _ _ => .info
  | .exportedAgain _ _ _ => .warn

/-- The part of the program that reports the event. -/
def target : Event → String
  | .drawn _ => "ufork_asm::assembler::combinator"
  | .parsed _ _ _ _ => "ufork_asm::assembler::parser"
  | .assembled _ _ | .failed _ _ => "ufork_asm::assembler"
  | _ => "ufork_asm::assembler::codegen"

def message : Event → String
  | .drawn token => "token " ++ token.display
  | .parsed tokens imports definitions exports =>
    "parsed " ++ toString tokens ++ " tokens into " ++ toString imports ++ " import(s), " ++
      toString definitions ++ " definition(s), " ++ toString exports ++ " export(s)"
  | .imported count => toString count ++ " import(s)"
  | .closed length => "closing a chain of " ++ toString length ++ " statement(s)"
  | .defined count => toString count ++ " definition(s)"
  | .verified count => toString count ++ " instruction reference(s) verified"
  | .exportedAgain file line name =>
    file ++ ":" ++ toString line ++ ": '" ++ name ++ "' is exported more than once"
  | .assembled file definitions =>
    "assembled " ++ file ++ " with " ++ toString definitions ++ " definition(s)"
  | .failed file failure => file ++ " failed to assemble: " ++ failure.description

end Event

/-- Computations that report events and stop at the first failure. What was reported before the
failure stays reported. -/
abbrev Logged := ExceptT Failure (StateM (Array Event))

/-- Report an event. -/
def report (event : Event) : Logged Unit := modify (·.push event)

/-- Report events in a row. -/
def reportAll (events : List Event) : Logged Unit := modify fun log : Array Event => log ++ events

end ActorAsm
