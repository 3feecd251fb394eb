import ActorAsm.CommandLine.Run

/-!
The program: the command line on the files of the system.
-/

namespace ActorAsm.Program

open CommandLine

/-- The system's words for an error, and its number. -/
def reason (e : IO.Error) : String :=
  let numbered (code : UInt32) (details : String) : String :=
    details ++ " (os error " ++ toString code ++ ")"
  match e with
  | .noFileOrDirectory _ code details => numbered code details
  | .inappropriateType _ code details => numbered code details
  | .permissionDenied _ code details => numbered code details
  | .resourceExhausted _ code details => numbered code details
  | .invalidArgument _ code details => numbered code details
  | .alreadyExists _ code details => numbered code details
  | .resourceBusy code details => numbered code details
  | .hardwareFault code details => numbered code details
  | .otherError code details => numbered code details
  | other => toString other

def readFile (path : String) : IO (Except String String) := do
  try
    let bytes ← (← IO.FS.Handle.mk path .read).readBinToEnd
    match String.fromUTF8? bytes with
    | some text => return .ok text
    | none => return .error notUtf8
  catch e => return .error (reason e)

def writeTo (handle : IO.FS.Handle) (text : String) : IO Written := do
  try
    handle.putStr text
    handle.flush
    return .done
  catch e => return .notWritten (reason e)

def writeFile (path text : String) : IO Written := do
  try writeTo (← IO.FS.Handle.mk path .write) text
  catch e => return .notOpened (reason e)

/-- The files of the system. -/
def files : FileSystem IO := ⟨readFile, writeFile⟩

end ActorAsm.Program

/-- Everything but the output itself goes to the error stream. -/
def main (arguments : List String) : IO UInt32 := do
  let outcome ← ActorAsm.CommandLine.run ActorAsm.Program.files arguments
  for entry in outcome.log do IO.eprintln entry.render
  if let some complaint := outcome.complaint then IO.eprint complaint
  IO.print outcome.output
  return outcome.exitCode.toUInt32
