import SignedEvents.CommandLine.Run
import Std.Time.DateTime.Timestamp

/-! # The command line

  The outer layer of the program: it looks at the world, runs, and writes down how that ended.

  - **observe** — what there is of the world for some arguments.
  - **conclude** — writes the end and gives the exit code.
-/

namespace SignedEvents.CommandLine

/-- The string of a text.  A surrogate becomes a replacement character. -/
def stringOf (t : Text) : String :=
  String.ofList (t.map fun c => if c.isSurrogate then Char.ofNat 0xFFFD else Char.ofNat c.val)

/-- The fault that a file cannot be read for. -/
def faultOf : IO.Error → Files.Fault
  | .inappropriateType .. => .isDirectory
  | .invalidArgument .. => .nameTooLong
  | _ => .notFound

/-- The bytes of a file. -/
def readFile (path : String) : IO (Except Files.Fault Bytes) := do
  try
    return .ok (← IO.FS.readBinFile path).toList
  catch e => return .error (faultOf e)

/-- All bytes of a stream. -/
partial def readAll (stream : IO.FS.Stream) (done : ByteArray) : IO ByteArray := do
  let chunk ← stream.read 65536
  if chunk.isEmpty then return done else readAll stream (done ++ chunk)

/-- The variables with some names. -/
def readVariables (names : List String) : IO Environment := do
  let found ← names.mapM fun name => do
    return (← IO.getEnv name).map fun v => (Text.ofString name, Text.ofString v)
  return found.filterMap id

/-- What there is of the world for some arguments: the variables that can matter, the files, and
    the time. -/
def observe (words : List Text) : IO World := do
  let envFile := (← readFile ".env").toOption
  let mentioned := EnvFile.mentionedNames (Utf8.decodeEscaping (envFile.getD []))
  let env ← readVariables
    (Settings.allowanceVariable :: EnvFile.switchVariable :: mentioned.map stringOf)
  let now ← Std.Time.Timestamp.now
  let clock := Clock.system (.ofInt now.toSecondsSinceUnixEpoch.val)
  let operand := (operand? words).getD []
  if operand = defaultOperand then
    let stdin ← readAll (← IO.getStdin) .empty
    return { env, envFile, contents := fun _ => .error .notFound, stdin := stdin.toList, clock }
  else
    let contents ← readFile (stringOf operand)
    return { env, envFile, contents := fun _ => contents, stdin := [], clock }

/-- How the program is called. -/
def usage : String :=
  "usage: signed-events [-h] [--reject-future-seconds SECONDS] [input]"

/-- Writes the end and gives the exit code. -/
def conclude (exit : Exit) : IO UInt32 := do
  match exit with
  | .help => IO.println usage
  | .usage e =>
    IO.eprintln usage
    IO.eprintln ("error: " ++ stringOf e.message)
  | .failed e => IO.eprintln ("error: " ++ stringOf e.message)
  | .done output _ => IO.print (stringOf output)
  return .ofNat (exit.code?.getD 1)

end SignedEvents.CommandLine

/-- The program. -/
def main (args : List String) : IO UInt32 := do
  let words := args.map SignedEvents.Text.ofString
  SignedEvents.CommandLine.conclude
    (SignedEvents.runProgram (← SignedEvents.CommandLine.observe words) words)
