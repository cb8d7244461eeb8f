import SignedEvents.Batch
import SignedEvents.CommandLine.Arguments
import SignedEvents.Files.Tree
import SignedEvents.Settings.Environment
import SignedEvents.Text.Newline

/-! # The batch program

  Reads messages from a file or from standard input, one per line, and reports on them.

  - **World** — what the program finds when it starts.
  - **Exit** — how it ends.
  - **operand?** — what some words ask to read.
  - **runProgram** — from arguments to the end.
-/

namespace SignedEvents

/-- What the program finds when it starts. -/
structure World where
  env      : Environment
  /-- The file of variables. -/
  envFile  : Option Bytes
  /-- What is found in the file at a path. -/
  contents : Text → Except Files.Fault Bytes
  stdin    : Bytes
  clock    : Clock

/-- Why the program breaks off. -/
inductive Failing where
  /-- The settings in the environment cannot be used. -/
  | settings (e : Settings.LoadError)
  /-- The option was left without a value. -/
  | emptyAllowance
  /-- The file cannot be read. -/
  | file (fault : Files.Fault)
  | clock (fault : ClockFault)

/-- How the program ends. -/
inductive Exit where
  | help
  | usage (e : UsageError)
  | failed (e : Failing)
  /-- The report was written: the text, and whether all messages were accepted. -/
  | done (output : Text) (isClean : Bool)

/-- The exit code of an end, unless the program breaks off. -/
def Exit.code? : Exit → Option Nat
  | help => some 0
  | usage _ => some 2
  | failed _ => none
  | done _ isClean => some (if isClean then 0 else 1)

/-- The messages in some bytes: one per line, in UTF-8; a byte outside a character becomes a
    surrogate. -/
def messagesOf (bytes : Bytes) : List Json.Source :=
  (Utf8.decodeEscaping bytes).lines.map .text

/-- The settings that the arguments give, or else the environment. -/
def settingsFor (world : World) : Option GivenAllowance → Except Exit Settings
  | some (.integer n) =>
    if n < 0 then .error (.usage .negativeAllowance) else .ok ⟨some n.toNat⟩
  | some .nothing => .error (.failed .emptyAllowance)
  | none => (Settings.ofProcess world.env world.envFile).mapError fun e => .failed (.settings e)

/-- The bytes that an operand stands for: standard input or a file. -/
def openOperand (world : World) (operand : Text) : Except Exit Bytes :=
  if operand = defaultOperand then .ok world.stdin
  else (world.contents operand).mapError fun fault => .failed (.file fault)

/-- From the arguments to the report. -/
def runParsed (world : World) (operand : Text) (allowance : Option GivenAllowance) :
    Except Exit Exit := do
  let settings ← settingsFor world allowance
  let bytes ← openOperand world operand
  match Batch.report settings world.clock (messagesOf bytes) with
  | .error fault => throw (.failed (.clock fault))
  | .ok report => return .done (report.lines.flatMap (· ++ Text.ofString "\n")) report.isClean

/-- The operand of some words, if they are good for a run. -/
def operand? (words : List Text) : Option Text :=
  match Arguments.parse words with
  | .ok (.run operand _) => some operand
  | _ => none

/-- The wording of a failing. -/
def Failing.message : Failing → Text
  | settings (.undecodable e) => e.message
  | settings (.variable fault) => fault.message
  | settings (.invalid problems) => Problem.summary "settings" problems
  | emptyAllowance => "--reject-future-seconds has no value"
  | file fault => fault.message
  | clock fault => fault.message

/-- The whole program. -/
def runProgram (world : World) (words : List Text) : Exit :=
  match Arguments.parse words with
  | .error e => .usage e
  | .ok .help => .help
  | .ok (.run operand allowance) =>
    match runParsed world operand allowance with
    | .ok exit => exit
    | .error exit => exit

end SignedEvents
