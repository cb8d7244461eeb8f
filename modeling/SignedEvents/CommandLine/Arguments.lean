import SignedEvents.Text.IntegerLiteral
import SignedEvents.Text.Quoted

/-! # Arguments of the command line

  The words after the name of the program: an operand, and options that may be shortened or
  joined with their values.

  - **Slot** — what a word is: an operand, an option, an unknown option, or the mark `--`.
  - **classify** — the slots of some words.
  - **Arguments.parse** — the operand and the value of the option.
  - **UsageError** — why words are no arguments.
-/

namespace SignedEvents

/-! ## Options -/

/-- The options of the program. -/
inductive Flag where
  | help
  | allowance
  deriving DecidableEq

/-- The spellings of the options. -/
def Flag.spellings : List (String × Flag) :=
  [("-h", .help), ("--help", .help), ("--reject-future-seconds", .allowance)]

/-- All spellings of an option, for messages. -/
def Flag.title : Flag → String
  | help => "-h/--help"
  | allowance => "--reject-future-seconds"

/-- Why words are no arguments. -/
inductive UsageError where
  | ambiguous (word : Text) (spellings : List Text)
  | unexpectedValue (flag : Flag) (value : Text)
  | missingValue (flag : Flag)
  | notAnInteger (flag : Flag) (value : Text)
  | unrecognized (words : List Text)
  | negativeAllowance

/-- The wording of a usage error. -/
def UsageError.message : UsageError → Text
  | ambiguous word spellings =>
    "ambiguous option: " ++ word ++ " could match " ++ Text.join ", " spellings
  | unexpectedValue flag value =>
    "argument " ++ flag.title ++ ": ignored explicit argument " ++ value.quoted
  | missingValue flag => "argument " ++ flag.title ++ ": expected one argument"
  | notAnInteger flag value =>
    "argument " ++ flag.title ++ ": invalid int value: " ++ value.quoted
  | unrecognized words => "unrecognized arguments: " ++ Text.join " " words
  | negativeAllowance => "--reject-future-seconds must be >= 0"

/-! ## Slots -/

/-- What a word of the command line is. -/
inductive Slot where
  | operand (word : Text)
  /-- An option, with the value joined to it.  `isShort` says that it has one dash. -/
  | option (flag : Flag) (isShort : Bool) (value : Option Text)
  | unknown (word : Text)
  /-- The mark after which all words are operands. -/
  | mark

/-- The word of a slot that is no known option. -/
def Slot.word : Slot → Text
  | operand w | unknown w => w
  | option .. => []
  | mark => "--"

/-- Does a word look like a negative number?  A line feed may follow. -/
def looksNegative (word : Text) : Bool :=
  let isDigit (c : CodePoint) : Bool := c.decimalValue?.isSome
  let trimmed := if word.getLast?.any (·.is '\n') then word.dropLast else word
  [word, trimmed].any fun w =>
    match w with
    | dash :: rest =>
      let whole := rest.takeWhile isDigit
      let tail := rest.dropWhile isDigit
      let fraction := tail.drop 1
      dash.is '-' && ((!whole.isEmpty && tail.isEmpty) ||
        (tail.head?.any (·.is '.') && !fraction.isEmpty && fraction.all isDigit))
    | [] => false

/-- The option of a spelling. -/
def flagOf? (spelling : Text) : Option Flag :=
  (Flag.spellings.find? fun s => Text.ofString s.1 = spelling).map (·.2)

/-- The part of a word before its first equals sign, and the part after it if there is one. -/
def splitValue (word : Text) : Text × Option Text :=
  let (spelling, rest) := word.splitAtFirst (·.is '=')
  (spelling, if rest.isEmpty then none else some (rest.drop 1))

/-- Does a word start with two dashes? -/
def isLong (word : Text) : Bool := word.startsWith "--"

/-- The slots that a shortened option may stand for. -/
def abbreviations (word : Text) : List (Text × Slot) :=
  if isLong word then
    let (start, value) := splitValue word
    Flag.spellings.filterMap fun (spelling, flag) =>
      if Text.startsWith spelling start then some (spelling, .option flag false value) else none
  else
    Flag.spellings.filterMap fun (spelling, flag) =>
      if Text.ofString spelling = word.take 2 then
        some (spelling, .option flag true (some (word.drop 2)))
      else none

/-- The slot of a word that no mark stands before. -/
def slotOf (word : Text) : Except UsageError Slot :=
  if !word.startsWith "-" || word.length = 1 then .ok (.operand word)
  else
    match flagOf? word with
    | some flag => .ok (.option flag (!isLong word) none)
    | none =>
      let (spelling, value) := splitValue word
      match value, flagOf? spelling with
      | some value, some flag => .ok (.option flag (!isLong word) (some value))
      | _, _ =>
        match abbreviations word with
        | [(_, slot)] => .ok slot
        | _ :: _ :: _ => .error (.ambiguous word ((abbreviations word).map (·.1)))
        | [] =>
          if looksNegative word || word.any (·.is ' ') then .ok (.operand word)
          else .ok (.unknown word)

/-- The slots of some words. -/
def classify : List Text → Except UsageError (List Slot)
  | [] => .ok []
  | word :: rest =>
    if word = Text.ofString "--" then .ok (.mark :: rest.map .operand)
    else do
      let slot ← slotOf word
      let slots ← classify rest
      return slot :: slots

/-! ## Parsing -/

/-- The value given to the option. -/
inductive GivenAllowance where
  | integer (n : Int)
  /-- The mark `--` in the place of a value leaves nothing. -/
  | nothing

/-- What the words say so far. -/
structure Parsed where
  operand   : Option Text
  allowance : Option GivenAllowance
  extras    : List Text
  /-- Has the place of the operand been passed? -/
  isTaken   : Bool

/-- Nothing said yet. -/
def Parsed.empty : Parsed := ⟨none, none, [], false⟩

/-- The outcome of parsing: arguments, or a call for help. -/
inductive Arguments where
  | help
  | run (operand : Text) (allowance : Option GivenAllowance)

/-- The operand where none is given. -/
def defaultOperand : Text := "-"

/-- The value of the option. -/
def readAllowanceValue (value : Text) : Except UsageError GivenAllowance :=
  if value = Text.ofString "--" then .ok .nothing
  else
    match IntegerLiteral.read value with
    | .ok n => .ok (.integer n)
    | .error _ => .error (.notAnInteger .allowance value)

/-- A call for help with something joined to it: only a further `h` after one dash may be. -/
def checkHelpValue (isShort : Bool) : Text → Except UsageError Unit
  | [] => .error (.unexpectedValue .help [])
  | c :: rest =>
    if isShort && c.is 'h' then if rest.isEmpty then .ok () else checkHelpValue isShort rest
    else .error (.unexpectedValue .help (c :: rest))

/-- The first word without an option before it is the operand, with a mark on either side; the
    others are too many. -/
def takeOperands (p : Parsed) (words : List Slot) : Parsed :=
  if p.isTaken then { p with extras := p.extras ++ words.map Slot.word }
  else
    -- a mark that goes with the operand is used up; a further one is a word too many
    let (taken, rest) : Option Text × List Slot :=
      match words with
      | .mark :: .operand w :: rest => (some w, rest)
      | .mark :: rest => (none, rest)
      | .operand w :: .mark :: rest => (some w, rest)
      | .operand w :: rest => (some w, rest)
      | rest => (none, rest)
    { p with operand := taken, isTaken := true, extras := p.extras ++ rest.map Slot.word }

/-- Goes through the slots.  `pending` holds the words since the last option, last one first. -/
def parseSlots (p : Parsed) (pending : List Slot) : List Slot → Except UsageError (Option Parsed)
  | [] => .ok (some (takeOperands p pending.reverse))
  | slot :: rest =>
    match slot with
    | .operand _ | .mark => parseSlots p (slot :: pending) rest
    | .unknown word =>
      let p := if pending.isEmpty then p else takeOperands p pending.reverse
      parseSlots { p with extras := p.extras ++ [word] } [] rest
    | .option .help _ none => .ok none
    | .option .help isShort (some value) =>
      match checkHelpValue isShort value with
      | .ok _ => .ok none
      | .error e => .error e
    | .option .allowance _ (some value) =>
      let p := if pending.isEmpty then p else takeOperands p pending.reverse
      match readAllowanceValue value with
      | .ok a => parseSlots { p with allowance := some a } [] rest
      | .error e => .error e
    | .option .allowance _ none =>
      let p := if pending.isEmpty then p else takeOperands p pending.reverse
      match rest with
      | .operand value :: rest =>
        match readAllowanceValue value with
        | .ok a => parseSlots { p with allowance := some a } [] rest
        | .error e => .error e
      | _ => .error (.missingValue .allowance)

/-- The arguments of some words. -/
def Arguments.parse (words : List Text) : Except UsageError Arguments := do
  let slots ← classify words
  match ← parseSlots .empty [] slots with
  | none => return .help
  | some p =>
    if !p.extras.isEmpty then throw (.unrecognized p.extras)
    return .run (p.operand.getD defaultOperand) p.allowance

end SignedEvents
