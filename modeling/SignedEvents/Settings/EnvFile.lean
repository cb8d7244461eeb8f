import SignedEvents.Settings.Variable
import SignedEvents.Text.Blank
import SignedEvents.Text.Newline

/-! # Files of variables

  A file of assignments `NAME=value`, one per line.  Values may be in quotes; an unquoted one
  ends at a comment.  A value may refer to other variables.

  - **Binding** — a name, with a value if there is one.
  - **bindings** — the bindings of a text; a line that is no binding is passed over.
  - **expand** — a value with its references filled in.
  - **load** — adds the variables of a text that an environment does not have yet.
  - **isSwitchedOff** — whether an environment asks for no file to be read.
-/

namespace SignedEvents.EnvFile

/-! ## Bindings -/

/-- A name, with a value if there is one. -/
structure Binding where
  name  : Text
  value : Option Text

/-- A blank that ends no line. -/
def isInlineBlank (c : CodePoint) : Bool := c.isBlank && !c.is '\n' && !c.is '\r'

/-- May this code point stand in a name without quotes? -/
def isNameChar (c : CodePoint) : Bool := !c.is '=' && !c.is '#' && !c.isBlank

/-- The text after the word `export`, if a blank follows it. -/
def dropExport (t : Text) : Text :=
  let after := t.drop 6
  if t.startsWith "export" && (after.head?.any isInlineBlank) then after.dropWhile isInlineBlank
  else t

/-- Reads a name, and the text after it.  A comment has no name. -/
def readName (t : Text) : Option (Option Text × Text) :=
  match t with
  | c :: rest =>
    if c.is '#' then some (none, t)
    else if c.is '\'' then
      let (name, after) := Text.splitAtFirst (·.is '\'') rest
      if name.isEmpty || after.isEmpty then none else some (some name, after.drop 1)
    else
      let name := t.takeWhile isNameChar
      if name.isEmpty then none else some (some name, t.dropWhile isNameChar)
  | [] => none

/-- The offset of the quote that closes a quoted value.  What follows a backslash closes
    nothing, and `offset` is that of the front of the text. -/
def closingQuote? (quote : CodePoint) (offset : Nat) : Text → Option Nat
  | [] => none
  | c :: rest =>
    if c = quote then some offset
    else if c.is '\\' then
      match rest with
      | [] => none
      | _ :: rest => closingQuote? quote (offset + 2) rest
    else closingQuote? quote (offset + 1) rest

/-- What an escape in double quotes stands for. -/
def doubleEscape? (c : CodePoint) : Option CodePoint :=
  if c.is '\\' || c.is '\'' || c.is '"' then some c
  else if c.is 'a' then some (.ofNat 0x07)
  else if c.is 'b' then some (.ofNat 0x08)
  else if c.is 'f' then some (.ofNat 0x0C)
  else if c.is 'n' then some (.ofNat 0x0A)
  else if c.is 'r' then some (.ofNat 0x0D)
  else if c.is 't' then some (.ofNat 0x09)
  else if c.is 'v' then some (.ofNat 0x0B)
  else none

/-- What an escape in single quotes stands for. -/
def singleEscape? (c : CodePoint) : Option CodePoint :=
  if c.is '\\' || c.is '\'' then some c else none

/-- The text with its escapes filled in. -/
def unescape (escape? : CodePoint → Option CodePoint) : Text → Text
  | a :: b :: rest =>
    if a.is '\\' then
      match escape? b with
      | some c => c :: unescape escape? rest
      | none => a :: unescape escape? (b :: rest)
    else a :: unescape escape? (b :: rest)
  | t => t

/-- An unquoted value: the text up to the first comment, without blanks at its end. -/
def cutComment (line : Text) : Text :=
  let rec go (done blanks : Text) : Text → Text
    | [] => done.reverse
    | c :: rest =>
      if c.isBlank then go done (c :: blanks) rest
      else if c.is '#' && !blanks.isEmpty then done.reverse
      else go (c :: (blanks ++ done)) [] rest
  go [] [] line

/-- Reads a value after the blanks behind an equals sign, and the text after it.  `isSetOff` says
    that there were blanks: a comment may follow them, and the value is then empty. -/
def readValue (isSetOff : Bool) (t : Text) : Option (Text × Text) :=
  match t with
  | c :: rest =>
    if c.is '\'' || c.is '"' then
      match closingQuote? c 0 rest with
      | some i =>
        let escape? := if c.is '\'' then singleEscape? else doubleEscape?
        some (unescape escape? (rest.take i), rest.drop (i + 1))
      | none => none
    else if c.is '#' && isSetOff then some ([], t)
    else
      let (line, after) := t.splitAtFirst (·.is '\n')
      some (cutComment line, after)
  | [] => some ([], [])

/-- The text after a comment and the end of its line, if nothing else stands there. -/
def readLineEnd (t : Text) : Option Text :=
  let t := match t.dropWhile isInlineBlank with
    | c :: rest =>
      if c.is '#' then rest.dropWhile fun (c : CodePoint) => !c.is '\n' else c :: rest
    | [] => []
  match t with
  | c :: rest => if c.is '\n' then some rest else none
  | [] => some []

/-- The text after the end of the present line. -/
def skipLine (t : Text) : Text := (t.dropWhile fun (c : CodePoint) => !c.is '\n').drop 1

/-- Reads a binding, and the text after it.  Where there is none, the rest of the line on which
    reading fails is passed over. -/
def readBinding (t : Text) : Option Binding × Text :=
  let t := t.dropWhile (·.isBlank)
  if t.isEmpty then (none, [])
  else
    let t := dropExport t
    match readName t with
    | none => (none, skipLine t)
    | some (name, t) =>
      let t := t.dropWhile isInlineBlank
      let value : Option (Option Text × Text) :=
        match t with
        | c :: rest =>
          if c.is '=' then
            let start := rest.dropWhile isInlineBlank
            match readValue (rest.head?.any isInlineBlank) start with
            | some (v, after) => some (some v, after)
            | none => none
          else some (none, t)
        | [] => some (none, t)
      match value with
      | none => (none, skipLine ((t.drop 1).dropWhile isInlineBlank))
      | some (value, t) =>
        match readLineEnd t with
        | none => (none, skipLine t)
        | some after => (name.map fun n => ⟨n, value⟩, after)

/-- The bindings of a text. -/
def bindings (t : Text) : List Binding :=
  if t.isEmpty then []
  else
    let (binding, rest) := readBinding t
    if rest.length < t.length then binding.toList ++ bindings rest else binding.toList
termination_by t.length

/-! ## References -/

/-- A reference `${NAME}` or `${NAME:-default}` after its brace: the name, the default, and the
    number of code points it takes. -/
def readReference (t : Text) : Option (Text × Text × Nat) :=
  let name := t.takeWhile fun c => !(c.val = 0x7D) && !c.is ':'
  let after := t.drop name.length
  match after with
  | a :: rest =>
    if a.val = 0x7D then some (name, [], name.length + 1)
    else if rest.head?.any (fun c => c.is '-') then
      let default := (rest.drop 1).takeWhile fun c => !(c.val = 0x7D)
      if (rest.drop (1 + default.length)).isEmpty then none
      else some (name, default, name.length + default.length + 3)
    else none
  | [] => none

/-- The value with its references filled in.  The first `skip` code points belong to the
    reference read last. -/
def expandFrom (env : Text → Option Text) (skip : Nat) (done : Text) : Text → Text
  | [] => done.reverse
  | c :: rest =>
    match skip with
    | skip + 1 => expandFrom env skip done rest
    | 0 =>
      if c.is '$' && rest.head?.any (·.val = 0x7B) then
        match readReference (rest.drop 1) with
        | some (name, default, size) =>
          expandFrom env (size + 1) (((env name).getD default).reverse ++ done) rest
        | none => expandFrom env 0 (c :: done) rest
      else expandFrom env 0 (c :: done) rest

/-- The names that a text may refer to: what follows a dollar sign and a brace, up to
    the closing brace or a colon. -/
def mentionedNames : Text → List Text
  | a :: b :: rest =>
    let others := mentionedNames (b :: rest)
    if a.is '$' && b.val = 0x7B then
      rest.takeWhile (fun c => !(c.val = 0x7D) && !c.is ':') :: others
    else others
  | _ => []

/-- The value with its references filled in. -/
def expand (env : Text → Option Text) (value : Text) : Text := expandFrom env 0 [] value

/-! ## Loading -/

/-- The value of a reference: an environment comes first, then the variables so far.  A variable
    without a value counts as empty. -/
def lookUp (env : Environment) (done : List (Text × Option Text)) (name : Text) : Option Text :=
  match env.get? name with
  | some v => some v
  | none =>
    match done.find? (·.1 = name) with
    | some (_, v) => some (v.getD [])
    | none => none

/-- Gives a name its value.  A known name keeps its place. -/
def assign (done : List (Text × Option Text)) (name : Text) (value : Option Text) :
    List (Text × Option Text) :=
  if done.any (·.1 = name) then done.map fun v => if v.1 = name then (name, value) else v
  else done ++ [(name, value)]

/-- The variables of some bindings, in order of their first ones. -/
def resolve (env : Environment) (bs : List Binding) : List (Text × Option Text) :=
  bs.foldl (fun done b => assign done b.name (b.value.map (expand (lookUp env done)))) []

/-- The text without a byte-order mark in front. -/
def dropOrderMark (t : Text) : Text :=
  if t.head?.any (·.val = 0xFEFF) then t.drop 1 else t

/-- The environment with the variables of a text added.  A variable that it has already keeps
    its value, and one without a value is not added. -/
def load (env : Environment) (t : Text) : Except VariableFault Environment :=
  (resolve env (bindings (dropOrderMark t).normalizeNewlines)).foldlM
    (fun env (name, value) =>
      match env.get? name, value with
      | none, some v => env.add name v
      | _, _ => .ok env)
    env

/-! ## Switching off -/

/-- The variable that keeps files from being read. -/
def switchVariable : String := "PYTHON_DOTENV_DISABLED"

/-- The values of the switch that keep files from being read. -/
def switchWords : List String := ["1", "true", "t", "yes", "y"]

/-- A letter in lower case, as far as it can occur in a word of the switch: besides the ASCII
    letters this is the long s. -/
def lowerLetter (c : CodePoint) : CodePoint :=
  if 0x41 ≤ c.val && c.val ≤ 0x5A then .ofNat (c.val + 0x20)
  else if c.val = 0x17F then .ofChar 's'
  else c

/-- Does the environment keep files from being read?  Letters count the same in either case. -/
def isSwitchedOff (env : Environment) : Bool :=
  match env.get? switchVariable with
  | none => false
  | some value => switchWords.any fun word => Text.ofString word = value.map lowerLetter

end SignedEvents.EnvFile
