import SignedEvents.Logging.Calendar
import SignedEvents.Logging.Hierarchy

/-! # Loggers at work

  A record goes to the sinks of its logger and on to those of the loggers above it, until one
  does not pass records on.

  - **recordText** — the text of a record.
  - **Registry.log** — makes a record.
  - **Registry.obtain** — the logger of a name, set up at its first use.
-/

namespace SignedEvents.Registry

/-! ## Records -/

/-- The text of a record. -/
def recordText (now : Int) (name : Text) (level : Int) (message : Text) : Text :=
  timestamp now ++ "     || " ++ name ++ " \n" ++ levelText level ++ "   || " ++ message ++
    " \n\n"

/-- Writes a text to a sink. -/
def write (r : Registry) (text : Text) : Sink → Registry
  | .stream => { r with stream := r.stream ++ text }
  | .file place => { r with files := r.files.change place (· ++ text) }

/-- Hands a record to its sinks.  With no sinks at all, the bare message of a warning goes to the
    stream. -/
def hand (r : Registry) (now : Int) (name : Text) (level : Int) (message : Text) : Registry :=
  match sinksOf (r.chain name) with
  | [] => if warningLevel ≤ level then { r with stream := r.stream ++ message ++ "\n" } else r
  | sinks => sinks.foldl (fun r s => r.write (recordText now name level message) s) r

/-- Makes a record, if the level is enabled, and says whether it is. -/
def log (r : Registry) (now : Int) (name : Text) (level : Int) (message : Text) :
    Registry × Bool :=
  let r := r.enroll name
  match r.consider name level with
  | (r, true) => (r.hand now name level message, true)
  | (r, false) => (r, false)

/-! ## Set-up -/

/-- The variables that a set-up reads. -/
structure Variables where
  level     : Option Text
  directory : Option Text

/-- The wording of the record about a directory that cannot be created. -/
def directoryRecord (path : Files.Path) : Text :=
  "cannot create log directory " ++ path.text ++ ", logging to stream only"

/-- The path of a logger's file in a directory. -/
def filePath (directory : Files.Path) (name : Text) : Files.Path :=
  directory.join (.ofText (name ++ ".log"))

/-- Gives a logger its file in a directory.  A directory that cannot be created makes a record; a
    text that is no path, or a file that cannot be opened, ends the set-up. -/
def attachFile (r : Registry) (now : Int) (key name : Text) (directory : Files.Path) :
    Registry × Option Files.Fault :=
  match r.files.makeDirectories directory with
  | (files, some fault) =>
    let r := { r with files }
    if fault.isNoPath then (r, some fault)
    else ((r.log now key warningLevel (directoryRecord directory)).1, none)
  | (files, none) =>
    let place := (filePath directory name).place files.here
    match files.openEnd [] place with
    | .error fault => ({ r with files }, some fault)
    | .ok files =>
      ({ r with files }.modify key fun l => { l with sinks := l.sinks ++ [Sink.file place] }, none)

/-- Gives a logger its sinks: the stream, and a file if the variables ask for one. -/
def attachSinks (r : Registry) (now : Int) (given : Variables) (key name : Text) :
    Registry × Option Files.Fault :=
  let r := r.modify key fun l => { l with sinks := l.sinks ++ [.stream] }
  match given.directory with
  | none => (r, none)
  | some t => if t.isEmpty then (r, none) else r.attachFile now key name (.ofText t)

/-- The logger of a name at a level.  At its first use it gets its sinks and stops passing
    records on; later only the level changes. -/
def obtain (r : Registry) (now : Int) (given : Variables) (name : Text)
    (level : Option Int) : Registry × Except Files.Fault Logger :=
  let level := level.getD (levelOf given.level)
  let key := keyOf name
  let r := r.enroll key
  if !(r.logger key).sinks.isEmpty then
    let r := r.setLevel key level
    (r, .ok (r.logger key))
  else
    -- the record about a directory is made while the level is still that of a fresh logger
    match r.attachSinks now given key name with
    | (r, some fault) => (r, .error fault)
    | (r, none) =>
      let r := (r.setLevel key level).modify key fun l => { l with passesOn := false }
      (r, .ok (r.logger key))

end SignedEvents.Registry
