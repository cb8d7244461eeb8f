import SignedEvents.Files.Path
import SignedEvents.Text.Encoding

/-! # Trees of files

  The directories and files that there are, and what can be done at a path.

  - **Tree** — directories, and files with their contents.
  - **Fault** — why something cannot be done.
  - **Tree.walk**, **Tree.locate** — where a path leads.
  - **Tree.read** — the contents of a file.
  - **Tree.openEnd** — opens a file for writing at its end.
  - **Tree.makeDirectory**, **Tree.makeDirectories** — a directory, without and with those above
    it.
-/

namespace SignedEvents.Files

/-- Why something cannot be done at a path. -/
inductive Fault where
  | notFound
  | notDirectory
  | isDirectory
  /-- There is something already. -/
  | taken
  | nameTooLong
  /-- The path holds the code point zero. -/
  | holdsNul
  /-- A surrogate in the path stands for no byte. -/
  | unencodable (e : Utf8.Unencodable)

/-- Is the fault that a text can be no path? -/
def Fault.isNoPath : Fault → Bool
  | holdsNul | unencodable _ => true
  | _ => false

/-- The wording of a fault. -/
def Fault.message : Fault → Text
  | notFound => "no such file or directory"
  | notDirectory => "not a directory"
  | isDirectory => "is a directory"
  | taken => "file exists"
  | nameTooLong => "file name too long"
  | holdsNul => "embedded null byte"
  | unencodable e => Encoding.unencodableMessage e

/-- Directories, and files with their contents. -/
structure Tree (α : Type) where
  /-- The directory from which paths without a slash in front start. -/
  here        : Place
  /-- The directories besides the topmost one. -/
  directories : List Place
  files       : List (Place × α)

/-- The most bytes a name may have. -/
def nameLimit : Nat := 255

/-- The number of bytes that a path must stay below. -/
def pathLimit : Nat := 4096

/-- Can this text be a path at all? -/
def checkPath (t : Text) : Except Fault Unit :=
  match Utf8.encodeEscaping t with
  | .error e => .error (.unencodable e)
  | .ok _ =>
    if t.hasNul then .error .holdsNul
    else if t.isEmpty then .error .notFound
    else if byteLength t ≥ pathLimit then .error .nameTooLong
    else .ok ()

namespace Tree

variable {α : Type}

/-- The directories on the way to a place, without the topmost one, and the place itself. -/
def leadingTo (place : Place) : List Place :=
  (List.range place.length).map fun n => place.take (n + 1)

/-- The tree of a directory, some files, and the directories above them. -/
def ofFiles (here : Place) (files : List (Place × α)) : Tree α :=
  let above := files.flatMap fun f => leadingTo f.1.dropLast
  ⟨here, (leadingTo here ++ above).eraseDups, files⟩

/-- Is there a directory at a place? -/
def isDirectory (t : Tree α) (place : Place) : Bool := place.isEmpty || t.directories.contains place

/-- Is there a file at a place? -/
def isFile (t : Tree α) (place : Place) : Bool := t.files.any (·.1 = place)

/-! ## Where a path leads -/

/-- The directory where parts of a path lead, one after the other. -/
def walk (t : Tree α) (place : Place) : List Text → Except Fault Place
  | [] => .ok place
  | part :: rest =>
    if part.isEmpty || part = selfName then walk t place rest
    else if part = aboveName then walk t place.dropLast rest
    else if byteLength part > nameLimit then .error .nameTooLong
    else
      let next := place ++ [part]
      if t.isDirectory next then walk t next rest
      else if t.isFile next then .error .notDirectory
      else .error .notFound

/-- Does a part name something in the directory before it? -/
def isName (part : Text) : Bool := !part.isEmpty && part ≠ selfName && part ≠ aboveName

/-- The place of a name in the directory where parts lead. -/
def nameIn (t : Tree α) (start : Place) (parts : List Text) (name : Text) :
    Except Fault Place := do
  let directory ← t.walk start parts
  if byteLength name > nameLimit then throw .nameTooLong
  return directory ++ [name]

/-- The place where the text of a path leads.  There need not be anything at it. -/
def locate (t : Tree α) (path : Text) : Except Fault Place := do
  checkPath path
  let start := if path.startsWith "/" then [] else t.here
  let parts := splitPath path
  match parts.getLast? with
  | none => return start
  | some last =>
    if isName last then t.nameIn start parts.dropLast last else t.walk start parts

/-! ## Files -/

/-- The contents of the file at a path. -/
def read (t : Tree α) (path : Text) : Except Fault α := do
  let place ← t.locate path
  if t.isDirectory place then throw .isDirectory
  match t.files.find? (·.1 = place) with
  | some (_, contents) => return contents
  | none => throw .notFound

/-- Opens the file at a place for writing at its end.  If it is not there, it is created with
    the contents `empty`. -/
def openEnd (t : Tree α) (empty : α) (place : Place) : Except Fault (Tree α) := do
  let place ← t.locate ("/" ++ Text.join "/" place)
  if t.isDirectory place then throw .isDirectory
  if t.isFile place then return t
  return { t with files := t.files ++ [(place, empty)] }

/-- Changes the contents of the file at a place. -/
def change (t : Tree α) (place : Place) (f : α → α) : Tree α :=
  { t with files := t.files.map fun file => if file.1 = place then (file.1, f file.2) else file }

/-! ## Directories -/

/-- The directory from which a path starts. -/
def startOf (t : Tree α) (p : Path) : Place := if p.root.isEmpty then t.here else []

/-- Makes a directory. -/
def makeDirectory (t : Tree α) (p : Path) : Except Fault (Tree α) := do
  checkPath p.text
  match p.parts.getLast? with
  | none => throw .taken
  | some last =>
    if isName last then
      let place ← t.nameIn (t.startOf p) p.parts.dropLast last
      if t.isDirectory place || t.isFile place then throw .taken
      return { t with directories := t.directories ++ [place] }
    else
      let _ ← t.walk (t.startOf p) p.parts.dropLast
      throw .taken

/-- Is there a directory where a path leads? -/
def hasDirectory (t : Tree α) (p : Path) : Bool :=
  match t.walk (t.startOf p) p.parts with
  | .ok place => t.isDirectory place
  | .error _ => false

/-- The tree after a directory has been asked for.  It may be there already. -/
def settle (t : Tree α) (p : Path) (fault : Fault) : Tree α × Option Fault :=
  if t.hasDirectory p then (t, none) else (t, some fault)

/-- Makes the directory of a path from `root`, whose parts are given last one first, and those
    above it.  Directories that are there already are kept, and what has been made stays, also
    when there is a fault in the end. -/
def makeDirectoriesFrom (t : Tree α) (root : Text) : List Text → Tree α × Option Fault
  | [] =>
    match t.makeDirectory ⟨root, []⟩ with
    | .ok t => (t, none)
    | .error .notFound => (t, some .notFound)
    | .error fault => t.settle ⟨root, []⟩ fault
  | part :: above =>
    let p : Path := ⟨root, (part :: above).reverse⟩
    match t.makeDirectory p with
    | .ok t => (t, none)
    | .error .notFound =>
      match makeDirectoriesFrom t root above with
      | (t, some fault) => (t, some fault)
      | (t, none) =>
        match t.makeDirectory p with
        | .ok t => (t, none)
        | .error .notFound => (t, some .notFound)
        | .error fault => t.settle p fault
    | .error fault => t.settle p fault

/-- Makes the directory of a path and those above it. -/
def makeDirectories (t : Tree α) (p : Path) : Tree α × Option Fault :=
  t.makeDirectoriesFrom p.root p.parts.reverse

end Tree

end SignedEvents.Files
