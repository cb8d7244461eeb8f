import SignedEvents.Text.Utf8

/-! # Paths

  A path names a file or a directory.  As an operand of the program it is a text that is walked
  as it stands; a `Path` is the tidy form of such a text.

  - **Path** — what a path starts from, and its parts.
  - **Path.ofText**, **Path.text** — the tidy form of a text, and its text.
  - **Path.join** — one path behind another.
  - **Path.place** — the place of a path, with the parts `..` taken at their word.
  - **byteLength** — how long a name is for the file system.
-/

namespace SignedEvents.Files

/-- The names on the way from the topmost directory to a file or a directory. -/
abbrev Place := List Text

/-- The name of a directory in itself. -/
def selfName : Text := "."

/-- The name of the directory above in a directory. -/
def aboveName : Text := ".."

/-- The parts of a text between slashes. -/
def splitPath (t : Text) : List Text := t.splitAtAll (·.is '/')

/-- How many bytes a text takes in a path.  A surrogate stands for one byte. -/
def byteLength (t : Text) : Nat :=
  t.foldl (fun n c => n + if c.isSurrogate then 1 else (Utf8.encodePoint c).length) 0

/-- The tidy form of a path. -/
structure Path where
  /-- The slashes in front: none, one, or just two. -/
  root  : Text
  /-- The parts, without empty ones and those that stay where they are. -/
  parts : List Text
  deriving DecidableEq

namespace Path

/-- The slashes that count in front of a text: of more than two only one. -/
def rootOf (t : Text) : Text :=
  match (t.takeWhile (·.is '/')).length with
  | 0 => []
  | 2 => "//"
  | _ => "/"

/-- The tidy form of a text. -/
def ofText (t : Text) : Path :=
  ⟨rootOf t, (splitPath t).filter fun part => !part.isEmpty && part ≠ selfName⟩

/-- The text of a path. -/
def text (p : Path) : Text :=
  if p.root.isEmpty && p.parts.isEmpty then selfName else p.root ++ Text.join "/" p.parts

/-- One path behind another.  A path with slashes in front stands for itself. -/
def join (p q : Path) : Path := if q.root.isEmpty then ⟨p.root, p.parts ++ q.parts⟩ else q

/-- The place where a path leads from the directory `here`, with each part `..` cancelling the
    one before it. -/
def place (here : Place) (p : Path) : Place :=
  p.parts.foldl (fun so part => if part = aboveName then so.dropLast else so ++ [part])
    (if p.root.isEmpty then here else [])

end Path

end SignedEvents.Files
