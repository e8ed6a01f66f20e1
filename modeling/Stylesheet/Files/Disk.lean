import Stylesheet.Files.Path

/-! A disk: directories, files and a current directory.

A location is the list of names from the root to a directory or a file. A path is followed name by
name; every name but the last has to lead to a directory, and so has the last one if a slash stands
behind it. A path that is opened as a whole must not be too long. -/

namespace Stylesheet

/-- The names from the root to a place. -/
abbrev Location := List Text

/-- Why a path leads to no text. -/
inductive ReadFault where
  /-- Nothing is there. -/
  | missing
  /-- A file stands where a directory is needed. -/
  | notDirectory
  /-- A directory stands where a file is needed. -/
  | isDirectory
  /-- A name, or the path, is too long. -/
  | nameTooLong
  /-- The path has a zero character in it. -/
  | zeroInName
  /-- The file is no text in UTF-8. -/
  | notText
  /-- The file has nothing but blanks. -/
  | empty
deriving DecidableEq, Repr

/-- The fault in words. -/
def ReadFault.message : ReadFault → Text
  | .missing => "No such file or directory (os error 2)".toList
  | .notDirectory => "Not a directory (os error 20)".toList
  | .isDirectory => "Is a directory (os error 21)".toList
  | .nameTooLong => "File name too long (os error 36)".toList
  | .zeroInName => "file name contained an unexpected NUL byte".toList
  | .notText => "stream did not contain valid UTF-8".toList
  | .empty => "file is empty".toList

/-- What a disk holds. -/
structure Disk where
  /-- The directories other than the root. -/
  directories : List Location
  /-- The files and their bytes. -/
  files : List (Location × ByteArray)
  /-- The directory from which relative paths start. -/
  current : Location

namespace Disk

/-- The bytes of the file at a location. -/
def bytes? (d : Disk) (l : Location) : Option ByteArray :=
  (d.files.find? (·.1 == l)).map (·.2)

/-- Whether a location is a directory. -/
def isDirectory (d : Disk) (l : Location) : Bool :=
  l.isEmpty || d.directories.contains l

/-- The place reached from a location by one part of a path. -/
def enter (d : Disk) (l : Location) (part : Text) : Except ReadFault Location :=
  if !d.isDirectory l then .error .notDirectory
  else if Path.isTrivial part then .ok l
  else if part = ['.', '.'] then .ok l.dropLast
  else if 255 < part.byteLength then .error .nameTooLong
  else if d.isDirectory (l ++ [part]) || (d.bytes? (l ++ [part])).isSome then .ok (l ++ [part])
  else .error .missing

/-- The place that a path leads to, followed part by part. -/
def follow (d : Disk) (p : Path) : Except ReadFault Location :=
  if p.contains '\x00' then .error .zeroInName
  else if p.isEmpty then .error .missing
  else p.parts.foldlM d.enter (if p.isAbsolute then [] else d.current)

/-- The place that a path leads to when it is opened as a whole: its spelling has to be shorter than
4096 bytes. -/
def locate (d : Disk) (p : Path) : Except ReadFault Location :=
  if 4096 ≤ p.byteLength && !p.contains '\x00' then .error .nameTooLong else d.follow p

theorem follow_of_locate {d : Disk} {p : Path} {l : Location} (h : d.locate p = .ok l) :
    d.follow p = .ok l := by
  unfold locate at h
  split at h
  · cases h
  · exact h

/-- Whether a path leads to a file. -/
def isFile (d : Disk) (p : Path) : Bool :=
  match d.locate p with
  | .ok l => !d.isDirectory l
  | .error _ => false

/-- The spelling of a location. -/
def spell (l : Location) : Path :=
  '/' :: Text.join ['/'] l

/-- The spelling by which a path is known: that of the place it leads to, or its own if it leads
nowhere. It is followed part by part, so its length does not matter. -/
def key (d : Disk) (p : Path) : Path :=
  match d.follow p with
  | .ok l => spell l
  | .error _ => p

/-- The text of the file that a path leads to. -/
def read (d : Disk) (p : Path) : Except ReadFault Text :=
  match d.locate p with
  | .error fault => .error fault
  | .ok l =>
      if d.isDirectory l then .error .isDirectory
      else
        match d.bytes? l with
        | none => .error .missing
        | some bytes =>
            match String.fromUTF8? bytes with
            | none => .error .notText
            | some text => .ok text.toList

/-- The text of the source that a path leads to. A source has more than blanks in it. -/
def readSource (d : Disk) (p : Path) : Except ReadFault Text :=
  match d.read p with
  | .error fault => .error fault
  | .ok text => if text.blank then .error .empty else .ok text

/-- The location that a path spells out, whatever the disk holds. -/
def spelled (d : Disk) (p : Path) : Location :=
  p.parts.foldl
    (fun l part =>
      if Path.isTrivial part then l else if part = ['.', '.'] then l.dropLast else l ++ [part])
    (if p.isAbsolute then [] else d.current)

/-- A location and all the directories above it. -/
def above (l : Location) : List Location :=
  (List.range (l.length + 1)).map l.take

/-- The disk with one more directory, and those above it. -/
def addDirectory (d : Disk) (l : Location) : Disk :=
  { d with directories := d.directories ++ (above l).filter fun m => !d.isDirectory m }

/-- The disk with the bytes of a file set, and the directories above it. -/
def write (d : Disk) (l : Location) (bytes : ByteArray) : Disk :=
  let d := d.addDirectory l.dropLast
  { d with files := (l, bytes) :: d.files.filter (·.1 != l) }

/-- The disk without a file. -/
def remove (d : Disk) (l : Location) : Disk :=
  { d with files := d.files.filter (·.1 != l) }

end Disk

end Stylesheet
