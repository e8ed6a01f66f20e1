import Stylesheet.Files.Disk

/-! From the target of an import to a file.

A target names a directory and a stem. The partial file `_stem.scss` is looked for in the include
directory and then next to the importing file, and after it the plain file `stem.scss` in the same
two places. -/

namespace Stylesheet

/-- A target taken apart. -/
structure Target where
  /-- What precedes the last slash. -/
  directory : Option Text
  /-- The name without its extension and its underscores. -/
  stem : Text
deriving DecidableEq, Repr

namespace Target

/-- A stem without its underscores. -/
def bare (stem : Text) : Text :=
  stem.dropWhile (· == '_')

/-- A target as it is written. -/
def ofText (t : Text) : Target :=
  let t := t.trim
  let t := (Text.before? ".scss".toList t).getD t
  match Text.splitLast? '/' t with
  | some (directory, stem) => ⟨some directory, bare stem⟩
  | none => ⟨none, bare t⟩

/-- The name of a target as a partial file, without extension. -/
def name (t : Target) : Text :=
  match t.directory with
  | some directory => directory ++ '/' :: '_' :: t.stem
  | none => '_' :: t.stem

/-- The path of a file in the directory of a target. -/
def relative (t : Target) (file : Text) : Path :=
  match t.directory with
  | some directory => Path.join directory file
  | none => file

/-- The file name of a partial. -/
def partialFile (t : Target) : Text :=
  '_' :: t.stem ++ ".scss".toList

/-- The file name of a plain file. -/
def plainFile (t : Target) : Text :=
  t.stem ++ ".scss".toList

/-- The directories in which a target is looked for, in order. -/
def places (includePath : Option Path) (importer : Path) : List Path :=
  includePath.toList ++ [(Path.parent? importer).getD []]

/-- The paths tried for a target, in order. -/
def candidates (t : Target) (includePath : Option Path) (importer : Path) : List Path :=
  [t.partialFile, t.plainFile].flatMap fun file =>
    (places includePath importer).map fun place => Path.join place (t.relative file)

/-- The first path tried that leads to a file. -/
def find? (t : Target) (d : Disk) (includePath : Option Path) (importer : Path) : Option Path :=
  (t.candidates includePath importer).find? d.isFile

/-- The path that a target resolves to: the first tried that leads to a file, or the last tried. -/
def resolve (t : Target) (d : Disk) (includePath : Option Path) (importer : Path) : Path :=
  (t.find? d includePath importer).getD
    (((t.candidates includePath importer).getLast?).getD [])

end Target

end Stylesheet
