import Stylesheet.Tree.Basic

/-! The outline of a tree and the number of its nodes.

An outline has one line for each node, indented by two spaces for each level. -/

namespace Stylesheet

namespace Outline

/-- The greatest number of characters shown of a text. -/
def width : Nat := 50

/-- A text cut to the width of an outline. -/
def shorten (t : Text) : Text :=
  if width < t.length then t.take (width - 3) ++ "...".toList else t

/-- The start of a line at a level. -/
def pad (level : Nat) : Text :=
  List.replicate (2 * level) ' '

/-- The line of a variable. -/
def variableLine (level : Nat) (v : Variable) : Text :=
  pad level ++ "VARIABLE[".toList ++ v.position.text ++ "] $".toList ++ v.name ++ ": ".toList ++
    shorten v.value.text ++ ['\n']

/-- The line of a declaration. -/
def declarationLine (level : Nat) (d : Declaration) : Text :=
  pad level ++ d.clause.typeName ++ '[' :: d.position.text ++ "] '".toList ++
    shorten d.clause.text ++ ['\'', '\n']

/-- The line of a rule, without what is inside it. -/
def ruleLine (level : Nat) (r : Rule) : Text :=
  pad level ++ r.typeName ++ '[' :: r.place.position.text ++ "] depth ".toList ++
    Text.ofNat r.place.depth ++ " '".toList ++ shorten r.label ++ ['\'', '\n']

mutual

/-- The lines of a rule and of what is inside it. -/
def rule (level : Nat) : Rule → Text
  | .selector place header declarations children =>
      ruleLine level (.selector place header declarations children) ++
        declarations.flatMap (declarationLine (level + 1)) ++ rules (level + 1) children
  | .block place b => ruleLine level (.block place b)

/-- The lines of a list of rules. -/
def rules (level : Nat) : List Rule → Text
  | [] => []
  | r :: rs => rule level r ++ rules level rs

end

mutual

/-- The lines of a file below its own line. -/
def body (level : Nat) : SourceFile → Text
  | ⟨_, rs, vars, imports⟩ =>
      vars.flatMap (variableLine (level + 1)) ++ rules (level + 1) rs ++
        importedFiles (level + 1) imports

/-- The lines of a list of imports. -/
def importedFiles (level : Nat) : List ImportedFile → Text
  | [] => []
  | ⟨name, file⟩ :: others =>
      pad level ++ "IMPORT ".toList ++ name ++ " (".toList ++ file.path ++ [')', '\n'] ++
        body level file ++ importedFiles level others

end

/-- The outline of a file and everything it imports. -/
def file (f : SourceFile) : Text :=
  "FILE ".toList ++ f.path ++ ['\n'] ++ body 0 f

end Outline

/-- How many nodes there are of each kind, in the order of the names. -/
abbrev NodeCounts := List (Text × Nat)

namespace NodeCounts

/-- Whether a text comes before another one, by its characters. -/
def before : Text → Text → Bool
  | [], [] => false
  | [], _ :: _ => true
  | _ :: _, [] => false
  | a :: s, b :: t => a < b || (a == b && before s t)

/-- The counts with `n` more nodes of a kind. -/
def add (kind : Text) (n : Nat) : NodeCounts → NodeCounts
  | [] => [(kind, n)]
  | (other, m) :: counts =>
      if kind = other then (other, m + n) :: counts
      else if before kind other then (kind, n) :: (other, m) :: counts
      else (other, m) :: add kind n counts

mutual

/-- The counts with a rule and what is inside it. -/
def addRule (counts : NodeCounts) : Rule → NodeCounts
  | .selector _ _ declarations children =>
      addRules
        (declarations.foldl
          (fun counts d => add (d.clause.typeName ++ " (declaration)".toList) 1 counts)
          (add "SELECTOR".toList 1 counts))
        children
  | .block _ b => add b.typeName 1 counts

/-- The counts with a list of rules. -/
def addRules (counts : NodeCounts) : List Rule → NodeCounts
  | [] => counts
  | r :: rs => addRules (addRule counts r) rs

end

mutual

/-- The counts with a file and everything it imports. -/
def addFile (counts : NodeCounts) : SourceFile → NodeCounts
  | ⟨_, rules, vars, imports⟩ =>
      addImports
        (addRules (add "VARIABLE".toList vars.length (add "FILE".toList 1 counts)) rules)
        imports

/-- The counts with a list of imports. -/
def addImports (counts : NodeCounts) : List ImportedFile → NodeCounts
  | [] => counts
  | ⟨_, file⟩ :: others => addImports (addFile (add "IMPORT".toList 1 counts) file) others

end

/-- The counts of a file and everything it imports. -/
def ofFile (f : SourceFile) : NodeCounts :=
  addFile [] f

end NodeCounts

end Stylesheet
