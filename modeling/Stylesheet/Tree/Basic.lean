import Stylesheet.Source.Position
import Stylesheet.Value.Argument

/-! The tree of a style sheet.

A file holds rules, variables and the files it imports. A rule is a selector, which holds
declarations and further rules, or a block kept as text. Every node carries the position at which it
starts, and a rule also how deep it is nested. -/

namespace Stylesheet

/-- A statement in the body of a selector. -/
inductive Clause where
  | property (name : Text) (value : Value)
  /-- The use of a mixin, with the text of the block given to it. -/
  | inclusion (name : Text) (arguments : List Argument) (content : Option Text)
  /-- The use of another selector's declarations. -/
  | extension (name : Text)
  /-- A mixin defined inside a selector. -/
  | mixin (signature : Signature) (body : Text)
  /-- A statement of no known shape. -/
  | raw (text : Text)
deriving DecidableEq, Repr

/-- A clause and its place. -/
structure Declaration where
  clause : Clause
  position : Position
deriving DecidableEq, Repr

/-- A rule whose body is kept as text. -/
inductive Block where
  | mixin (signature : Signature) (body : Text)
  | function (signature : Signature) (body : Text)
  | animation (name body : Text)
  /-- A block or a statement of no known shape. -/
  | raw (text : Text)
deriving DecidableEq, Repr

/-- Where a rule stands: its depth, one for the rules of a file, and the position of its start. -/
structure Place where
  depth : Nat
  position : Position
deriving DecidableEq, Repr

/-- A rule. Only a selector has declarations and rules of its own. -/
inductive Rule where
  | selector (place : Place) (header : Text) (declarations : List Declaration)
      (children : List Rule)
  | block (place : Place) (block : Block)
deriving Repr

/-- A mark behind the value of a variable. -/
inductive Flag where
  | default
  | global
deriving DecidableEq, Repr

/-- A variable of a file. -/
structure Variable where
  name : Text
  value : Value
  flags : List Flag
  position : Position
deriving DecidableEq, Repr

mutual

/-- A file and everything it imports. -/
structure SourceFile where
  path : Text
  rules : List Rule
  vars : List Variable
  imports : List ImportedFile

/-- A file under the name by which it is imported. -/
structure ImportedFile where
  name : Text
  file : SourceFile

end

/-- The name of a clause's kind. -/
def Clause.typeName : Clause → Text
  | .property .. => "PROPERTY".toList
  | .inclusion .. => "INCLUDE".toList
  | .extension _ => "EXTEND".toList
  | .mixin .. => "MIXIN".toList
  | .raw _ => "RAW_STATEMENT".toList

/-- The clause in running text. -/
def Clause.text : Clause → Text
  | .property name value => name ++ ": ".toList ++ value.text
  | .inclusion name arguments _ =>
      "@include ".toList ++ name ++ '(' :: Text.join ", ".toList (arguments.map Argument.text) ++
        [')']
  | .extension name => "@extend ".toList ++ name
  | .mixin signature _ => "@mixin ".toList ++ signature.name
  | .raw text => text

/-- The name of a block's kind. -/
def Block.typeName : Block → Text
  | .mixin .. => "MIXIN".toList
  | .function .. => "FUNCTION".toList
  | .animation .. => "ANIMATION".toList
  | .raw _ => "RAW_STATEMENT".toList

/-- What a block is called. -/
def Block.label : Block → Text
  | .mixin signature _ => signature.name
  | .function signature _ => signature.name
  | .animation name _ => name
  | .raw text => text

/-- A flag as it is written behind its exclamation mark. -/
def Flag.word : Flag → Text
  | .default => "default".toList
  | .global => "global".toList

namespace Rule

/-- Where a rule stands. -/
def place : Rule → Place
  | .selector place .. => place
  | .block place _ => place

/-- The name of a rule's kind. -/
def typeName : Rule → Text
  | .selector .. => "SELECTOR".toList
  | .block _ b => b.typeName

/-- What a rule is called. -/
def label : Rule → Text
  | .selector _ header .. => header
  | .block _ b => b.label

/-- The rules inside a rule. -/
def children : Rule → List Rule
  | .selector _ _ _ children => children
  | .block .. => []

/-- The declarations inside a rule. -/
def declarations : Rule → List Declaration
  | .selector _ _ declarations _ => declarations
  | .block .. => []

end Rule

mutual

/-- A file and the files it imports, each before its own imports. -/
def SourceFile.files : SourceFile → List SourceFile
  | ⟨path, rules, vars, imports⟩ =>
      ⟨path, rules, vars, imports⟩ :: ImportedFile.allFiles imports

/-- The files behind a list of imports. -/
def ImportedFile.allFiles : List ImportedFile → List SourceFile
  | [] => []
  | ⟨_, file⟩ :: others => file.files ++ ImportedFile.allFiles others

end

end Stylesheet
