import Stylesheet.Value.Basic

/-! Arguments and parameters.

An argument may carry the name of the parameter it is for; a parameter may carry the value it takes
when no argument is given. -/

namespace Stylesheet

/-- An argument of an include. -/
structure Argument where
  /-- The parameter it is for, if it names one. -/
  name : Option Text
  value : Value
deriving DecidableEq, Repr

namespace Argument

/-- The argument that a text stands for. -/
def classify (t : Text) : Argument :=
  let t := t.trim
  match t.binding? with
  | some (name, value) => ⟨some name, .classify value⟩
  | none => ⟨none, .classify t⟩

/-- The arguments in a list divided by commas. -/
def classifyList (t : Text) : List Argument :=
  (t.splitTopLevel ',').map classify

/-- The argument in running text. -/
def text (a : Argument) : Text :=
  match a.name with
  | some name => '$' :: name ++ ": ".toList ++ a.value.text
  | none => a.value.text

end Argument

/-- A parameter of a mixin or a function. -/
structure Parameter where
  name : Text
  /-- The value taken when no argument is given. -/
  fallback : Option Value
deriving DecidableEq, Repr

namespace Parameter

/-- The name of a parameter without its sign and its dots. -/
def bareName (t : Text) : Text :=
  Text.withoutEndings "...".toList (t.dropWhile (· == '$'))

/-- The parameter that a text stands for. -/
def ofText (t : Text) : Parameter :=
  match t.splitFirst? ':' with
  | some (name, fallback) => ⟨bareName name.trim, some (.classify fallback)⟩
  | none => ⟨bareName t, none⟩

/-- The parameters in a list divided by commas. -/
def list (t : Text) : List Parameter :=
  (t.splitTopLevel ',').map ofText

end Parameter

/-- The name and the parameters of a mixin or a function. -/
structure Signature where
  name : Text
  parameters : List Parameter
deriving DecidableEq, Repr

end Stylesheet
