import Stylesheet.Files.Path
import Stylesheet.Report.Diagnostic
import Stylesheet.Tree.Basic

/-! Which variables are used.

A variable is used if its name is referenced in any rule of any file of a tree, or in the value of
another variable. The value of a variable is no use of that variable itself; every declaration of a
name is looked at on its own. -/

namespace Stylesheet

/-- A variable that nothing else in its tree references. -/
structure UnusedVariable where
  name : Text
  path : Path
  position : Position
deriving DecidableEq, Repr

/-- The line shown for an unused variable. -/
def UnusedVariable.line (u : UnusedVariable) : Text :=
  Diagnostic.unusedMessage u.position u.name

/-- The finding that an unused variable is. -/
def UnusedVariable.diagnostic (u : UnusedVariable) : Diagnostic :=
  .unused u.path u.position u.name

/-- The values that parameters take when no argument is given. -/
def Signature.fallbacks (s : Signature) : List Value :=
  s.parameters.filterMap Parameter.fallback

/-- The values of a clause. -/
def Clause.values : Clause → List Value
  | .property _ value => [value]
  | .inclusion _ arguments _ => arguments.map Argument.value
  | .extension _ => []
  | .mixin signature _ => signature.fallbacks
  | .raw _ => []

/-- The names referenced in the text of a clause outside its values. -/
def Clause.textReferences : Clause → List Text
  | .property .. => []
  | .inclusion _ _ content => (content.map Text.references).getD []
  | .extension _ => []
  | .mixin _ body => body.references
  | .raw text => text.references

/-- The values of a block. -/
def Block.values : Block → List Value
  | .mixin signature _ => signature.fallbacks
  | .function signature _ => signature.fallbacks
  | .animation .. => []
  | .raw _ => []

/-- The names referenced in the text of a block outside its values. -/
def Block.textReferences : Block → List Text
  | .mixin _ body => body.references
  | .function _ body => body.references
  | .animation _ body => body.references
  | .raw text => text.references

mutual

/-- The values of a rule and of the rules inside it. -/
def Rule.values : Rule → List Value
  | .selector _ _ declarations children =>
      declarations.flatMap (·.clause.values) ++ Rule.allValues children
  | .block _ b => b.values

/-- The values of a list of rules. -/
def Rule.allValues : List Rule → List Value
  | [] => []
  | rule :: rules => rule.values ++ Rule.allValues rules

end

mutual

/-- The names referenced in the text of a rule and of the rules inside it, outside their values. -/
def Rule.textReferences : Rule → List Text
  | .selector _ header declarations children =>
      header.references ++ declarations.flatMap (·.clause.textReferences) ++
        Rule.allTextReferences children
  | .block _ b => b.textReferences

/-- The names referenced in the text of a list of rules, outside their values. -/
def Rule.allTextReferences : List Rule → List Text
  | [] => []
  | rule :: rules => rule.textReferences ++ Rule.allTextReferences rules

end

namespace SourceFile

/-- The values of all rules of a tree, file by file. -/
def values (f : SourceFile) : List Value :=
  f.files.flatMap fun file => Rule.allValues file.rules

/-- The names referenced in a tree outside the values of variables. -/
def ruleReferences (f : SourceFile) : List Text :=
  f.values.flatMap Value.references ++
    f.files.flatMap fun file => Rule.allTextReferences file.rules

/-- The variables of a tree with the paths of their files, file by file. -/
def variableSites (f : SourceFile) : List (Path × Variable) :=
  f.files.flatMap fun file => file.vars.map fun v => (file.path, v)

end SourceFile

/-- Keeps the sites whose name is referenced neither in `used` nor in the value of another site;
`earlier` are the sites before them. -/
def UnusedVariable.among (used : List Text) (earlier : List (Path × Variable)) :
    List (Path × Variable) → List UnusedVariable
  | [] => []
  | site :: later =>
      let others := earlier ++ later
      let isUsed :=
        used.contains site.2.name || others.any (·.2.value.references.contains site.2.name)
      let rest := among used (earlier ++ [site]) later
      if isUsed then rest else ⟨site.2.name, site.1, site.2.position⟩ :: rest

/-- The unused variables of a tree, file by file in the order in which they are declared. -/
def SourceFile.unused (f : SourceFile) : List UnusedVariable :=
  UnusedVariable.among f.ruleReferences [] f.variableSites

end Stylesheet
