import Stylesheet.Json
import Stylesheet.Tree.Basic

/-! The tree as JSON.

Every node is an object that starts with the name of its kind. Members that are optional are left
out when there is nothing to say. -/

namespace Stylesheet

/-- A member under a key. -/
def member (key : String) (value : Json) : Text × Json :=
  (key.toList, value)

/-- The members of a position. -/
def Position.members (p : Position) : List (Text × Json) :=
  [member "line" (.nat p.line), member "col" (.nat p.column)]

/-- A size as JSON. A number too large to be held is written as null. -/
def Size.json (s : Size) : Json :=
  let magnitude :=
    match s.magnitude with
    | .infinite _ => Json.null
    | .finite .. => .number (NumberStyle.json.write .double s.magnitude)
  .object (member "magnitude" magnitude ::
    (s.unit.map fun unit => member "unit" (.string unit.symbol)).toList)

/-- The name of an encoding. -/
def ColorEncoding.name : ColorEncoding → Text
  | .hexadecimal => "HEXADECIMAL".toList
  | .rgb => "RGB".toList

/-- The members of a value. -/
def Value.members (v : Value) : List (Text × Json) :=
  member "type" (.string v.typeName) ::
    match v with
    | .color encoding raw =>
        [member "encoding" (.string encoding.name), member "raw" (.string raw)]
    | .size values => [member "values" (.array (values.map Size.json))]
    | .url raw => [member "raw" (.string raw)]
    | .calc expression => [member "expr" (.string expression)]
    | .string raw => [member "raw" (.string raw)]

/-- A value as JSON. -/
def Value.json (v : Value) : Json :=
  .object v.members

/-- An argument as JSON. -/
def Argument.json (a : Argument) : Json :=
  .object ((a.name.map fun name => member "name" (.string name)).toList ++ a.value.members)

/-- A parameter as JSON. -/
def Parameter.json (p : Parameter) : Json :=
  .object (member "name" (.string p.name) ::
    (p.fallback.map fun value => member "default" value.json).toList)

/-- The members of a signature. -/
def Signature.members (s : Signature) : List (Text × Json) :=
  [member "name" (.string s.name), member "params" (.array (s.parameters.map Parameter.json))]

/-- The members of a clause. -/
def Clause.members (c : Clause) : List (Text × Json) :=
  member "type" (.string c.typeName) ::
    match c with
    | .property name value => [member "name" (.string name), member "value" value.json]
    | .inclusion name arguments content =>
        [member "name" (.string name), member "args" (.array (arguments.map Argument.json))] ++
          (content.map fun text => member "content" (.string text)).toList
    | .extension name => [member "name" (.string name)]
    | .mixin signature body => signature.members ++ [member "body" (.string body)]
    | .raw text => [member "text" (.string text)]

/-- A clause as JSON. -/
def Clause.json (c : Clause) : Json :=
  .object c.members

/-- A declaration as JSON. -/
def Declaration.json (d : Declaration) : Json :=
  .object (d.clause.members ++ d.position.members)

/-- The members of a block. -/
def Block.members (b : Block) : List (Text × Json) :=
  member "type" (.string b.typeName) ::
    match b with
    | .mixin signature body => signature.members ++ [member "body" (.string body)]
    | .function signature body => signature.members ++ [member "body" (.string body)]
    | .animation name body => [member "name" (.string name), member "body" (.string body)]
    | .raw text => [member "text" (.string text)]

/-- The members of a place. -/
def Place.members (p : Place) : List (Text × Json) :=
  member "depth" (.nat p.depth) :: p.position.members

mutual

/-- A rule as JSON. -/
def Rule.json : Rule → Json
  | .selector place header declarations children =>
      .object ([member "type" (.string "SELECTOR".toList), member "header" (.string header),
        member "declarations" (.array (declarations.map Declaration.json)),
        member "children" (.array (Rule.jsons children))] ++ place.members)
  | .block place b => .object (b.members ++ place.members)

/-- A list of rules as JSON. -/
def Rule.jsons : List Rule → List Json
  | [] => []
  | rule :: rules => rule.json :: Rule.jsons rules

end

/-- A variable as JSON. -/
def Variable.json (v : Variable) : Json :=
  let flags :=
    if v.flags.isEmpty then [] else [member "flags" (.strings (v.flags.map Flag.word))]
  .object ([member "type" (.string "VARIABLE".toList), member "name" (.string v.name),
    member "value" v.value.json] ++ flags ++ v.position.members)

mutual

/-- A file as JSON. -/
def SourceFile.json : SourceFile → Json
  | ⟨path, rules, vars, imports⟩ =>
      .object [member "type" (.string "FILE".toList), member "path" (.string path),
        member "rules" (.array (Rule.jsons rules)),
        member "variables" (.array (vars.map Variable.json)),
        member "imports" (.array (ImportedFile.jsons imports))]

/-- A list of imports as JSON. -/
def ImportedFile.jsons : List ImportedFile → List Json
  | [] => []
  | ⟨name, file⟩ :: others =>
      .object [member "type" (.string "IMPORT".toList), member "name" (.string name),
        member "file" file.json] :: ImportedFile.jsons others

end

end Stylesheet
