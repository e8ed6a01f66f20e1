import Mathlib.Data.List.Forall2
import Stylesheet.Proofs.Numerals
import Stylesheet.Tree.Json

/-! What the document of a tree tells.

Two trees are alike if they are equal in everything but their magnitudes, and those are equal in
their JSON text, which infinite ones do not have. The document tells a tree up to this and no
further: `json_eq_iff` says so for every kind of node, from sizes to files. Members of a nested value
stand among those of its owner, and are told apart by their number or by their first key.

The keys of every object are distinct, so that the layout of documents tells the document. -/

namespace Stylesheet

/-! ### Trees that are alike -/

/-- The JSON text of a magnitude. An infinite one has none: null stands in its place. -/
def Binary.jsonText? : Binary → Option Text
  | .infinite _ => none
  | .finite negative significand exponent =>
      some (NumberStyle.json.write .double (.finite negative significand exponent))

structure Size.Alike (s s' : Size) : Prop where
  magnitude : s.magnitude.jsonText? = s'.magnitude.jsonText?
  unit : s.unit = s'.unit

inductive Value.Alike : Value → Value → Prop
  | color (encoding : ColorEncoding) (raw : Text) : Alike (.color encoding raw) (.color encoding raw)
  | size {values values' : List Size} (h : List.Forall₂ Size.Alike values values') :
      Alike (.size values) (.size values')
  | url (raw : Text) : Alike (.url raw) (.url raw)
  | calc (expression : Text) : Alike (.calc expression) (.calc expression)
  | string (raw : Text) : Alike (.string raw) (.string raw)

structure Argument.Alike (a a' : Argument) : Prop where
  name : a.name = a'.name
  value : a.value.Alike a'.value

structure Parameter.Alike (p p' : Parameter) : Prop where
  name : p.name = p'.name
  fallback : Option.Rel Value.Alike p.fallback p'.fallback

structure Signature.Alike (s s' : Signature) : Prop where
  name : s.name = s'.name
  parameters : List.Forall₂ Parameter.Alike s.parameters s'.parameters

inductive Clause.Alike : Clause → Clause → Prop
  | property (name : Text) {value value' : Value} (h : value.Alike value') :
      Alike (.property name value) (.property name value')
  | inclusion (name : Text) {arguments arguments' : List Argument} (content : Option Text)
      (h : List.Forall₂ Argument.Alike arguments arguments') :
      Alike (.inclusion name arguments content) (.inclusion name arguments' content)
  | extension (name : Text) : Alike (.extension name) (.extension name)
  | mixin {signature signature' : Signature} (body : Text) (h : signature.Alike signature') :
      Alike (.mixin signature body) (.mixin signature' body)
  | raw (text : Text) : Alike (.raw text) (.raw text)

structure Declaration.Alike (d d' : Declaration) : Prop where
  clause : d.clause.Alike d'.clause
  position : d.position = d'.position

inductive Block.Alike : Block → Block → Prop
  | mixin {signature signature' : Signature} (body : Text) (h : signature.Alike signature') :
      Alike (.mixin signature body) (.mixin signature' body)
  | function {signature signature' : Signature} (body : Text) (h : signature.Alike signature') :
      Alike (.function signature body) (.function signature' body)
  | animation (name body : Text) : Alike (.animation name body) (.animation name body)
  | raw (text : Text) : Alike (.raw text) (.raw text)

inductive Rule.Alike : Rule → Rule → Prop
  | selector (place : Place) (header : Text) {declarations declarations' : List Declaration}
      {children children' : List Rule}
      (hdeclarations : List.Forall₂ Declaration.Alike declarations declarations')
      (hchildren : List.Forall₂ Rule.Alike children children') :
      Alike (.selector place header declarations children)
        (.selector place header declarations' children')
  | block (place : Place) {b b' : Block} (h : b.Alike b') : Alike (.block place b) (.block place b')

structure Variable.Alike (v v' : Variable) : Prop where
  name : v.name = v'.name
  value : v.value.Alike v'.value
  flags : v.flags = v'.flags
  position : v.position = v'.position

mutual

/-- Two files are equal, with everything in them and all they import, up to the JSON text of
magnitudes. -/
inductive SourceFile.Alike : SourceFile → SourceFile → Prop
  | file (path : Text) {rules rules' : List Rule} {vars vars' : List Variable}
      {imports imports' : List ImportedFile} (hrules : List.Forall₂ Rule.Alike rules rules')
      (hvars : List.Forall₂ Variable.Alike vars vars')
      (himports : List.Forall₂ ImportedFile.Alike imports imports') :
      SourceFile.Alike ⟨path, rules, vars, imports⟩ ⟨path, rules', vars', imports'⟩

inductive ImportedFile.Alike : ImportedFile → ImportedFile → Prop
  | imported (name : Text) {file file' : SourceFile} (h : SourceFile.Alike file file') :
      ImportedFile.Alike ⟨name, file⟩ ⟨name, file'⟩

end

/-! ### Documents of trees -/

section

variable {α β : Type} {f : α → β} {R : α → α → Prop}

theorem map_eq_map_iff_forall₂ (h : ∀ a b, f a = f b ↔ R a b) {as bs : List α} :
    as.map f = bs.map f ↔ List.Forall₂ R as bs := by
  rw [← List.forall₂_eq_eq_eq, List.forall₂_map_left_iff, List.forall₂_map_right_iff]
  simp only [h]

/-- What is left out is told from what is there. -/
theorem toList_map_inj (h : ∀ a b, f a = f b ↔ a = b) {o o' : Option α} :
    (o.map f).toList = (o'.map f).toList ↔ o = o' := by
  cases o <;> cases o' <;> simp [h]

end

@[simp]
theorem Json.nat_inj {n n' : Nat} : Json.nat n = Json.nat n' ↔ n = n' := by
  simp only [Json.nat, Json.number.injEq]
  exact ⟨Text.ofNat_inj, congrArg Text.ofNat⟩

@[simp]
theorem member_inj {key key' : String} {value value' : Json} :
    member key value = member key' value' ↔ key = key' ∧ value = value' := by
  simp [member, String.toList_inj]

theorem Position.members_inj {p p' : Position} : p.members = p'.members ↔ p = p' := by
  cases p
  cases p'
  simp [members]

theorem Place.members_inj {p p' : Place} : p.members = p'.members ↔ p = p' := by
  cases p
  cases p'
  simp [members, Position.members_inj]

theorem append_position_inj {ms ms' : List (Text × Json)} {p p' : Position} :
    ms ++ p.members = ms' ++ p'.members ↔ ms = ms' ∧ p = p' := by
  rw [← Position.members_inj]
  exact ⟨fun h => List.append_inj' h rfl, fun ⟨hms, hp⟩ => by rw [hms, hp]⟩

theorem append_place_inj {ms ms' : List (Text × Json)} {p p' : Place} :
    ms ++ p.members = ms' ++ p'.members ↔ ms = ms' ∧ p = p' := by
  rw [← Place.members_inj]
  exact ⟨fun h => List.append_inj' h rfl, fun ⟨hms, hp⟩ => by rw [hms, hp]⟩

theorem LengthUnit.symbol_inj {u u' : LengthUnit} : u.symbol = u'.symbol ↔ u = u' := by
  constructor
  · intro h
    have hread := congrArg ofSymbol? h
    simpa using hread
  · rintro rfl
    rfl

theorem ColorEncoding.name_inj {e e' : ColorEncoding} : e.name = e'.name ↔ e = e' := by
  cases e <;> cases e' <;> decide

theorem Flag.word_inj {flag flag' : Flag} : flag.word = flag'.word ↔ flag = flag' := by
  cases flag <;> cases flag' <;> decide

theorem Size.json_eq (s : Size) :
    s.json = .object (member "magnitude" ((s.magnitude.jsonText?.map .number).getD .null) ::
      (s.unit.map fun unit => member "unit" (.string unit.symbol)).toList) := by
  cases s with
  | mk magnitude unit => cases magnitude <;> rfl

theorem Size.json_eq_iff (s s' : Size) : s.json = s'.json ↔ s.Alike s' := by
  have hmagnitude {m m' : Option Text} :
      ((m.map .number).getD .null : Json) = (m'.map .number).getD .null ↔ m = m' := by
    cases m <;> cases m' <;> simp
  rw [json_eq, json_eq, Json.object.injEq, List.cons.injEq, member_inj, hmagnitude,
    toList_map_inj (by simp [LengthUnit.symbol_inj])]
  exact ⟨fun ⟨⟨_, hm⟩, hu⟩ => ⟨hm, hu⟩, fun ⟨hm, hu⟩ => ⟨⟨rfl, hm⟩, hu⟩⟩

theorem Value.members_eq_iff (v v' : Value) : v.members = v'.members ↔ v.Alike v' := by
  constructor
  · intro h
    obtain ⟨htype, hothers⟩ := List.cons.inj h
    replace htype : v.typeName = v'.typeName := by simpa using htype
    cases v <;> cases v' <;> dsimp only [typeName] at htype
    all_goals try exact absurd htype (by decide)
    · rename_i encoding raw encoding' raw'
      have hboth : encoding.name = encoding'.name ∧ raw = raw' := by simpa using hothers
      obtain ⟨hencoding, rfl⟩ := hboth
      obtain rfl := ColorEncoding.name_inj.1 hencoding
      exact .color encoding raw
    · rename_i values values'
      have hvalues : values.map Size.json = values'.map Size.json := by simpa using hothers
      exact .size ((map_eq_map_iff_forall₂ Size.json_eq_iff).1 hvalues)
    · rename_i raw raw'
      obtain rfl : raw = raw' := by simpa using hothers
      exact .url raw
    · rename_i expression expression'
      obtain rfl : expression = expression' := by simpa using hothers
      exact .calc expression
    · rename_i raw raw'
      obtain rfl : raw = raw' := by simpa using hothers
      exact .string raw
  · intro h
    cases h with
    | size h =>
        dsimp only [members, typeName]
        rw [(map_eq_map_iff_forall₂ Size.json_eq_iff).2 h]
    | _ => rfl

theorem Value.json_eq_iff (v v' : Value) : v.json = v'.json ↔ v.Alike v' := by
  rw [json, json, Json.object.injEq, members_eq_iff]

/-- The members of a value start with its type, never with a name. -/
theorem Value.members_ne_name_cons (v : Value) (name : Json) (others : List (Text × Json)) :
    v.members ≠ member "name" name :: others := by
  simp [members]

theorem Argument.json_eq_iff (a a' : Argument) : a.json = a'.json ↔ a.Alike a' := by
  obtain ⟨name, value⟩ := a
  obtain ⟨name', value'⟩ := a'
  rw [json, json, Json.object.injEq]
  constructor
  · intro h
    cases name with
    | none =>
        cases name' with
        | none => exact ⟨rfl, (Value.members_eq_iff value value').1 h⟩
        | some name' => exact absurd h (Value.members_ne_name_cons value _ _)
    | some name =>
        cases name' with
        | none => exact absurd h.symm (Value.members_ne_name_cons value' _ _)
        | some name' =>
            obtain ⟨hname, hvalue⟩ := List.cons.inj h
            exact ⟨by simpa using hname, (Value.members_eq_iff value value').1 hvalue⟩
  · rintro ⟨rfl, hvalue⟩
    rw [(Value.members_eq_iff value value').2 hvalue]

theorem Parameter.json_eq_iff (p p' : Parameter) : p.json = p'.json ↔ p.Alike p' := by
  obtain ⟨name, fallback⟩ := p
  obtain ⟨name', fallback'⟩ := p'
  constructor
  · intro h
    cases fallback <;> cases fallback' <;> simp [json, Value.json_eq_iff] at h
    · exact ⟨h, .none⟩
    · exact ⟨h.1, .some h.2⟩
  · rintro ⟨rfl, hfallback⟩
    cases hfallback with
    | none => rfl
    | some h => simp [json, (Value.json_eq_iff _ _).2 h]

theorem Signature.members_eq_iff (s s' : Signature) : s.members = s'.members ↔ s.Alike s' := by
  have hiff : s.members = s'.members ↔
      s.name = s'.name ∧ List.Forall₂ Parameter.Alike s.parameters s'.parameters := by
    simp [members, map_eq_map_iff_forall₂ Parameter.json_eq_iff]
  rw [hiff]
  exact ⟨fun ⟨hname, hparameters⟩ => ⟨hname, hparameters⟩, fun h => ⟨h.name, h.parameters⟩⟩

/-- The members of a mixin or a function behind its type. -/
theorem append_body_inj {s s' : Signature} {body body' : Text} :
    s.members ++ [member "body" (.string body)] = s'.members ++ [member "body" (.string body')] ↔
      s.Alike s' ∧ body = body' := by
  rw [← Signature.members_eq_iff]
  constructor
  · intro h
    obtain ⟨hmembers, hbody⟩ := List.append_inj' h rfl
    exact ⟨hmembers, by simpa using hbody⟩
  · rintro ⟨hmembers, rfl⟩
    rw [hmembers]

theorem Clause.members_eq_iff (c c' : Clause) : c.members = c'.members ↔ c.Alike c' := by
  constructor
  · intro h
    obtain ⟨htype, hothers⟩ := List.cons.inj h
    replace htype : c.typeName = c'.typeName := by simpa using htype
    cases c <;> cases c' <;> dsimp only [typeName] at htype
    all_goals try exact absurd htype (by decide)
    · rename_i name value name' value'
      have hboth : name = name' ∧ value.Alike value' := by
        simpa [Value.json_eq_iff] using hothers
      obtain ⟨rfl, hvalue⟩ := hboth
      exact .property name hvalue
    · rename_i name arguments content name' arguments' content'
      obtain ⟨rfl, harguments, hcontent⟩ : name = name' ∧
          arguments.map Argument.json = arguments'.map Argument.json ∧
          (content.map fun text => member "content" (.string text)).toList =
            (content'.map fun text => member "content" (.string text)).toList := by
        simpa using hothers
      obtain rfl := (toList_map_inj (by simp)).1 hcontent
      exact .inclusion name content ((map_eq_map_iff_forall₂ Argument.json_eq_iff).1 harguments)
    · rename_i name name'
      obtain rfl : name = name' := by simpa using hothers
      exact .extension name
    · rename_i signature body signature' body'
      obtain ⟨hsignature, rfl⟩ := append_body_inj.1 hothers
      exact .mixin body hsignature
    · rename_i text text'
      obtain rfl : text = text' := by simpa using hothers
      exact .raw text
  · intro h
    cases h with
    | property name h =>
        dsimp only [members, typeName]
        rw [(Value.json_eq_iff _ _).2 h]
    | inclusion name content h =>
        dsimp only [members, typeName]
        rw [(map_eq_map_iff_forall₂ Argument.json_eq_iff).2 h]
    | mixin body h =>
        dsimp only [members, typeName]
        rw [(Signature.members_eq_iff _ _).2 h]
    | _ => rfl

theorem Declaration.json_eq_iff (d d' : Declaration) : d.json = d'.json ↔ d.Alike d' := by
  rw [json, json, Json.object.injEq, append_position_inj, Clause.members_eq_iff]
  exact ⟨fun ⟨hclause, hposition⟩ => ⟨hclause, hposition⟩, fun h => ⟨h.clause, h.position⟩⟩

theorem Block.members_eq_iff (b b' : Block) : b.members = b'.members ↔ b.Alike b' := by
  constructor
  · intro h
    obtain ⟨htype, hothers⟩ := List.cons.inj h
    replace htype : b.typeName = b'.typeName := by simpa using htype
    cases b <;> cases b' <;> dsimp only [typeName] at htype
    all_goals try exact absurd htype (by decide)
    · rename_i signature body signature' body'
      obtain ⟨hsignature, rfl⟩ := append_body_inj.1 hothers
      exact .mixin body hsignature
    · rename_i signature body signature' body'
      obtain ⟨hsignature, rfl⟩ := append_body_inj.1 hothers
      exact .function body hsignature
    · rename_i name body name' body'
      obtain ⟨rfl, rfl⟩ : name = name' ∧ body = body' := by simpa using hothers
      exact .animation name body
    · rename_i text text'
      obtain rfl : text = text' := by simpa using hothers
      exact .raw text
  · intro h
    cases h with
    | mixin body h =>
        dsimp only [members, typeName]
        rw [(Signature.members_eq_iff _ _).2 h]
    | function body h =>
        dsimp only [members, typeName]
        rw [(Signature.members_eq_iff _ _).2 h]
    | _ => rfl

/-- The members of a block start with its type, which is never that of a selector. -/
theorem Block.members_ne_selector (b : Block) (others : List (Text × Json)) :
    b.members ≠ member "type" (.string "SELECTOR".toList) :: others := by
  intro h
  have htype : b.typeName = "SELECTOR".toList := by simpa using (List.cons.inj h).1
  cases b <;> exact absurd htype (by dsimp only [typeName]; decide)

mutual

theorem Rule.json_eq_iff : (rule rule' : Rule) → (rule.json = rule'.json ↔ rule.Alike rule')
  | .selector place header declarations children,
    .selector place' header' declarations' children' => by
      rw [Rule.json, Rule.json, Json.object.injEq, append_place_inj]
      constructor
      · rintro ⟨hmembers, rfl⟩
        obtain ⟨rfl, hdeclarations, hchildren⟩ : header = header' ∧
            declarations.map Declaration.json = declarations'.map Declaration.json ∧
            Rule.jsons children = Rule.jsons children' := by simpa using hmembers
        exact .selector place header
          ((map_eq_map_iff_forall₂ Declaration.json_eq_iff).1 hdeclarations)
          ((Rule.jsons_eq_iff children children').1 hchildren)
      · intro h
        cases h with
        | selector _ _ hdeclarations hchildren =>
            rw [(map_eq_map_iff_forall₂ Declaration.json_eq_iff).2 hdeclarations,
              (Rule.jsons_eq_iff children children').2 hchildren]
            exact ⟨rfl, rfl⟩
  | .selector place header declarations children, .block place' b' => by
      rw [Rule.json, Rule.json, Json.object.injEq, append_place_inj]
      constructor
      · rintro ⟨hmembers, rfl⟩
        exact absurd hmembers.symm (Block.members_ne_selector b' _)
      · intro h
        cases h
  | .block place b, .selector place' header' declarations' children' => by
      rw [Rule.json, Rule.json, Json.object.injEq, append_place_inj]
      constructor
      · rintro ⟨hmembers, rfl⟩
        exact absurd hmembers (Block.members_ne_selector b _)
      · intro h
        cases h
  | .block place b, .block place' b' => by
      rw [Rule.json, Rule.json, Json.object.injEq, append_place_inj, Block.members_eq_iff]
      constructor
      · rintro ⟨hblock, rfl⟩
        exact .block place hblock
      · intro h
        cases h with
        | block _ hblock => exact ⟨hblock, rfl⟩

theorem Rule.jsons_eq_iff : (rules rules' : List Rule) →
    (Rule.jsons rules = Rule.jsons rules' ↔ List.Forall₂ Rule.Alike rules rules')
  | [], [] => by simp [Rule.jsons]
  | [], rule' :: rules' => by simp [Rule.jsons]
  | rule :: rules, [] => by simp [Rule.jsons]
  | rule :: rules, rule' :: rules' => by
      rw [Rule.jsons, Rule.jsons, List.cons.injEq, List.forall₂_cons, Rule.json_eq_iff rule rule',
        Rule.jsons_eq_iff rules rules']

end

/-- The flags of a variable are left out if there are none. -/
theorem flags_inj {flags flags' : List Flag} :
    (if flags.isEmpty then [] else [member "flags" (.strings (flags.map Flag.word))]) =
        (if flags'.isEmpty then [] else [member "flags" (.strings (flags'.map Flag.word))]) ↔
      flags = flags' := by
  have hwords : flags.map (Json.string ∘ Flag.word) = flags'.map (Json.string ∘ Flag.word) ↔
      flags = flags' :=
    List.map_inj_right fun _ _ h => Flag.word_inj.1 (Json.string.inj h)
  rw [← hwords]
  cases flags <;> cases flags' <;> simp [Json.strings]

theorem Variable.json_eq_iff (v v' : Variable) : v.json = v'.json ↔ v.Alike v' := by
  have hiff : v.json = v'.json ↔ ((v.name = v'.name ∧ v.value.json = v'.value.json) ∧
      v.flags = v'.flags) ∧ v.position = v'.position := by
    rw [json, json, Json.object.injEq, append_position_inj, ← flags_inj]
    simp [and_assoc]
  rw [hiff, Value.json_eq_iff]
  constructor
  · rintro ⟨⟨⟨hname, hvalue⟩, hflags⟩, hposition⟩
    exact ⟨hname, hvalue, hflags, hposition⟩
  · exact fun h => ⟨⟨⟨h.name, h.value⟩, h.flags⟩, h.position⟩

mutual

theorem SourceFile.json_eq_iff : (f f' : SourceFile) → (f.json = f'.json ↔ f.Alike f')
  | ⟨path, rules, vars, imports⟩, ⟨path', rules', vars', imports'⟩ => by
      rw [SourceFile.json, SourceFile.json, Json.object.injEq]
      constructor
      · intro h
        obtain ⟨rfl, hrules, hvars, himports⟩ : path = path' ∧
            Rule.jsons rules = Rule.jsons rules' ∧
            vars.map Variable.json = vars'.map Variable.json ∧
            ImportedFile.jsons imports = ImportedFile.jsons imports' := by simpa using h
        exact .file path ((Rule.jsons_eq_iff rules rules').1 hrules)
          ((map_eq_map_iff_forall₂ Variable.json_eq_iff).1 hvars)
          ((ImportedFile.jsons_eq_iff imports imports').1 himports)
      · intro h
        cases h with
        | file _ hrules hvars himports =>
            rw [(Rule.jsons_eq_iff rules rules').2 hrules,
              (map_eq_map_iff_forall₂ Variable.json_eq_iff).2 hvars,
              (ImportedFile.jsons_eq_iff imports imports').2 himports]

theorem ImportedFile.jsons_eq_iff : (imports imports' : List ImportedFile) →
    (ImportedFile.jsons imports = ImportedFile.jsons imports' ↔
      List.Forall₂ ImportedFile.Alike imports imports')
  | [], [] => by simp [ImportedFile.jsons]
  | [], ⟨_, _⟩ :: _ => by simp [ImportedFile.jsons]
  | ⟨_, _⟩ :: _, [] => by simp [ImportedFile.jsons]
  | ⟨name, file⟩ :: others, ⟨name', file'⟩ :: others' => by
      rw [ImportedFile.jsons, ImportedFile.jsons, List.cons.injEq, List.forall₂_cons,
        ImportedFile.jsons_eq_iff others others']
      refine and_congr_left fun _ => ?_
      constructor
      · intro h
        obtain ⟨rfl, hfile⟩ : name = name' ∧ file.json = file'.json := by simpa using h
        exact .imported name ((SourceFile.json_eq_iff file file').1 hfile)
      · intro h
        cases h with
        | imported _ hfile => rw [(SourceFile.json_eq_iff file file').2 hfile]

end

/-! ### Keys -/

open Json

theorem wellFormed_nat (n : Nat) : (Json.nat n).WellFormed :=
  .number (isNumber_ofNat n)

theorem wellFormed_map {α : Type} {f : α → Json} (h : ∀ a, (f a).WellFormed) (as : List α) :
    (Json.array (as.map f)).WellFormed :=
  .array (List.forall_mem_map.2 fun a _ => h a)

theorem Size.wellFormed_json (s : Size) : s.json.WellFormed := by
  obtain ⟨magnitude, unit⟩ := s
  have hmagnitude : ((magnitude.jsonText?.map Json.number).getD .null).WellFormed := by
    cases magnitude with
    | infinite negative => exact .null
    | finite negative significand exponent => exact .number (isNumber_write ..)
  rw [json_eq]
  cases unit with
  | none => exact .object (by simp) (by simpa [member] using hmagnitude)
  | some unit =>
      exact .object (by simp [member]) (by simpa [member] using ⟨hmagnitude, .string _⟩)

theorem Position.wellFormed_members (p : Position) : ∀ m ∈ p.members, m.2.WellFormed := by
  simp [members, member, wellFormed_nat]

theorem Place.wellFormed_members (p : Place) : ∀ m ∈ p.members, m.2.WellFormed :=
  List.forall_mem_cons.2 ⟨wellFormed_nat p.depth, p.position.wellFormed_members⟩

theorem Value.wellFormed_members (v : Value) : ∀ m ∈ v.members, m.2.WellFormed := by
  refine List.forall_mem_cons.2 ⟨.string _, ?_⟩
  cases v with
  | size values => simpa [member] using wellFormed_map Size.wellFormed_json values
  | _ => simp [member, WellFormed.string]

theorem Value.wellFormed_json (v : Value) : v.json.WellFormed := by
  refine .object ?_ v.wellFormed_members
  cases v <;> simp [members, member]

theorem Argument.wellFormed_json (a : Argument) : a.json.WellFormed := by
  obtain ⟨name, value⟩ := a
  refine .object ?_ (List.forall_mem_append.2 ⟨?_, value.wellFormed_members⟩)
  · cases name <;> cases value <;> simp [Value.members, member]
  · cases name <;> simp [member, WellFormed.string]

theorem Parameter.wellFormed_json (p : Parameter) : p.json.WellFormed := by
  obtain ⟨name, fallback⟩ := p
  refine .object ?_ (List.forall_mem_cons.2 ⟨.string _, ?_⟩)
  · cases fallback <;> simp [member]
  · cases fallback <;> simp [member, Value.wellFormed_json]

theorem Signature.wellFormed_members (s : Signature) : ∀ m ∈ s.members, m.2.WellFormed := by
  simpa [members, member, WellFormed.string] using
    wellFormed_map Parameter.wellFormed_json s.parameters

theorem Clause.wellFormed_members (c : Clause) : ∀ m ∈ c.members, m.2.WellFormed := by
  refine List.forall_mem_cons.2 ⟨.string _, ?_⟩
  cases c with
  | property name value => simp [member, WellFormed.string, Value.wellFormed_json]
  | inclusion name arguments content =>
      have harguments := wellFormed_map Argument.wellFormed_json arguments
      cases content <;> simpa [member, WellFormed.string] using harguments
  | mixin signature body =>
      refine List.forall_mem_append.2 ⟨signature.wellFormed_members, ?_⟩
      simp [member, WellFormed.string]
  | _ => simp [member, WellFormed.string]

theorem Declaration.wellFormed_json (d : Declaration) : d.json.WellFormed := by
  obtain ⟨clause, position⟩ := d
  refine .object ?_ (List.forall_mem_append.2
    ⟨clause.wellFormed_members, position.wellFormed_members⟩)
  cases clause with
  | inclusion name arguments content =>
      cases content <;> simp [Clause.members, Position.members, member]
  | _ => simp [Clause.members, Signature.members, Position.members, member]

theorem Block.wellFormed_members (b : Block) : ∀ m ∈ b.members, m.2.WellFormed := by
  refine List.forall_mem_cons.2 ⟨.string _, ?_⟩
  cases b with
  | mixin signature body =>
      refine List.forall_mem_append.2 ⟨signature.wellFormed_members, ?_⟩
      simp [member, WellFormed.string]
  | function signature body =>
      refine List.forall_mem_append.2 ⟨signature.wellFormed_members, ?_⟩
      simp [member, WellFormed.string]
  | _ => simp [member, WellFormed.string]

theorem Variable.wellFormed_json (v : Variable) : v.json.WellFormed := by
  obtain ⟨name, value, flags, position⟩ := v
  refine .object ?_ (List.forall_mem_append.2
    ⟨List.forall_mem_append.2 ⟨?_, ?_⟩, position.wellFormed_members⟩)
  · cases flags <;> simp [Position.members, member]
  · simp [member, WellFormed.string, Value.wellFormed_json]
  · cases flags with
    | nil => simp
    | cons flag flags =>
        have hwords : (Json.strings ((flag :: flags).map Flag.word)).WellFormed :=
          wellFormed_map WellFormed.string _
        simpa [member] using hwords

mutual

theorem Rule.wellFormed_json : (rule : Rule) → rule.json.WellFormed
  | .selector place header declarations children => by
      rw [Rule.json]
      refine .object ?_ (List.forall_mem_append.2 ⟨?_, place.wellFormed_members⟩)
      · simp [Place.members, Position.members, member]
      · have hdeclarations := wellFormed_map Declaration.wellFormed_json declarations
        have hchildren : (Json.array (Rule.jsons children)).WellFormed :=
          .array (Rule.wellFormed_jsons children)
        simpa [member, WellFormed.string] using ⟨hdeclarations, hchildren⟩
  | .block place b => by
      rw [Rule.json]
      refine .object ?_ (List.forall_mem_append.2 ⟨b.wellFormed_members, place.wellFormed_members⟩)
      cases b <;> simp [Block.members, Signature.members, Place.members, Position.members, member]

theorem Rule.wellFormed_jsons : (rules : List Rule) → ∀ j ∈ Rule.jsons rules, j.WellFormed
  | [] => by simp [Rule.jsons]
  | rule :: rules => by
      rw [Rule.jsons]
      exact List.forall_mem_cons.2 ⟨Rule.wellFormed_json rule, Rule.wellFormed_jsons rules⟩

end

mutual

theorem SourceFile.wellFormed_json : (f : SourceFile) → f.json.WellFormed
  | ⟨path, rules, vars, imports⟩ => by
      have hrules : (Json.array (Rule.jsons rules)).WellFormed :=
        .array (Rule.wellFormed_jsons rules)
      have hvars := wellFormed_map Variable.wellFormed_json vars
      have himports : (Json.array (ImportedFile.jsons imports)).WellFormed :=
        .array (ImportedFile.wellFormed_jsons imports)
      rw [SourceFile.json]
      refine .object (by simp [member]) ?_
      simpa [member, WellFormed.string] using ⟨hrules, hvars, himports⟩

theorem ImportedFile.wellFormed_jsons : (imports : List ImportedFile) →
    ∀ j ∈ ImportedFile.jsons imports, j.WellFormed
  | [] => by simp [ImportedFile.jsons]
  | ⟨name, file⟩ :: others => by
      have hfile := SourceFile.wellFormed_json file
      rw [ImportedFile.jsons]
      refine List.forall_mem_cons.2 ⟨.object (by simp [member]) ?_,
        ImportedFile.wellFormed_jsons others⟩
      simpa [member, WellFormed.string] using hfile

end

/-- The printed document tells the tree. In it the keys of every object are distinct, and two trees
are printed as the same text exactly if they are equal up to the JSON text of their magnitudes. -/
theorem SourceFile.pretty_eq_iff (f f' : SourceFile) :
    f.json.WellFormed ∧ (f.json.pretty 0 = f'.json.pretty 0 ↔ f.Alike f') := by
  refine ⟨f.wellFormed_json, ?_⟩
  rw [← SourceFile.json_eq_iff]
  constructor
  · intro h
    exact eq_of_pretty_eq f.wellFormed_json f'.wellFormed_json h
  · intro h
    rw [h]

end Stylesheet
