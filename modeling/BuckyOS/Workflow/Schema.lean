import BuckyOS.Workflow.Definition

/-! The checks on JSON schemas. A schema may refer to a named definition, and nothing keeps the
definitions from referring to each other, so the checks that follow references recursively take a
number of unfoldings and have no answer when it is used up. -/
namespace BuckyOS.Workflow
variable (defs : OrderedMap String Json)

def defsPath : List Char := "#/defs/".toList

variable (schema : Json)

def resolveSchema : Option Json :=
  match (schema.get? "$ref").bind Json.asStr with
  | some refName =>
    if refName.toList.take defsPath.length = defsPath then
      defs.get? (String.ofList (refName.toList.drop defsPath.length))
    else none
  | none => some schema

def schemaProperty (segment : String) : Option Json := do
  let resolved ← resolveSchema defs schema
  let properties ← resolved.get? "properties"
  properties.get? segment

def schemaAtPath (path : List String) : Option Json := do
  let current ← resolveSchema defs schema
  let current ← path.foldlM (schemaProperty defs) current
  if path = [] then some current else resolveSchema defs current

def schemaEnumValues : Option (List String) := do
  let resolved ← resolveSchema defs schema
  let values ← resolved.get? "enum"
  let items ← values.asArray
  items.mapM Json.asStr

/-- The first answer `true`, or `false` if every answer is; no answer if one before is missing. -/
def anyAnswer (test : Json → Option Bool) : List Json → Option Bool
  | [] => some false
  | item :: items => do
    if (← test item) then some true else anyAnswer test items

def schemaAcceptsNull : ℕ → Json → Option Bool
  | 0, _ => none
  | fuel + 1, schema =>
    match resolveSchema defs schema with
    | none => some false
    | some resolved =>
      match resolved.get? "type" with
      | some (.string name) => some (decide (name = "null"))
      | some (.array items) => some (items.any (fun item => item.asStr = some "null"))
      | _ => do
        let branches (keyword : String) : List Json :=
          ((resolved.get? keyword).bind Json.asArray).getD []
        if (← anyAnswer (schemaAcceptsNull fuel) (branches "anyOf")) then some true
        else anyAnswer (schemaAcceptsNull fuel) (branches "oneOf")

def schemaTypeNames : List String :=
  match schema.get? "type" with
  | some (.string value) => [value]
  | some (.array values) => values.filterMap Json.asStr
  | _ => []

def requiredCompatible (compatible : Json → Json → Option Bool) (actual expected : Json) :
    List Json → Option Bool
  | [] => some true
  | required :: rest =>
    match required.asStr with
    | none => requiredCompatible compatible actual expected rest
    | some name =>
      match (actual.get? "properties").bind (·.get? name),
          (expected.get? "properties").bind (·.get? name) with
      | some actualSchema, some expectedSchema => do
        if (← compatible actualSchema expectedSchema) then
          requiredCompatible compatible actual expected rest
        else some false
      | _, _ => some false

def schemasCompatible : ℕ → Json → Json → Option Bool
  | 0, _, _ => none
  | fuel + 1, actual, expected =>
    match resolveSchema defs actual, resolveSchema defs expected with
    | some actual, some expected =>
      let actualType := schemaTypeNames actual
      let expectedType := schemaTypeNames expected
      if expectedType ≠ [] ∧ actualType ≠ [] ∧ ∀ kind ∈ actualType, kind ∉ expectedType then
        some false
      else if (expected.get? "enum").isSome ∧ (actual.get? "enum").isSome ∧
          ∃ item ∈ (schemaEnumValues defs actual).getD [],
            item ∉ (schemaEnumValues defs expected).getD [] then
        some false
      else do
        let objects ←
          if "object" ∈ expectedType then
            requiredCompatible (schemasCompatible fuel) actual expected
              (((expected.get? "required").bind Json.asArray).getD [])
          else some true
        if objects then
          if "array" ∈ expectedType then
            match actual.get? "items", expected.get? "items" with
            | some actualItems, some expectedItems =>
              schemasCompatible fuel actualItems expectedItems
            | none, some _ => some false
            | _, none => some true
          else some true
        else some false
    | _, _ => some false

/-- Why a schema has no normal form: the unfoldings are used up, or a reference is unknown. -/
inductive Unfolding where
  | exhausted
  | unresolved
deriving DecidableEq

def normalizeSchema : ℕ → Json → Except Unfolding Json
  | 0, _ => .error .exhausted
  | fuel + 1, schema =>
    match resolveSchema defs schema with
    | none => .error .unresolved
    | some (.object fields) => do
      let properties ← match (Json.object fields).get? "properties" with
        | some (.object properties) => do
          let normalized ← properties.mapM (fun property => do
            return (property.1,← normalizeSchema fuel property.2))
          pure (some (Json.object normalized))
        | _ => pure none
      let items ← match (Json.object fields).get? "items" with
        | some items => some <$> normalizeSchema fuel items
        | none => pure none
      return .object (fields.map (fun field =>
        if field.1 = "properties" then (field.1,properties.getD field.2)
        else if field.1 = "items" then (field.1,items.getD field.2)
        else field))
    | some resolved => .ok resolved

def schemasEqual (fuel : ℕ) (left right : Json) : Option Bool :=
  match normalizeSchema defs fuel ((resolveSchema defs left).getD .null) with
  | .error .exhausted => none
  | .error .unresolved => some false
  | .ok left =>
    match normalizeSchema defs fuel ((resolveSchema defs right).getD .null) with
    | .error .exhausted => none
    | .error .unresolved => some false
    | .ok right => some (decide (left = right))

end BuckyOS.Workflow
