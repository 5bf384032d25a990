import LayerStorm.Server.JsonText

/-!
# Schema-driven value typing

An argument of a tool call arrives as raw text.  The request's tools declare a JSON schema for it,
and the text is coerced to one of the types that the schema allows.
-/

namespace LayerStorm.Server

/-! ### Texts -/

/-- `str.isspace` of a character. -/
def isSpace (c : Char) : Bool :=
  let n := c.toNat
  (9 ≤ n && n ≤ 13) || (28 ≤ n && n ≤ 32) || n == 0x85 || n == 0xA0 || n == 0x1680 ||
    (0x2000 ≤ n && n ≤ 0x200A) || n == 0x2028 || n == 0x2029 || n == 0x202F || n == 0x205F ||
    n == 0x3000

def strip (t : Text) : Text := ((t.dropWhile isSpace).reverse.dropWhile isSpace).reverse

/-- The library's readings of a text; `none` is a `ValueError`. -/
structure PyLib where
  lower : Text → Text
  int : Text → Option ℤ
  float : Text → Option PyFloat
  /-- `int(val)` where `val == int(val)`. -/
  integral : { t : Text // IsNumber t } → Option ℤ
  loads : Text → Option Value

/-- `json.loads`, where the result can be written again. -/
def PyLib.loadsFinite (py : PyLib) (t : Text) : Option Value :=
  (py.loads t).filter jsonFinite

/-! ### The types of a schema -/

/-- `dict.get`. -/
def dictGet (m : List (Text × Value)) (k : Text) : Option Value :=
  (m.find? fun kv => kv.1 = k).map (·.2)

def typeAliases : List (Text × Text) :=
  [("str".toList, "string".toList), ("text".toList, "string".toList),
   ("enum".toList, "string".toList), ("int".toList, "integer".toList),
   ("int32".toList, "integer".toList), ("int64".toList, "integer".toList),
   ("long".toList, "integer".toList), ("short".toList, "integer".toList),
   ("unsigned".toList, "integer".toList), ("float".toList, "number".toList),
   ("float32".toList, "number".toList), ("float64".toList, "number".toList),
   ("double".toList, "number".toList), ("bool".toList, "boolean".toList),
   ("dict".toList, "object".toList), ("arr".toList, "array".toList),
   ("list".toList, "array".toList), ("sequence".toList, "array".toList)]

/-- The type that a value of an `enum` has. -/
def enumType : Value → Text
  | .null => "null".toList
  | .bool _ => "boolean".toList
  | .int _ => "integer".toList
  | .float _ => "number".toList
  | .str _ => "string".toList
  | .list _ => "array".toList
  | .dict _ => "object".toList

/-- The types that `type` and `enum` declare. -/
def declaredTypes (schema : List (Text × Value)) : List Text :=
  (match dictGet schema "type".toList with
    | some (.str t) => [t]
    | some (.list l) => l.filterMap fun v =>
      match v with
      | .str t => some t
      | _ => none
    | _ => []) ++
  match dictGet schema "enum".toList with
    | some (.list l) => l.map enumType
    | _ => []

mutual

/-- `_extract_types`: all types of a schema, `["string"]` when unknown. -/
def extractTypes : Value → List Text
  | .dict m =>
    let types := declaredTypes m ++ choiceTypes "anyOf".toList m ++
      choiceTypes "oneOf".toList m ++ choiceTypes "allOf".toList m
    if types = [] then ["string".toList] else types
  | _ => ["string".toList]

/-- The types of the alternatives behind a keyword. -/
def choiceTypes (choice : Text) : List (Text × Value) → List Text
  | [] => []
  | kv :: m => if kv.1 = choice then alternativeTypes kv else choiceTypes choice m

def alternativeTypes : Text × Value → List Text
  | (_, .list l) => listTypes l
  | _ => []

/-- The types of some schemas. -/
def listTypes : List Value → List Text
  | [] => []
  | v :: l => extractTypes v ++ listTypes l

end

/-- `_tool_properties`: the schemas of a function's parameters. -/
def toolProperties : List Value → Text → Option (List (Text × Value))
  | [], _ => none
  | .dict tool :: tools, funcName =>
    let fn := match dictGet tool "function".toList with
      | some (.dict fn) => fn
      | _ => tool
    match dictGet fn "name".toList with
    | some (.str name) =>
      if name = funcName then
        match dictGet fn "parameters".toList with
        | some (.dict params) =>
          match dictGet params "properties".toList with
          | some (.dict props) => some props
          | _ => some []
        | _ => some []
      else toolProperties tools funcName
    | _ => toolProperties tools funcName
  | _ :: tools, funcName => toolProperties tools funcName

/-! ### Coercion -/

/-- The types in the order in which a coercion tries them. -/
inductive SchemaType
  | null
  | integer
  | number
  | boolean
  | object
  | array
  | string

def SchemaType.name : SchemaType → Text
  | null => "null".toList
  | integer => "integer".toList
  | number => "number".toList
  | boolean => "boolean".toList
  | object => "object".toList
  | array => "array".toList
  | string => "string".toList

/-- The types in their order. -/
def SchemaType.all : List SchemaType :=
  [null, integer, number, boolean, object, array, string]

variable (py : PyLib)

/-- The usual name of a type. -/
def dictAlias (t : Text) : Option Text := (typeAliases.find? fun kv => kv.1 = t).map (·.2)

/-- A type name in its usual form. -/
def normalizeType (t : Text) : Text :=
  let t := py.lower (strip t)
  (dictAlias t).getD t

def coerceAs (value : Text) : SchemaType → Option Value
  | .null => if py.lower value = "null".toList then some .null else none
  | .integer => (py.int value).map .int
  | .number =>
    match py.float value with
    | some (.finite x) =>
      match py.integral x with
      | some z => some (.int z)
      | none => some (.float (.finite x))
    | _ => none
  | .boolean =>
    let low := strip (py.lower value)
    if low = "true".toList ∨ low = "1".toList then some (.bool true)
    else if low = "false".toList ∨ low = "0".toList then some (.bool false)
    else none
  | .object => py.loadsFinite value
  | .array => py.loadsFinite value
  | .string => some (.str value)

def coerce (value : Text) (schemaTypes : List Text) : Value :=
  let normalized := schemaTypes.map (normalizeType py)
  match (SchemaType.all.filter fun s => s.name ∈ normalized).findSome? (coerceAs py value) with
  | some v => v
  | none => (py.loadsFinite value).getD (.str value)

variable {py}

theorem jsonFinite_loadsFinite {t : Text} {v : Value} (h : py.loadsFinite t = some v) :
    jsonFinite v = true := by
  unfold PyLib.loadsFinite at h
  rw [Option.filter_eq_some_iff] at h
  exact h.2

theorem jsonFinite_coerceAs {value : Text} {s : SchemaType} {v : Value}
    (h : coerceAs py value s = some v) : jsonFinite v = true := by
  cases s with
  | null =>
    simp only [coerceAs, Option.ite_none_right_eq_some, Option.some.injEq] at h
    rw [← h.2]
    rfl
  | integer =>
    simp only [coerceAs, Option.map_eq_some_iff] at h
    obtain ⟨z, -, rfl⟩ := h
    rfl
  | number =>
    simp only [coerceAs] at h
    split at h
    · split at h <;> cases h <;> rfl
    · cases h
  | boolean =>
    simp only [coerceAs] at h
    split at h
    · cases h
      rfl
    · split at h <;> cases h
      rfl
  | object | array => exact jsonFinite_loadsFinite h
  | string =>
    cases h
    rfl

variable (py) in
/-- **A coerced value can be written as JSON.** -/
theorem jsonFinite_coerce (value : Text) (types : List Text) :
    jsonFinite (coerce py value types) = true := by
  unfold coerce
  dsimp only
  split
  · next h =>
    obtain ⟨s, -, hs⟩ := List.exists_of_findSome?_eq_some h
    exact jsonFinite_coerceAs hs
  · cases hl : py.loadsFinite value with
    | none => rfl
    | some v => exact jsonFinite_loadsFinite hl

end LayerStorm.Server
