import AlgebraText.Binary64.Reading

/-!
# JSON values

The stored form of trees is JSON. A number is either an integer or a finite floating-point number;
a writer that meets any other number writes `null`.

Records are objects with one entry for each field. A reader also takes the list of all fields in
order. Entries that belong to no field are ignored, unless the record is closed. A choice without
data is a string, and a choice with data is an object whose only key names the choice.

The text of a value keeps everything about it, but a reader of texts goes only so deep: lists and
objects inside one another beyond `Json.nestingLimit` are not read.

## What this module delivers

* `Json`, with `Json.field?` and `Json.optionalField?` for records, `Json.tagged?` and
  `Json.unit?` for choices, and readers of texts and numbers;
* `Json.depth` and `Json.throughText?`, what reading the text of a value gives;
* the size lemmas that let readers recurse into fields: `Json.sizeOf_field?_lt`,
  `Json.sizeOf_tagged?_lt`.
-/

set_option autoImplicit false

namespace AlgebraText

/-- A JSON value. -/
inductive Json where
  /-- The value `null`. -/
  | null
  /-- A truth value. -/
  | bool (value : Bool)
  /-- A number without point and exponent. -/
  | integer (value : Int)
  /-- A number with a point or an exponent. -/
  | float (value : Binary64)
  /-- A text. -/
  | string (value : String)
  /-- A list of values. -/
  | array (items : List Json)
  /-- A list of values with keys. -/
  | object (entries : List (String × Json))

/-! ## Nesting -/

mutual

/-- How many lists and objects stand inside one another. -/
def Json.depth : Json → Nat
  | .array items => Json.depthOfItems items + 1
  | .object entries => Json.depthOfEntries entries + 1
  | _ => 0

/-- The depth of the deepest item. -/
def Json.depthOfItems : List Json → Nat
  | [] => 0
  | item :: rest => max item.depth (Json.depthOfItems rest)

/-- The depth of the deepest entry. -/
def Json.depthOfEntries : List (String × Json) → Nat
  | [] => 0
  | (_, value) :: rest => max value.depth (Json.depthOfEntries rest)

end

namespace Json

/-- How deep a reader of texts goes. -/
def nestingLimit : Nat := 127

/-- What reading the text of a value gives: the value itself, unless it is nested too deep. -/
def throughText? (json : Json) : Option Json :=
  if json.depth ≤ nestingLimit then some json else none

/-! ## Records -/

/-- The entry of a field of a record with the given fields. -/
def field? (fields : List String) (name : String) : Json → Option Json
  | object entries => entries.lookup name
  | array items => if items.length = fields.length then (fields.zip items).lookup name else none
  | _ => none

/-- Whether every key of a record is one of its fields. -/
def isClosed (fields : List String) : Json → Bool
  | object entries => entries.all fun entry => fields.contains entry.1
  | _ => true

/-- Reads a value that may be absent; `null` counts as absent. -/
def optional {α : Type} (read : Json → Option α) : Option Json → Option (Option α)
  | none => some none
  | some null => some none
  | some value => (read value).map some

/-! ## Choices -/

/-- The name and the data of a choice with data. -/
def tagged? : Json → Option (String × Json)
  | object [(tag, value)] => some (tag, value)
  | _ => none

/-- The name of a choice without data. -/
def unit? : Json → Option String
  | string tag => some tag
  | object [(tag, null)] => some tag
  | _ => none

/-! ## Texts and numbers -/

/-- A text. -/
def text? : Json → Option String
  | string value => some value
  | _ => none

/-- A natural number. -/
def natural? : Json → Option Nat
  | integer value => if 0 ≤ value then some value.toNat else none
  | _ => none

/-- A finite number. -/
def number? : Json → Option Binary64
  | integer value => some (Binary64.ofInt value)
  | float value => if value.isFinite then some value else none
  | _ => none

/-- A number as it is written: `null` unless it is finite. -/
def ofNumber (value : Binary64) : Json := if value.isFinite then float value else null

/-! ## Parts are smaller than the whole -/

theorem sizeOf_lookup_lt {name : String} {value : Json} :
    ∀ {entries : List (String × Json)}, entries.lookup name = some value →
      sizeOf value < sizeOf entries
  | [], h => by simp at h
  | (key, first) :: rest, h => by
    rw [List.lookup_cons] at h
    split at h
    · cases h
      simp only [List.cons.sizeOf_spec, Prod.mk.sizeOf_spec]
      omega
    · have below := sizeOf_lookup_lt h
      simp only [List.cons.sizeOf_spec, Prod.mk.sizeOf_spec]
      omega

theorem sizeOf_lookup_zip_lt {name : String} {value : Json} :
    ∀ {fields : List String} {items : List Json}, (fields.zip items).lookup name = some value →
      sizeOf value < sizeOf items
  | [], items, h => by simp at h
  | _ :: _, [], h => by simp at h
  | key :: fields, first :: items, h => by
    rw [List.zip_cons_cons, List.lookup_cons] at h
    split at h
    · cases h
      simp only [List.cons.sizeOf_spec]
      omega
    · have below := sizeOf_lookup_zip_lt h
      simp only [List.cons.sizeOf_spec]
      omega

/-- A field is smaller than its record. -/
theorem sizeOf_field?_lt {fields : List String} {name : String} {json value : Json}
    (h : json.field? fields name = some value) : sizeOf value < sizeOf json := by
  unfold field? at h
  split at h
  · have below := sizeOf_lookup_lt h
    simp only [object.sizeOf_spec]
    omega
  · split at h
    · have below := sizeOf_lookup_zip_lt h
      simp only [array.sizeOf_spec]
      omega
    · cases h
  · cases h

/-- The data of a choice are smaller than the choice. -/
theorem sizeOf_tagged?_lt {tag : String} {json value : Json}
    (h : json.tagged? = some (tag, value)) : sizeOf value < sizeOf json := by
  unfold tagged? at h
  split at h
  · cases h
    simp only [object.sizeOf_spec, List.cons.sizeOf_spec, Prod.mk.sizeOf_spec]
    omega
  · cases h

end Json

end AlgebraText
