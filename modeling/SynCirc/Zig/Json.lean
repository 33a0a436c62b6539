import SynCirc.Zig.Outcome

/-!
# JSON values

A JSON value as the JSON parser of Zig returns it.  The fields of an object are kept in the order
in which they stand in the text.  A program reads a value as an object, an array, a string or an
integer, and stops at a safety check if the value is of another kind.  The parser only makes
integers of 64 bits, which programs need not know.
-/

namespace Zig

/-- A JSON value.  Numbers that are not integers are kept by their bits, integers that do not
fit by their digits. -/
inductive Json where
  | null
  | bool (b : Bool)
  | integer (int : Int)
  | float (bits : UInt64)
  | numberString (str : List UInt8)
  | string (str : List UInt8)
  | array (items : List Json)
  | object (fields : List (List UInt8 × Json))

namespace Json

variable {ε : Type}

/-- `value.Object`. -/
def asObject : Json → Outcome ε (List (List UInt8 × Json))
  | .object fields => .ok fields
  | _ => .panic .inactiveField

/-- `value.Array`. -/
def asArray : Json → Outcome ε (List Json)
  | .array items => .ok items
  | _ => .panic .inactiveField

/-- `value.String`. -/
def asString : Json → Outcome ε (List UInt8)
  | .string str => .ok str
  | _ => .panic .inactiveField

/-- `value.Integer`. -/
def asInteger : Json → Outcome ε Int
  | .integer int => .ok int
  | _ => .panic .inactiveField

/-- `fields.get(name).?`. -/
def field (fields : List (List UInt8 × Json)) (name : List UInt8) : Outcome ε Json :=
  unwrap (fields.lookup name)

@[simp]
theorem asObject_object (fields : List (List UInt8 × Json)) :
  ((Json.object fields).asObject : Outcome ε _) = .ok fields
  := rfl

/-- The fields of an object. -/
def object? : Json → Option (List (List UInt8 × Json))
  | .object fields => some fields
  | _ => none

/-- The items of an array. -/
def array? : Json → Option (List Json)
  | .array items => some items
  | _ => none

/-- The bytes of a string. -/
def string? : Json → Option (List UInt8)
  | .string str => some str
  | _ => none

@[simp]
theorem object?_eq_some {j : Json} {fields : List (List UInt8 × Json)} :
  j.object? = some fields ↔ j = .object fields
  := by
  cases j <;> simp [object?]

@[simp]
theorem array?_eq_some {j : Json} {items : List Json} :
  j.array? = some items ↔ j = .array items
  := by
  cases j <;> simp [array?]

@[simp]
theorem string?_eq_some {j : Json} {str : List UInt8} :
  j.string? = some str ↔ j = .string str
  := by
  cases j <;> simp [string?]

@[simp]
theorem asObject_eq_ok {j : Json} {fields : List (List UInt8 × Json)} :
  (j.asObject : Outcome ε _) = .ok fields ↔ j = .object fields
  := by
  cases j <;> simp [asObject]

@[simp]
theorem asArray_eq_ok {j : Json} {items : List Json} :
  (j.asArray : Outcome ε _) = .ok items ↔ j = .array items
  := by
  cases j <;> simp [asArray]

@[simp]
theorem asString_eq_ok {j : Json} {str : List UInt8} :
  (j.asString : Outcome ε _) = .ok str ↔ j = .string str
  := by
  cases j <;> simp [asString]

@[simp]
theorem asInteger_eq_ok {j : Json} {int : Int} :
  (j.asInteger : Outcome ε _) = .ok int ↔ j = .integer int
  := by
  cases j <;> simp [asInteger]

@[simp]
theorem field_eq_ok {fields : List (List UInt8 × Json)} {name : List UInt8} {j : Json} :
  (field fields name : Outcome ε _) = .ok j ↔ fields.lookup name = some j
  := by
  rw [field]
  cases fields.lookup name <;> simp [unwrap]

/-- A field of an object, with its name, is among its fields. -/
theorem mem_of_lookup {fields : List (List UInt8 × Json)} {name : List UInt8} {j : Json}
    (h : fields.lookup name = some j) :
  (name, j) ∈ fields
  := by
  obtain ⟨before, after, rfl, _⟩ := List.lookup_eq_some_iff.mp h
  simp

end Json

end Zig
