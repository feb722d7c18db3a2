import SlugBase.Lib.JsString

/-!
# JSON values

The values of `JSON.parse`, over any kind of numbers.

* `Json`, `Json.member`: the values, and the members of an object;
* `Json.strictEq`: `===` of two values that were read apart; **`strictEq_iff`**: it compares scalars.
-/

namespace JavaScript

/-- A value that was read from JSON. -/
inductive Json (ν : Type)
  | null
  | bool (value : Bool)
  | number (value : ν)
  | text (value : JsString)
  | array (items : List (Json ν))
  | object (members : List (JsString × Json ν))

/-- The members of an object. -/
abbrev JsonObject (ν : Type) := List (JsString × Json ν)

namespace Json

variable {ν : Type}

/-- The value of a member; none when the object has no such member. -/
def member (object : JsonObject ν) (name : JsString) : Option (Json ν) := object.lookup name

/-- `===` of two values that were read apart: objects and arrays are never the same. -/
def strictEq [DecidableEq ν] : Json ν → Json ν → Bool
  | .null, .null => true
  | .bool a, .bool b => decide (a = b)
  | .number a, .number b => decide (a = b)
  | .text a, .text b => decide (a = b)
  | _, _ => false

/-- Whether a value is no object and no array. -/
def isScalar : Json ν → Bool
  | .array _ => false
  | .object _ => false
  | _ => true

theorem strictEq_iff [DecidableEq ν] {a b : Json ν} : a.strictEq b = true ↔ a = b ∧ a.isScalar = true := by
  cases a <;> cases b <;> simp [strictEq, isScalar]

theorem strictEq_text_iff [DecidableEq ν] {a : Json ν} {t : JsString} : a.strictEq (.text t) = true ↔ a = .text t := by
  cases a <;> simp [strictEq]

end Json

end JavaScript
