import Mathlib.Algebra.Order.Ring.Rat
import Mathlib.Data.List.Dedup
import WikiMind.Base.Rows

/-!
# Decoded JSON

Library for code that reads the value of a JSON text without a check of its shape: each
access raises the exception the language documents for a value of another type. Nothing
here names the application.
-/

namespace WikiMind.Base

/-- A decoded JSON value. The fields of an object stand in the order of the text. -/
inductive JsonValue where
  | null
  | bool (b : Bool)
  | num (q : ℚ)
  | str (s : String)
  | arr (items : List JsonValue)
  | obj (fields : List (String × JsonValue))

namespace JsonValue

/-- The value of a key in an object, of which the last counts. -/
def lookup (fields : List (String × JsonValue)) (key : String) : Option JsonValue :=
  fields.reverse.lookup key

/-- `value.get(key, default)`: only an object has it. -/
def get (value : JsonValue) (key : String) (default : JsonValue) : Except Exc JsonValue :=
  match value with
  | .obj fields => .ok ((lookup fields key).getD default)
  | _ => .error .attributeError

/-- `for item in value`: an object gives its keys, a text its characters. -/
def items : JsonValue → Except Exc (List JsonValue)
  | .arr items => .ok items
  | .obj fields => .ok ((fields.map fun field ↦ field.1).dedup.map .str)
  | .str s => .ok (s.toList.map fun c ↦ .str c.toString)
  | _ => .error .typeError

/-- The number a value is in a comparison; a truth value is 0 or 1. -/
def toNumber : JsonValue → Except Exc ℚ
  | .num q => .ok q
  | .bool b => .ok (if b then 1 else 0)
  | _ => .error .typeError

/-- The truth test of a value. -/
def truthy : JsonValue → Bool
  | .null => false
  | .bool b => b
  | .num q => q ≠ 0
  | .str s => s ≠ ""
  | .arr items => ! items.isEmpty
  | .obj fields => ! fields.isEmpty

/-- A value is an object. -/
def isObj : JsonValue → Bool
  | .obj _ => true
  | _ => false

/-- A loop over the value sees objects only. -/
def OfObjects (value : JsonValue) : Prop := ∃ xs, value.items = .ok xs ∧ ∀ x ∈ xs, x.isObj = true

@[simp] theorem get_obj (fields : List (String × JsonValue)) (key : String)
    (default : JsonValue) :
    (obj fields).get key default = .ok ((lookup fields key).getD default) := rfl

@[simp] theorem items_arr (xs : List JsonValue) : (arr xs).items = .ok xs := rfl

/-- The test for an object. -/
theorem isObj_iff {value : JsonValue} : value.isObj = true ↔ ∃ fields, value = .obj fields := by
  cases value <;> simp [isObj]

/-- Only an object has a value for a key. -/
theorem raises_get_iff {value default : JsonValue} {key : String} :
    Raises (value.get key default) ↔ value.isObj = false := by
  cases value with
  | obj fields => simp [isObj]
  | _ =>
    refine iff_of_true ?_ rfl
    exact ⟨_, rfl⟩

/-- A value that is no object has no `get`. -/
theorem raisesOnly_get (value default : JsonValue) (key : String) :
    RaisesOnly (· = .attributeError) (value.get key default) := by
  intro e h
  cases value with
  | obj fields => cases h
  | _ =>
    cases h
    rfl

/-- A value that is no list cannot be iterated. -/
theorem raisesOnly_items (value : JsonValue) : RaisesOnly (· = .typeError) value.items := by
  intro e h
  cases value with
  | null | bool | num =>
    cases h
    rfl
  | _ => cases h

/-- A value that is no number cannot be converted. -/
theorem raisesOnly_toNumber (value : JsonValue) : RaisesOnly (· = .typeError) value.toNumber := by
  intro e h
  cases value with
  | num | bool => cases h
  | _ =>
    cases h
    rfl

end JsonValue

end WikiMind.Base
