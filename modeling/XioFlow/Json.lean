/-
  XioFlow.Json

  The values of the host language that reach the journal, and the JSON values
  that come back out of it.

  A `JsValue` is what a caller can put into a payload.  A `Json` is what
  `JSON.parse` gives for the stored text: `JSON.stringify` followed by
  `JSON.parse` is the identity on finite numbers, strings and trees of them,
  so the text itself is not modelled.
-/

import Mathlib.Data.Rat.Defs

namespace XioFlow

/-! ## Numbers -/

/-- A number of the host language: finite, negative zero, or one of NaN and the infinities. -/
inductive JsNumber where
  | finite (value : Rat)
  | negZero
  | nonFinite
  deriving DecidableEq, Repr

/-! ## Trees -/

/-- A JSON value as `JSON.parse` returns it.  Entries stand in property order. -/
inductive Json where
  | null
  | bool (b : Bool)
  | num (value : Rat)
  | str (s : String)
  | arr (items : List Json)
  | obj (entries : List (String × Json))
  deriving Repr

/-- A value a caller can hand in.  `entries` are the own enumerable properties in their order,
    all with different names.  `exotic` is an object that is neither plain nor an array (a `Date`,
    a `Map`); `callable` stands for functions, symbols and whatever else cannot be cloned. -/
inductive JsValue where
  | undefined
  | null
  | bool (b : Bool)
  | num (value : JsNumber)
  | str (s : String)
  | arr (items : List JsValue)
  | obj (entries : List (String × JsValue))
  | exotic (entries : List (String × JsValue))
  | bigint (n : Int)
  | callable
  deriving Repr

mutual

/-- Structural equality of JSON values. -/
def Json.beq : Json → Json → Bool
  | .null, .null => true
  | .bool a, .bool b => a == b
  | .num a, .num b => a == b
  | .str a, .str b => a == b
  | .arr a, .arr b => Json.beqItems a b
  | .obj a, .obj b => Json.beqEntries a b
  | _, _ => false

def Json.beqItems : List Json → List Json → Bool
  | [], [] => true
  | x :: xs, y :: ys => Json.beq x y && Json.beqItems xs ys
  | _, _ => false

def Json.beqEntries : List (String × Json) → List (String × Json) → Bool
  | [], [] => true
  | (k, v) :: xs, (k', v') :: ys => k == k' && Json.beq v v' && Json.beqEntries xs ys
  | _, _ => false

end

mutual

theorem Json.beq_iff : ∀ a b : Json, Json.beq a b = true ↔ a = b
  | .null, b => by cases b <;> simp [Json.beq]
  | .bool a, b => by cases b <;> simp [Json.beq]
  | .num a, b => by cases b <;> simp [Json.beq]
  | .str a, b => by cases b <;> simp [Json.beq]
  | .arr a, b => by cases b <;> simp [Json.beq, Json.beqItems_iff a]
  | .obj a, b => by cases b <;> simp [Json.beq, Json.beqEntries_iff a]

theorem Json.beqItems_iff : ∀ a b : List Json, Json.beqItems a b = true ↔ a = b
  | [], b => by cases b <;> simp [Json.beqItems]
  | x :: xs, b => by cases b <;> simp [Json.beqItems, Json.beq_iff x, Json.beqItems_iff xs]

theorem Json.beqEntries_iff :
    ∀ a b : List (String × Json), Json.beqEntries a b = true ↔ a = b
  | [], b => by cases b <;> simp [Json.beqEntries]
  | (k, v) :: xs, b => by
      rcases b with _ | ⟨⟨k', v'⟩, ys⟩
      · simp [Json.beqEntries]
      · simp [Json.beqEntries, Json.beq_iff v, Json.beqEntries_iff xs, and_assoc]

end

instance : DecidableEq Json := fun a b => decidable_of_iff _ (Json.beq_iff a b)

/-! ## Property access -/

/-- `value[name]` of an object, `undefined` as `none`. -/
def Json.field? : Json → String → Option Json
  | .obj entries, name => (entries.find? fun e => e.1 == name).map Prod.snd
  | _, _ => none

/-- `value[name]` when it is a string. -/
def Json.strField? (value : Json) (name : String) : Option String :=
  match value.field? name with
  | some (.str s) => some s
  | _ => none

/-- `value === undefined` -/
def JsValue.isUndefined : JsValue → Bool
  | .undefined => true
  | _ => false

theorem JsValue.isUndefined_iff (v : JsValue) : v.isUndefined = true ↔ v = .undefined := by
  cases v <;> simp [isUndefined]

/-- An optional host value: `none` is `undefined`. -/
def JsValue.ofOption {α : Type} (toJs : α → JsValue) : Option α → JsValue
  | none => .undefined
  | some a => toJs a

def JsValue.ofNat (n : Nat) : JsValue := .num (.finite n)

def JsValue.ofInt (n : Int) : JsValue := .num (.finite n)

def JsValue.ofStrings (items : List String) : JsValue := .arr (items.map .str)

mutual

/-- The host value that a JSON value is. -/
def Json.toJs : Json → JsValue
  | .null => .null
  | .bool b => .bool b
  | .num q => .num (.finite q)
  | .str s => .str s
  | .arr items => .arr (Json.toJsItems items)
  | .obj entries => .obj (Json.toJsEntries entries)

def Json.toJsItems : List Json → List JsValue
  | [] => []
  | x :: xs => x.toJs :: Json.toJsItems xs

def Json.toJsEntries : List (String × Json) → List (String × JsValue)
  | [] => []
  | (k, v) :: es => (k, v.toJs) :: Json.toJsEntries es

end

end XioFlow
