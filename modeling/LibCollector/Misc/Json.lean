import LibCollector.Misc.Text

/-!
# JSON values

What is used of `Json::Value`, as a parameter of the models (`JsonValue`), and JSON values without
real numbers as an instance of it (`Json.value`).
-/

namespace LibCollector.Misc

/-- What is used of `Json::Value`. An exception is `none`. -/
structure JsonValue (J : Type) where
  null : J
  isNull : J → Bool
  isBool : J → Bool
  isInt : J → Bool
  isString : J → Bool
  isArray : J → Bool
  /-- The member that `isMember`, `get` and `operator[]` find. -/
  find : J → Str → Option (Option J)
  size : J → Nat
  /-- `operator[]` of an index. -/
  element : J → Nat → Option J
  asBool : J → Option Bool
  asInt : J → Option Int
  asUInt64 : J → Option Nat
  asString : J → Option Str
  asCString : J → Option Str

namespace JsonValue

variable {J A : Type} (lib : JsonValue J)

def isMember (v : J) (key : Str) : Option Bool := (lib.find v key).map Option.isSome

/-- `operator[]` of a key. A null member that it inserts reads like a member that is missing. -/
def member (v : J) (key : Str) : Option J := (lib.find v key).map fun w => w.getD lib.null

/-- `get(key, default)` with a conversion. -/
def getAs (convert : J → Option A) (v : J) (key : Str) (default : A) : Option A :=
  (lib.find v key).bind fun
    | none => some default
    | some w => convert w

end JsonValue

/-- A JSON value. -/
inductive Json where
  | null
  | bool (b : Bool)
  | int (n : Int)
  | string (s : Str)
  | array (vs : List Json)
  | object (members : List (Str × Json))

namespace Json

/-- Conversions of `jsoncpp`. -/
def value : JsonValue Json where
  null := .null
  isNull
    | .null => true
    | _ => false
  isBool
    | .bool _ => true
    | _ => false
  isInt
    | .int n => decide (IsInt32 n)
    | _ => false
  isString
    | .string _ => true
    | _ => false
  isArray
    | .array _ => true
    | _ => false
  find
    | .null, _ => some none
    | .object members, key => some ((members.find? fun m => m.1 = key).map Prod.snd)
    | _, _ => none
  size
    | .array vs => vs.length
    | .object members => members.length
    | _ => 0
  element
    | .array vs, i => some (vs[i]?.getD .null)
    | .null, _ => some .null
    | _, _ => none
  asBool
    | .null => some false
    | .bool b => some b
    | .int n => some (n ≠ 0)
    | _ => none
  asInt
    | .null => some 0
    | .bool b => some (if b then 1 else 0)
    | .int n => if IsInt32 n then some n else none
    | _ => none
  asUInt64
    | .null => some 0
    | .bool b => some (if b then 1 else 0)
    | .int n => if 0 ≤ n ∧ n < 18446744073709551616 then some n.toNat else none
    | _ => none
  asString
    | .null => some []
    | .bool b => some (if b then "true".toList else "false".toList)
    | .int n => some (toChars n)
    | .string s => some s
    | _ => none
  asCString
    | .string s => some (cstr s)
    | _ => none

end Json

end LibCollector.Misc
