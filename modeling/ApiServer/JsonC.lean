import ApiServer.Lib.JsonText

/-!
# json-c values

The program reads a parsed payload through json-c. A JSON `null` is a null pointer there, so
`objectGetEx` may succeed with `.null`. Integers keep the value written in the text; json-c
saturates them when they are read as `int` or `int64_t`.
-/

namespace ApiServer

/-- A finite `double`: the rational it denotes and its sign bit, which only zero leaves open. -/
structure FinDouble where
  val : Rat
  signbit : Bool
  of_neg : val < 0 → signbit = true
  of_pos : 0 < val → signbit = false
  deriving DecidableEq

/-- The `double` for a rational, with a plus sign for zero. -/
def FinDouble.ofRat (q : Rat) : FinDouble where
  val := q
  signbit := q < 0
  of_neg := decide_eq_true
  of_pos h := decide_eq_false (Rat.not_lt.mpr (Rat.le_of_lt h))

/-- A `double`. -/
inductive Dbl where
  | nan
  | inf (neg : Bool)
  | fin (d : FinDouble)
  deriving DecidableEq

/-- `a < b` on `double`: false as soon as one side is not a number. -/
def Dbl.lt : Dbl → Dbl → Bool
  | .fin d, .fin e => d.val < e.val
  | .inf true, .fin _ | .inf true, .inf false | .fin _, .inf false => true
  | _, _ => false

/-- json-c, where its answer does not depend on the kind of a value alone. -/
structure JsonC where
  /-- `json_tokener_parse` of a whole C string. -/
  tokenerParse : Bytes → Option Json
  /-- `json_object_get_int64` of a double, a string or a boolean. -/
  toInt64 : Json → Int
  toDouble : Json → Dbl
  /-- `json_object_to_json_string`, which `json_object_get_string` returns for a non-string. -/
  toText : Json → Bytes

namespace JsonC
variable (J : JsonC)

def getInt64 : Json → Int
  | .int n => saturate 64 n
  | .null => 0
  | v => J.toInt64 v

def getInt : Json → Int
  | .int n => saturate 32 n
  | .null => 0
  | v => saturate 32 (J.toInt64 v)

def getDouble : Json → Dbl
  | .int n => .fin (.ofRat n)
  | .null => .fin (.ofRat 0)
  | v => J.toDouble v

/-- `json_object_get_string`: a null pointer for a null, the bytes of a string otherwise. -/
def getString : Json → Option Bytes
  | .null => none
  | .string s => some s
  | v => some (J.toText v)

/-- json-c on the texts and values of standard JSON. -/
def reference : JsonC where
  tokenerParse := Json.parse
  toInt64
    | .bool b => if b then 1 else 0
    | .string s => Bytes.strtol s
    | _ => 0
  toDouble
    | .bool b => .fin (.ofRat (if b then 1 else 0))
    | _ => .fin (.ofRat 0)
  toText
    | .bool b => bytes (if b then "true" else "false")
    | .int n => Json.intText n
    | .double literal => literal
    | _ => []

end JsonC

/-- `json_object_object_get_ex`. -/
def objectGetEx (obj : Json) (key : Bytes) : Option Json :=
  match obj with
  | .object ms => Json.lookup key ms
  | _ => none

end ApiServer
