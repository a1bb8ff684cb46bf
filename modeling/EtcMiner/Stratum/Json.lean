/-
# JSON values

The part of `Json::Value` that the stratum client and the API use, with the conversions of the
library: a value of another type than the one asked for is converted where the
library converts it and throws a `std::exception` (`none`) where it does not.  A
member that `operator[]` creates is `null` and is not told from one that is missing.

Texts are lists of bytes, one `Char` for each.  How the library prints a `double` is a
parameter.
-/

import Mathlib.Algebra.Order.Field.Rat
import Mathlib.Data.Rat.Floor

namespace EtcMiner
namespace Stratum

/-- `Json::Value`. -/
inductive Json where
  | null
  | bool (b : Bool)
  | int (i : ℤ)
  | real (q : ℚ)
  | str (s : List Char)
  | arr (xs : List Json)
  | obj (members : List (List Char × Json))

namespace Json

/-- `Value(const char*)`. -/
def text (s : String) : Json := .str s.toList

/-- The member named `key`. -/
def find (key : String) : List (List Char × Json) → Option Json
  | [] => none
  | (name, v) :: members => if name = key.toList then some v else find key members

/-- The members of an object; `null` has none. -/
def members? : Json → Option (List (List Char × Json))
  | .obj members => some members
  | .null => some []
  | _ => none

/-- `isMember(key)`. -/
def isMember (v : Json) (key : String) : Option Bool := v.members?.map fun ms => (find key ms).isSome

/-- `get(key, defaultValue)`. -/
def get (v : Json) (key : String) (defaultValue : Json) : Option Json :=
  v.members?.map fun ms => (find key ms).getD defaultValue

/-- `operator[](key)`. -/
def member (v : Json) (key : String) : Option Json := v.get key .null

/-- The elements of an array; `null` has none. -/
def elems? : Json → Option (List Json)
  | .arr xs => some xs
  | .null => some []
  | _ => none

/-- `get(index, defaultValue)`. -/
def getIdx (v : Json) (index : ℕ) (defaultValue : Json) : Option Json :=
  v.elems?.map fun xs => xs.getD index defaultValue

def isNull : Json → Bool
  | .null => true
  | _ => false

def isBool : Json → Bool
  | .bool _ => true
  | _ => false

def isString : Json → Bool
  | .str _ => true
  | _ => false

def isArray : Json → Bool
  | .arr _ => true
  | _ => false

def isObject : Json → Bool
  | .obj _ => true
  | _ => false

/-- `size()`. -/
def size : Json → ℕ
  | .arr xs => xs.length
  | .obj members => members.length
  | _ => 0

/-- `empty()`. -/
def empty : Json → Bool
  | .null => true
  | .arr xs => xs.isEmpty
  | .obj members => members.isEmpty
  | _ => false

/-- `isConvertibleTo(objectValue)`. -/
def convertibleToObject (v : Json) : Bool := v.isObject || v.isNull

/-- `asBool()` of a boolean. -/
def asBool : Json → Bool
  | .bool b => b
  | _ => false

/-- `asUInt()`. -/
def asUInt : Json → Option (BitVec 32)
  | .null => some 0
  | .bool b => some (if b then 1 else 0)
  | .int i => if 0 ≤ i ∧ i < 2 ^ 32 then some (BitVec.ofInt 32 i) else none
  | .real q => if 0 ≤ q ∧ q ≤ 2 ^ 32 - 1 then some (BitVec.ofInt 32 ⌊q⌋) else none
  | _ => none

/-- `isUInt()`: a number of 32 bits, as a `double` too. -/
def isUInt : Json → Bool
  | .int i => 0 ≤ i ∧ i < 2 ^ 32
  | .real q => 0 ≤ q ∧ q ≤ 2 ^ 32 - 1 ∧ q.den = 1
  | _ => false

/-- `asDouble()`, for a rounding `toDouble`. -/
def asDouble (toDouble : ℚ → ℚ) : Json → Option ℚ
  | .null => some 0
  | .bool b => some (if b then 1 else 0)
  | .int i => some (toDouble i)
  | .real q => some q
  | _ => none

/-- `asString()`, where `valueToString` prints a `double`. -/
def asString (valueToString : ℚ → List Char) : Json → Option (List Char)
  | .null => some []
  | .bool b => some (if b then "true".toList else "false".toList)
  | .int i => some (toString i).toList
  | .real q => some (valueToString q)
  | .str s => some s
  | _ => none

end Json

end Stratum
end EtcMiner
