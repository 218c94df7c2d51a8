import OpacityMigration.Decimal.Shortest

/-!
# JSON values

A value keeps the members of its objects in the order in which they were written. A number is an
integer when it is written without a fraction and an exponent and fits into 64 bits, signed or
unsigned; every other number is a binary one.
-/

namespace OpacityMigration

namespace Json

inductive Number
  | integer (value : Int)
  | real (negative : Bool) (magnitude : Decimal.Binary64)
deriving DecidableEq, Repr

/-- How a number is written: integers in decimal, the others as the shortest decimal. -/
def Number.text : Number → List Char
  | .integer (.ofNat n) => Nat.toDigits 10 n
  | .integer (.negSucc n) => '-' :: Nat.toDigits 10 (n + 1)
  | .real negative magnitude =>
    if negative then '-' :: magnitude.shortest.text else magnitude.shortest.text

end Json

inductive Json
  | null
  | bool (value : Bool)
  | number (value : Json.Number)
  | string (value : String)
  | array (items : List Json)
  | object (members : List (String × Json))
deriving Repr, Inhabited

namespace Json

def ofNat (n : Nat) : Json :=
  .number (.integer n)

/-- The first member of an object under `key`. -/
def get? (key : String) : Json → Option Json
  | .object members => members.lookup key
  | _ => none

def string? : Json → Option String
  | .string s => some s
  | _ => none

/-- The member under `key` if there is a value to write there. -/
def optionalMember (key : String) (value : Option Json) : List (String × Json) :=
  (value.map (Prod.mk key)).toList

end Json

end OpacityMigration
