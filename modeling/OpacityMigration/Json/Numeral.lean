import OpacityMigration.Json.Lexeme

/-!
# The value of a numeral

The digits of a numeral are collected into a significand of 64 bits. Digits before the point that no
longer fit count as powers of ten, digits after it that no longer fit are dropped. What is left is
an integer, or else a significand and a power of ten to be rounded.
-/

namespace OpacityMigration.Json

/-- Significands stay below this: they have 64 bits. -/
def significandBound : Nat := 0x1_0000_0000_0000_0000

/-- How far below zero the integers of 64 bits go. -/
def negativeBound : Nat := 0x8000_0000_0000_0000

def digitValue (c : Char) : Nat :=
  c.toNat - '0'.toNat

/-- Appends digits to a significand as long as it stays below the bound, and counts those that
went in. -/
def collect (significand taken : Nat) : List Char → Nat × Nat
  | [] => (significand, taken)
  | d :: digits =>
    let next := significand * 10 + digitValue d
    if next < significandBound then collect next (taken + 1) digits
    else (significand, taken)

/-- The value of the digits of an exponent. -/
def exponentValue (digits : List Char) : Nat :=
  digits.foldl (fun n d => n * 10 + digitValue d) 0

/-- The integer that a numeral without fraction and exponent stands for, if it has 64 bits. Minus
zero is none. -/
def integer? (negative : Bool) (significand : Nat) : Option Int :=
  if negative then
    if 0 < significand ∧ significand ≤ negativeBound then some (-(significand : Int)) else none
  else some significand

/-- The number that a numeral stands for; `none` if it is beyond the greatest one. -/
def Numeral.value? (n : Numeral) : Option Number :=
  let (whole, taken) := collect 0 0 n.whole
  let dropped := n.whole.length - taken
  let exact := n.fraction.isEmpty && n.exponent.isNone && dropped == 0
  match if exact then integer? n.negative whole else none with
  | some i => some (.integer i)
  | none =>
    let (significand, places) := collect whole 0 n.fraction
    let exponent : Int :=
      match n.exponent with
      | none => 0
      | some (true, digits) => -(exponentValue digits : Int)
      | some (false, digits) => exponentValue digits
    (Decimal.Binary64.ofDecimal? significand (dropped - places + exponent)).map (.real n.negative)

/-- Exponents are counted in 32 bits, signed. -/
def exponentBound : Nat := 0x8000_0000

/-- The digits that are not looked at any more once an exponent has reached its bound. -/
def beyondBound (value : Nat) : List Char → List Char
  | [] => []
  | d :: digits =>
    let next := value * 10 + digitValue d
    if next < exponentBound then beyondBound next digits else digits

/-- Reads a number after its sign. A number that is too large is refused after its last digit, or
after the digit with which its exponent became too large. -/
def readNumber (negative : Bool) (text : List Char) : Except Fault (Number × List Char) :=
  match readNumeral .endInValue negative text with
  | .error fault => .error fault
  | .ok (numeral, rest) =>
    match numeral.value? with
    | some n => .ok (n, rest)
    | none =>
      let unread := match numeral.exponent with
        | some (_, digits) => beyondBound 0 digits
        | none => []
      .error (.before .numberTooLarge (unread ++ rest))

theorem length_of_readNumber {negative : Bool} {text rest : List Char} {n : Number}
    (h : readNumber negative text = .ok (n, rest)) : rest.length < text.length := by
  unfold readNumber at h
  split at h
  · contradiction
  · next hx =>
    split at h
    · simp only [Except.ok.injEq, Prod.mk.injEq] at h
      rw [← h.2]
      exact length_of_readNumeral hx
    · contradiction

end OpacityMigration.Json
