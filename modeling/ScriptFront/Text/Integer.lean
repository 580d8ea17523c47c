/-!
# Integers in text

Reading digits in a base, with an optional sign, and the range of signed 64-bit integers.
-/

namespace ScriptFront.Text

/-- The value of a digit in a base of at most 36; letters of both cases count. -/
def digitValue (base : Nat) (c : Char) : Option Nat :=
  let v :=
    if c.isDigit then c.toNat - '0'.toNat
    else if c.isLower then c.toNat - 'a'.toNat + 10
    else if c.isUpper then c.toNat - 'A'.toNat + 10
    else base
  if v < base then some v else none

/-- The number that the digits `cs` continue when `n` is the number read so far. -/
def digitsFrom (base : Nat) : Nat → List Char → Option Nat
  | n, [] => some n
  | n, c :: cs =>
    match digitValue base c with
    | none => none
    | some d => digitsFrom base (n * base + d) cs

/-- One digit or more. -/
def readDigits (base : Nat) : List Char → Option Nat
  | [] => none
  | c :: cs => digitsFrom base 0 (c :: cs)

/-- Digits with an optional `+` in front. -/
def readUnsigned (base : Nat) : List Char → Option Nat
  | '+' :: cs => readDigits base cs
  | cs => readDigits base cs

/-- Whether an integer fits 64 bits with a sign. -/
def fits64 (n : Int) : Bool := -9223372036854775808 ≤ n && n ≤ 9223372036854775807

/-- Digits with an optional sign in front, within the signed 64-bit range. -/
def readSigned64 (base : Nat) (cs : List Char) : Option Int :=
  let n : Option Int :=
    match cs with
    | '-' :: cs => (readDigits base cs).map fun n => -(n : Int)
    | cs => (readUnsigned base cs).map fun n => (n : Int)
  n.filter fits64

/-- The successor in the signed 64-bit range: after the largest integer comes the smallest. -/
def next64 (n : Int) : Int := (n + 1).bmod 18446744073709551616

end ScriptFront.Text
