/-!
Sizes of binary floating point numbers of double precision, as whole multiples of the smallest one, and
the shortest decimal texts that stand for them.
-/

set_option autoImplicit false

namespace Phrasebook.Json

/-- The size of a finite number, as a multiple of `2 ^ -1074`. -/
abbrev Magnitude := Nat

namespace Magnitude

def one : Magnitude := Nat.pow 2 1074

def bound : Magnitude := Nat.pow 2 1024 * one

/-- The quotient rounded to the nearest whole number, and to the even one between two. -/
def roundHalfEven (numerator denominator : Nat) : Nat :=
  let quotient := numerator / denominator
  let rest := 2 * (numerator % denominator)
  if rest < denominator || (rest == denominator && quotient % 2 == 0) then quotient
  else quotient + 1

/-- The size nearest to a quotient of units: one whose digits fit into 53 bits. -/
def nearest (numerator denominator : Nat) : Magnitude :=
  let spare := Nat.pow 2 (Nat.log2 (numerator / denominator) - 52)
  roundHalfEven numerator (denominator * spare) * spare

def ofNat (n : Nat) : Magnitude := nearest (n * one) 1

def tenPower (exponent : Nat) : Magnitude := ofNat (Nat.pow 10 exponent)

def times (a b : Magnitude) : Magnitude := nearest (a * b) one

def quotient (a b : Magnitude) : Magnitude := nearest (a * one) b

def greatestExponent : Nat := 308

/-- A size divided by a power of ten, in steps by finite powers. -/
def dividedBy (size : Magnitude) (exponent : Nat) : Magnitude :=
  if exponent ≤ greatestExponent then size.quotient (tenPower exponent)
  else if size = 0 then 0
  else dividedBy (size.quotient (tenPower greatestExponent)) (exponent - greatestExponent)
termination_by exponent
decreasing_by simp only [greatestExponent] at *; omega

/-- The size of some digits before a power of ten, by one operation on sizes if the power is finite.
Nothing if the result is not finite. -/
def scaled? (digits : Nat) (exponent : Int) : Option Magnitude :=
  let size := ofNat digits
  if exponent < 0 then some (dividedBy size exponent.natAbs)
  else if exponent ≤ greatestExponent then
    let result := size.times (tenPower exponent.toNat)
    if result < bound then some result else none
  else if size = 0 then some 0 else none

def ofDecimal (digits : Nat) (exponent : Int) : Magnitude :=
  if exponent < 0 then nearest (digits * one) (Nat.pow 10 exponent.natAbs)
  else nearest (digits * Nat.pow 10 exponent.toNat * one) 1

def inUnits (size : Magnitude) (exponent : Int) : Nat × Nat :=
  if exponent < 0 then (size * Nat.pow 10 exponent.natAbs, one)
  else (size, one * Nat.pow 10 exponent.toNat)

def leadingExponent (size : Magnitude) : Int :=
  let (numerator, denominator) := inUnits size (-400)
  (Nat.toDigits 10 (numerator / denominator)).length - 401

/-- The decimal with `count` digits that stands for a size and is nearest to it, if there is one. -/
def decimalOf? (size : Magnitude) (count : Nat) : Option (Nat × Int) :=
  let exponent := leadingExponent size - (count - 1 : Nat)
  let (numerator, denominator) := inUnits size exponent
  let middle := roundHalfEven numerator denominator
  let low := numerator / denominator
  let other := if middle == low then low + 1 else low
  ([middle, other].find? fun digits => ofDecimal digits exponent == size).map (·, exponent)

def stripZeros : Nat → Nat × Int → Nat × Int
  | 0, decimal => decimal
  | count + 1, (digits, exponent) =>
    if digits % 10 == 0 && digits != 0 then stripZeros count (digits / 10, exponent + 1)
    else (digits, exponent)

/-- The shortest decimal that stands for a size. Seventeen digits are always enough. -/
def shortest (size : Magnitude) : Nat × Int :=
  match (List.range 17).findSome? fun count => decimalOf? size (count + 1) with
  | some decimal => stripZeros 17 decimal
  | none => (0, 0)

private def padded (digits : List Char) (count : Nat) : List Char :=
  digits ++ List.replicate count '0'

/-- Where a decimal is written without an exponent: up to this many digits before the point, and
with less than five zeros after it. -/
def plainDigits : Int := 16

def render (size : Magnitude) : List Char :=
  if size = 0 then ['0', '.', '0']
  else
    let (value, exponent) := shortest size
    let digits := Nat.toDigits 10 value
    let point : Int := digits.length + exponent
    if 0 ≤ exponent && point ≤ plainDigits then padded digits exponent.toNat ++ ['.', '0']
    else if 0 < point && point ≤ plainDigits then
      digits.take point.toNat ++ '.' :: digits.drop point.toNat
    else if -5 < point && point ≤ 0 then
      padded ['0', '.'] point.natAbs ++ digits
    else
      let power := (toString (point - 1)).toList
      match digits with
      | [digit] => digit :: 'e' :: power
      | digit :: others => digit :: '.' :: others ++ 'e' :: power
      | [] => []

end Magnitude

end Phrasebook.Json
