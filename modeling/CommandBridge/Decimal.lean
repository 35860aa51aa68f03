/-
  CommandBridge.Decimal — a decimal number and its text.

  The number is `coefficient · 10 ^ exponent` with a sign of its own, so that a negative zero
  exists. Its text has the digits without closing zeros: positional, with a fraction of at least
  one digit, while the leading digit stands between the fourth place after the point and the
  sixteenth before it, and in scientific notation otherwise.
-/

import CommandBridge.Text.Basic

namespace CommandBridge

structure Decimal where
  negative : Bool
  coefficient : Nat
  exponent : Int
  deriving DecidableEq, Repr

namespace Decimal

def isZero (d : Decimal) : Bool := d.coefficient == 0

/-- The value is 1: not negative, and a one followed by as many zeros as the exponent takes away. -/
def isOne (d : Decimal) : Bool := !d.negative && d.exponent ≤ 0 && d.coefficient == Nat.pow 10 d.exponent.natAbs

/-- The digits of the coefficient without closing zeros. -/
def digits (d : Decimal) : Text := ((Text.ofNat d.coefficient).reverse.dropWhile (· == '0')).reverse

/-- The number of digits before the point; at most zero when the number is below one tenth. -/
def point (d : Decimal) : Int := (Text.ofNat d.coefficient).length + d.exponent

def positional (ds : Text) (point : Int) : Text :=
  if point ≤ 0 then '0' :: '.' :: (List.replicate point.natAbs '0' ++ ds)
  else
    let whole := ds.take point.toNat
    let fraction := ds.drop point.toNat
    whole.rightpad point.toNat '0' ++ '.' :: (if fraction.isEmpty then ['0'] else fraction)

def scientific (ds : Text) (power : Int) : Text :=
  let sign := if power < 0 then '-' else '+'
  ds.take 1 ++ (if ds.length ≤ 1 then [] else '.' :: ds.drop 1) ++
    'e' :: sign :: (Text.ofNat power.natAbs).leftpad 2 '0'

def unsignedText (d : Decimal) : Text :=
  if d.isZero then ['0', '.', '0']
  else if -4 < d.point ∧ d.point ≤ 16 then positional d.digits d.point
  else scientific d.digits (d.point - 1)

def text (d : Decimal) : Text := (if d.negative then ['-'] else []) ++ d.unsignedText

/-! ## Examples -/

example : text ⟨false, 15, -1⟩ = "1.5".toList := by decide +kernel
example : text ⟨true, 25, -2⟩ = "-0.25".toList := by decide +kernel
example : text ⟨false, 1, 5⟩ = "100000.0".toList := by decide +kernel
example : text ⟨false, 15, 15⟩ = "1.5e+16".toList := by decide +kernel
example : text ⟨false, 1, -4⟩ = "0.0001".toList := by decide +kernel
example : text ⟨false, 10, -6⟩ = "1e-05".toList := by decide +kernel

end Decimal

end CommandBridge
