import Mathlib.Algebra.Order.Ring.Rat
import Mathlib.Algebra.Order.Group.Unbundled.Abs
import Mathlib.Tactic.Ring
import Mathlib.Tactic.Linarith

/-!
# Doubles with exact arithmetic

A floating-point number is either finite, and then a rational, or one of the
special values.  Arithmetic on finite values is exact; the special values follow
the usual rules, so that a comparison with a value that is not a number is false
and the difference of an infinity with itself is not a number.  The sign of zero
is not kept.
-/

namespace FrankaKistar
namespace Foundation

inductive ExactDouble where
  | finite (x : ℚ)
  | posInf
  | negInf
  | nan
deriving DecidableEq

namespace ExactDouble

/-- The value of a finite number; special values are read as zero. -/
def toRat : ExactDouble -> ℚ
  | finite x => x
  | _ => 0

def isFinite : ExactDouble -> Bool
  | finite _ => true
  | _ => false

def lt : ExactDouble -> ExactDouble -> Bool
  | nan, _ => false
  | _, nan => false
  | finite x, finite y => decide (x < y)
  | negInf, negInf => false
  | negInf, _ => true
  | finite _, posInf => true
  | finite _, negInf => false
  | posInf, _ => false

def le : ExactDouble -> ExactDouble -> Bool
  | nan, _ => false
  | _, nan => false
  | finite x, finite y => decide (x ≤ y)
  | negInf, _ => true
  | _, posInf => true
  | finite _, negInf => false
  | posInf, _ => false

def neg : ExactDouble -> ExactDouble
  | finite x => finite (-x)
  | posInf => negInf
  | negInf => posInf
  | nan => nan

def add : ExactDouble -> ExactDouble -> ExactDouble
  | nan, _ => nan
  | _, nan => nan
  | finite x, finite y => finite (x + y)
  | posInf, negInf => nan
  | negInf, posInf => nan
  | posInf, _ => posInf
  | _, posInf => posInf
  | negInf, _ => negInf
  | _, negInf => negInf

def sub (x y : ExactDouble) : ExactDouble :=
  add x (neg y)

def abs : ExactDouble -> ExactDouble
  | finite x => finite |x|
  | posInf => posInf
  | negInf => posInf
  | nan => nan

def scale (factor : ℚ) : ExactDouble -> ExactDouble
  | finite x => finite (factor * x)
  | posInf => if 0 < factor then posInf else if factor < 0 then negInf else nan
  | negInf => if 0 < factor then negInf else if factor < 0 then posInf else nan
  | nan => nan

@[simp] theorem toRat_finite (x : ℚ) : (finite x).toRat = x := rfl

@[simp] theorem lt_finite (x y : ℚ) :
    (finite x).lt (finite y) = decide (x < y) := rfl

@[simp] theorem le_finite (x y : ℚ) :
    (finite x).le (finite y) = decide (x ≤ y) := rfl

@[simp] theorem abs_finite (x : ℚ) : (finite x).abs = finite |x| := rfl

@[simp] theorem sub_finite (x y : ℚ) :
    (finite x).sub (finite y) = finite (x - y) := by
  simp [sub, add, neg, sub_eq_add_neg]

theorem lt_abs_sub_self {bound : ℚ} (hbound : 0 ≤ bound) (x : ExactDouble) :
    (finite bound).lt (x.sub x).abs = false := by
  cases x with
  | finite x => simpa using hbound
  | posInf => rfl
  | negInf => rfl
  | nan => rfl

end ExactDouble

end Foundation
end FrankaKistar
