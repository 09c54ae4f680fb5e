/-
# NodePath.Proofs.DoubleOrder — how doubles compare

Doubles are compared by what their bits are unpacked to. Two of them are in one of the three orders, or in none if
one is no number; seen from the other side, the order is the opposite one.

* §A  The order of two doubles.
* §B  Equality and the two tests of order.
-/
import Mathlib.Data.Ordering.Basic
import NodePath.Number.Binary

namespace NodePath.Number

open Float.Model

/-! ## §A  The order of two doubles -/

/-- The order of two doubles, if both are numbers. -/
def order? (x y : Float) : Option Ordering := x.toModel.unpack.compare y.toModel.unpack

/-- What compares exponents first is the opposite seen from the other side. -/
theorem compare_then_swap (e e' : Int) (m m' : Nat) :
    ((compare e e').then (compare m m')).swap = (compare e' e).then (compare m' m) := by
  rw [Ordering.swap_then, Int.compare_swap, Nat.compare_swap]

/-- Unpacked doubles compare the opposite way from the other side. -/
theorem compare_unpacked_swap (a b : UnpackedFloat) : b.compare a = (a.compare b).map Ordering.swap := by
  cases a with
  | notANumber => cases b <;> rfl
  | infinity s =>
    cases b with
    | infinity t => cases s <;> cases t <;> rfl
    | finite t m e hm => cases s <;> cases t <;> rfl
    | notANumber => rfl
    | zero t => cases s <;> rfl
  | zero s =>
    cases b with
    | infinity t => cases t <;> rfl
    | finite t m e hm => cases t <;> rfl
    | notANumber => rfl
    | zero t => rfl
  | finite s m e hm =>
    cases b with
    | infinity t => cases s <;> cases t <;> rfl
    | notANumber => rfl
    | zero t => cases s <;> rfl
    | finite t m' e' hm' =>
      have hswap := (compare_then_swap e e' m m').symm
      cases s with
      | negative =>
        cases t with
        | negative => exact congrArg (fun o => some o.swap) hswap
        | positive => rfl
      | positive =>
        cases t with
        | negative => rfl
        | positive => exact congrArg some hswap

theorem order?_swap (x y : Float) : order? y x = (order? x y).map Ordering.swap := compare_unpacked_swap _ _

/-! ## §B  Tests -/

theorem lt_iff_order (x y : Float) : x < y ↔ order? x y = some .lt := by
  show decide (x.toModel < y.toModel) = true ↔ _
  rw [decide_eq_true_iff]
  exact beq_iff_eq

theorem le_iff_order (x y : Float) : x ≤ y ↔ order? x y = some .lt ∨ order? x y = some .eq := by
  show decide (x.toModel ≤ y.toModel) = true ↔ _
  rw [decide_eq_true_iff]
  show (order? x y).any (·.isLE) = true ↔ _
  cases order? x y with
  | none => simp
  | some o => cases o <;> simp

/-- What is less is not greater. -/
theorem le_of_lt {x y : Float} (h : x < y) : x ≤ y := (le_iff_order x y).mpr (.inl ((lt_iff_order x y).mp h))

end NodePath.Number
