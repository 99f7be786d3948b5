import Mathlib.Algebra.Ring.Int.Defs
import Mathlib.Algebra.Ring.Nat
import Mathlib.Tactic.Common

/-!
# Single-precision quotients

The IEEE 754 single-precision operations that a load factor needs: the conversion of a
natural number, the division, and the comparison with an exact fraction. Both operations
round to nearest, ties to even. The magnitudes stay in the normal range, so there are no
infinities, zeros or subnormals to model.

Results:
1. `ge_ofNat_div_self`: `x / x` is one, which is not below a fraction under one.
-/

namespace JautoProf

/-- A positive single: `sig * 2 ^ up / 2 ^ down`. -/
structure Single where
  sig : Nat
  up : Nat
  down : Nat
deriving DecidableEq, Repr

namespace Single

/-- The bits of a significand after the leading one. -/
def fraction : Nat := 23

/-- `p / q` rounded to an integer, ties to even. -/
def roundDiv (p q : Nat) : Nat :=
  let d := p / q
  let r := p % q
  if 2 * r < q then d else if q < 2 * r then d + 1 else d + d % 2

/-- The conversion of a natural number. -/
def ofNat (n : Nat) : Single :=
  if n < 2 ^ (fraction + 1) then ⟨n, 0, 0⟩
  else
    let e := n.log2 - fraction
    ⟨roundDiv n (2 ^ e), e, 0⟩

/-- The division of two converted numbers. The shift brings the quotient of the significands
between `2 ^ fraction` and `2 ^ (fraction + 1)`. -/
def div (x y : Single) : Single :=
  let k := fraction + 1 + y.sig.log2 - x.sig.log2
  let k := if 2 ^ (fraction + 1) * y.sig ≤ 2 ^ k * x.sig then k - 1 else k
  ⟨roundDiv (2 ^ k * x.sig) y.sig, x.up + y.down, x.down + y.up + k⟩

/-- `x >= num / den`, compared exactly. -/
def ge (x : Single) (num den : Nat) : Bool :=
  decide (num * 2 ^ x.down ≤ den * (x.sig * 2 ^ x.up))

theorem roundDiv_mul_self {q : Nat} (hq : 0 < q) (n : Nat) : roundDiv (n * q) q = n := by
  unfold roundDiv
  simp [Nat.mul_div_cancel n hq, hq]

theorem sig_ofNat_pos {n : Nat} (h : 0 < n) : 0 < (ofNat n).sig := by
  unfold ofNat
  split
  · exact h
  · simp only [roundDiv]
    have hpow : 2 ^ (n.log2 - fraction) ≤ n :=
      Nat.le_trans (Nat.pow_le_pow_right (by decide) (Nat.sub_le _ _))
        (Nat.log2_self_le (Nat.ne_of_gt h))
    have hd : 0 < n / 2 ^ (n.log2 - fraction) := Nat.div_pos hpow (Nat.two_pow_pos _)
    split
    · exact hd
    · split <;> omega

/-- `x / x` is one. -/
theorem div_self {x : Single} (hx : 0 < x.sig) :
    x.div x = ⟨2 ^ fraction, x.up + x.down, x.down + x.up + fraction⟩ := by
  have hk : fraction + 1 + x.sig.log2 - x.sig.log2 = fraction + 1 := Nat.add_sub_cancel _ _
  unfold div
  simp only [hk, Nat.le_refl, if_true, Nat.add_sub_cancel, roundDiv_mul_self hx]

theorem ge_div_self {x : Single} (hx : 0 < x.sig) {num den : Nat} (h : num ≤ den) :
    (x.div x).ge num den = true := by
  rw [div_self hx]
  simp only [ge, decide_eq_true_eq]
  calc num * 2 ^ (x.down + x.up + fraction)
      ≤ den * 2 ^ (x.down + x.up + fraction) := Nat.mul_le_mul_right _ h
    _ = den * (2 ^ fraction * 2 ^ (x.up + x.down)) := by
        rw [Nat.add_comm x.down, Nat.pow_add, Nat.mul_comm (2 ^ (x.up + x.down))]

/-- The quotient of a number by itself is not below a fraction of at most one. -/
theorem ge_ofNat_div_self {n : Nat} (hn : 0 < n) {num den : Nat} (h : num ≤ den) :
    ((ofNat n).div (ofNat n)).ge num den = true :=
  ge_div_self (sig_ofNat_pos hn) h

end Single

end JautoProf
