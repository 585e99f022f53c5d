/-
# `GridFill.Proofs.Clock.Double` — where double arithmetic is exact

Floor division of exact numbers leaves a remainder that is not negative and below the
divisor (`Clock.divMod_snd_bounds`).  Double division is compared with it here.

Rounding a quotient to the nearest whole number is off by half a unit at most
(`divNearest_bounds`), and a quotient half-way between two goes to the even one
(`even_of_tie`).

A whole number below `2 ^ 53` is a double (`nearest_natCast`).  Floor division by a
positive whole number finds the remainder exactly for every double (`divMod_snd`).  Only
the quotient is rounded, and for a double below that bound what is rounded is a multiple
of the divisor: then the quotient too is that of exact numbers (`divMod_eq`).
-/
import Mathlib.Algebra.Order.Floor.Ring
import Mathlib.Data.Rat.Floor
import Mathlib.Tactic.FieldSimp
import Mathlib.Tactic.Linarith
import GridFill.Clock.Basic

namespace GridFill

/-! ## Exact division

The quotient is rounded down, so the remainder is not negative and below the
divisor. -/

namespace Clock

variable {a b : Rat} (hb : 0 < b)

theorem divMod_sum (a b : Rat) : (divMod a b).1 * b + (divMod a b).2 = a := by
  simp only [divMod]
  ring

include hb

theorem divMod_snd_bounds : 0 ≤ (divMod a b).2 ∧ (divMod a b).2 < b := by
  have hlow := Rat.floor_le (a / b)
  have hhigh : a / b - 1 < _ := Rat.lt_floor
  rw [le_div_iff₀ hb] at hlow
  rw [sub_lt_iff_lt_add, div_lt_iff₀ hb] at hhigh
  simp only [divMod]
  constructor <;> linarith

theorem divMod_fst_nonneg (ha : 0 ≤ a) : 0 ≤ (divMod a b).1 := by
  rw [divMod, Rat.le_floor_iff, Int.cast_zero]
  positivity

theorem divMod_fst_lt {n : Int} (ha : a < n * b) : (divMod a b).1 < n := by
  rw [divMod, Rat.floor_lt_iff, div_lt_iff₀ hb]
  exact ha

end Clock

namespace Double

variable {n d k : Nat}

/-! ## Rounding a quotient

The nearest whole number, and the even one of two that are equally near.  An odd
number is therefore not passed before the half-way to the next
(`divNearest_le_iff`). -/

theorem divNearest_one (n : Nat) : divNearest n 1 = n := by
  simp [divNearest, Nat.mod_one]

section

variable (hd : 0 < d)

include hd

theorem divNearest_bounds :
    2 * (divNearest n d * d) ≤ 2 * n + d ∧ 2 * n ≤ 2 * (divNearest n d * d) + d := by
  have hsplit := Nat.div_add_mod' n d
  have hrest := Nat.mod_lt n hd
  have hsucc : (n / d + 1) * d = n / d * d + d := Nat.succ_mul (n / d) d
  unfold divNearest
  dsimp only
  split
  · omega
  split
  · omega
  split <;> omega

theorem even_of_tie
    (h : 2 * n = 2 * (divNearest n d * d) + d ∨ 2 * n + d = 2 * (divNearest n d * d)) :
    divNearest n d % 2 = 0 := by
  have hsplit := Nat.div_add_mod' n d
  have hrest := Nat.mod_lt n hd
  have hsucc : (n / d + 1) * d = n / d * d + d := Nat.succ_mul (n / d) d
  revert h
  unfold divNearest
  dsimp only
  split
  · omega
  split
  · omega
  split <;> omega

theorem divNearest_le_iff (hk : k % 2 = 1) : divNearest n d ≤ k ↔ 2 * n < 2 * (k * d) + d := by
  obtain ⟨hlow, hhigh⟩ := divNearest_bounds (n := n) hd
  constructor
  · intro hle
    rcases Nat.eq_or_lt_of_le hle with heq | hlt
    · refine Nat.lt_of_le_of_ne (heq ▸ hhigh) fun htie => ?_
      have heven := even_of_tie hd (.inl (heq ▸ htie))
      omega
    · have hmul := Nat.mul_le_mul_right d (Nat.succ_le_of_lt hlt)
      rw [Nat.succ_mul] at hmul
      omega
  · intro hlt
    by_contra hgt
    have hmul := Nat.mul_le_mul_right d (Nat.succ_le_of_lt (Nat.not_le.mp hgt))
    rw [Nat.succ_mul] at hmul
    omega

end

/-! ## Whole numbers as doubles

Below `2 ^ 53` the unit of the last place is at most one, so a whole number is not
rounded. -/

theorem twoTo_natCast (k : Nat) : twoTo k = 2 ^ k := by
  simp [twoTo]

theorem twoTo_neg_natCast (k : Nat) : twoTo (-k) = 1 / 2 ^ k := by
  cases k with
  | zero => simp [twoTo]
  | succ k =>
      have hneg : ¬ (0 : Int) ≤ -((k + 1 : Nat) : Int) := by omega
      rw [twoTo, if_neg hneg]
      simp

theorem topExponent_natCast (h : n ≠ 0) : topExponent n 1 = n.log2 := by
  have hlog : (2 : Rat) ^ n.log2 ≤ n := by exact_mod_cast Nat.log2_self_le h
  have hone : Nat.log2 1 = 0 := rfl
  simp [topExponent, hone, twoTo_natCast, hlog]

/-- A whole number below `2 ^ 53` is not rounded. -/
theorem nearest_natCast (h : n < 2 ^ 53) : nearest (n : Rat) = n := by
  by_cases h0 : n = 0
  · subst h0
    rfl
  have hlog : n.log2 ≤ 52 := Nat.lt_succ_iff.mp ((Nat.log2_lt h0).mpr h)
  -- the unit of the last place is one over a power of two
  have hunit : max (-1074) ((n.log2 : Int) - 52) = -((52 - n.log2 : Nat) : Int) := by omega
  have hscaled : (n : Rat) / 1 / (1 / 2 ^ (52 - n.log2)) =
      ((n * 2 ^ (52 - n.log2) : Nat) : Rat) := by
    push_cast
    field_simp
  have hnum : ¬ ((n : Int) < 0) := by omega
  unfold nearest
  simp only [Rat.num_natCast, Rat.den_natCast, Int.natAbs_natCast, topExponent_natCast h0, hunit,
    twoTo_neg_natCast, Nat.cast_one, hscaled, divNearest_one, if_neg hnum]
  rw [if_neg (by exact_mod_cast h0)]
  push_cast
  field_simp

theorem twoTo_nonneg (e : Int) : 0 ≤ twoTo e := by
  unfold twoTo
  split <;> positivity

theorem nearest_nonneg {q : Rat} (hq : 0 ≤ q) : 0 ≤ nearest q := by
  have hnum : ¬ q.num < 0 := Int.not_lt.mpr (Rat.num_nonneg.mpr hq)
  rw [nearest]
  simp only [if_neg hnum]
  split
  · exact le_refl 0
  · exact mul_nonneg (Nat.cast_nonneg _) (twoTo_nonneg _)

/-! ## Dividing doubles

The remainder is found by truncating, which is exact for every double.  The
quotient is rounded, but below `2 ^ 53` it is a whole number that needs no
rounding. -/

section

variable {a b : Rat} (ha : 0 ≤ a) (hb : 0 < b)

include ha hb

theorem truncRemainder_eq : truncRemainder a b = (Clock.divMod a b).2 := by
  have hnum : ¬ (a / b).num < 0 := Int.not_lt.mpr (Rat.num_nonneg.mpr (by positivity))
  simp only [truncRemainder, if_neg hnum, Clock.divMod]

theorem num_truncRemainder_nonneg : ¬ (truncRemainder a b).num < 0 := by
  rw [truncRemainder_eq ha hb]
  exact Int.not_lt.mpr (Rat.num_nonneg.mpr (Clock.divMod_snd_bounds hb).1)

/-- The remainder is exact, however large the dividend is. -/
theorem divMod_snd : (divMod a b).2 = (Clock.divMod a b).2 := by
  simp only [divMod, if_neg (num_truncRemainder_nonneg ha hb)]
  exact truncRemainder_eq ha hb

theorem divMod_fst_nonneg : 0 ≤ (divMod a b).1 := by
  have hquotient : (0 : Rat) ≤ (Clock.divMod a b).1 * b :=
    mul_nonneg (Int.cast_nonneg (Clock.divMod_fst_nonneg hb ha)) (le_of_lt hb)
  have hmultiple : 0 ≤ a - truncRemainder a b := by
    have hsum := Clock.divMod_sum a b
    rw [truncRemainder_eq ha hb]
    linarith
  have hnearest : 0 ≤ nearest (nearest (a - truncRemainder a b) / b) :=
    nearest_nonneg (div_nonneg (nearest_nonneg hmultiple) (le_of_lt hb))
  have hfloor : 0 ≤ (nearest (nearest (a - truncRemainder a b) / b)).floor := by
    rw [Rat.le_floor_iff, Int.cast_zero]
    exact hnearest
  simp only [divMod, if_neg (num_truncRemainder_nonneg ha hb)]
  split <;> omega

end

/-- Below `2 ^ 53` dividing doubles by a positive whole number is exact. -/
theorem divMod_eq {a : Rat} (hd : 0 < d) (ha : 0 ≤ a) (hlt : a < 2 ^ 53) :
    divMod a d = Clock.divMod a d := by
  have hdpos : (0 : Rat) < d := Nat.cast_pos.mpr hd
  obtain ⟨k, hk⟩ := Int.eq_ofNat_of_zero_le (Clock.divMod_fst_nonneg hdpos ha)
  have hsum := Clock.divMod_sum a d
  rw [hk, Int.cast_natCast] at hsum
  have hrest : a - truncRemainder a d = k * d := by
    rw [truncRemainder_eq ha hdpos, sub_eq_iff_eq_add]
    exact hsum.symm
  have hmul : k * d < 2 ^ 53 := by
    have hle : (k * d : Rat) ≤ a := by
      have hnonneg := (Clock.divMod_snd_bounds (a := a) hdpos).1
      linarith
    exact_mod_cast hle.trans_lt hlt
  have hfit : k < 2 ^ 53 := Nat.lt_of_le_of_lt (Nat.le_mul_of_pos_right k hd) hmul
  -- without the remainder a multiple of the divisor is left, so neither rounding changes it
  have hquotient : nearest (nearest (a - truncRemainder a d) / d) = k := by
    rw [hrest, ← Nat.cast_mul, nearest_natCast hmul, Nat.cast_mul,
      mul_div_cancel_right₀ _ (ne_of_gt hdpos), nearest_natCast hfit]
  have hfloor : (k : Rat).floor = k := Rat.floor_intCast k
  have hwhole : ¬ (1 / 2 : Rat) < (k : Rat) - k := by norm_num
  refine Prod.ext ?_ (divMod_snd ha hdpos)
  rw [hk]
  simp only [divMod, if_neg (num_truncRemainder_nonneg ha hdpos), hquotient, hfloor,
    Int.cast_natCast, if_neg hwhole]

end Double

end GridFill
