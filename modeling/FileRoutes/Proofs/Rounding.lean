import FileRoutes.Decimal.Binary64
import Mathlib.Tactic.Ring
import Mathlib.Tactic.NormNum

/-!
# The range of rounding

A decimal is rounded to a floating-point number unless it lies too far out. The bound is the
midpoint between the greatest number and the power of two that would come next: there a tie goes to
the even side, which is out of range.

All comparisons are made between natural numbers, a negative exponent being moved to the other side.

## The model

* `Binary64.overflowBound` — the least magnitude that is out of range.

## What is proved

* `exponentOf_spec` — the exponent leaves a significand of 53 binary digits.
* `ofRatio_eq_none_iff`, `ofDecimal_eq_none_iff` — a quotient and a decimal are out of range exactly
  from the bound on.
-/

namespace FileRoutes.Binary64

/-- The least magnitude that is rounded out of range, half a unit above the greatest number:
`2 ^ 1024 - 2 ^ 970`. -/
def overflowBound : Nat := (2 ^ 54 - 1) * 2 ^ (greatestExponent - 1).toNat

/-! ### Powers of two -/

theorem pow_le_of_log {n k : Nat} (h : n ≠ 0) (hk : k ≤ n.log2) : 2 ^ k ≤ n :=
  (Nat.le_log2 h).1 hk

theorem lt_pow_of_log {n k : Nat} (h : n ≠ 0) (hk : n.log2 < k) : n < 2 ^ k :=
  (Nat.log2_lt h).1 hk

/-- A number is at most a quotient over a power of two, rounded down, where it is at most the
quotient. -/
theorem le_scaledFloor_iff {num den k : Nat} {e : Int} (hd : 0 < den) :
    k ≤ scaledFloor num den e ↔ k * (den * 2 ^ e.toNat) ≤ num * 2 ^ (-e).toNat := by
  unfold scaledFloor
  split
  · have hneg : (-e).toNat = 0 := by omega
    rw [hneg, Nat.pow_eq, Nat.le_div_iff_mul_le (by positivity), Nat.pow_zero, Nat.mul_one]
  · have hpos : e.toNat = 0 := by omega
    rw [hpos, Nat.pow_eq, Nat.le_div_iff_mul_le hd, Nat.pow_zero, Nat.mul_one]

/-- A greater exponent leaves a smaller quotient. -/
theorem scaledFloor_anti {num den : Nat} {e f : Int} (hd : 0 < den) (h : e ≤ f) :
    scaledFloor num den f ≤ scaledFloor num den e := by
  rw [le_scaledFloor_iff hd]
  have hle : scaledFloor num den f * (den * 2 ^ f.toNat) ≤ num * 2 ^ (-f).toNat :=
    (le_scaledFloor_iff hd).1 (Nat.le_refl _)
  generalize scaledFloor num den f = k at *
  refine Nat.le_of_mul_le_mul_right (c := 2 ^ (-f).toNat) ?_ (by positivity)
  calc k * (den * 2 ^ e.toNat) * 2 ^ (-f).toNat
      = k * den * 2 ^ (e.toNat + (-f).toNat) := by rw [Nat.pow_add]; ring
    _ ≤ k * den * 2 ^ (f.toNat + (-e).toNat) :=
        Nat.mul_le_mul_left _ (Nat.pow_le_pow_right (by omega) (by omega))
    _ = k * (den * 2 ^ f.toNat) * 2 ^ (-e).toNat := by rw [Nat.pow_add]; ring
    _ ≤ num * 2 ^ (-f).toNat * 2 ^ (-e).toNat := Nat.mul_le_mul_right _ hle
    _ = num * 2 ^ (-e).toNat * 2 ^ (-f).toNat := by ring

/-- One binary digit more before the point is one exponent less. -/
theorem pow_le_scaledFloor_succ {num den : Nat} (hd : 0 < den) {e : Int}
    (h : 2 ^ 53 ≤ scaledFloor num den e) :
    2 ^ 52 ≤ scaledFloor num den (e + 1) := by
  rw [le_scaledFloor_iff hd] at h ⊢
  generalize ha : e.toNat = a at h
  generalize hb : (-e).toNat = b at h
  refine Nat.le_of_mul_le_mul_right (c := 2) ?_ (by omega)
  by_cases he : 0 ≤ e
  · obtain ⟨ha', hb'⟩ : (e + 1).toNat = a + 1 ∧ (-(e + 1)).toNat = b := by omega
    rw [ha', hb']
    calc 2 ^ 52 * (den * 2 ^ (a + 1)) * 2 = 2 ^ 53 * (den * 2 ^ a) * 2 := by
          rw [Nat.pow_succ 2 a]
          ring
      _ ≤ num * 2 ^ b * 2 := Nat.mul_le_mul_right _ h
  · obtain ⟨ha', hb'⟩ : (e + 1).toNat = a ∧ b = (-(e + 1)).toNat + 1 := by omega
    rw [ha']
    calc 2 ^ 52 * (den * 2 ^ a) * 2 = 2 ^ 53 * (den * 2 ^ a) := by ring
      _ ≤ num * 2 ^ b := h
      _ = num * 2 ^ (-(e + 1)).toNat * 2 := by rw [hb', Nat.pow_succ]; ring

/-! ### The exponent of a quotient -/

section exponent

variable {num den : Nat} (hn : num ≠ 0) (hd : 0 < den)
include hn hd

/-- From the binary digits of both numbers on, a quotient has 53 or 54 of them before the point. -/
theorem pow_le_scaledFloor_log :
    2 ^ 52 ≤ scaledFloor num den ((num.log2 : Int) - den.log2 - 53) := by
  rw [le_scaledFloor_iff hd]
  have hnum := pow_le_of_log hn (Nat.le_refl _)
  have hden := lt_pow_of_log (by omega : den ≠ 0) (Nat.lt_succ_self _)
  generalize num.log2 = n at *
  generalize den.log2 = d at *
  generalize ha : ((n : Int) - d - 53).toNat = a
  generalize hb : (-((n : Int) - d - 53)).toNat = b
  calc 2 ^ 52 * (den * 2 ^ a) ≤ 2 ^ 52 * (2 ^ (d + 1) * 2 ^ a) :=
        Nat.mul_le_mul_left _ (Nat.mul_le_mul_right _ (Nat.le_of_lt hden))
    _ = 2 ^ (n + b) := by rw [← Nat.pow_add, ← Nat.pow_add]; congr 1; omega
    _ = 2 ^ n * 2 ^ b := Nat.pow_add ..
    _ ≤ num * 2 ^ b := Nat.mul_le_mul_right _ hnum

theorem scaledFloor_log_succ_lt :
    scaledFloor num den ((num.log2 : Int) - den.log2 - 53 + 1) < 2 ^ 53 := by
  rw [← Nat.not_le, le_scaledFloor_iff hd, Nat.not_le]
  have hnum := lt_pow_of_log hn (Nat.lt_succ_self _)
  have hden := pow_le_of_log (by omega : den ≠ 0) (Nat.le_refl _)
  generalize num.log2 = n at *
  generalize den.log2 = d at *
  generalize ha : ((n : Int) - d - 53 + 1).toNat = a
  generalize hb : (-((n : Int) - d - 53 + 1)).toNat = b
  calc num * 2 ^ b < 2 ^ (n + 1) * 2 ^ b := Nat.mul_lt_mul_of_pos_right hnum (by positivity)
    _ = 2 ^ 53 * (2 ^ d * 2 ^ a) := by
        rw [← Nat.pow_add, ← Nat.pow_add, ← Nat.pow_add]
        congr 1
        omega
    _ ≤ 2 ^ 53 * (den * 2 ^ a) := Nat.mul_le_mul_left _ (Nat.mul_le_mul_right _ hden)

/-- The exponent of a quotient leaves a significand below `2 ^ 53`, and one of 53 binary digits
unless it is the least exponent. -/
theorem exponentOf_spec :
    scaledFloor num den (exponentOf num den) < 2 ^ 53 ∧
      (leastExponent < exponentOf num den → 2 ^ 52 ≤ scaledFloor num den (exponentOf num den)) := by
  obtain ⟨e, he, hlt, hle⟩ : ∃ e, exponentOf num den = max leastExponent e ∧
      scaledFloor num den e < 2 ^ 53 ∧ 2 ^ 52 ≤ scaledFloor num den e := by
    unfold exponentOf
    simp only [Nat.pow_eq]
    split
    · next h => exact ⟨_, rfl, h, pow_le_scaledFloor_log hn hd⟩
    · next h =>
      exact ⟨_, rfl, scaledFloor_log_succ_lt hn hd, pow_le_scaledFloor_succ hd (Nat.not_lt.1 h)⟩
  rw [he]
  refine ⟨Nat.lt_of_le_of_lt (scaledFloor_anti hd (Int.le_max_right _ _)) hlt, fun h => ?_⟩
  rwa [Int.max_eq_right (by omega)]

end exponent

/-! ### Quotients out of range -/

/-- At an exponent that is not negative, rounding goes up to `2 ^ 53` from half a unit below it
on. -/
theorem scaledRound_eq_iff {num den : Nat} {e : Int} (hd : 0 < den) (he : 0 ≤ e)
    (hlt : scaledFloor num den e < 2 ^ 53) :
    scaledRound num den e = 2 ^ 53 ↔ (2 ^ 54 - 1) * (den * 2 ^ e.toNat) ≤ 2 * num := by
  unfold scaledFloor at hlt
  unfold scaledRound
  rw [if_pos he] at *
  simp only [Nat.pow_eq] at *
  generalize hD : den * 2 ^ e.toNat = D at *
  have hDpos : 0 < D := by rw [← hD]; positivity
  have hmod := Nat.mod_lt num hDpos
  have hdiv := Nat.div_add_mod num D
  generalize num / D = q at *
  generalize num % D = r at *
  rcases Nat.lt_or_ge q (2 ^ 53 - 1) with hq | hq
  · have hqD : D * q ≤ D * (2 ^ 53 - 2) := Nat.mul_le_mul_left _ (by omega)
    constructor
    · intro h
      split at h <;> (try split at h) <;> (try split at h) <;> omega
    · intro h
      omega
  · obtain rfl : q = 2 ^ 53 - 1 := by omega
    constructor
    · intro h
      split at h
      · omega
      · omega
    · intro h
      rw [if_neg (by omega)]
      split
      · omega
      · rw [if_neg (by decide)]
        rfl

-- The exponents are kept in variables, so that no power of this size is ever computed.
theorem exists_overflowBound : ∃ k, k = 970 ∧ overflowBound = (2 ^ 54 - 1) * 2 ^ k :=
  ⟨(greatestExponent - 1).toNat, by decide, by rw [overflowBound]⟩

theorem overflowBound_pos : 0 < overflowBound := Nat.mul_pos (by decide) (Nat.two_pow_pos _)

theorem overflowBound_le {n : Nat} (h : 1024 ≤ n) : overflowBound ≤ 2 ^ n := by
  obtain ⟨k, hk, hbound⟩ := exists_overflowBound
  calc overflowBound ≤ 2 ^ 54 * 2 ^ k := hbound ▸ Nat.mul_le_mul_right _ (by decide)
    _ = 2 ^ (54 + k) := (Nat.pow_add ..).symm
    _ ≤ 2 ^ n := Nat.pow_le_pow_right (by decide) (by omega)

theorem pow_lt_overflowBound {n : Nat} (h : n ≤ 1023) : 2 ^ n < overflowBound := by
  obtain ⟨k, hk, hbound⟩ := exists_overflowBound
  calc 2 ^ n ≤ 2 ^ (53 + k) := Nat.pow_le_pow_right (by decide) (by omega)
    _ = 2 ^ 53 * 2 ^ k := Nat.pow_add ..
    _ < overflowBound := hbound ▸ Nat.mul_lt_mul_of_pos_right (by decide) (Nat.two_pow_pos _)

section range

variable {num den : Nat} (hd : 0 < den)
include hd

/-- A quotient whose exponent is too great is out of range. -/
theorem overflowBound_le_of_exponent {e : Int} (he : 972 ≤ e)
    (h : 2 ^ 52 ≤ scaledFloor num den e) : overflowBound * den ≤ num := by
  have hneg : (-e).toNat = 0 := by omega
  rw [le_scaledFloor_iff hd, hneg, Nat.pow_zero, Nat.mul_one] at h
  calc overflowBound * den ≤ 2 ^ (52 + e.toNat) * den :=
        Nat.mul_le_mul_right _ (overflowBound_le (by omega))
    _ = 2 ^ 52 * (den * 2 ^ e.toNat) := by rw [Nat.pow_add]; ring
    _ ≤ num := h

/-- A quotient whose exponent is not the greatest is in range. -/
theorem lt_overflowBound_of_exponent {e : Int} (he : e ≤ 970)
    (h : scaledFloor num den e < 2 ^ 53) : num < overflowBound * den := by
  obtain ⟨k, hk⟩ : ∃ k : Nat, k = 970 := ⟨_, rfl⟩
  have hle := Nat.lt_of_le_of_lt (scaledFloor_anti (f := (k : Int)) hd (by omega)) h
  have hneg : (-(k : Int)).toNat = 0 := by omega
  rw [← Nat.not_le, le_scaledFloor_iff hd, Nat.not_le, hneg, Int.toNat_natCast, Nat.pow_zero,
    Nat.mul_one] at hle
  calc num < 2 ^ 53 * (den * 2 ^ k) := hle
    _ = 2 ^ (53 + k) * den := by rw [Nat.pow_add]; ring
    _ ≤ overflowBound * den :=
        Nat.mul_le_mul_right _ (Nat.le_of_lt (pow_lt_overflowBound (by omega)))

/-- A quotient is out of range exactly from the bound on. -/
theorem ofRatio_eq_none_iff (negative : Bool) :
    ofRatio negative num den = none ↔ overflowBound * den ≤ num := by
  by_cases hn : num = 0
  · have hbound := Nat.mul_pos overflowBound_pos hd
    simp only [ofRatio, if_pos hn, reduceCtorEq, false_iff, Nat.not_le]
    rw [hn]
    exact hbound
  obtain ⟨hlt, hle⟩ := exponentOf_spec hn hd
  simp only [ofRatio, if_neg hn, Nat.pow_eq]
  generalize exponentOf num den = e at hlt hle ⊢
  have hcarry : (if scaledRound num den e = 2 ^ 53 then (2 ^ 52, e + 1)
      else (scaledRound num den e, e)).2 = if scaledRound num den e = 2 ^ 53 then e + 1 else e := by
    split <;> rfl
  simp only [ite_eq_left_iff, reduceCtorEq, imp_false, Decidable.not_not, hcarry, greatestExponent]
  rcases Int.lt_trichotomy e 971 with he | he | he
  · have hin := lt_overflowBound_of_exponent hd (by omega) hlt
    refine ⟨fun h => absurd h ?_, fun h => absurd h (Nat.not_le.2 hin)⟩
    split <;> omega
  · have hround : scaledRound num den e = 2 ^ 53 ↔ overflowBound * den ≤ num := by
      obtain ⟨k, hk, hbound⟩ := exists_overflowBound
      have hnext : e.toNat = k + 1 := by omega
      rw [scaledRound_eq_iff hd (by omega) hlt, hnext,
        show (2 ^ 54 - 1) * (den * 2 ^ (k + 1)) = 2 * (overflowBound * den) by
          rw [hbound, Nat.pow_succ]
          ring]
      exact Nat.mul_le_mul_left_iff (by decide)
    rw [← hround]
    split
    · next hs => exact ⟨fun _ => hs, fun _ => by omega⟩
    · next hs => exact ⟨fun h => by omega, fun h => absurd h hs⟩
  · have hout := overflowBound_le_of_exponent hd (by omega)
      (hle (by unfold leastExponent; omega))
    refine ⟨fun _ => hout, fun _ => ?_⟩
    split <;> omega

end range

/-! ### Decimals out of range -/

theorem pow_log_div_le {n k : Nat} (h : n ≠ 0) : (2 ^ k) ^ (n.log2 / k) ≤ n := by
  rw [← Nat.pow_mul]
  exact pow_le_of_log h (Nat.mul_div_le _ _)

theorem lt_pow_log_div {n k : Nat} (hk : 0 < k) (h : n ≠ 0) : n < (2 ^ k) ^ (n.log2 / k + 1) := by
  rw [← Nat.pow_mul]
  exact lt_pow_of_log h (Nat.lt_mul_div_succ _ hk)

theorem overflowBound_le_pow_ten {n : Nat} (h : 401 ≤ n) : overflowBound ≤ 10 ^ n :=
  calc overflowBound ≤ 2 ^ (3 * n) := overflowBound_le (by omega)
    _ = 8 ^ n := Nat.pow_mul ..
    _ ≤ 10 ^ n := Nat.pow_le_pow_left (by decide) n

/-- A decimal with a very small exponent is in range. -/
theorem lt_of_small {s : Nat} {p : Int} (hs : s ≠ 0) (h : p + (s.log2 : Int) / 3 + 1 < -400) :
    s * 10 ^ p.toNat < overflowBound * 10 ^ (-p).toNat := by
  rw [show p.toNat = 0 by omega, Nat.pow_zero, Nat.mul_one]
  calc s < (2 ^ 3) ^ (s.log2 / 3 + 1) := lt_pow_log_div (by decide) hs
    _ ≤ 10 ^ (s.log2 / 3 + 1) := Nat.pow_le_pow_left (by decide) _
    _ ≤ 10 ^ (-p).toNat := Nat.pow_le_pow_right (by decide) (by omega)
    _ ≤ overflowBound * 10 ^ (-p).toNat := Nat.le_mul_of_pos_left _ overflowBound_pos

/-- A decimal with a very great exponent is out of range. -/
theorem le_of_great {s : Nat} {p : Int} (hs : s ≠ 0) (h : 400 < p + (s.log2 : Int) / 4) :
    overflowBound * 10 ^ (-p).toNat ≤ s * 10 ^ p.toNat := by
  have hdigits : 10 ^ (s.log2 / 4) ≤ s :=
    Nat.le_trans (Nat.pow_le_pow_left (by decide) _) (pow_log_div_le (k := 4) hs)
  obtain ⟨n, hn, hsum⟩ : ∃ n, 401 ≤ n ∧ s.log2 / 4 + p.toNat = n + (-p).toNat :=
    ⟨s.log2 / 4 + p.toNat - (-p).toNat, by omega, by omega⟩
  calc overflowBound * 10 ^ (-p).toNat ≤ 10 ^ n * 10 ^ (-p).toNat :=
        Nat.mul_le_mul_right _ (overflowBound_le_pow_ten hn)
    _ = 10 ^ (s.log2 / 4) * 10 ^ p.toNat := by rw [← Nat.pow_add, ← Nat.pow_add, hsum]
    _ ≤ s * 10 ^ p.toNat := Nat.mul_le_mul_right _ hdigits

/-- A decimal is out of range exactly from the bound on. -/
theorem ofDecimal_eq_none_iff (negative : Bool) (significand : Nat) (exponent : Int) :
    ofDecimal negative significand exponent = none ↔
      overflowBound * 10 ^ (-exponent).toNat ≤ significand * 10 ^ exponent.toNat := by
  have htens : ∀ n, 0 < 10 ^ n := fun n => Nat.pow_pos (by decide)
  simp only [ofDecimal, Nat.pow_eq]
  by_cases hs : significand = 0
  · have hbound := Nat.mul_pos overflowBound_pos (htens (-exponent).toNat)
    rw [if_pos (.inl hs), hs, Nat.zero_mul]
    simp only [reduceCtorEq, false_iff, Nat.not_le]
    exact hbound
  split
  · next h =>
    have hin := lt_of_small hs (h.resolve_left hs)
    simp only [reduceCtorEq, false_iff, Nat.not_le]
    exact hin
  split
  · next h =>
    have hout := le_of_great hs h
    simp only [true_iff]
    exact hout
  split
  · next h =>
    rw [ofRatio_eq_none_iff Nat.one_pos, show (-exponent).toNat = 0 by omega, Nat.pow_zero]
  · next h =>
    rw [ofRatio_eq_none_iff (htens _), show exponent.toNat = 0 by omega, Nat.pow_zero, Nat.mul_one]

end FileRoutes.Binary64
