import Mathlib.Data.Nat.Log
import Mathlib.Tactic.IntervalCases
import Mathlib.Tactic.Linarith
import Mathlib.Tactic.Ring
import MetricBoard.Number.Binary64

/-!
# Rounding keeps the order

Rounding to the nearest magnitude is monotone in the ratio that is rounded
(`roundedMagnitude_le_roundedMagnitude`), and the number that a magnitude stands for is monotone in
the magnitude (`scaled_le_scaled`). So a product is finite where a greater one is. For the few
products that are computed, the binary logarithm is found in a dozen steps (`log2_eq_quickLog`).
-/

namespace MetricBoard

theorem twoTo_pos (n : Nat) : 0 < twoTo n := Nat.two_pow_pos n

theorem tenTo_pos (n : Nat) : 0 < tenTo n := Nat.pow_pos (by decide)

theorem tenTo_le_tenTo {m n : Nat} (h : m ≤ n) : tenTo m ≤ tenTo n :=
  Nat.pow_le_pow_right (by decide) h

namespace Binary64

/-! ## The nearest natural number -/

section

variable {a b c d : Nat}

theorem div_le_nearest (a b : Nat) : a / b ≤ nearest a b := by
  unfold nearest
  dsimp only
  split <;> omega

theorem nearest_le_succ (a b : Nat) : nearest a b ≤ a / b + 1 := by
  unfold nearest
  dsimp only
  split <;> omega

theorem div_le_div_of_mul_le (hb : 0 < b) (hd : 0 < d) (h : a * d ≤ c * b) : a / b ≤ c / d := by
  rw [Nat.le_div_iff_mul_le hd]
  refine Nat.le_of_mul_le_mul_right ?_ hb
  calc a / b * d * b = a / b * b * d := Nat.mul_right_comm ..
    _ ≤ a * d := Nat.mul_le_mul_right _ (Nat.div_mul_le_self a b)
    _ ≤ c * b := h

theorem nearest_le_nearest (hb : 0 < b) (hd : 0 < d) (h : a * d ≤ c * b) :
    nearest a b ≤ nearest c d := by
  obtain hlt | heq := (div_le_div_of_mul_le hb hd h).lt_or_eq
  · have := nearest_le_succ a b
    have := div_le_nearest c d
    omega
  · -- With equal quotients the remainders are in the order of the ratios.
    have hrest : a % b * d ≤ c % d * b := by
      have ha := Nat.div_add_mod a b
      have hc := Nat.div_add_mod c d
      rw [← ha, ← hc, heq] at h
      have : b * (c / d) * d = d * (c / d) * b := by ring
      rw [Nat.add_mul, Nat.add_mul] at h
      omega
    have hover : b < 2 * (a % b) → d < 2 * (c % d) := by
      intro hr
      refine Nat.lt_of_mul_lt_mul_right (a := b) ?_
      nlinarith
    have htie : b ≤ 2 * (a % b) → d ≤ 2 * (c % d) := by
      intro hr
      refine Nat.le_of_mul_le_mul_right ?_ hb
      nlinarith
    unfold nearest
    dsimp only
    rw [← heq]
    split <;> split <;> omega

theorem nearest_mul_self (a : Nat) (hb : 0 < b) : nearest (a * b) b = a := by
  rw [nearest, Nat.mul_div_cancel _ hb, Nat.mul_mod_left, if_pos (.inl (by omega))]

end

/-! ## Magnitudes -/

section

variable {f num den num' den' : Nat}

theorem pos_mul_twoTo (h : 0 < den) (n : Nat) : 0 < den * twoTo n :=
  Nat.mul_pos h (twoTo_pos n)

theorem nearest_le_of_le_mul {a b c : Nat} (hb : 0 < b) (h : a ≤ c * b) : nearest a b ≤ c := by
  rw [← nearest_mul_self c hb]
  exact nearest_le_nearest hb hb (Nat.mul_le_mul_right b h)

theorem le_nearest_of_mul_le {a b c : Nat} (hb : 0 < b) (h : c * b ≤ a) : c ≤ nearest a b := by
  rw [← nearest_mul_self c hb]
  exact nearest_le_nearest hb hb (Nat.mul_le_mul_right b h)

/-- A shifted ratio has no more bits than a significand, its first bit included. -/
theorem nearest_le_twoTo (hden : 0 < den) :
    nearest num (den * twoTo (Nat.log2 (num / den) - f)) ≤ 2 * twoTo f := by
  have hlog : num < 2 ^ (Nat.log2 (num / den) + 1) * den :=
    (Nat.div_lt_iff_lt_mul hden).1 Nat.lt_log2_self
  refine nearest_le_of_le_mul (pos_mul_twoTo hden _) (hlog.le.trans ?_)
  calc 2 ^ (Nat.log2 (num / den) + 1) * den
      ≤ 2 ^ (1 + f + (Nat.log2 (num / den) - f)) * den :=
        Nat.mul_le_mul_right _ (Nat.pow_le_pow_right (by decide) (by omega))
    _ = 2 * twoTo f * (den * twoTo (Nat.log2 (num / den) - f)) := by
        rw [pow_add, pow_add, pow_one]
        change 2 * twoTo f * twoTo _ * den = _
        ring

/-- A ratio that is shifted keeps its first bit. -/
theorem twoTo_le_nearest (hden : 0 < den) (h : f < Nat.log2 (num / den)) :
    twoTo f ≤ nearest num (den * twoTo (Nat.log2 (num / den) - f)) := by
  have hne : num / den ≠ 0 := fun hzero => by simp [hzero] at h
  refine le_nearest_of_mul_le (pos_mul_twoTo hden _) ?_
  calc twoTo f * (den * twoTo (Nat.log2 (num / den) - f))
      = 2 ^ (f + (Nat.log2 (num / den) - f)) * den := by
        rw [pow_add]
        change _ = twoTo f * twoTo _ * den
        ring
    _ = 2 ^ Nat.log2 (num / den) * den := by rw [Nat.add_sub_cancel' h.le]
    _ ≤ num / den * den := Nat.mul_le_mul_right _ (Nat.log2_self_le hne)
    _ ≤ num := Nat.div_mul_le_self num den

theorem log2_le_log2 {m n : Nat} (h : m ≤ n) : Nat.log2 m ≤ Nat.log2 n := by
  by_cases hm : m = 0
  · simp [hm]
  · exact (Nat.le_log2 (by omega)).2 ((Nat.log2_self_le hm).trans h)

/-- **Rounding is monotone.** -/
theorem roundedMagnitude_le_roundedMagnitude (hden : 0 < den) (hden' : 0 < den')
    (h : num * den' ≤ num' * den) :
    roundedMagnitude f num den ≤ roundedMagnitude f num' den' := by
  have hpower : Nat.log2 (num / den) - f ≤ Nat.log2 (num' / den') - f :=
    Nat.sub_le_sub_right (log2_le_log2 (div_le_div_of_mul_le hden hden' h)) f
  simp only [roundedMagnitude]
  obtain hlt | heq := hpower.lt_or_eq
  · have hupper : nearest num (den * twoTo (Nat.log2 (num / den) - f)) ≤ 2 * twoTo f :=
      nearest_le_twoTo hden
    have hlower : twoTo f ≤ nearest num' (den' * twoTo (Nat.log2 (num' / den') - f)) :=
      twoTo_le_nearest hden' (by omega)
    have hstep := Nat.mul_le_mul_right (twoTo f) (Nat.succ_le_of_lt hlt)
    rw [Nat.succ_mul] at hstep
    omega
  · rw [heq]
    refine Nat.add_le_add_left (nearest_le_nearest (pos_mul_twoTo hden _)
      (pos_mul_twoTo hden' _) ?_) _
    rw [← mul_assoc, ← mul_assoc]
    exact Nat.mul_le_mul_right _ h

end

/-! ## The binary logarithm -/

section

variable {k n : Nat}

/-- The binary logarithm of a number below `2 ^ 2 ^ k`, by halving the range of its bits. -/
def logBelow : Nat → Nat → Nat
  | 0, _ => 0
  | k + 1, n =>
    if n < twoTo (twoTo k) then logBelow k n else twoTo k + logBelow k (n / twoTo (twoTo k))

theorem log2_eq_logBelow (h : n < twoTo (twoTo k)) : Nat.log2 n = logBelow k n := by
  induction k generalizing n with
  | zero =>
    have hlt : n < 2 := h
    interval_cases n <;> rfl
  | succ k ih =>
    rw [logBelow]
    split
    case isTrue hlt => exact ih hlt
    case isFalse hge =>
      have hsquare : twoTo (twoTo (k + 1)) = twoTo (twoTo k) * twoTo (twoTo k) := by
        change 2 ^ 2 ^ (k + 1) = 2 ^ 2 ^ k * 2 ^ 2 ^ k
        rw [← pow_add, pow_succ, mul_two]
      have hrest : n / twoTo (twoTo k) < twoTo (twoTo k) :=
        Nat.div_lt_of_lt_mul (h.trans_eq hsquare)
      have hle : twoTo k ≤ Nat.log 2 n :=
        Nat.le_log_of_pow_le (by decide) (Nat.le_of_not_lt hge)
      have hlog : Nat.log 2 (n / twoTo (twoTo k)) = Nat.log 2 n - twoTo k :=
        Nat.log_div_base_pow 2 n (twoTo k)
      rw [← ih hrest, Nat.log2_eq_log_two, Nat.log2_eq_log_two, hlog, Nat.add_sub_cancel' hle]

/-- The binary logarithm, in a dozen steps for the numbers that rounding a double meets; halving
takes as many steps as a number has bits. -/
def quickLog (n : Nat) : Nat := if n < twoTo (twoTo 12) then logBelow 12 n else Nat.log2 n

theorem log2_eq_quickLog (n : Nat) : Nat.log2 n = quickLog n := by
  rw [quickLog]
  split
  case isTrue h => exact log2_eq_logBelow h
  case isFalse => rfl

end

/-! ## Doubles -/

theorem magnitude_ofMagnitude (negative : Bool) {m : Nat} (h : m < twoTo 63) :
    (ofMagnitude negative m).magnitude = m := by
  have htwo : twoTo 63 = 2 ^ 63 := rfl
  have hbound : m + (if negative then twoTo 63 else 0) < 2 ^ 64 := by
    split <;> omega
  rw [magnitude, ofMagnitude, UInt64.toNat_ofNat_of_lt' hbound]
  split
  · rw [Nat.add_mod_right, Nat.mod_eq_of_lt h]
  · rw [Nat.add_zero, Nat.mod_eq_of_lt h]

theorem magnitude_round (negative : Bool) (num den : Nat) :
    (round negative num den).magnitude = min (roundedMagnitude 52 num den) infinityMagnitude :=
  magnitude_ofMagnitude _ ((Nat.min_le_right _ _).trans_lt (by decide))

theorem isFinite_round (negative : Bool) (num den : Nat) :
    (round negative num den).isFinite = true ↔ roundedMagnitude 52 num den < infinityMagnitude := by
  rw [isFinite, magnitude_round, decide_eq_true_iff]
  omega

variable {x y x' y' : Binary64}

theorem scaled_le_scaled (h : x.magnitude ≤ y.magnitude) : x.scaled ≤ y.scaled := by
  have hpos : 0 < twoTo 52 := twoTo_pos 52
  have hx := Nat.div_add_mod x.magnitude (twoTo 52)
  have hy := Nat.div_add_mod y.magnitude (twoTo 52)
  have hxlt := Nat.mod_lt x.magnitude hpos
  have hexponent : x.magnitude / twoTo 52 ≤ y.magnitude / twoTo 52 := Nat.div_le_div_right h
  simp only [scaled]
  generalize x.magnitude / twoTo 52 = e at *
  generalize y.magnitude / twoTo 52 = e' at *
  generalize x.magnitude % twoTo 52 = f at *
  generalize y.magnitude % twoTo 52 = f' at *
  obtain rfl | hlt := hexponent.eq_or_lt
  · have hfraction : f ≤ f' := by omega
    split
    · exact hfraction
    · exact Nat.mul_le_mul_right _ (by omega)
  · rw [if_neg (show e' ≠ 0 by omega)]
    split
    · calc f ≤ (twoTo 52 + f') * 1 := by omega
        _ ≤ (twoTo 52 + f') * twoTo (e' - 1) := Nat.mul_le_mul_left _ (twoTo_pos _)
    · calc (twoTo 52 + f) * twoTo (e - 1)
          ≤ twoTo 52 * 2 * twoTo (e - 1) := Nat.mul_le_mul_right _ (by omega)
        _ = twoTo 52 * 2 ^ (e - 1 + 1) := by
            rw [pow_succ]
            change _ = twoTo 52 * (twoTo (e - 1) * 2)
            ring
        _ ≤ twoTo 52 * 2 ^ (e' - 1) :=
            Nat.mul_le_mul_left _ (Nat.pow_le_pow_right (by decide) (by omega))
        _ ≤ (twoTo 52 + f') * twoTo (e' - 1) := Nat.mul_le_mul_right _ (by omega)

theorem scaled_round_le {negative negative' : Bool} {num den num' den' : Nat} (hden : 0 < den)
    (hden' : 0 < den') (h : num * den' ≤ num' * den) :
    (round negative num den).scaled ≤ (round negative' num' den').scaled := by
  refine scaled_le_scaled ?_
  rw [magnitude_round, magnitude_round]
  exact min_le_min_right _ (roundedMagnitude_le_roundedMagnitude hden hden' h)

theorem scaled_ofNat_le {m n : Nat} (h : m ≤ n) : (ofNat m).scaled ≤ (ofNat n).scaled :=
  scaled_round_le one_pos one_pos (Nat.mul_le_mul_right _ (Nat.mul_le_mul_right _ h))

/-- A product is finite where a greater one is. -/
theorem isFinite_mul_of_le (hx : x.scaled ≤ x'.scaled) (hy : y.scaled ≤ y'.scaled)
    (h : (x'.mul y').isFinite = true) : (x.mul y).isFinite = true := by
  rw [mul, isFinite_round] at h ⊢
  refine lt_of_le_of_lt (roundedMagnitude_le_roundedMagnitude ?_ ?_ ?_) h
  · exact twoTo_pos 1074
  · exact twoTo_pos 1074
  · exact Nat.mul_le_mul_right _ (Nat.mul_le_mul hx hy)

end Binary64

end MetricBoard
