import MetricBoard.Proofs.Json.Numbers
import MetricBoard.Proofs.Number.Digits
import MetricBoard.Proofs.Number.Rounding

/-!
# Finite numbers are read in range

Reading rounds the first digits that fit 64 bits, rounds the power of ten and rounds their product,
so what is read back need not be what was written, and might be infinite where that was finite. It
never is (`exists_toBinary64?_ofBinary64`). Up to the halfway point below the greatest double the
product stays finite for the greatest significand that each power of ten allows, and rounding is
monotone; the two greatest doubles are read on their own.
-/

namespace MetricBoard

namespace Numeral

open Binary64 Decimal

/-! ## Digits that fit 64 bits -/

section

variable {ds : List Char} {s : Nat}

/-- Digits that fit are all read. -/
theorem readDigits_eq (h : Nat.ofDigitChars 10 ds s ≤ maxSignificand) :
    readDigits s ds = (Nat.ofDigitChars 10 ds s, ds.length) := by
  induction ds generalizing s with
  | nil => rfl
  | cons d ds ih =>
    rw [Nat.ofDigitChars_cons] at h ⊢
    have hnext : 10 * s + (d.toNat - '0'.toNat) ≤ maxSignificand := by
      refine le_trans ?_ ((mul_tenTo_le_ofDigitChars ds _).trans h)
      exact Nat.le_mul_of_pos_right _ (Nat.pow_pos (by decide))
    simp only [readDigits, hnext, if_true, ih h, List.length_cons]

/-- What is read are the first of the digits, and its value does not exceed that of them all. -/
theorem readDigits_le (h : s ≤ maxSignificand) :
    (readDigits s ds).1 ≤ maxSignificand ∧ (readDigits s ds).2 ≤ ds.length ∧
      (readDigits s ds).1 * 10 ^ (ds.length - (readDigits s ds).2) ≤ Nat.ofDigitChars 10 ds s := by
  induction ds generalizing s with
  | nil => simpa [readDigits] using h
  | cons d ds ih =>
    rw [Nat.ofDigitChars_cons, readDigits]
    dsimp only
    split
    case isTrue hnext =>
      obtain ⟨hmax, hlength, hvalue⟩ := ih hnext
      refine ⟨hmax, by simpa using hlength, ?_⟩
      simpa using hvalue
    case isFalse hnext =>
      refine ⟨h, Nat.zero_le _, ?_⟩
      rw [← Nat.ofDigitChars_cons]
      exact mul_tenTo_le_ofDigitChars _ _

end

/-! ## Scaling -/

/-- A number above the halfway point between the two greatest finite doubles, below the greatest. -/
def limit : Nat := 2 ^ 1024 - 2 ^ 971 - 2 ^ 970 + 1

/-- The greatest significand that a number below the limit can be read with. -/
def maxBelow (exponent : Nat) : Nat := min (limit / tenTo exponent) maxSignificand

/-- The limit among the powers of ten and the greatest doubles, and the products below it that come
closest to what is not finite. -/
theorem limit_bounds : maxSignificand * tenTo 288 ≤ limit ∧ limit < 10 ^ 309 ∧
    roundedMagnitude 52 (limit * twoTo 1074) 1 + 1 = infinityMagnitude ∧
    (ofMagnitude false (infinityMagnitude - 2)).scaled ≤ limit * twoTo 1074 ∧
    ∀ k < 21, ((Binary64.ofNat (maxBelow (288 + k))).mul (power (288 + k))).isFinite = true := by
  simp only [power, Decimal.toBinary64, Binary64.mul, Binary64.ofNat, Binary64.round,
    roundedMagnitude, log2_eq_quickLog]
  decide +kernel

theorem maxBelow_of_le {e : Nat} (h : e ≤ 288) : maxBelow e = maxSignificand := by
  refine min_eq_right ((Nat.le_div_iff_mul_le (tenTo_pos _)).2 ?_)
  exact (Nat.mul_le_mul_left _ (tenTo_le_tenTo h)).trans limit_bounds.1

theorem power_eq {e : Nat} (h : e ≤ 308) : power e = .round false (1 * tenTo e * twoTo 1074) 1 := by
  have hcount : Decimal.digitCount 1 = 1 := by decide
  simp only [power, Decimal.toBinary64, hcount]
  rw [if_neg (by omega), if_neg (by omega)]

theorem scaled_power_le {e e' : Nat} (h : e ≤ e') (h' : e' ≤ 308) :
    (power e).scaled ≤ (power e').scaled := by
  rw [power_eq (h.trans h'), power_eq h']
  refine scaled_round_le one_pos one_pos ?_
  simp only [one_mul, mul_one]
  exact Nat.mul_le_mul_right _ (tenTo_le_tenTo h)

theorem isFinite_mul_power {s e : Nat} (hs : s ≤ maxBelow e) (he : e ≤ 308) :
    ((Binary64.ofNat s).mul (power e)).isFinite = true := by
  have hbelow : s ≤ maxBelow (288 + (e - 288)) := by
    obtain hle | hlt := Nat.le_total e 288
    · rw [Nat.sub_eq_zero_of_le hle, maxBelow_of_le le_rfl]
      exact hs.trans (Nat.min_le_right _ _)
    · rwa [Nat.add_sub_cancel' hlt]
  exact isFinite_mul_of_le (scaled_ofNat_le hbelow) (scaled_power_le (by omega) (by omega))
    (limit_bounds.2.2.2.2 _ (by omega))

theorem scaled_ofNat_zero : (Binary64.ofNat 0).scaled = 0 := by
  rw [Binary64.ofNat, Nat.zero_mul]
  decide

theorem exists_scaleByPower?_of_isFinite {x : Binary64} {e : Nat} (he : e ≤ 308)
    (h : (x.mul (power e)).isFinite = true) : ∃ y, scaleByPower? x e = some y := by
  rw [scaleByPower?]
  split
  case isTrue => exact ⟨_, rfl⟩
  case isFalse =>
    rw [if_neg (by omega), if_pos (by omega)]
    exact ⟨_, if_pos h⟩

theorem exists_scaleByPower? {s : Nat} {e : Int} (hs : s ≤ maxSignificand)
    (h : s = 0 ∨ e ≤ 308 ∧ (0 ≤ e → s * 10 ^ e.toNat ≤ limit)) :
    ∃ y, scaleByPower? (.ofNat s) e = some y := by
  rw [scaleByPower?]
  split
  case isTrue => exact ⟨_, rfl⟩
  case isFalse hne =>
    obtain rfl | ⟨hle, hlimit⟩ := h
    · exact absurd scaled_ofNat_zero hne
    · rw [if_neg (by omega)]
      split
      case isTrue hpos =>
        have hbelow : s ≤ maxBelow e.toNat :=
          le_min ((Nat.le_div_iff_mul_le (tenTo_pos _)).2 (hlimit hpos)) hs
        have hfinite : ((Binary64.ofNat s).mul (power e.toNat)).isFinite = true :=
          isFinite_mul_power hbelow (by omega)
        exact ⟨_, if_pos hfinite⟩
      case isFalse =>
        split
        · exact ⟨_, rfl⟩
        · split
          · exact ⟨_, rfl⟩
          · exact ⟨_, rfl⟩

/-! ## Reading -/

/-- The significand that a numeral is read with. -/
def significand (n : Numeral) : Nat := (readDigits (readDigits 0 n.whole).1 n.fraction).1

/-- The exponent that the digits of a numeral alone give its significand. -/
def start (n : Numeral) : Int :=
  (n.whole.length - (readDigits 0 n.whole).2 : Nat) -
    ((readDigits (readDigits 0 n.whole).1 n.fraction).2 : Int)

theorem significand_le (n : Numeral) : n.significand ≤ maxSignificand :=
  (readDigits_le (readDigits_le (Nat.zero_le _)).1).1

variable {n : Numeral}

theorem exists_toBinary64?_of_exponent_eq_none (hexponent : n.exponent = none) {y : Binary64}
    (h : scaleByPower? (.ofNat n.significand) n.start = some y) :
    ∃ z, n.toBinary64? = some z := by
  simp only [toBinary64?, hexponent]
  change ∃ z, Option.map _ (scaleByPower? (.ofNat n.significand) n.start) = some z
  rw [h]
  exact ⟨_, rfl⟩

theorem exists_toBinary64?_of_exponent {down : Bool} {ds : List Char}
    (hexponent : n.exponent = some (down, ds)) {y : Binary64}
    (hmax : maxExponent < Decimal.digitsValue ds → n.significand = 0 ∨ down = true)
    (h : scaleByPower? (.ofNat n.significand)
      (n.start + if down then -(Decimal.digitsValue ds : Int) else Decimal.digitsValue ds) =
        some y) :
    ∃ z, n.toBinary64? = some z := by
  obtain ⟨z, hz⟩ : ∃ z, (if maxExponent < Decimal.digitsValue ds then
      if n.significand = 0 ∨ down then some Binary64.zero else none
    else scaleByPower? (.ofNat n.significand)
      (n.start + if down then -(Decimal.digitsValue ds : Int) else Decimal.digitsValue ds)) =
        some z := by
    split
    case isTrue hlarge => exact ⟨_, if_pos (hmax hlarge)⟩
    case isFalse => exact ⟨y, h⟩
  simp only [toBinary64?, hexponent]
  exact ⟨_, congrArg _ hz⟩

/-- The whole part of a positional numeral of few digits is read to its end. -/
theorem readDigits_whole (h : IsDigits n.whole) (hlength : n.whole.length ≤ 16) :
    readDigits 0 n.whole = (Nat.ofDigitChars 10 n.whole 0, n.whole.length) := by
  refine readDigits_eq ((ofDigitChars_lt h 0).le.trans ?_)
  rw [Nat.zero_add, one_mul]
  exact (Nat.pow_le_pow_right (by decide) hlength).trans (by decide)

theorem start_of_short (h : IsDigits n.whole) (hlength : n.whole.length ≤ 16) :
    n.start = -((readDigits (readDigits 0 n.whole).1 n.fraction).2 : Int) := by
  rw [start, readDigits_whole h hlength]
  simp

theorem exists_toBinary64?_of_short (hproper : n.IsProper) (hexponent : n.exponent = none)
    (hlength : n.whole.length ≤ 16) : ∃ z, n.toBinary64? = some z := by
  have hdigits : IsDigits n.whole := by
    obtain hzero | ⟨-, hdigits⟩ := hproper.whole
    · rw [hzero]
      simp [IsDigits]
    · exact hdigits
  obtain ⟨y, hy⟩ := exists_scaleByPower? n.significand_le (e := n.start) (.inr (by
    rw [start_of_short hdigits hlength]
    refine ⟨by omega, fun hpos => ?_⟩
    have hzero : (readDigits (readDigits 0 n.whole).1 n.fraction).2 = 0 := by omega
    have hmax : maxSignificand ≤ limit :=
      (Nat.le_mul_of_pos_right _ (tenTo_pos 288)).trans limit_bounds.1
    simpa [hzero] using n.significand_le.trans hmax))
  exact exists_toBinary64?_of_exponent_eq_none hexponent hy

/-- A numeral with an exponent is read as no more than it writes. -/
theorem exists_significand_scientific {d : Decimal} (h : d.digits ≠ 0) :
    ∃ k : Nat, (scientific d).start + ((Nat.toDigits 10 d.digits).length + d.exponent - 1) =
      d.exponent + k ∧ (scientific d).significand * 10 ^ k ≤ d.digits := by
  have hproper := isProper_scientific h
  obtain ⟨c, cs, hcs, -⟩ := exists_toDigits h
  have hdigits := isDigits_toDigits d.digits
  rw [hcs] at hdigits
  have hwhole : (scientific d).whole = [c] := by simp [scientific, hcs]
  have hfraction : (scientific d).fraction = cs := by simp [scientific, hcs]
  have hshort : (scientific d).whole.length ≤ 16 := by simp [hwhole]
  have hone : IsDigits (scientific d).whole := by
    rw [hwhole]
    exact fun x hx => hdigits x (List.mem_of_mem_take (i := 1) hx)
  have hread := readDigits_whole hone hshort
  have hmax : (readDigits 0 (scientific d).whole).1 ≤ maxSignificand :=
    (readDigits_le (Nat.zero_le _)).1
  obtain ⟨-, hlength, hvalue⟩ := @readDigits_le cs _ hmax
  refine ⟨cs.length - (readDigits (readDigits 0 (scientific d).whole).1 cs).2, ?_, ?_⟩
  · rw [start_of_short hone hshort, hfraction, hcs, List.length_cons]
    omega
  · rw [significand, hfraction]
    refine hvalue.trans_eq ?_
    rw [hread, hwhole, ← Nat.ofDigitChars_append, List.singleton_append, ← hcs,
      Nat.ofDigitChars_ten_toDigits]

theorem tenTo_le_of_ne_zero {m : Nat} (h : m ≠ 0) :
    10 ^ ((Nat.toDigits 10 m).length - 1) ≤ m := by
  obtain hone | hmore := Nat.lt_or_ge 1 (Nat.toDigits 10 m).length
  · by_contra hlt
    have := (Nat.length_toDigits_le_iff (n := m) (by decide)
      (Nat.sub_pos_of_lt hone)).2 (Nat.lt_of_not_le hlt)
    omega
  · rw [Nat.sub_eq_zero_of_le hmore]
    exact Nat.one_le_iff_ne_zero.2 h

/-- A power of ten that does not exceed the limit. -/
theorem le_of_zpow_le_limit {e : Int} (h : (10 : ℚ) ^ e ≤ limit) : e ≤ 308 := by
  have hlt : (10 : ℚ) ^ e < 10 ^ (309 : Int) :=
    h.trans_lt (by exact_mod_cast limit_bounds.2.1)
  have := (zpow_lt_zpow_iff_right₀ (by norm_num)).1 hlt
  omega

theorem exists_toBinary64?_scientific {d : Decimal} (h : d.digits ≠ 0) (hle : d.value ≤ limit) :
    ∃ z, (scientific d).toBinary64? = some z := by
  obtain ⟨k, hk, hvalue⟩ := exists_significand_scientific h
  set point : Int := (Nat.toDigits 10 d.digits).length + d.exponent - 1 with hpoint
  have hpow : (0 : ℚ) < 10 ^ d.exponent := zpow_pos (by norm_num) _
  have hpointLe : point ≤ 308 := by
    refine le_of_zpow_le_limit (le_trans ?_ hle)
    have hlength := Nat.length_toDigits_pos (b := 10) (n := d.digits)
    have hdigits : ((10 ^ ((Nat.toDigits 10 d.digits).length - 1) : Nat) : ℚ) ≤ d.digits :=
      Nat.cast_le.2 (tenTo_le_of_ne_zero h)
    rw [show point = ((Nat.toDigits 10 d.digits).length - 1 : Nat) + d.exponent by omega,
      zpow_add₀ (by norm_num), zpow_natCast, Decimal.value]
    rw [Nat.cast_pow, Nat.cast_ofNat] at hdigits
    exact mul_le_mul_of_nonneg_right hdigits hpow.le
  have hread : ((scientific d).significand : ℚ) * 10 ^ (d.exponent + k) ≤ limit := by
    refine le_trans ?_ hle
    have hdigits : (((scientific d).significand * 10 ^ k : Nat) : ℚ) ≤ d.digits :=
      Nat.cast_le.2 hvalue
    rw [Nat.cast_mul, Nat.cast_pow, Nat.cast_ofNat] at hdigits
    rw [add_comm, zpow_add₀ (by norm_num), zpow_natCast, Decimal.value, ← mul_assoc]
    exact mul_le_mul_of_nonneg_right hdigits hpow.le
  have hstart : (scientific d).start + (if decide (point < 0) then
      -(Decimal.digitsValue (Nat.toDigits 10 point.natAbs) : Int)
      else Decimal.digitsValue (Nat.toDigits 10 point.natAbs)) = d.exponent + k := by
    rw [digitsValue_toDigits, ← hk]
    simp only [decide_eq_true_eq]
    split <;> omega
  obtain ⟨y, hy⟩ := exists_scaleByPower? (significand_le (scientific d)) (e := d.exponent + k) (by
    by_cases hzero : (scientific d).significand = 0
    · exact .inl hzero
    · have hone : (1 : ℚ) ≤ (scientific d).significand :=
        Nat.one_le_cast.2 (Nat.one_le_iff_ne_zero.2 hzero)
      refine .inr ⟨le_of_zpow_le_limit (le_trans ?_ hread), fun hpos => ?_⟩
      · exact le_mul_of_one_le_left (zpow_pos (by norm_num) _).le hone
      · rw [← Int.toNat_of_nonneg hpos, zpow_natCast] at hread
        exact_mod_cast hread)
  rw [← hstart] at hy
  refine exists_toBinary64?_of_exponent rfl (fun hmax => .inr ?_) hy
  rw [digitsValue_toDigits, maxExponent] at hmax
  have htwo : twoTo 31 = 2 ^ 31 := rfl
  simp only [decide_eq_true_eq]
  omega

theorem mul_zpow_negSucc_le {a b e : Nat} (h : a ≤ b * tenTo (e + 1)) :
    (a : ℚ) * 10 ^ Int.negSucc e ≤ b := by
  rw [zpow_negSucc, ← div_eq_mul_inv, div_le_iff₀ (by positivity)]
  exact_mod_cast h

/-- A decimal that rounds to less than a natural number does is at most that number. -/
theorem value_le_of_toBinary64 {d : Decimal} {x : Binary64} {b : Nat} (h : d.toBinary64 = x)
    (hx : x.scaled ≠ 0) (hb : x.magnitude < roundedMagnitude 52 (b * twoTo 1074) 1)
    (hfinite : x.magnitude < infinityMagnitude) : d.value ≤ b := by
  have hround : ∀ negative num den, 0 < den → .round negative num den = x →
      num ≤ b * twoTo 1074 * den := by
    intro negative num den hden heq
    by_contra hlt
    have hle : roundedMagnitude 52 (b * twoTo 1074) 1 ≤ roundedMagnitude 52 num den :=
      roundedMagnitude_le_roundedMagnitude one_pos hden (by omega)
    have hmag := magnitude_round negative num den
    rw [heq] at hmag
    omega
  rw [Decimal.toBinary64] at h
  split at h
  case isTrue => exact absurd (h ▸ scaled_ofMagnitude_zero _) hx
  split at h
  case isTrue =>
    rw [← h, infinity, magnitude_ofMagnitude _ (by decide)] at hfinite
    omega
  split at h
  case h_1 e he =>
    have hle := (hround _ _ _ one_pos h).trans_eq (Nat.mul_one _)
    have hdigits : ((d.digits * tenTo e : Nat) : ℚ) ≤ b :=
      Nat.cast_le.2 (Nat.le_of_mul_le_mul_right hle (twoTo_pos 1074))
    rw [Decimal.value, he]
    simpa using hdigits
  case h_2 e he =>
    have hle := hround _ _ _ (tenTo_pos _) h
    rw [Nat.mul_right_comm] at hle
    rw [Decimal.value, he]
    exact mul_zpow_negSucc_le (Nat.le_of_mul_le_mul_right hle (twoTo_pos 1074))

theorem mul_zpow_neg_le {a b n : Nat} (h : a ≤ b * twoTo n) :
    ((a * Nat.pow 5 n : Nat) : ℚ) * 10 ^ (-(n : Int)) ≤ b := by
  rw [zpow_neg, zpow_natCast, ← div_eq_mul_inv, div_le_iff₀ (by positivity)]
  have hle : a * Nat.pow 5 n ≤ b * 10 ^ n := by
    rw [show 10 = 2 * 5 from rfl, Nat.mul_pow, ← Nat.mul_assoc]
    exact Nat.mul_le_mul_right _ h
  exact_mod_cast hle

theorem value_exactDecimal_le {x : Binary64} {b : Nat} (h : x.scaled ≤ b * twoTo 1074) :
    x.exactDecimal.value ≤ b := by
  have hexponent : (-1074 : Int) = -((1074 : Nat) : Int) := rfl
  simp only [Decimal.value, exactDecimal, hexponent]
  generalize 1074 = n at h ⊢
  exact mul_zpow_neg_le h

/-- What a finite number other than the two greatest is written as does not exceed the limit. -/
theorem value_shortest_le_limit {x : Binary64} (hx : x.scaled ≠ 0)
    (hmag : x.magnitude + 1 < infinityMagnitude) : x.shortest.value ≤ limit := by
  obtain ⟨d, hd, -, hvalue⟩ := exists_shortest hx
  rw [hvalue]
  obtain hd | rfl := hd
  · have htop := limit_bounds.2.2.1
    exact value_le_of_toBinary64 hd hx (by omega) (by omega)
  · refine value_exactDecimal_le ((scaled_le_scaled ?_).trans limit_bounds.2.2.2.1)
    rw [magnitude_ofMagnitude _ (by decide)]
    omega

/-! ## The greatest numbers -/

theorem ofMagnitude_magnitude (x : Binary64) : ofMagnitude x.isNegative x.magnitude = x := by
  obtain ⟨bits⟩ := x
  have hlt := bits.toNat_lt
  have htwo : twoTo 63 = 2 ^ 63 := rfl
  have hbits : bits.toNat % twoTo 63 + (if twoTo 63 ≤ bits.toNat then twoTo 63 else 0) =
      bits.toNat := by
    split
    · rw [Nat.mod_eq_sub_mod ‹_›, Nat.mod_eq_of_lt (by omega)]
      omega
    · rw [Nat.mod_eq_of_lt (by omega), Nat.add_zero]
  simp only [ofMagnitude, isNegative, magnitude, decide_eq_true_eq, hbits, UInt64.ofNat_toNat]

/-- What is computed of the greatest number: its shortest digits, and the product of reading. -/
theorem onGrid?_greatest (negative : Bool) :
    ((List.range 17).findSome? fun k =>
      (ofMagnitude negative (infinityMagnitude - 1)).onGrid? (k + 1)) =
        some ⟨negative, 17976931348623157, 292⟩ ∧
    ((Binary64.ofNat 17976931348623157).mul (power 292)).isFinite = true := by
  simp only [onGrid?, power, Decimal.toBinary64, Binary64.mul, Binary64.ofNat, Binary64.round,
    roundedMagnitude, log2_eq_quickLog]
  cases negative <;> decide +kernel

theorem shortest_greatest (negative : Bool) :
    (ofMagnitude negative (infinityMagnitude - 1)).shortest =
      ⟨negative, 17976931348623157, 292⟩ := by
  have hne : (ofMagnitude negative (infinityMagnitude - 1)).scaled ≠ 0 := by
    have hone : (ofMagnitude false 1).scaled = 1 := by decide
    have hle : (ofMagnitude false 1).scaled ≤
        (ofMagnitude negative (infinityMagnitude - 1)).scaled := by
      refine scaled_le_scaled ?_
      rw [magnitude_ofMagnitude _ (by decide), magnitude_ofMagnitude _ (by decide)]
      decide
    omega
  rw [shortest, if_neg hne, (onGrid?_greatest negative).1]
  simp [withoutZeros]

/-- How the greatest number is written, and its opposite. -/
def greatest (negative : Bool) : Numeral :=
  ⟨negative, ['1'], Nat.toDigits 10 7976931348623157, some (false, ['3', '0', '8'])⟩

theorem exists_toBinary64?_greatest (negative : Bool) :
    ∃ z, (ofBinary64 (ofMagnitude negative (infinityMagnitude - 1))).toBinary64? = some z := by
  have hnumeral : ofBinary64 (ofMagnitude negative (infinityMagnitude - 1)) =
      greatest negative := by
    rw [ofBinary64, shortest_greatest]
    cases negative <;> rfl
  have hread : (greatest negative).significand = 17976931348623157 ∧
      (greatest negative).start + 308 = 292 := by
    cases negative <;> exact ⟨rfl, rfl⟩
  obtain ⟨y, hy⟩ := exists_scaleByPower?_of_isFinite (by decide) (onGrid?_greatest negative).2
  rw [hnumeral]
  refine exists_toBinary64?_of_exponent rfl (fun hmax => absurd hmax (by decide)) (y := y) ?_
  rw [hread.1, ← hy, Nat.cast_ofNat, ← hread.2]
  rfl

/-! ## Every number -/

/-- **Totality.** The numeral of a finite double is read as some double: no rounding on the way
takes it out of range. -/
theorem exists_toBinary64?_ofBinary64 {x : Binary64} (h : x.isFinite = true) :
    ∃ y, (ofBinary64 x).toBinary64? = some y := by
  rw [isFinite, decide_eq_true_iff] at h
  by_cases hx : x.scaled = 0
  · rw [ofBinary64_of_scaled_eq_zero hx]
    exact exists_toBinary64?_of_short ⟨.inl rfl, by simp [IsDigits], by simp⟩ rfl (by simp)
  by_cases hmag : x.magnitude + 1 < infinityMagnitude
  · obtain ⟨hproper, hexponent, hlength⟩ | heq := positional_or_scientific hx
    · exact exists_toBinary64?_of_short hproper hexponent hlength
    · obtain ⟨-, -, hne, -⟩ := exists_shortest hx
      rw [heq]
      exact exists_toBinary64?_scientific hne (value_shortest_le_limit hx hmag)
  · rw [← ofMagnitude_magnitude x, show x.magnitude = infinityMagnitude - 1 by omega]
    exact exists_toBinary64?_greatest _

end Numeral

end MetricBoard
