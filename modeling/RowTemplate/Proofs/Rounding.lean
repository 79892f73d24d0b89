import RowTemplate.Number.Reading

/-! The shortest decimal of a binary number stands for it. Next to a number of a format there are none
up to a gap above it and one below it, and what is within half of these gaps is rounded to it; the
decimals that are looked for are multiples of a power of ten within these bounds. -/

namespace RowTemplate.Number

variable {format : Format} {x y : Binary}

/-! ### Gaps -/

/-- How far it is from a number to the next one below. -/
def Format.gapBelow (format : Format) (x : Binary) : ℚ :=
  if x.significand = 2 ^ format.fractionBits ∧ format.leastExponent < x.exponent then
    2 ^ (x.exponent - 1)
  else 2 ^ x.exponent

theorem two_zpow_pos (e : ℤ) : (0 : ℚ) < 2 ^ e := zpow_pos (by norm_num) e

theorem two_zpow_eq (e : ℤ) : (2 : ℚ) ^ e = 2 * 2 ^ (e - 1) := by
  rw [mul_comm, ← zpow_add_one₀ (by norm_num), sub_add_cancel]

theorem gapBelow_le (format : Format) (x : Binary) : format.gapBelow x ≤ 2 ^ x.exponent := by
  have hpos := two_zpow_pos (x.exponent - 1)
  unfold Format.gapBelow
  split
  · rw [two_zpow_eq x.exponent]
    linarith
  · exact le_rfl

theorem gapBelow_pos (format : Format) (x : Binary) : 0 < format.gapBelow x := by
  unfold Format.gapBelow
  split <;> exact two_zpow_pos _

/-- A number with a greater exponent is a multiple of the last place. -/
theorem exists_absValue_eq {x y : Binary} (h : x.exponent ≤ y.exponent) :
    ∃ n : ℕ, y.absValue = n * 2 ^ x.exponent := by
  refine ⟨y.significand * 2 ^ (y.exponent - x.exponent).toNat, ?_⟩
  have hshift : ((y.exponent - x.exponent).toNat : ℤ) = y.exponent - x.exponent :=
    Int.toNat_of_nonneg (by omega)
  rw [Binary.absValue, Nat.cast_mul, Nat.cast_pow, Nat.cast_ofNat, mul_assoc, ← zpow_natCast,
    hshift, ← zpow_add₀ (by norm_num), sub_add_cancel]

/-- A number with a smaller exponent is below, by the gap at least. -/
theorem absValue_le_of_exponent_lt (hx : format.OnGrid x) (hy : format.OnGrid y)
    (h : y.exponent < x.exponent) : y.absValue ≤ x.absValue - format.gapBelow x := by
  have hleast : format.leastExponent < x.exponent := hy.leastExponent_le.trans_lt h
  have hlarge : 2 ^ format.fractionBits ≤ x.significand := by
    by_contra hsmall
    exact hleast.ne' (hx.exponent_eq (not_le.1 hsmall))
  have hpos := two_zpow_pos (x.exponent - 1)
  have hyx : (2 : ℚ) ^ y.exponent ≤ 2 ^ (x.exponent - 1) :=
    zpow_le_zpow_right₀ (by norm_num) (by omega)
  have hsignificand : (y.significand : ℚ) ≤ 2 * 2 ^ format.fractionBits - 1 := by
    have hlt := hy.significand_lt
    rw [Nat.pow_succ, Nat.lt_iff_add_one_le] at hlt
    have hcast : (y.significand : ℚ) + 1 ≤ 2 ^ format.fractionBits * 2 := by exact_mod_cast hlt
    linarith
  have hbound : y.absValue ≤ (2 * 2 ^ format.fractionBits - 1) * 2 ^ (x.exponent - 1) :=
    mul_le_mul hsignificand hyx (two_zpow_pos _).le ((Nat.cast_nonneg _).trans hsignificand)
  refine hbound.trans ?_
  rw [Binary.absValue, Format.gapBelow, two_zpow_eq x.exponent]
  split
  case isTrue hpower =>
    rw [hpower.1, Nat.cast_pow, Nat.cast_ofNat]
    linarith
  case isFalse hpower =>
    have hlt : 2 ^ format.fractionBits + 1 ≤ x.significand :=
      Nat.lt_of_le_of_ne hlarge fun heq => hpower ⟨heq.symm, hleast⟩
    have hcast : (2 : ℚ) ^ format.fractionBits + 1 ≤ x.significand := by exact_mod_cast hlt
    nlinarith

/-- Between a number and the gaps around it there is no other number. -/
theorem absValue_outside_gaps (hx : format.OnGrid x) (hy : format.OnGrid y)
    (hne : y.absValue ≠ x.absValue) :
    y.absValue ≤ x.absValue - format.gapBelow x ∨ x.absValue + 2 ^ x.exponent ≤ y.absValue := by
  rcases Int.lt_or_le y.exponent x.exponent with hlt | hle
  · exact Or.inl (absValue_le_of_exponent_lt hx hy hlt)
  · obtain ⟨n, hn⟩ := exists_absValue_eq hle
    have hpos := two_zpow_pos x.exponent
    have hgap := gapBelow_le format x
    rw [hn, Binary.absValue] at hne ⊢
    rcases Nat.lt_trichotomy n x.significand with hlt | heq | hgt
    · have hcast : (n : ℚ) + 1 ≤ x.significand := by exact_mod_cast hlt
      left
      nlinarith
    · exact absurd (by rw [heq]) hne
    · have hcast : (x.significand : ℚ) + 1 ≤ n := by exact_mod_cast hgt
      right
      nlinarith

/-! ### What is rounded to a number -/

/-- Up to half of the gaps around a number, with the ends only if the significand is even. -/
structure Format.Within (format : Format) (x : Binary) (value : ℚ) : Prop where
  lower : x.absValue - format.gapBelow x / 2 ≤ value
  upper : value ≤ x.absValue + 2 ^ x.exponent / 2
  even : value = x.absValue - format.gapBelow x / 2 ∨ value = x.absValue + 2 ^ x.exponent / 2 →
    x.significand % 2 = 0

theorem Format.Within.roundsTo {value : ℚ} (h : format.Within x value) (hx : format.Holds x) :
    format.RoundsTo value x := by
  have hgap := gapBelow_pos format x
  have hplace := two_zpow_pos x.exponent
  have hlower := h.lower
  have hupper := h.upper
  refine ⟨hx, fun y hy => ?_, fun y hy hne heq => h.even ?_⟩
  · by_cases hne : y.absValue = x.absValue
    · rw [hne]
    · rcases absValue_outside_gaps hx.onGrid hy hne with hbelow | habove
      · refine le_trans ?_ (le_abs_self _)
        exact abs_le.2 ⟨by linarith, by linarith⟩
      · rw [abs_sub_comm value y.absValue]
        refine le_trans ?_ (le_abs_self _)
        exact abs_le.2 ⟨by linarith, by linarith⟩
  · have hhalfway : 2 * value = x.absValue + y.absValue := by
      rcases abs_eq_abs.1 heq with hsame | hopposite
      · exact absurd (by linarith) hne
      · linarith
    rcases absValue_outside_gaps hx.onGrid hy hne with hbelow | habove
    · left
      linarith
    · right
      linarith

theorem within_absValue (format : Format) (x : Binary) : format.Within x x.absValue := by
  have hgap := gapBelow_pos format x
  have hplace := two_zpow_pos x.exponent
  refine ⟨by linarith, by linarith, ?_⟩
  rintro (hend | hend)
  · exact absurd hend (by linarith)
  · exact absurd hend (by linarith)

/-- What is rounded to a positive number is positive. -/
theorem Format.Within.pos {value : ℚ} (h : format.Within x value) (hpos : 0 < x.significand) :
    0 < value := by
  have hgap := gapBelow_le format x
  have hplace := two_zpow_pos x.exponent
  have hone : (1 : ℚ) ≤ x.significand := by exact_mod_cast hpos
  have habs : 2 ^ x.exponent ≤ x.absValue := le_mul_of_one_le_left hplace.le hone
  have hlower := h.lower
  linarith

/-! ### The search for a decimal -/

theorem pow_toNat_eq {b : ℚ} (hb : b ≠ 0) (e : ℤ) : b ^ e.toNat = b ^ e * b ^ (-e).toNat := by
  rw [← zpow_natCast, ← zpow_natCast, ← zpow_add₀ hb]
  congr 1
  omega

theorem value_toDecimal (x : Binary) : x.toDecimal.value = x.absValue := by
  have hten : (10 : ℚ) ^ x.exponent = 5 ^ x.exponent * 2 ^ x.exponent := by
    rw [← mul_zpow]
    norm_num
  have htwo := pow_toNat_eq (b := 2) (by norm_num) x.exponent
  have hfive := pow_toNat_eq (b := 5) (by norm_num) x.exponent
  rw [Binary.toDecimal, Binary.absValue]
  split
  case isTrue h =>
    rw [Int.toNat_of_nonpos (Int.neg_nonpos_of_nonneg h), pow_zero, mul_one] at htwo
    simp [Decimal.value, htwo]
  case isFalse h =>
    rw [Int.toNat_of_nonpos (not_le.1 h).le, pow_zero] at hfive
    simp only [Decimal.value, hten, Nat.pow_eq, Nat.cast_mul, Nat.cast_pow, Nat.cast_ofNat]
    linear_combination (-(x.significand : ℚ) * 2 ^ x.exponent) * hfive

/-- The ends of an interval, in quarters of the last place, are half of the gaps away. -/
theorem ends_of (format : Format) (hpos : 0 < x.significand) :
    ((Interval.of format x).low : ℚ) * 2 ^ (x.exponent - 2) =
        x.absValue - format.gapBelow x / 2 ∧
      ((Interval.of format x).high : ℚ) * 2 ^ (x.exponent - 2) =
        x.absValue + 2 ^ x.exponent / 2 := by
  have hone : ((4 * x.significand - 1 : ℕ) : ℚ) = 4 * x.significand - 1 := by
    rw [Nat.cast_sub (by omega), Nat.cast_mul, Nat.cast_ofNat, Nat.cast_one]
  have htwo : ((4 * x.significand - 2 : ℕ) : ℚ) = 4 * x.significand - 2 := by
    rw [Nat.cast_sub (by omega), Nat.cast_mul, Nat.cast_ofNat, Nat.cast_ofNat]
  have hhalf := two_zpow_eq x.exponent
  have hquarter := two_zpow_eq (x.exponent - 1)
  rw [sub_sub, one_add_one_eq_two] at hquarter
  constructor
  · simp only [Interval.of, Nat.pow_eq, Format.gapBelow, Binary.absValue]
    split
    · rw [hone, hhalf, hquarter]
      ring
    · rw [htwo, hhalf, hquarter]
      ring
  · simp only [Interval.of, Binary.absValue]
    rw [hhalf, hquarter]
    push_cast
    ring

/-- A multiple of a power of ten that is found in an interval is within the bounds. The scale and the
unit are a quarter of the last place and the power of ten, as many times as makes them whole. -/
theorem within_of_contains {scale unit c : ℕ} {place : ℤ} {k : ℚ} (hpos : 0 < x.significand)
    (hk : 0 < k) (hscale : (scale : ℚ) = 2 ^ (x.exponent - 2) * k) (hunit : (unit : ℚ) = 10 ^ place * k)
    (h : (Interval.of format x).contains scale unit c = true) :
    format.Within x (c * 10 ^ place) := by
  obtain ⟨hlow, hhigh⟩ := ends_of format hpos
  have hle : ∀ a b : ℕ, a * scale ≤ b * unit ↔
      (a : ℚ) * 2 ^ (x.exponent - 2) ≤ b * 10 ^ place := by
    intro a b
    rw [← Nat.cast_le (α := ℚ), Nat.cast_mul, Nat.cast_mul, hscale, hunit, ← mul_assoc, ← mul_assoc,
      mul_le_mul_iff_left₀ hk]
  have hge : ∀ a b : ℕ, b * unit ≤ a * scale ↔
      (b : ℚ) * 10 ^ place ≤ a * 2 ^ (x.exponent - 2) := by
    intro a b
    rw [← Nat.cast_le (α := ℚ), Nat.cast_mul, Nat.cast_mul, hscale, hunit, ← mul_assoc, ← mul_assoc,
      mul_le_mul_iff_left₀ hk]
  rw [Interval.contains] at h
  split at h
  case isTrue hclosed =>
    rw [Bool.and_eq_true, decide_eq_true_eq, decide_eq_true_eq, hle, hge, hlow, hhigh] at h
    exact ⟨h.1, h.2, fun _ => by simpa [Interval.of] using hclosed⟩
  case isFalse =>
    rw [Bool.and_eq_true, decide_eq_true_eq, decide_eq_true_eq, ← not_le, ← not_le, hge, hle, hlow,
      hhigh, not_le, not_le] at h
    exact ⟨h.1.le, h.2.le, fun hend => absurd hend (not_or.2 ⟨h.1.ne', h.2.ne⟩)⟩

theorem within_of_onGrid? {place : ℤ} {d : Decimal} (hpos : 0 < x.significand)
    (h : onGrid? format x place = some d) : format.Within x d.value := by
  have hk : (0 : ℚ) < 2 ^ (2 - x.exponent).toNat * 10 ^ (-place).toNat := by positivity
  have htwo := pow_toNat_eq (b := 2) (by norm_num) (x.exponent - 2)
  have hten := pow_toNat_eq (b := 10) (by norm_num) place
  rw [neg_sub] at htwo
  have hfound : ∀ c, (Interval.of format x).contains
      (Nat.pow 2 (x.exponent - 2).toNat * Nat.pow 10 (-place).toNat)
      (Nat.pow 2 (2 - x.exponent).toNat * Nat.pow 10 place.toNat) c = true →
        format.Within x (⟨c, place⟩ : Decimal).value := by
    intro c
    refine within_of_contains hpos hk ?_ ?_
    · simp only [Nat.pow_eq, Nat.cast_mul, Nat.cast_pow, Nat.cast_ofNat, htwo]
      ring
    · simp only [Nat.pow_eq, Nat.cast_mul, Nat.cast_pow, Nat.cast_ofNat, hten]
      ring
  simp only [onGrid?] at h
  split at h
  case isTrue hlower =>
    cases h
    exact hfound _ (Bool.and_eq_true_iff.1 hlower).1
  case isFalse =>
    split at h
    case isTrue hupper =>
      cases h
      exact hfound _ hupper
    case isFalse => cases h

theorem within_shortest (format : Format) (hpos : 0 < x.significand) :
    format.Within x (shortest format x).value := by
  have hexact : format.Within x x.toDecimal.value := by
    rw [value_toDecimal]
    exact within_absValue format x
  rw [shortest, if_neg hpos.ne']
  dsimp only
  cases hfound : (List.range 17).findSome? fun (n : Nat) =>
      onGrid? format x (x.toDecimal.magnitude - n) with
  | none => exact hexact
  | some d =>
      obtain ⟨n, _, hn⟩ := List.exists_of_findSome?_eq_some hfound
      exact within_of_onGrid? hpos hn

theorem shortest_of_zero (h : x.significand = 0) : shortest format x = ⟨0, 0⟩ := if_pos h

/-- **The shortest decimal stands for its number**, in every format. -/
theorem roundsTo_shortest (hx : format.Holds x) :
    format.RoundsTo (shortest format x).value x := by
  rcases Nat.eq_zero_or_pos x.significand with hzero | hpos
  · have hvalue : (⟨0, 0⟩ : Decimal).value = x.absValue := by
      simp [Decimal.value, Binary.absValue, hzero]
    rw [shortest_of_zero hzero, hvalue]
    exact (within_absValue format x).roundsTo hx
  · exact (within_shortest format hpos).roundsTo hx

theorem exponent_shortest_of_digits_eq_zero (h : (shortest format x).digits = 0) :
    (shortest format x).exponent = 0 := by
  rcases Nat.eq_zero_or_pos x.significand with hzero | hpos
  · rw [shortest_of_zero hzero]
  · have hvalue := (within_shortest format hpos).pos hpos
    rw [Decimal.value, h, Nat.cast_zero, zero_mul] at hvalue
    exact absurd hvalue (lt_irrefl 0)

end RowTemplate.Number
