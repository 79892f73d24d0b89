import RowTemplate.Proofs.Rounding

/-! The text of a number reads as the number. The figures of a decimal are its digits up to the zeros
at the end, so a layout may put the point at any place and make up for it with zeros or an exponent. -/

namespace RowTemplate.Number

/-! ### Reading a decimal text -/

theorem readExponent?_signed (m : ℤ) :
    readExponent? ('e' :: (if m < 0 then '-' else '+') :: Nat.toDigits 10 m.natAbs) = some m := by
  have hdigits : ¬ (Nat.toDigits 10 m.natAbs = [] ∨
      ¬ (Nat.toDigits 10 m.natAbs).all Char.isDigit = true) := by
    rw [not_or, not_not, List.all_eq_true]
    exact ⟨Nat.toDigits_ne_nil, fun c hc => Nat.isDigit_of_mem_toDigits (by omega) (by omega) hc⟩
  rw [readExponent?, if_neg hdigits, Nat.ofDigitChars_ten_toDigits]
  by_cases hneg : m < 0
  · rw [if_pos hneg, if_neg (by decide), if_pos rfl, Int.ofNat_natAbs_of_nonpos hneg.le, neg_neg]
  · rw [if_neg hneg, if_pos rfl, Int.natAbs_of_nonneg (not_lt.1 hneg)]

/-- An exponent begins with no digit and no point. -/
theorem head?_of_readExponent? {tail : List Char} {e : ℤ} (h : readExponent? tail = some e) :
    ∀ c rest, tail = c :: rest → c = 'e' := by
  rintro c rest rfl
  unfold readExponent? at h
  split at h
  case h_1 heq => cases heq
  case h_2 heq => exact (List.cons.inj heq).1
  case h_3 => cases h

theorem span_digits {digits tail : List Char} (h : ∀ c ∈ digits, c.isDigit = true)
    (htail : ∀ c rest, tail = c :: rest → c.isDigit = false) :
    (digits ++ tail).takeWhile Char.isDigit = digits ∧
      (digits ++ tail).dropWhile Char.isDigit = tail := by
  rw [List.takeWhile_append_of_pos h, List.dropWhile_append_of_pos h]
  cases tail with
  | nil => exact ⟨List.append_nil _, rfl⟩
  | cons c rest =>
      have hc : ¬ c.isDigit = true := by rw [htail c rest rfl]; decide
      rw [List.takeWhile_cons_of_neg hc, List.dropWhile_cons_of_neg hc, List.append_nil]
      exact ⟨rfl, rfl⟩

section Reading

variable {whole fraction tail : List Char} {e : ℤ}

theorem ofText?_whole (hdigits : ∀ c ∈ whole, c.isDigit = true) (hwhole : IsWhole whole)
    (htail : readExponent? tail = some e) :
    Decimal.ofText? (whole ++ tail) = some ⟨Nat.ofDigitChars 10 whole 0, e⟩ := by
  have hletter := head?_of_readExponent? htail
  obtain ⟨htake, hdrop⟩ := span_digits hdigits fun c rest heq => by rw [hletter c rest heq]; rfl
  rw [Decimal.ofText?, htake, hdrop, if_neg (not_not.2 hwhole)]
  split
  case h_1 rest => exact absurd (hletter '.' rest rfl) (by decide)
  case h_2 => rw [htail, Option.map_some]

theorem ofText?_fraction (hdigits : ∀ c ∈ whole, c.isDigit = true) (hwhole : IsWhole whole)
    (hfraction : ∀ c ∈ fraction, c.isDigit = true) (hne : fraction ≠ [])
    (htail : readExponent? tail = some e) :
    Decimal.ofText? (whole ++ '.' :: (fraction ++ tail)) =
      some ⟨Nat.ofDigitChars 10 (whole ++ fraction) 0, e - fraction.length⟩ := by
  have hletter := head?_of_readExponent? htail
  have hpoint : ∀ c rest, '.' :: (fraction ++ tail) = c :: rest → c.isDigit = false :=
    fun c rest heq => by rw [← (List.cons.inj heq).1]; rfl
  obtain ⟨htake, hdrop⟩ := span_digits hdigits hpoint
  obtain ⟨htake', hdrop'⟩ := span_digits hfraction fun c rest heq => by rw [hletter c rest heq]; rfl
  rw [Decimal.ofText?, htake, hdrop, if_neg (not_not.2 hwhole)]
  simp only [htake', hdrop', if_neg hne, htail, Option.map_some]

end Reading

/-! ### Figures -/

/-- The number with some figures, the first of which stands for a power of ten. -/
def ofFigures (figures : List Char) (magnitude : ℤ) : Decimal :=
  ⟨Nat.ofDigitChars 10 figures 0, magnitude + 1 - figures.length⟩

/-- The figures of a number are its digits without the zeros at the end, but for a first one. -/
theorem exists_figures (d : Decimal) : ∃ first rest k, Nat.toDigits 10 d.digits = first :: rest ∧
    ∃ kept, rest = kept ++ List.replicate k '0' ∧ d.figures = first :: kept := by
  obtain ⟨first, rest, hdigits⟩ :=
    List.exists_cons_of_ne_nil (Nat.toDigits_ne_nil (b := 10) (n := d.digits))
  refine ⟨first, rest, ((rest.reverse.takeWhile (· == '0')).length), hdigits,
    (rest.reverse.dropWhile (· == '0')).reverse, ?_, ?_⟩
  · have hzeros : rest.reverse.takeWhile (· == '0') =
        List.replicate (rest.reverse.takeWhile (· == '0')).length '0' :=
      List.eq_replicate_iff.2
        ⟨rfl, fun c hc => beq_iff_eq.1 (List.mem_takeWhile_imp (p := (· == '0')) hc)⟩
    have hrest := congrArg List.reverse
      (List.takeWhile_append_dropWhile (p := (· == '0')) (l := rest.reverse))
    rw [List.reverse_append, List.reverse_reverse] at hrest
    rw [← List.reverse_replicate, ← hzeros, hrest]
  · rw [Decimal.figures, hdigits]

theorem value_ofFigures (d : Decimal) : (ofFigures d.figures d.magnitude).value = d.value := by
  obtain ⟨first, rest, k, hdigits, kept, hrest, hfigures⟩ := exists_figures d
  have hnumber : d.digits = 10 ^ k * Nat.ofDigitChars 10 d.figures 0 := by
    rw [← Nat.ofDigitChars_replicate_zero, ← Nat.ofDigitChars_append, hfigures, List.cons_append,
      ← hrest, ← hdigits, Nat.ofDigitChars_ten_toDigits]
  have hexponent : d.magnitude + 1 - d.figures.length = k + d.exponent := by
    have hlength : (Nat.toDigits 10 d.digits).length = d.figures.length + k := by
      rw [hdigits, hrest, hfigures]
      simp [Nat.add_right_comm]
    rw [Decimal.magnitude, hlength]
    push_cast
    ring
  have hcast : (d.digits : ℚ) = 10 ^ k * Nat.ofDigitChars 10 d.figures 0 := by exact_mod_cast hnumber
  rw [ofFigures, Decimal.value, Decimal.value, hexponent, hcast, zpow_add₀ (by norm_num),
    zpow_natCast]
  ring

/-- Figures that begin with no zero, and the one figure of the number zero. -/
structure AreFigures (figures : List Char) (magnitude : ℤ) : Prop where
  isDigit : ∀ c ∈ figures, c.isDigit = true
  isWhole : IsWhole figures
  zero : figures.head? = some '0' → magnitude = 0

theorem head?_toDigits {n : ℕ} (h : n ≠ 0) : (Nat.toDigits 10 n).head? ≠ some '0' := by
  induction n using Nat.strong_induction_on with
  | _ n ih =>
      by_cases hsmall : n < 10
      · rw [Nat.toDigits_of_lt_base hsmall]
        interval_cases n <;> simp_all
      · have hlarge : 10 ≤ n := not_lt.1 hsmall
        rw [Nat.toDigits_of_base_le (by omega) hlarge,
          List.head?_append_of_ne_nil _ Nat.toDigits_ne_nil]
        exact ih (n / 10) (by omega) (by omega)

theorem areFigures_figures {d : Decimal} (h : d.digits = 0 → d.exponent = 0) :
    AreFigures d.figures d.magnitude := by
  obtain ⟨first, rest, k, hdigits, kept, hrest, hfigures⟩ := exists_figures d
  have hfirst : d.figures.head? = (Nat.toDigits 10 d.digits).head? := by rw [hfigures, hdigits]; rfl
  have hzero : d.figures.head? = some '0' → d.digits = 0 := fun hhead => by
    by_contra hne
    exact head?_toDigits hne (hfirst ▸ hhead)
  refine ⟨fun c hc => ?_, ⟨?_, fun hhead => ?_⟩, fun hhead => ?_⟩
  · refine Nat.isDigit_of_mem_toDigits (b := 10) (n := d.digits) (by omega) (by omega) ?_
    rw [hdigits, hrest]
    rw [hfigures] at hc
    exact List.mem_append_left (List.replicate k '0') hc
  · rw [hfigures]
    exact List.cons_ne_nil _ _
  · rw [Decimal.figures, hzero hhead]
    rfl
  · rw [Decimal.magnitude, h (hzero hhead), hzero hhead]
    rfl

/-! ### Layouts -/

variable {figures : List Char} {magnitude : ℤ}

theorem isDigit_of_mem_zeros (n : ℕ) : ∀ c ∈ List.replicate n '0', c.isDigit = true := by
  intro c hc
  rw [List.eq_of_mem_replicate hc]
  rfl

theorem isWhole_zero : IsWhole ['0'] := ⟨List.cons_ne_nil _ _, fun _ => rfl⟩

theorem readExponent?_nil : readExponent? [] = some 0 := rfl

/-- Small figures stand behind the point and zeros. -/
theorem AreFigures.read_behind (h : AreFigures figures magnitude) (hneg : magnitude < 0) :
    Decimal.ofText? ('0' :: '.' :: List.replicate (-magnitude - 1).toNat '0' ++ figures) =
      some (ofFigures figures magnitude) := by
  have hdigits := List.forall_mem_append.2
    ⟨isDigit_of_mem_zeros (-magnitude - 1).toNat, h.isDigit⟩
  have hread := ofText?_fraction (List.forall_mem_singleton.2 rfl) isWhole_zero hdigits
    (List.append_ne_nil_of_right_ne_nil _ h.isWhole.1) readExponent?_nil
  rw [List.append_nil] at hread
  refine hread.trans ?_
  rw [ofFigures, Option.some.injEq, Decimal.mk.injEq]
  constructor
  · rw [Nat.ofDigitChars_append, Nat.ofDigitChars_append, Nat.ofDigitChars_replicate_zero]
    rfl
  · rw [List.length_append, List.length_replicate]
    omega

/-- Figures may stand on both sides of the point. -/
theorem AreFigures.read_around (h : AreFigures figures magnitude) (hnonneg : 0 ≤ magnitude)
    (hlong : magnitude.toNat + 1 < figures.length) :
    Decimal.ofText?
        (figures.take (magnitude.toNat + 1) ++ '.' :: figures.drop (magnitude.toNat + 1)) =
      some (ofFigures figures magnitude) := by
  have hfraction : figures.drop (magnitude.toNat + 1) ≠ [] := fun hnil =>
    absurd (List.drop_eq_nil_iff.1 hnil) (not_le.2 hlong)
  have hwhole : IsWhole (figures.take (magnitude.toNat + 1)) := by
    refine ⟨fun hnil => ?_, fun hhead => ?_⟩
    · rcases List.take_eq_nil_iff.1 hnil with hzero | hnil
      · cases hzero
      · exact h.isWhole.1 hnil
    · rw [List.head?_take, if_neg (Nat.succ_ne_zero _)] at hhead
      rw [h.isWhole.2 hhead] at hlong
      exact absurd hlong (by simp)
  have hread := ofText?_fraction (fun c hc => h.isDigit c (List.mem_of_mem_take hc)) hwhole
    (fun c hc => h.isDigit c (List.mem_of_mem_drop hc)) hfraction readExponent?_nil
  rw [List.append_nil, List.take_append_drop] at hread
  refine hread.trans ?_
  rw [ofFigures, Option.some.injEq, Decimal.mk.injEq, List.length_drop]
  exact ⟨rfl, by omega⟩

/-- Large figures stand in front of zeros and the point. -/
theorem AreFigures.read_before (h : AreFigures figures magnitude) (hnonneg : 0 ≤ magnitude)
    (hshort : figures.length ≤ magnitude.toNat + 1) :
    ∃ d, Decimal.ofText? (figures ++
        List.replicate (magnitude.toNat + 1 - figures.length) '0' ++ ['.', '0']) = some d ∧
      d.value = (ofFigures figures magnitude).value := by
  have hwhole : IsWhole (figures ++
      List.replicate (magnitude.toNat + 1 - figures.length) '0') := by
    refine ⟨List.append_ne_nil_of_left_ne_nil h.isWhole.1 _, fun hhead => ?_⟩
    rw [List.head?_append_of_ne_nil _ h.isWhole.1] at hhead
    rw [h.isWhole.2 hhead, h.zero hhead]
    rfl
  have hdigits := List.forall_mem_append.2
    ⟨h.isDigit, isDigit_of_mem_zeros (magnitude.toNat + 1 - figures.length)⟩
  refine ⟨_, ofText?_fraction hdigits hwhole (List.forall_mem_singleton.2 rfl)
    (List.cons_ne_nil '0' []) readExponent?_nil, ?_⟩
  have hplace : magnitude + 1 - figures.length =
      (magnitude.toNat + 1 - figures.length : ℕ) := by omega
  have hzero : ∀ n, Nat.ofDigitChars 10 ['0'] n = 10 * n := fun n => rfl
  rw [ofFigures, Decimal.value, Decimal.value, Nat.ofDigitChars_append,
    Nat.ofDigitChars_append, Nat.ofDigitChars_replicate_zero, hzero, hplace, zpow_natCast]
  push_cast
  rw [List.length_singleton]
  norm_num
  ring

theorem AreFigures.read_full (h : AreFigures figures magnitude) :
    ∃ d, Decimal.ofText? (Layout.full figures magnitude) = some d ∧
      d.value = (ofFigures figures magnitude).value := by
  rw [Layout.full]
  split
  case isTrue hneg => exact ⟨_, h.read_behind hneg, rfl⟩
  case isFalse hneg =>
    have hnonneg : 0 ≤ magnitude := not_lt.1 hneg
    dsimp only
    rcases Nat.lt_or_ge (magnitude.toNat + 1) figures.length with hlong | hshort
    · have hfraction : (figures.drop (magnitude.toNat + 1)).isEmpty = false := by simpa using hlong
      rw [Nat.sub_eq_zero_of_le hlong.le, List.replicate_zero, List.append_nil, hfraction,
        if_neg Bool.false_ne_true]
      exact ⟨_, h.read_around hnonneg hlong, rfl⟩
    · rw [List.take_of_length_le hshort, List.drop_eq_nil_of_le hshort, List.isEmpty_nil, if_pos rfl]
      exact h.read_before hnonneg hshort

theorem AreFigures.read_scientific (h : AreFigures figures magnitude) :
    Decimal.ofText? (Layout.scientific figures magnitude) = some (ofFigures figures magnitude) := by
  have hexponent := readExponent?_signed magnitude
  rw [Layout.scientific, ofFigures]
  obtain ⟨first, rest, rfl⟩ := List.exists_cons_of_ne_nil h.isWhole.1
  obtain ⟨hfirst, hrest⟩ := List.forall_mem_cons.1 h.isDigit
  have hwhole : IsWhole [first] :=
    ⟨List.cons_ne_nil _ _, fun hhead => by rw [Option.some.inj hhead]⟩
  cases rest with
  | nil =>
      refine (ofText?_whole (List.forall_mem_singleton.2 hfirst) hwhole hexponent).trans ?_
      simp
  | cons second rest =>
      refine (ofText?_fraction (List.forall_mem_singleton.2 hfirst) hwhole hrest
        (List.cons_ne_nil _ _) hexponent).trans ?_
      simp

theorem read_text (layout : Layout) {d : Decimal} (h : d.digits = 0 → d.exponent = 0) :
    ∃ read, Decimal.ofText? (layout.text d) = some read ∧ read.value = d.value := by
  have hfigures := areFigures_figures h
  rw [← value_ofFigures d, Layout.text]
  split
  · exact hfigures.read_full
  · exact ⟨_, hfigures.read_scientific, rfl⟩

/-- **The shortest text reads as its number**, in every format and every layout. -/
theorem reads_shortestText (layout : Layout) {format : Format} {x : Binary} (hx : format.Holds x) :
    format.Reads (layout.shortestText format x) x := by
  obtain ⟨d, hread, hvalue⟩ := read_text layout (exponent_shortest_of_digits_eq_zero (x := x))
  refine ⟨_, d, rfl, hread, ?_⟩
  rw [hvalue]
  exact roundsTo_shortest hx

/-! ### Numbers of words -/

/-- With two bits or more, half of the values of the exponent field are at least two. -/
theorem exponent_field {format : Format} (hbits : 1 < format.exponentBits) :
    2 ≤ 2 ^ (format.exponentBits - 1) ∧
      2 ^ format.exponentBits = 2 * 2 ^ (format.exponentBits - 1) := by
  obtain ⟨bits, hsucc⟩ : ∃ bits, format.exponentBits = bits + 2 :=
    ⟨_, (Nat.sub_add_cancel hbits).symm⟩
  rw [hsucc, Nat.add_sub_assoc (by omega), ← Nat.pow_succ']
  refine ⟨?_, rfl⟩
  rw [Nat.pow_succ']
  exact Nat.le_mul_of_pos_right 2 (Nat.two_pow_pos bits)

/-- A word stands for a number of its format. -/
theorem holds_of_finite? {format : Format} (hbits : 1 < format.exponentBits) {word : ℕ} {x : Binary}
    (h : format.finite? word = some x) : format.Holds x := by
  have hfraction : word % 2 ^ format.fractionBits < 2 ^ format.fractionBits :=
    Nat.mod_lt _ (Nat.two_pow_pos _)
  have hfield : word / 2 ^ format.fractionBits % 2 ^ format.exponentBits < 2 ^ format.exponentBits :=
    Nat.mod_lt _ (Nat.two_pow_pos _)
  have hpower : 2 ^ (format.fractionBits + 1) = 2 * 2 ^ format.fractionBits := Nat.pow_succ'
  obtain ⟨htwo, hhalf⟩ := exponent_field hbits
  have hcast : ((2 ^ (format.exponentBits - 1) : ℕ) : ℤ) = 2 ^ (format.exponentBits - 1) :=
    Nat.cast_pow 2 _
  simp only [Format.finite?, Nat.pow_eq] at h
  split at h
  case isTrue => cases h
  case isFalse hfinite =>
    split at h
    case isTrue hzero =>
      cases h
      refine ⟨⟨?_, le_rfl, fun _ => rfl⟩, ?_⟩
      · simp only
        omega
      · simp only [Format.leastExponent, Format.greatestExponent, Nat.pow_eq]
        omega
    case isFalse hnonzero =>
      cases h
      refine ⟨⟨?_, ?_, fun hsmall => ?_⟩, ?_⟩
      · simp only
        omega
      · simp only
        omega
      · simp only at hsmall
        omega
      · simp only [Format.leastExponent, Format.greatestExponent, Nat.pow_eq]
        omega

/-- A number stays the same when its significand is made as large as there is room for. -/
theorem absValue_normalize (format : Format) (x : Binary) :
    (format.normalize x).absValue = x.absValue := by
  rw [Format.normalize]
  split
  case isTrue hzero => simp [Binary.absValue, hzero]
  case isFalse =>
    simp only [Binary.absValue, Nat.pow_eq, Nat.cast_mul, Nat.cast_pow, Nat.cast_ofNat]
    rw [mul_assoc, ← zpow_natCast, ← zpow_add₀ (by norm_num), add_sub_cancel]

/-- A shift that leaves the leading bit in place `bits` or below keeps a number that small. -/
theorem mul_two_pow_lt {n shift bits : ℕ} (h : n.log2 + shift ≤ bits) :
    n * 2 ^ shift < 2 ^ (bits + 1) :=
  calc n * 2 ^ shift
      < 2 ^ (n.log2 + 1) * 2 ^ shift :=
        Nat.mul_lt_mul_of_pos_right Nat.lt_log2_self (Nat.two_pow_pos shift)
    _ = 2 ^ (n.log2 + 1 + shift) := (Nat.pow_add ..).symm
    _ ≤ 2 ^ (bits + 1) := Nat.pow_le_pow_right (by omega) (by omega)

/-- A shift that moves the leading bit to place `bits` makes a number that large. -/
theorem two_pow_le_mul {n shift bits : ℕ} (hn : n ≠ 0) (h : bits ≤ n.log2 + shift) :
    2 ^ bits ≤ n * 2 ^ shift :=
  calc 2 ^ bits
      ≤ 2 ^ (n.log2 + shift) := Nat.pow_le_pow_right (by omega) h
    _ = 2 ^ n.log2 * 2 ^ shift := Nat.pow_add ..
    _ ≤ n * 2 ^ shift := Nat.mul_le_mul_right _ (Nat.log2_self_le hn)

/-- With as large a significand as there is room for, a number is one of the format. -/
theorem holds_normalize {format : Format} {x : Binary}
    (hsignificand : x.significand < 2 ^ (format.fractionBits + 1))
    (hleast : format.leastExponent ≤ x.exponent) (hgreatest : x.exponent ≤ format.greatestExponent) :
    format.Holds (format.normalize x) := by
  rw [Format.normalize]
  split
  case isTrue hzero =>
    exact ⟨⟨hsignificand, le_rfl, fun _ => rfl⟩, hleast.trans hgreatest⟩
  case isFalse hzero =>
    simp only [Nat.pow_eq]
    generalize hshift : min (format.fractionBits - x.significand.log2)
      (x.exponent - format.leastExponent).toNat = shift
    have hlog : x.significand.log2 ≤ format.fractionBits :=
      Nat.le_of_lt_succ ((Nat.log2_lt hzero).2 hsignificand)
    refine ⟨⟨mul_two_pow_lt (by omega), ?_, fun hsmall => ?_⟩, ?_⟩
    · simp only
      omega
    · have hroom : shift < format.fractionBits - x.significand.log2 := by
        by_contra hfull
        exact absurd hsmall (not_lt.2 (two_pow_le_mul hzero (by omega)))
      simp only
      omega
    · simp only
      omega

end RowTemplate.Number
