import Mathlib
import ReadCache.Number.Binary64

namespace ReadCache.Binary64

theorem abs_divEven_sub_le (num : Nat) {den : Nat} (hden : 0 < den) :
    |(divEven num den : ℚ) - num / den| ≤ 1 / 2 := by
  have hsplit : (den * (num / den : Nat) + (num % den : Nat) : ℚ) = num := by
    exact_mod_cast Nat.div_add_mod num den
  have hpos : (0 : ℚ) < den := by exact_mod_cast hden
  have hquotient : (num / den : ℚ) = (num / den : Nat) + (num % den : Nat) / den := by
    rw [← hsplit]
    field_simp
  have hrest : ((num % den : Nat) : ℚ) / den ≤ 1 := by
    rw [div_le_one hpos]
    exact_mod_cast (Nat.mod_lt num hden).le
  have hsome : (0 : ℚ) ≤ (num % den : Nat) / den := by positivity
  unfold divEven
  dsimp only
  split
  · have hlow : 2 * (num % den) ≤ den := by omega
    have hhalf : ((num % den : Nat) : ℚ) / den ≤ 1 / 2 := by
      rw [div_le_div_iff₀ hpos two_pos]
      exact_mod_cast (by omega : num % den * 2 ≤ 1 * den)
    rw [hquotient, abs_le]
    constructor <;> linarith
  · have hhigh : den ≤ 2 * (num % den) := by omega
    have hhalf : (1 : ℚ) / 2 ≤ (num % den : Nat) / den := by
      rw [div_le_div_iff₀ two_pos hpos]
      exact_mod_cast (by omega : 1 * den ≤ num % den * 2)
    rw [hquotient, abs_le]
    push_cast
    constructor <;> linarith

theorem divEven_mul (n : Nat) {den : Nat} (hden : 0 < den) : divEven (n * den) den = n := by
  simp [divEven, Nat.mul_div_cancel n hden, Nat.mul_mod_left, hden]

theorem two_zpow_pos (e : Int) : (0 : ℚ) < 2 ^ e := zpow_pos two_pos e

theorem pow_toNat_div (e : Int) : (2 : ℚ) ^ e.toNat / 2 ^ (-e).toNat = 2 ^ e := by
  rcases le_total 0 e with he | he
  · obtain ⟨n, rfl⟩ := Int.eq_ofNat_of_zero_le he
    simp
  · obtain ⟨n, hn⟩ := Int.eq_ofNat_of_zero_le (Int.neg_nonneg_of_nonpos he)
    obtain rfl : e = -n := by omega
    simp

theorem two_zpow_add (e : Int) (n : Nat) : (2 : ℚ) ^ (e + n) = (2 ^ n : Nat) * 2 ^ e := by
  rw [zpow_add₀ two_ne_zero, zpow_natCast, mul_comm]
  push_cast
  rfl

theorem mul_finer (n : Nat) {e f : Int} (hf : e ≤ f) :
    (n * 2 ^ f : ℚ) = (n * 2 ^ (f - e).toNat : Nat) * 2 ^ e := by
  have hsplit : f = e + (f - e).toNat := by omega
  conv_lhs => rw [hsplit, two_zpow_add]
  push_cast
  ring

theorem scaled_div (num den : Nat) (e : Int) :
    ((num * 2 ^ (-e).toNat : Nat) : ℚ) / (den * 2 ^ e.toNat : Nat) = num / den / 2 ^ e := by
  rw [← pow_toNat_div e]
  push_cast
  have hup := pow_pos (two_pos (α := ℚ)) e.toNat
  have hdown := pow_pos (two_pos (α := ℚ)) (-e).toNat
  field_simp

theorem scaled_lt_iff {num den : Nat} (hden : 0 < den) (e : Int) :
    num * 2 ^ (-e).toNat < den * 2 ^ e.toNat ↔ (num / den : ℚ) < 2 ^ e := by
  have hpos : (0 : ℚ) < (den * 2 ^ e.toNat : Nat) := by
    exact_mod_cast Nat.mul_pos hden (Nat.two_pow_pos _)
  rw [← div_lt_one (two_zpow_pos e), ← scaled_div, div_lt_one hpos]
  exact Nat.cast_lt.symm

theorem ratioLog2_bounds {num den : Nat} (hnum : 0 < num) (hden : 0 < den) :
    (2 : ℚ) ^ ratioLog2 num den ≤ num / den ∧ (num / den : ℚ) < 2 ^ (ratioLog2 num den + 1) := by
  have hpos : (0 : ℚ) < den := by exact_mod_cast hden
  have hnumLow : (2 : ℚ) ^ (num.log2 : Int) ≤ num := by
    rw [zpow_natCast]
    exact_mod_cast Nat.log2_self_le hnum.ne'
  have hnumHigh : (num : ℚ) < 2 ^ (num.log2 + 1 : Int) := by
    exact_mod_cast Nat.lt_log2_self
  have hdenLow : (2 : ℚ) ^ (den.log2 : Int) ≤ den := by
    rw [zpow_natCast]
    exact_mod_cast Nat.log2_self_le hden.ne'
  have hdenHigh : (den : ℚ) < 2 ^ (den.log2 + 1 : Int) := by
    exact_mod_cast Nat.lt_log2_self
  have hlow : (2 : ℚ) ^ ((num.log2 : Int) - den.log2 - 1) ≤ num / den := by
    rw [le_div_iff₀ hpos]
    calc (2 : ℚ) ^ ((num.log2 : Int) - den.log2 - 1) * den
        ≤ 2 ^ ((num.log2 : Int) - den.log2 - 1) * 2 ^ (den.log2 + 1 : Int) := by gcongr
      _ = 2 ^ (num.log2 : Int) := by
        rw [← zpow_add₀ two_ne_zero]
        congr 1
        ring
      _ ≤ num := hnumLow
  have hhigh : (num / den : ℚ) < 2 ^ ((num.log2 : Int) - den.log2 + 1) := by
    rw [div_lt_iff₀ hpos]
    calc (num : ℚ) < 2 ^ (num.log2 + 1 : Int) := hnumHigh
      _ = 2 ^ ((num.log2 : Int) - den.log2 + 1) * 2 ^ (den.log2 : Int) := by
        rw [← zpow_add₀ two_ne_zero]
        congr 1
        ring
      _ ≤ 2 ^ ((num.log2 : Int) - den.log2 + 1) * den := by gcongr
  unfold ratioLog2
  simp only [Nat.pow_eq, scaled_lt_iff hden]
  split
  · rename_i hless
    exact ⟨hlow, by rwa [Int.sub_add_cancel]⟩
  · rename_i hless
    exact ⟨not_lt.1 hless, hhigh⟩

/-- `m * 2 ^ e` is a number of at most 53 binary digits nearest to `x`, and `2 ^ e` the unit
there. -/
structure Rounds (x : ℚ) (m : Nat) (e : Int) : Prop where
  near : |m * 2 ^ e - x| ≤ 2 ^ e / 2
  low : -1074 ≤ e
  unit : e = -1074 ∨ 2 ^ (e + 52) ≤ x
  above : x < 2 ^ (e + 53)

namespace Rounds
variable {x : ℚ} {m : Nat} {e : Int}

theorem abs_sub_le (h : Rounds x m e) : |m - x / 2 ^ e| ≤ 1 / 2 := by
  have hpos := two_zpow_pos e
  have hscale : (m - x / 2 ^ e : ℚ) = (m * 2 ^ e - x) / 2 ^ e := by field_simp
  rw [hscale, abs_div, abs_of_pos hpos, div_le_iff₀ hpos]
  linarith [h.near]

theorem le_of_lt (h : Rounds x m e) {n : Nat} (hx : x < (n + 1 / 2) * 2 ^ e) : m ≤ n := by
  have hmid : x / 2 ^ e < n + 1 / 2 := (div_lt_iff₀ (two_zpow_pos e)).2 hx
  have hnear := (abs_le.1 h.abs_sub_le).2
  have hless : (m : ℚ) < (n + 1 : Nat) := by
    push_cast
    linarith
  exact Nat.lt_succ_iff.1 (by exact_mod_cast hless)

theorem le_of_le (h : Rounds x m e) {n : Nat} (hx : x ≤ n * 2 ^ e) : m ≤ n := by
  refine h.le_of_lt (lt_of_le_of_lt hx ?_)
  have hpos := two_zpow_pos e
  nlinarith

theorem le_of_ge (h : Rounds x m e) {n : Nat} (hx : n * 2 ^ e ≤ x) : n ≤ m := by
  have hmid : (n : ℚ) ≤ x / 2 ^ e := (le_div_iff₀ (two_zpow_pos e)).2 hx
  have hnear := (abs_le.1 h.abs_sub_le).1
  have hless : (n : ℚ) < (m + 1 : Nat) := by
    push_cast
    linarith
  exact Nat.lt_succ_iff.1 (by exact_mod_cast hless)

theorem eq_of_eq (h : Rounds x m e) {n : Nat} (hx : x = n * 2 ^ e) : m = n :=
  Nat.le_antisymm (h.le_of_le hx.le) (h.le_of_ge hx.ge)

theorem mul_le_of_le (h : Rounds x m e) {n : Nat} {f : Int} (hf : e ≤ f) (hx : x ≤ n * 2 ^ f) :
    (m * 2 ^ e : ℚ) ≤ n * 2 ^ f := by
  rw [mul_finer n hf] at hx ⊢
  have hm : (m : ℚ) ≤ (n * 2 ^ (f - e).toNat : Nat) := by exact_mod_cast h.le_of_le hx
  exact mul_le_mul_of_nonneg_right hm (two_zpow_pos e).le

theorem significand_le (h : Rounds x m e) : m ≤ 2 ^ 53 := by
  refine h.le_of_le ?_
  rw [← two_zpow_add]
  exact h.above.le

theorem le_significand (h : Rounds x m e) : e = -1074 ∨ 2 ^ 52 ≤ m := by
  refine h.unit.imp_right fun hunit ↦ h.le_of_ge ?_
  rw [← two_zpow_add]
  exact hunit

theorem unit_le (h : Rounds x m e) (hx : x ≤ 2 ^ 64) : e ≤ 12 := by
  rcases h.unit with rfl | hunit
  · decide
  · have hle : (2 : ℚ) ^ (e + 52) ≤ 2 ^ (64 : Int) := hunit.trans hx
    rw [zpow_le_zpow_iff_right₀ one_lt_two] at hle
    omega

theorem le_two_pow (h : Rounds x m e) (hx : x ≤ 2 ^ 64) : (m * 2 ^ e : ℚ) ≤ 2 ^ 64 := by
  have hunit := h.unit_le hx
  have hle := h.mul_le_of_le (n := 1) (f := (64 : Int)) (by omega) (by rw [Nat.cast_one, one_mul]; exact hx)
  rwa [Nat.cast_one, one_mul] at hle

theorem again (h : Rounds x m e) {k : Nat} {f : Int} (h' : Rounds (m * 2 ^ e) k f) :
    (k * 2 ^ f : ℚ) = m * 2 ^ e := by
  rcases le_or_gt f e with hfe | hfe
  · rw [mul_finer m hfe, h'.eq_of_eq (mul_finer m hfe)]
  -- The unit is coarser only where the significand has carried.
  have hpos := two_zpow_pos e
  have hm : (m : ℚ) ≤ 2 ^ 53 := by exact_mod_cast h.significand_le
  have hunit : (2 : ℚ) ^ (f + 52) ≤ m * 2 ^ e :=
    h'.unit.resolve_left (by have := h.low; omega)
  have hwide : (2 : ℚ) ^ (f + 52) ≤ 2 ^ (e + (53 : Nat)) := by
    rw [two_zpow_add]
    push_cast
    exact hunit.trans (mul_le_mul_of_nonneg_right hm hpos.le)
  rw [zpow_le_zpow_iff_right₀ one_lt_two] at hwide
  obtain rfl : f = e + 1 := by omega
  have hcarry : (m * 2 ^ e : ℚ) = (2 ^ 52 : Nat) * 2 ^ (e + 1) := by
    rw [zpow_add_one₀ two_ne_zero]
    rw [show e + 1 + 52 = e + (53 : Nat) by ring, two_zpow_add] at hunit
    push_cast at hunit ⊢
    have hm' := mul_le_mul_of_nonneg_right hm hpos.le
    linarith
  rw [hcarry, h'.eq_of_eq hcarry]

end Rounds

/-- The significand of the word nearest to a quotient. -/
def significand (num den : Nat) : Nat :=
  divEven (num * 2 ^ (-unitExponent num den).toNat) (den * 2 ^ (unitExponent num den).toNat)

theorem rounds_quotient {num den : Nat} (hnum : 0 < num) (hden : 0 < den) :
    Rounds (num / den) (significand num den) (unitExponent num den) := by
  obtain ⟨hlow, hhigh⟩ := ratioLog2_bounds hnum hden
  have hpos := two_zpow_pos (unitExponent num den)
  refine ⟨?_, by simp only [unitExponent]; omega, ?_, ?_⟩
  · have hnear := abs_divEven_sub_le (num * 2 ^ (-unitExponent num den).toNat)
      (Nat.mul_pos hden (Nat.two_pow_pos (unitExponent num den).toNat))
    rw [scaled_div] at hnear
    have hscale : (significand num den * 2 ^ unitExponent num den - num / den : ℚ) =
        (significand num den - num / den / 2 ^ unitExponent num den) * 2 ^ unitExponent num den := by
      field_simp
    rw [hscale, abs_mul, abs_of_pos hpos]
    calc |(significand num den - num / den / 2 ^ unitExponent num den : ℚ)| * 2 ^ unitExponent num den
        ≤ 1 / 2 * 2 ^ unitExponent num den := mul_le_mul_of_nonneg_right hnear hpos.le
      _ = 2 ^ unitExponent num den / 2 := by ring
  · rcases le_total (ratioLog2 num den - 52) (-1074) with hle | hle
    · exact .inl (max_eq_right hle)
    · right
      rw [unitExponent, max_eq_left hle, sub_add_cancel]
      exact hlow
  · refine hhigh.trans_le (zpow_le_zpow_right₀ one_le_two ?_)
    simp only [unitExponent]
    omega

/-- The word is finite, has no sign and stands for `v`. -/
def Holds (x : Binary64) (v : ℚ) : Prop :=
  x.isNegative = false ∧ ∃ m e, x.magnitude = .finite m e ∧ v = m * 2 ^ e

theorem holds_of_fields {x : Binary64} (field fraction : Nat)
    (hx : x.bits.toNat = field * 2 ^ 52 + fraction) (hfraction : fraction < 2 ^ 52)
    (hfield : field < 2047) :
    x.Holds (if field = 0 then fraction * 2 ^ (-1074 : Int)
      else (2 ^ 52 + fraction : Nat) * 2 ^ ((field : Int) - 1075)) := by
  have hless : field * 2 ^ 52 + fraction < 2 ^ 63 := by omega
  have hupper : (field * 2 ^ 52 + fraction) / 2 ^ 52 = field := by omega
  have hlower : (field * 2 ^ 52 + fraction) % 2 ^ 52 = fraction := by omega
  have hmagnitude : x.magnitude = if field = 0 then .finite fraction (-1074)
      else .finite (2 ^ 52 + fraction) (field - 1075) := by
    simp only [magnitude, Nat.pow_eq, hx, Nat.mod_eq_of_lt hless, hupper, hlower, hfield.ne, if_false]
  refine ⟨?_, ?_⟩
  · simp only [isNegative, Nat.pow_eq, hx, decide_eq_false_iff_not, not_le]
    exact hless
  · rw [hmagnitude]
    split
    · exact ⟨_, _, rfl, rfl⟩
    · exact ⟨_, _, rfl, rfl⟩

theorem holds_of_rounds {x : ℚ} {m : Nat} {e : Int} (h : Rounds x m e) (hx : x ≤ 2 ^ 64) :
    Holds ⟨.ofNat (min ((e + 1074).toNat * 2 ^ 52 + m) (2047 * 2 ^ 52))⟩ (m * 2 ^ e) := by
  have hlow := h.low
  have he := h.unit_le hx
  have hm := h.significand_le
  have hword : (UInt64.ofNat (min ((e + 1074).toNat * 2 ^ 52 + m) (2047 * 2 ^ 52))).toNat =
      (e + 1074).toNat * 2 ^ 52 + m := by
    rw [UInt64.toNat_ofNat_of_lt' (by simp only [UInt64.size]; omega)]
    omega
  -- A subnormal word has its significand as it is.
  rcases Nat.lt_or_ge m (2 ^ 52) with hsmall | hlarge
  · obtain rfl : e = -1074 := h.le_significand.resolve_right (Nat.not_le.2 hsmall)
    exact holds_of_fields 0 m hword hsmall (by decide)
  -- A normal one leaves out the first digit, and `2 ^ 53` carries into the exponent by itself.
  rcases hm.lt_or_eq with hless | rfl
  · have hfields : (e + 1074).toNat * 2 ^ 52 + m = (e + 1075).toNat * 2 ^ 52 + (m - 2 ^ 52) := by omega
    have hholds := holds_of_fields _ _ (hword.trans hfields) (by omega) (by omega)
    rw [if_neg (by omega), Nat.add_sub_cancel' hlarge, Int.toNat_of_nonneg (by omega),
      add_sub_cancel_right] at hholds
    exact hholds
  · have hfields : (e + 1074).toNat * 2 ^ 52 + 2 ^ 53 = (e + 1076).toNat * 2 ^ 52 + 0 := by omega
    have hholds := holds_of_fields _ _ (hword.trans hfields) (by decide) (by omega)
    have hcarry : ((2 ^ 52 + 0 : Nat) : ℚ) * 2 ^ (e + 1076 - 1075) = (2 ^ 53 : Nat) * 2 ^ e := by
      rw [show e + 1076 - 1075 = e + 1 by ring, zpow_add_one₀ two_ne_zero]
      push_cast
      ring
    rw [if_neg (by omega), Int.toNat_of_nonneg (by omega), hcarry] at hholds
    exact hholds

theorem holds_nearest {num den : Nat} (hnum : 0 < num) (hden : 0 < den)
    (hsmall : (num / den : ℚ) ≤ 2 ^ 64) :
    (nearest num den).Holds (significand num den * 2 ^ unitExponent num den) := by
  rw [nearest, if_neg hnum.ne']
  exact holds_of_rounds (rounds_quotient hnum hden) hsmall

theorem Holds.toNat_toWord {x : Binary64} {v : ℚ} (h : x.Holds v) :
    x.toWord.toNat = min ⌊v⌋₊ (UInt64.size - 1) := by
  obtain ⟨hsign, m, e, hmagnitude, rfl⟩ := h
  have hfloor : ⌊(m * 2 ^ e : ℚ)⌋₊ = m * 2 ^ e.toNat / 2 ^ (-e).toNat := by
    rw [← Nat.floor_div_eq_div (K := ℚ), ← pow_toNat_div e, mul_div_assoc']
    push_cast
    rfl
  simp only [toWord, hmagnitude, hsign, Bool.false_eq_true, if_false, Nat.pow_eq, ← hfloor]
  exact UInt64.toNat_ofNat_of_lt' (by simp only [UInt64.size]; omega)

theorem withSign_of_holds {x : Binary64} {v : ℚ} (h : x.Holds v) : x.withSign false = x := by
  have hsign := h.1
  simp only [isNegative, Nat.pow_eq, decide_eq_false_iff_not, not_le] at hsign
  simp only [withSign, Nat.pow_eq, Nat.mod_eq_of_lt hsign, Bool.false_eq_true, if_false, Nat.add_zero,
    UInt64.ofNat_toNat]

theorem holds_zero : Holds zero 0 := ⟨rfl, 0, -1074, rfl, by simp⟩

theorem Holds.zero_mul {y : Binary64} {w : ℚ} (hy : y.Holds w) : zero.mul y = zero := by
  obtain ⟨hsign, n, f, hmagnitude, -⟩ := hy
  have hzero : zero.magnitude = .finite 0 (-1074) := rfl
  have hplus : zero.isNegative = false := rfl
  simp only [Binary64.mul, hzero, hmagnitude, hplus, hsign, nearestScaled, nearest, Nat.zero_mul,
    if_true]
  rfl

theorem Holds.mul {x y : Binary64} {v w : ℚ} (hx : x.Holds v) (hy : y.Holds w) (hv : 0 < v)
    (hw : 0 < w) (hsmall : v * w ≤ 2 ^ 64) :
    ∃ m e, Rounds (v * w) m e ∧ (x.mul y).Holds (m * 2 ^ e) := by
  obtain ⟨hxsign, m, e, hxm, rfl⟩ := hx
  obtain ⟨hysign, n, f, hym, rfl⟩ := hy
  have hm : 0 < m := Nat.cast_pos.1 (pos_of_mul_pos_left hv (two_zpow_pos e).le)
  have hn : 0 < n := Nat.cast_pos.1 (pos_of_mul_pos_left hw (two_zpow_pos f).le)
  have hnum : 0 < m * n * 2 ^ (e + f).toNat := by positivity
  have hden : 0 < 1 * 2 ^ (-(e + f)).toNat := by positivity
  have hexact : ((m * n * 2 ^ (e + f).toNat : Nat) : ℚ) / (1 * 2 ^ (-(e + f)).toNat : Nat) =
      m * 2 ^ e * (n * 2 ^ f) := by
    have hscale := pow_toNat_div (e + f)
    push_cast
    rw [one_mul, mul_div_assoc, hscale, zpow_add₀ two_ne_zero]
    ring
  have hholds := holds_nearest hnum hden (hexact ▸ hsmall)
  refine ⟨_, _, hexact ▸ rounds_quotient hnum hden, ?_⟩
  have hmul : x.mul y = (nearest (m * n * 2 ^ (e + f).toNat) (1 * 2 ^ (-(e + f)).toNat)).withSign
      false := by
    simp only [Binary64.mul, hxm, hym, hxsign, hysign, nearestScaled, Nat.pow_eq, Int.sub_zero,
      Int.zero_sub, bne_self_eq_false]
  rw [hmul, withSign_of_holds hholds]
  exact hholds

end ReadCache.Binary64
