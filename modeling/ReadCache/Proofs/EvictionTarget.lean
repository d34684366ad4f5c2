import ReadCache.Config.Basic
import ReadCache.Proofs.Rounding

namespace ReadCache

namespace Binary64

def rounded (n : Nat) : Nat := divEven n (2 ^ (n.log2 - 52)) * 2 ^ (n.log2 - 52)

theorem rounded_of_le {n : Nat} (h : n.log2 ≤ 52) : rounded n = n := by
  have hdigits : n.log2 - 52 = 0 := Nat.sub_eq_zero_of_le h
  have hdiv := divEven_mul n Nat.one_pos
  rw [Nat.mul_one] at hdiv
  rw [rounded, hdigits, Nat.pow_zero, Nat.mul_one, hdiv]

theorem rounded_of_le_pow {n : Nat} (h : n ≤ 2 ^ 53) : rounded n = n := by
  rcases h.lt_or_eq with hlt | rfl
  · rcases Nat.eq_zero_or_pos n with rfl | hpos
    · decide
    · exact rounded_of_le (Nat.lt_succ_iff.1 ((Nat.log2_lt hpos.ne').2 hlt))
  · decide

theorem unitExponent_natural {n : Nat} (hn : 0 < n) : unitExponent n 1 = n.log2 - 52 := by
  have hone : (1 : Nat).log2 = 0 := by decide
  have hlog : ratioLog2 n 1 = n.log2 := by
    have hle := Nat.log2_self_le hn.ne'
    rw [ratioLog2, hone]
    refine if_neg ?_
    simpa using hle
  rw [unitExponent, hlog]
  omega

theorem significand_natural {n : Nat} (hn : 0 < n) :
    (significand n 1 * 2 ^ unitExponent n 1 : ℚ) = rounded n := by
  rw [significand, unitExponent_natural hn]
  rcases le_total n.log2 52 with hle | hle
  · obtain ⟨k, hk⟩ := Nat.exists_eq_add_of_le hle
    have hunit : (n.log2 - 52 : Int) = -k := by omega
    have hdiv := divEven_mul (n * 2 ^ k) Nat.one_pos
    rw [Nat.mul_one] at hdiv
    rw [rounded_of_le hle, hunit, neg_neg, Int.toNat_natCast, Int.toNat_neg_natCast, pow_zero,
      Nat.mul_one, hdiv, zpow_neg, zpow_natCast]
    push_cast
    field_simp
  · obtain ⟨k, hk⟩ := Nat.exists_eq_add_of_le hle
    have hunit : (n.log2 - 52 : Int) = k := by omega
    rw [hunit, rounded, hk]
    simp

theorem rounds_natural {n : Nat} (hn : 0 < n) :
    ∃ m e, Rounds n m e ∧ 0 < m ∧ (m * 2 ^ e : ℚ) = rounded n := by
  have h := rounds_quotient hn Nat.one_pos
  have hlarge : 2 ^ 52 ≤ significand n 1 := by
    refine h.le_significand.resolve_left ?_
    rw [unitExponent_natural hn]
    omega
  rw [Nat.cast_one, div_one] at h
  exact ⟨_, _, h, by omega, significand_natural hn⟩

theorem holds_ofNat {n : Nat} (hn : 0 < n) (hlt : n < UInt64.size) : (ofNat n).Holds (rounded n) := by
  have hsmall : (n / (1 : Nat) : ℚ) ≤ 2 ^ 64 := by
    rw [Nat.cast_one, div_one]
    exact_mod_cast Nat.le_of_lt hlt
  rw [← significand_natural hn]
  exact holds_nearest hn Nat.one_pos hsmall

theorem below_one {m : Nat} {e : Int} (hm : m < 2 ^ 53) (he : e ≤ -53) :
    (m * 2 ^ e : ℚ) ≤ 1 - 2 ^ (-53 : Int) := by
  have hsmall : (m : ℚ) ≤ 2 ^ 53 - 1 := by
    rw [le_sub_iff_add_le]
    exact_mod_cast hm
  calc (m * 2 ^ e : ℚ) ≤ (2 ^ 53 - 1) * 2 ^ (-53 : Int) :=
        mul_le_mul hsmall (zpow_le_zpow_right₀ one_le_two he) (two_zpow_pos e).le (by norm_num)
    _ = 1 - 2 ^ (-53 : Int) := by norm_num

theorem holds_of_inUnitInterval {x : Binary64} (h : x.inUnitInterval = true) :
    x = one ∨ ∃ v, x.Holds v ∧ 0 < v ∧ v ≤ 1 - 2 ^ (-53 : Int) := by
  simp only [inUnitInterval, Bool.and_eq_true, decide_eq_true_eq] at h
  obtain ⟨hpos, hle⟩ := h
  have hpos' : 0 < x.bits.toNat := UInt64.lt_iff_toNat_lt.1 hpos
  have hle' : x.bits.toNat ≤ 1023 * 2 ^ 52 := UInt64.le_iff_toNat_le.1 hle
  rcases hle'.eq_or_lt with heq | hlt
  · left
    have hbits : x.bits = one.bits := UInt64.toNat_inj.1 heq
    cases x
    exact congrArg Binary64.mk hbits
  right
  obtain ⟨field, fraction, hx, hfraction⟩ :
      ∃ field fraction, x.bits.toNat = field * 2 ^ 52 + fraction ∧ fraction < 2 ^ 52 :=
    ⟨x.bits.toNat / 2 ^ 52, x.bits.toNat % 2 ^ 52, by omega, Nat.mod_lt _ (by decide)⟩
  have hfield : field ≤ 1022 := by omega
  have hholds := holds_of_fields field fraction hx hfraction (by omega)
  split at hholds
  · have hsome : (0 : ℚ) < fraction := by exact_mod_cast (by omega : 0 < fraction)
    exact ⟨_, hholds, mul_pos hsome (two_zpow_pos _), below_one (by omega) (by omega)⟩
  · have hsome : (0 : ℚ) < (2 ^ 52 + fraction : Nat) := by positivity
    exact ⟨_, hholds, mul_pos hsome (two_zpow_pos _), below_one (by omega) (by omega)⟩

theorem holds_one : one.Holds 1 := by
  have hbits : one.bits.toNat = 1023 * 2 ^ 52 + 0 := rfl
  have h := holds_of_fields 1023 0 hbits (by decide) (by decide)
  rw [if_neg (by decide)] at h
  convert h using 1
  norm_num

namespace Rounds

theorem unit_of_up {n m : Nat} {e : Int} (h : Rounds n m e) (hup : (n : ℚ) < m * 2 ^ e) :
    0 < e ∧ 2 ^ 52 < m := by
  have hpos := two_zpow_pos e
  have he : 0 < e := by
    by_contra hle
    obtain ⟨k, hk⟩ := Int.eq_ofNat_of_zero_le (by omega : 0 ≤ -e)
    obtain rfl : e = -k := by omega
    have hwhole : (n : ℚ) = (n * 2 ^ k : Nat) * 2 ^ (-k : Int) := by
      rw [zpow_neg, zpow_natCast]
      push_cast
      field_simp
    have hm := h.eq_of_eq hwhole
    rw [hm, ← hwhole] at hup
    exact lt_irrefl _ hup
  refine ⟨he, ?_⟩
  have hunit : (2 : ℚ) ^ (e + (52 : Nat)) ≤ n := h.unit.resolve_left (by omega)
  rw [two_zpow_add] at hunit
  have hless : ((2 ^ 52 : Nat) : ℚ) < m := lt_of_mul_lt_mul_right (hunit.trans_lt hup) hpos.le
  exact_mod_cast hless

/-- A number is rounded, and a part of it, with a factor below one, is rounded again. Whatever the
first rounding added is gone then. -/
theorem part_le {n m k : Nat} {e f : Int} {v : ℚ} (hn : Rounds n m e)
    (hp : Rounds (m * 2 ^ e * v) k f) (hv : v ≤ 1 - 2 ^ (-53 : Int)) :
    (k * 2 ^ f : ℚ) ≤ n := by
  have hpos := two_zpow_pos e
  have hhalf : (2 : ℚ) ^ (e - 1) = 2 ^ e / 2 := zpow_sub_one₀ two_ne_zero e
  have hpart : (m * 2 ^ e * v : ℚ) ≤ m * 2 ^ e - m * 2 ^ e / 2 ^ 53 := by
    calc (m * 2 ^ e * v : ℚ) ≤ m * 2 ^ e * (1 - 2 ^ (-53 : Int)) :=
          mul_le_mul_of_nonneg_left hv (by positivity)
      _ = m * 2 ^ e - m * 2 ^ e / 2 ^ 53 := by
        rw [zpow_neg]
        norm_cast
        ring
  have hle : (m * 2 ^ e * v : ℚ) ≤ m * 2 ^ e := hpart.trans (sub_le_self _ (by positivity))
  -- The part is no larger than the number, so its unit is no coarser.
  have hfe : f ≤ e := by
    rcases hp.unit with rfl | hunit
    · exact hn.low
    have hm : (m * 2 ^ e : ℚ) ≤ 2 ^ 53 * 2 ^ e :=
      mul_le_mul_of_nonneg_right (by exact_mod_cast hn.significand_le) hpos.le
    have hwide : (2 : ℚ) ^ (f + 52) < 2 ^ (e + (53 : Nat)) := by
      rw [two_zpow_add]
      push_cast
      linarith
    rw [zpow_lt_zpow_iff_right₀ one_lt_two] at hwide
    omega
  rcases le_or_gt (m * 2 ^ e : ℚ) n with hdown | hup
  · exact (hp.mul_le_of_le hfe hle).trans hdown
  -- Rounded up, the number is above a middle, and the part lies below that middle.
  obtain ⟨he, hm⟩ := hn.unit_of_up hup
  have hmiddle : (m * 2 ^ e - 2 ^ e / 2 : ℚ) ≤ n := by linarith [(abs_le.1 hn.near).2]
  have hmany : (2 ^ 52 * 2 ^ e : ℚ) < m * 2 ^ e :=
    mul_lt_mul_of_pos_right (by exact_mod_cast hm) hpos
  have hless : (m * 2 ^ e * v : ℚ) < m * 2 ^ e - 2 ^ e / 2 := by linarith
  rcases hfe.eq_or_lt with rfl | hfine
  · -- With the same unit the part is rounded to a multiple below.
    have hbelow : ((m - 1 : Nat) : ℚ) = m - 1 := Nat.cast_pred (by omega)
    have hk : k ≤ m - 1 := hp.le_of_lt (by rw [hbelow]; linarith)
    have hk' : (k * 2 ^ f : ℚ) ≤ (m - 1 : Nat) * 2 ^ f :=
      mul_le_mul_of_nonneg_right (by exact_mod_cast hk) hpos.le
    rw [hbelow] at hk'
    linarith
  · -- With a finer one, the middle is a multiple itself.
    have hodd : ((2 * m - 1 : Nat) : ℚ) = 2 * m - 1 := by
      rw [Nat.cast_pred (by omega)]
      push_cast
      rfl
    have hk := hp.mul_le_of_le (n := 2 * m - 1) (f := e - 1) (by omega)
      (by rw [hodd, hhalf]; linarith)
    rw [hodd, hhalf] at hk
    linarith

end Rounds
end Binary64

namespace EvictionPolicy
open Binary64

variable {p : EvictionPolicy}

theorem targetWeight_zero (h : p.lowWatermark.inUnitInterval = true) : p.targetWeight 0 = 0 := by
  have hholds : ∃ v, p.lowWatermark.Holds v := by
    rcases holds_of_inUnitInterval h with he | ⟨v, hv, -⟩
    · exact ⟨1, he ▸ holds_one⟩
    · exact ⟨v, hv⟩
  obtain ⟨v, hv⟩ := hholds
  have hzero : Binary64.ofNat (0 : UInt64).toNat = .zero := rfl
  have hnone := holds_zero.toNat_toWord
  rw [Nat.floor_zero, Nat.zero_min] at hnone
  rw [targetWeight, hzero, hv.zero_mul]
  exact UInt64.toNat_inj.1 hnone

theorem targetWeight_holds {v : ℚ} (hv : p.lowWatermark.Holds v) (hpos : 0 < v) (hone : v ≤ 1)
    {capacity : UInt64} (hsome : 0 < capacity.toNat) :
    ∃ m e k f, Rounds capacity.toNat m e ∧ (m * 2 ^ e : ℚ) = rounded capacity.toNat ∧
      Rounds (m * 2 ^ e * v) k f ∧
      (p.targetWeight capacity).toNat = min ⌊(k * 2 ^ f : ℚ)⌋₊ (UInt64.size - 1) := by
  obtain ⟨m, e, hrounds, hm, hvalue⟩ := rounds_natural hsome
  have hword : (capacity.toNat : ℚ) ≤ 2 ^ 64 := by exact_mod_cast capacity.toNat_lt.le
  have hfactor : (0 : ℚ) < m * 2 ^ e := mul_pos (by exact_mod_cast hm) (two_zpow_pos e)
  have hpart : (m * 2 ^ e * v : ℚ) ≤ 2 ^ 64 :=
    (mul_le_of_le_one_right hfactor.le hone).trans (hrounds.le_two_pow hword)
  have hcapacity := holds_ofNat hsome capacity.toNat_lt
  rw [← hvalue] at hcapacity
  obtain ⟨k, f, hagain, hholds⟩ := hcapacity.mul hv hfactor hpos hpart
  exact ⟨m, e, k, f, hrounds, hvalue, hagain, hholds.toNat_toWord⟩

theorem targetWeight_le (h : p.lowWatermark.inUnitInterval = true) (hone : p.lowWatermark ≠ .one)
    (capacity : UInt64) : p.targetWeight capacity ≤ capacity := by
  rcases Nat.eq_zero_or_pos capacity.toNat with hzero | hsome
  · obtain rfl : capacity = 0 := UInt64.toNat_inj.1 hzero
    rw [targetWeight_zero h]
    exact UInt64.le_refl 0
  obtain ⟨v, hv, hpos, hle⟩ := (holds_of_inUnitInterval h).resolve_left hone
  have hmost : v ≤ 1 := hle.trans (sub_le_self _ (two_zpow_pos _).le)
  obtain ⟨m, e, k, f, hrounds, -, hagain, htarget⟩ := targetWeight_holds hv hpos hmost hsome
  rw [UInt64.le_iff_toNat_le, htarget]
  exact (Nat.min_le_left _ _).trans (Nat.floor_le_of_le (hrounds.part_le hagain hle))

theorem toNat_targetWeight_of_one (h : p.lowWatermark = .one) (capacity : UInt64) :
    (p.targetWeight capacity).toNat = min (rounded capacity.toNat) (UInt64.size - 1) := by
  rcases Nat.eq_zero_or_pos capacity.toNat with hzero | hsome
  · obtain rfl : capacity = 0 := UInt64.toNat_inj.1 hzero
    rw [targetWeight_zero (by rw [h]; decide)]
    rfl
  obtain ⟨m, e, k, f, hrounds, hvalue, hagain, htarget⟩ :=
    targetWeight_holds (h ▸ holds_one) one_pos le_rfl hsome
  rw [mul_one] at hagain
  rw [htarget, hrounds.again hagain, hvalue, Nat.floor_natCast]

end EvictionPolicy

namespace Config
open Binary64

theorem inUnitInterval_of_validate {c : Config} (h : c.validate = .ok ()) :
    c.eviction.lowWatermark.inUnitInterval = true := by
  simp only [validate, EvictionPolicy.validate] at h
  split at h
  · cases h
  split at h
  · cases h
  split at h
  · cases h
  split at h
  · cases h
  · rename_i hmark
    simpa using hmark

/-- A valid configuration has its evictions go down to the capacity or below, but where the
watermark is one and the capacity, rounded to 53 binary digits and cut at the largest word, is more
than it was. No capacity of up to `2 ^ 53` bytes is. -/
theorem target_within_capacity (c : Config) (h : c.validate = .ok ()) :
    (c.eviction.targetWeight c.capacity ≤ c.capacity ↔ (c.eviction.lowWatermark = .one →
      min (rounded c.capacity.toNat) (UInt64.size - 1) ≤ c.capacity.toNat)) ∧
    (c.capacity.toNat ≤ 2 ^ 53 → c.eviction.targetWeight c.capacity ≤ c.capacity) := by
  have hmark := inUnitInterval_of_validate h
  have hiff : c.eviction.targetWeight c.capacity ≤ c.capacity ↔ (c.eviction.lowWatermark = .one →
      min (rounded c.capacity.toNat) (UInt64.size - 1) ≤ c.capacity.toNat) := by
    constructor
    · intro hle hone
      rw [← EvictionPolicy.toNat_targetWeight_of_one hone]
      exact UInt64.le_iff_toNat_le.1 hle
    · intro hrounded
      by_cases hone : c.eviction.lowWatermark = .one
      · rw [UInt64.le_iff_toNat_le, EvictionPolicy.toNat_targetWeight_of_one hone]
        exact hrounded hone
      · exact EvictionPolicy.targetWeight_le hmark hone c.capacity
  refine ⟨hiff, fun hsmall ↦ hiff.2 fun _ ↦ ?_⟩
  rw [rounded_of_le_pow hsmall]
  exact Nat.min_le_left _ _

theorem target_within_capacity_strict :
    let c : Config := { withCapacityBytes 9007199254740993 with eviction := .strict }
    c.validate = .ok () ∧ c.eviction.targetWeight c.capacity ≤ c.capacity := by
  intro c
  have hvalid : c.validate = .ok () := by decide
  exact ⟨hvalid, (target_within_capacity c hvalid).1.2 fun _ ↦ by decide⟩

/-- The next odd capacity is rounded up, and the strict policy stops one byte above it. -/
theorem target_above_capacity :
    let c : Config := { withCapacityBytes 9007199254740995 with eviction := .strict }
    c.validate = .ok () ∧ c.capacity = 9007199254740995 ∧
      c.eviction.targetWeight c.capacity = 9007199254740996 ∧
      ¬ c.eviction.targetWeight c.capacity ≤ c.capacity := by
  decide

end Config
end ReadCache
