import Mathlib
import ReadCache.Access

namespace ReadCache

namespace ByteSource

/-- A source of these bytes: a read gives a piece of them, if anything, from its position on and no
longer than asked for. -/
def Serves (s : ByteSource) (data : ByteArray) : Prop :=
  ∀ position length piece, s.readAt position length = .ok piece →
    piece.size ≤ length ∧ piece = data.extract position.toNat (position.toNat + piece.size)

variable {s : ByteSource} {data : ByteArray}

theorem slice_eq (data : ByteArray) (position length : Nat) :
    (slice data position length).size ≤ length ∧ slice data position length =
      data.extract position (position + (slice data position length).size) := by
  have hsize : (slice data position length).size =
      min (position + length) data.size - position := by
    simp [slice]
  refine ⟨by omega, ?_⟩
  rw [hsize, slice]
  by_cases h : position ≤ min (position + length) data.size
  · rw [Nat.add_sub_cancel' h]
  · rw [Nat.sub_eq_zero_of_le (Nat.le_of_not_le h), Nat.add_zero, ByteArray.extract_same,
      ByteArray.extract_eq_empty_iff]
    omega

theorem serves_ofMemory (path : String) (data : ByteArray) : (ofMemory path data).Serves data := by
  intro position length piece h
  cases h
  exact slice_eq data position.toNat length

theorem serves_ofFile (path : String) (data : ByteArray) : (ofFile path data).Serves data := by
  intro position length piece h
  simp only [ofFile] at h
  split at h
  · cases h
  · cases h
    exact slice_eq data position.toNat length

theorem Serves.atMost (h : s.Serves data) (most : Nat) : (s.atMost most).Serves data := by
  intro position length piece he
  obtain ⟨hle, heq⟩ := h position (min length most) piece he
  exact ⟨Nat.le_trans hle (Nat.min_le_left _ _), heq⟩

theorem Serves.failingFrom (h : s.Serves data) (start : UInt64) (e : Error) :
    (s.failingFrom start e).Serves data := by
  intro position length piece he
  simp only [ByteSource.failingFrom] at he
  split at he
  · cases he
  · exact h position length piece he

end ByteSource

namespace Reader
variable {data : ByteArray}

theorem fillFrom_full {source : ByteSource} (hs : source.Serves data) {position : UInt64}
    {length missing : Nat} {bytes result : ByteArray}
    (hp : position.toNat + length < 2 ^ 64)
    (hbytes : bytes = data.extract position.toNat (position.toNat + bytes.size))
    (hle : bytes.size ≤ length) (hm : length ≤ bytes.size + missing)
    (h : fillFrom source position length missing bytes = .full result) :
    result.size = length ∧ result = data.extract position.toNat (position.toNat + length) := by
  have hdone {bytes : ByteArray}
      (hbytes : bytes = data.extract position.toNat (position.toNat + bytes.size))
      (hle : bytes.size ≤ length) (hfull : length ≤ bytes.size) (he : bytes = result) :
      result.size = length ∧ result = data.extract position.toNat (position.toNat + length) := by
    subst he
    have hsize : bytes.size = length := Nat.le_antisymm hle hfull
    exact ⟨hsize, hsize ▸ hbytes⟩
  induction missing generalizing bytes with
  | zero => exact hdone hbytes hle hm (Filling.full.inj h)
  | succ missing ih =>
    simp only [fillFrom] at h
    split at h
    · rename_i hfull
      exact hdone hbytes hle hfull (Filling.full.inj h)
    rename_i hmore
    split at h
    · cases h
    rename_i piece hread
    split at h
    · cases h
    rename_i hsome
    have hat : (position + .ofNat bytes.size).toNat = position.toNat + bytes.size := by
      rw [UInt64.toNat_add, UInt64.toNat_ofNat_of_lt' (by simp only [UInt64.size]; omega)]
      exact Nat.mod_eq_of_lt (by omega)
    obtain ⟨hpiece, heq⟩ := hs _ _ _ hread
    rw [hat] at heq
    have hsize : (bytes ++ piece).size = bytes.size + piece.size := ByteArray.size_append
    have hboth : bytes ++ piece =
        data.extract position.toNat (position.toNat + (bytes ++ piece).size) := by
      have hjoin : bytes ++ piece =
          data.extract position.toNat (position.toNat + bytes.size) ++
            data.extract (position.toNat + bytes.size)
              (position.toNat + bytes.size + piece.size) := by
        rw [← hbytes, ← heq]
      rw [hjoin, ← hjoin, hsize, hjoin, ByteArray.extract_append_extract,
        Nat.min_eq_left (by omega), Nat.max_eq_right (by omega), Nat.add_assoc]
    exact ih hboth (by omega) (by omega) h

theorem readChunk_full {r : Reader} {position : UInt64} {b b' : Block}
    (hs : r.source.Serves data) (h : r.readChunk position b = (.ok (), b')) :
    b'.bytes.size = r.chunkLength position ∧ b'.bytes = data.extract position.toNat
      (min (position.toNat + r.chunkSize.toNat) r.length.toNat) := by
  simp only [readChunk] at h
  split at h
  · cases h
  split at h
  · cases h
  split at h
  · cases h
  rename_i hinside
  have hlt : position.toNat < r.length.toNat := by
    simpa only [UInt64.le_iff_toNat_le, Nat.not_le] using hinside
  have hlength := r.length.toNat_lt
  split at h
  · cases h
  split at h
  · rename_i bytes hfill
    cases h
    have hfull := fillFrom_full hs (by simp only [chunkLength]; omega) (by simp) (Nat.zero_le _)
      (by simp) hfill
    rw [show position.toNat + r.chunkLength position =
      min (position.toNat + r.chunkSize.toNat) r.length.toNat by
        simp only [chunkLength]
        omega] at hfull
    exact hfull
  · cases h
  · cases h

theorem readChunk_ok {r : Reader} {position : UInt64} {b b' : Block}
    (hs : r.source.Serves data) (h : r.readChunk position b = (.ok (), b')) :
    b'.bytes = data.extract position.toNat
      (min (position.toNat + r.chunkSize.toNat) r.length.toNat) := (readChunk_full hs h).2

theorem toNat_of_isPowerOfTwo {n : UInt64} (h : isPowerOfTwo n = true) :
    ∃ k < 64, n.toNat = 2 ^ k := by
  simp only [isPowerOfTwo, Bool.and_eq_true, decide_eq_true_eq] at h
  obtain ⟨hne, hand⟩ := h
  have hpos : n.toNat ≠ 0 := fun e ↦ hne (UInt64.toNat_inj.1 e)
  have hsub : (n - 1).toNat = n.toNat - 1 := by
    refine UInt64.toNat_sub_of_le n 1 (UInt64.le_iff_toNat_le.2 ?_)
    exact Nat.pos_of_ne_zero hpos
  have hzero := congrArg UInt64.toNat hand
  rw [UInt64.toNat_and, hsub] at hzero
  obtain ⟨k, hk⟩ := (Nat.and_sub_one_eq_zero_iff_isPowerOfTwo hpos).1 hzero
  refine ⟨k, ?_, hk⟩
  have hlt := n.toNat_lt
  rw [hk] at hlt
  exact (Nat.pow_lt_pow_iff_right (by decide)).1 hlt

theorem and_mask_eq {k x : Nat} (hk : k < 64) (hx : x < 2 ^ 64) :
    x &&& (2 ^ 64 - (2 ^ k - 1 + 1)) = x - x % 2 ^ k := by
  have hlow : 2 ^ k - 1 < 2 ^ 64 := by
    have h := Nat.pow_lt_pow_right (a := 2) (by decide) hk
    omega
  rw [← Nat.div_mul_self_eq_mod_sub_self]
  refine Nat.eq_of_testBit_eq fun i ↦ ?_
  rw [Nat.testBit_and, Nat.testBit_two_pow_sub_succ hlow, Nat.testBit_two_pow_sub_one,
    Nat.testBit_mul_two_pow, Nat.testBit_div_two_pow]
  by_cases hi : i < k
  · simp [hi, Nat.not_le.2 hi]
  · have hle : k ≤ i := Nat.not_lt.1 hi
    by_cases h64 : i < 64
    · simp [hi, hle, h64]
    · have hzero : x.testBit i = false := Nat.testBit_lt_two_pow
        (Nat.lt_of_lt_of_le hx (Nat.pow_le_pow_right (by decide) (Nat.not_lt.1 h64)))
      simp [hi, hle, h64, hzero]

end Reader

theorem Access.toNat_aligned {a : Access} (h : isPowerOfTwo a.reader.statedChunkSize = true)
    (position : UInt64) :
    (a.aligned position).toNat =
      position.toNat - position.toNat % a.reader.statedChunkSize.toNat := by
  obtain ⟨k, hk, hsize⟩ := Reader.toNat_of_isPowerOfTwo h
  have hsub : (a.reader.statedChunkSize - 1).toNat = 2 ^ k - 1 := by
    rw [← hsize]
    refine UInt64.toNat_sub_of_le _ 1 (UInt64.le_iff_toNat_le.2 ?_)
    rw [hsize]
    exact Nat.two_pow_pos k
  have hmask : a.mask.toNat = 2 ^ 64 - (2 ^ k - 1 + 1) := by
    rw [Access.mask, UInt64.toNat_not, hsub]
    simp only [UInt64.size]
    omega
  rw [Access.aligned, UInt64.toNat_and, hmask, Reader.and_mask_eq hk position.toNat_lt, hsize]

end ReadCache
