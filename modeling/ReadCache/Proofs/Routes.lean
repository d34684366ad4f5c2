import Mathlib
import ReadCache.Proofs.ShortReads
import ReadCache.Scan.Run

namespace ReadCache

namespace Word

def add? (a b : UInt64) : Option UInt64 :=
  if a.toNat + b.toNat < UInt64.size then some (a + b) else none

def sub? (a b : UInt64) : Option UInt64 := if b ≤ a then some (a - b) else none

def mul? (a b : UInt64) : Option UInt64 :=
  if a.toNat * b.toNat < UInt64.size then some (a * b) else none

def mod? (a b : UInt64) : Option UInt64 := if b = 0 then none else some (a % b)

def divUp? (a b : UInt64) : Option UInt64 :=
  if b = 0 then none else if a % b = 0 then some (a / b) else add? (a / b) 1

theorem add?_eq {a b : UInt64} (h : a.toNat + b.toNat < UInt64.size) :
    ∃ c, add? a b = some c ∧ c.toNat = a.toNat + b.toNat := by
  refine ⟨a + b, if_pos h, ?_⟩
  rw [UInt64.toNat_add]
  exact Nat.mod_eq_of_lt h

theorem sub?_eq {a b : UInt64} (h : b.toNat ≤ a.toNat) :
    ∃ c, sub? a b = some c ∧ c.toNat = a.toNat - b.toNat := by
  have hle : b ≤ a := UInt64.le_iff_toNat_le.2 h
  exact ⟨a - b, if_pos hle, UInt64.toNat_sub_of_le a b hle⟩

theorem mul?_eq {a b : UInt64} (h : a.toNat * b.toNat < UInt64.size) :
    ∃ c, mul? a b = some c ∧ c.toNat = a.toNat * b.toNat := by
  refine ⟨a * b, if_pos h, ?_⟩
  rw [UInt64.toNat_mul]
  exact Nat.mod_eq_of_lt h

theorem ne_zero_of_pos {a : UInt64} (h : 0 < a.toNat) : a ≠ 0 := by
  rintro rfl
  exact absurd h (by decide)

theorem mod?_eq {a b : UInt64} (h : 0 < b.toNat) :
    ∃ c, mod? a b = some c ∧ c.toNat = a.toNat % b.toNat :=
  ⟨a % b, if_neg (ne_zero_of_pos h), UInt64.toNat_mod a b⟩

theorem divUp?_eq {a b : UInt64} (h : 0 < b.toNat) (ha : a.toNat + b.toNat < UInt64.size) :
    ∃ c, divUp? a b = some c ∧ c.toNat = (a.toNat + b.toNat - 1) / b.toNat := by
  have hb := ne_zero_of_pos h
  have hdiv := Nat.div_add_mod a.toNat b.toNat
  have hless := Nat.mod_lt a.toNat h
  rw [divUp?, if_neg hb]
  by_cases hmod : a % b = 0
  · have hzero : a.toNat % b.toNat = 0 := by
      rw [← UInt64.toNat_mod, hmod]
      rfl
    refine ⟨a / b, if_pos hmod, ?_⟩
    rw [UInt64.toNat_div]
    refine (Nat.div_eq_of_lt_le ?_ ?_).symm
    · rw [Nat.mul_comm]
      omega
    · rw [Nat.add_mul, Nat.mul_comm]
      omega
  · have hpos : a.toNat % b.toNat ≠ 0 := by
      intro he
      exact hmod (UInt64.toNat_inj.1 (by rw [UInt64.toNat_mod, he]; rfl))
    have hquotient : (a / b).toNat = a.toNat / b.toNat := UInt64.toNat_div a b
    have hle := Nat.div_le_self a.toNat b.toNat
    have hone : (1 : UInt64).toNat = 1 := rfl
    have hnext : (a / b).toNat + (1 : UInt64).toNat < UInt64.size := by
      rw [hquotient, hone]
      omega
    obtain ⟨c, hc, hsum⟩ := add?_eq hnext
    refine ⟨c, by rw [if_neg hmod, hc], ?_⟩
    rw [hsum, hquotient, hone]
    refine (Nat.div_eq_of_lt_le ?_ ?_).symm
    · rw [Nat.add_mul, Nat.mul_comm]
      omega
    · rw [Nat.add_mul, Nat.add_mul, Nat.mul_comm]
      omega

end Word

namespace Scan
variable {length step : Nat}

theorem lt_chunkCount (hstep : 0 < step) (n : Nat) :
    n < chunkCount length step ↔ n * step < length := by
  rw [chunkCount, Nat.lt_iff_add_one_le, Nat.le_div_iff_mul_le hstep, Nat.add_mul]
  omega

theorem position_mem (hstep : 0 < step) (worker : Nat) {i : Nat}
    (hi : i < chunkCount length step) :
    (i + worker) % chunkCount length step * step ≤ position length step worker i ∧
      position length step worker i < length ∧
      position length step worker i < (i + worker) % chunkCount length step * step + step := by
  have hchunk := (lt_chunkCount hstep _).1 (Nat.mod_lt (i + worker) (Nat.zero_lt_of_lt hi))
  have hoffset := Nat.mod_lt worker hstep
  simp only [position]
  omega

theorem start_position (hstep : 0 < step) (worker : Nat) {i : Nat}
    (hi : i < chunkCount length step) :
    position length step worker i - position length step worker i % step =
      (i + worker) % chunkCount length step * step := by
  obtain ⟨hle, -, hlt⟩ := position_mem hstep worker hi
  have hquotient : position length step worker i / step =
      (i + worker) % chunkCount length step := by
    refine Nat.div_eq_of_lt_le hle ?_
    rw [Nat.add_mul]
    omega
  rw [← Nat.div_mul_self_eq_mod_sub_self, hquotient]

def visits (length step worker : Nat) : List Nat :=
  (List.range (chunkCount length step)).map (position length step worker)

theorem rotate_range (n k : Nat) :
    (List.range n).map (fun i ↦ (i + k) % n) = (List.range n).rotate k := by
  apply List.ext_getElem
  · simp
  · intro i h h'
    simp [List.getElem_rotate]

theorem starts_perm (hstep : 0 < step) (worker : Nat) :
    ((visits length step worker).map fun p ↦ p - p % step).Perm
      ((List.range (chunkCount length step)).map (· * step)) := by
  have hstarts : (visits length step worker).map (fun p ↦ p - p % step) =
      ((List.range (chunkCount length step)).map
        fun i ↦ (i + worker) % chunkCount length step).map (· * step) := by
    rw [visits, List.map_map, List.map_map]
    apply List.map_congr_left
    intro i hi
    exact start_position hstep worker (List.mem_range.1 hi)
  rw [hstarts, rotate_range]
  exact (List.rotate_perm _ _).map _

/-- The starts of the chunks that a worker reads are the multiples of the chunk size within the
file, and each comes once. -/
theorem starts_visits (hstep : 0 < step) (worker : Nat) :
    ((visits length step worker).map fun p ↦ p - p % step).Nodup ∧
      ∀ n, n ∈ (visits length step worker).map (fun p ↦ p - p % step) ↔ step ∣ n ∧ n < length := by
  have hperm : ((visits length step worker).map fun p ↦ p - p % step).Perm
      ((List.range (chunkCount length step)).map (· * step)) := starts_perm hstep worker
  constructor
  · rw [hperm.nodup_iff]
    apply List.nodup_range.map
    intro m n he
    exact Nat.eq_of_mul_eq_mul_right hstep he
  · intro n
    rw [hperm.mem_iff, List.mem_map]
    constructor
    · rintro ⟨m, hm, rfl⟩
      exact ⟨Nat.dvd_mul_left _ _, (lt_chunkCount hstep m).1 (List.mem_range.1 hm)⟩
    · rintro ⟨⟨m, rfl⟩, hlt⟩
      rw [Nat.mul_comm] at hlt ⊢
      exact ⟨m, List.mem_range.2 ((lt_chunkCount hstep m).2 hlt), rfl⟩

theorem lt_of_mem_visits (hstep : 0 < step) {worker p : Nat}
    (hp : p ∈ visits length step worker) : p < length := by
  obtain ⟨i, hi, rfl⟩ := List.mem_map.1 hp
  exact (position_mem hstep worker (List.mem_range.1 hi)).2.1

def chunkSize (length step start : Nat) : Nat := min (start + step) length - start

theorem sum_chunkSize_range (step : Nat) (n : Nat) :
    ((List.range n).map fun m ↦ chunkSize length step (m * step)).sum = min (n * step) length := by
  induction n with
  | zero => simp
  | succ n ih =>
    rw [List.range_succ, List.map_append, List.sum_append, ih, List.map_singleton,
      List.sum_singleton, chunkSize, Nat.add_mul]
    omega

theorem sum_chunkSize (hstep : 0 < step) (worker : Nat) :
    ((visits length step worker).map fun p ↦ chunkSize length step (p - p % step)).sum =
      length := by
  have hperm : (((visits length step worker).map fun p ↦ p - p % step).map
        (chunkSize length step)).Perm
      (((List.range (chunkCount length step)).map (· * step)).map (chunkSize length step)) :=
    (starts_perm hstep worker).map _
  rw [List.map_map, List.map_map] at hperm
  have hall : length ≤ chunkCount length step * step := by
    by_contra hmore
    exact Nat.lt_irrefl _ ((lt_chunkCount hstep _).2 (Nat.lt_of_not_le hmore))
  calc ((visits length step worker).map fun p ↦ chunkSize length step (p - p % step)).sum
      = ((List.range (chunkCount length step)).map
          fun m ↦ chunkSize length step (m * step)).sum := hperm.sum_nat
    _ = min (chunkCount length step * step) length := sum_chunkSize_range step _
    _ = length := Nat.min_eq_right hall

/-- A position as it is computed in words, each operation of which may fail. -/
def position? (length step worker i : UInt64) : Option UInt64 := do
  let chunks ← Word.divUp? length step
  let chunk ← Word.mod? (← Word.add? i worker) chunks
  let position ← Word.add? (← Word.mul? chunk step) (← Word.mod? worker step)
  let last ← Word.sub? length 1
  return if position ≤ last then position else last

/-- No word overflows, no difference is negative and nothing is divided by zero. -/
theorem position?_eq {length step worker i : UInt64} (hlength : length.toNat < 2 ^ 63)
    (hworker : worker.toNat < 2 ^ 63) (hstep : isPowerOfTwo step = true)
    (hi : i.toNat < chunkCount length.toNat step.toNat) :
    ∃ p, position? length step worker i = some p ∧
      p.toNat = position length.toNat step.toNat worker.toNat i.toNat := by
  obtain ⟨k, hk, hpow⟩ := Reader.toNat_of_isPowerOfTwo hstep
  have hpos : 0 < step.toNat := hpow ▸ Nat.two_pow_pos k
  have hle : step.toNat ≤ 2 ^ 63 := hpow ▸ Nat.pow_le_pow_right Nat.two_pos (Nat.le_of_lt_succ hk)
  have hword : UInt64.size = 2 ^ 63 + 2 ^ 63 := rfl
  have hone : (1 : UInt64).toNat = 1 := rfl
  have hrounded : length.toNat + step.toNat < UInt64.size := by omega
  obtain ⟨chunks, hchunks, hcount⟩ := Word.divUp?_eq hpos hrounded
  replace hcount : chunks.toNat = chunkCount length.toNat step.toNat := hcount
  have hturn : i.toNat + worker.toNat < UInt64.size := by
    have hfirst := (lt_chunkCount hpos i.toNat).1 hi
    have hself := Nat.le_mul_of_pos_right i.toNat hpos
    omega
  obtain ⟨sum, hsum, hsumNat⟩ := Word.add?_eq hturn
  have hsome : 0 < chunks.toNat := by omega
  obtain ⟨chunk, hchunk, hchunkNat⟩ : ∃ c, Word.mod? sum chunks = some c ∧
      c.toNat = sum.toNat % chunks.toNat := Word.mod?_eq hsome
  have hinside : chunk.toNat * step.toNat < length.toNat := by
    rw [hchunkNat, hsumNat, hcount]
    exact (lt_chunkCount hpos _).1 (Nat.mod_lt _ (Nat.zero_lt_of_lt hi))
  have hstartWord : chunk.toNat * step.toNat < UInt64.size := by omega
  obtain ⟨start, hstart, hstartNat⟩ := Word.mul?_eq hstartWord
  obtain ⟨offset, hoffset, hoffsetNat⟩ : ∃ c, Word.mod? worker step = some c ∧
      c.toNat = worker.toNat % step.toNat := Word.mod?_eq hpos
  have hoffsetLt := Nat.mod_lt worker.toNat hpos
  have hwantedWord : start.toNat + offset.toNat < UInt64.size := by omega
  obtain ⟨wanted, hwanted, hwantedNat⟩ := Word.add?_eq hwantedWord
  have hsomeByte : (1 : UInt64).toNat ≤ length.toNat := by omega
  obtain ⟨last, hlast, hlastNat⟩ := Word.sub?_eq hsomeByte
  refine ⟨if wanted ≤ last then wanted else last, ?_, ?_⟩
  · simp only [position?, hchunks, hsum, hchunk, hstart, hoffset, hwanted, hlast,
      Option.bind_eq_bind, Option.bind_some, Option.pure_def]
  · rw [position, ← hcount, ← hsumNat, ← hchunkNat, ← hoffsetNat, ← hstartNat, ← hwantedNat,
      ← hone, ← hlastNat]
    split
    · rename_i hless
      exact (Nat.min_eq_left (UInt64.le_iff_toNat_le.1 hless)).symm
    · rename_i hless
      rw [UInt64.le_iff_toNat_le] at hless
      exact (Nat.min_eq_right (Nat.le_of_not_le hless)).symm

/-- The comparison of a chunk accepts it only if the file has those bytes there, and then does
unless one of its own reads fails. -/
structure Compares (source : ByteSource) (data : ByteArray) (start : UInt64) (bytes : ByteArray) :
    Prop where
  sound : verify source start bytes = .ok () →
    bytes = data.extract start.toNat (start.toNat + bytes.size)
  complete : source.Delivers data → Reader.Unbroken source start bytes.size →
    bytes = data.extract start.toNat (start.toNat + bytes.size) → verify source start bytes = .ok ()

theorem compares_of_serves {source : ByteSource} {data : ByteArray} (hs : source.Serves data)
    {start : UInt64} {bytes : ByteArray} (hword : start.toNat + bytes.size < UInt64.size) :
    Compares source data start bytes where
  sound := by
    intro h
    cases hfill : Reader.fill source start bytes.size with
    | full expected =>
      simp only [verify, hfill] at h
      split at h
      · rename_i he
        have hexpected := Reader.fillFrom_full hs hword (by simp) (Nat.zero_le _) (by simp) hfill
        rw [← hexpected.2]
        exact (ByteArray.ext he).symm
      · cases h
    | short | broken => simp [verify, hfill] at h
  complete := by
    intro hdelivers hunbroken hbytes
    rcases Nat.eq_zero_or_pos bytes.size with hzero | hpos
    · have hempty : bytes = ByteArray.empty := ByteArray.size_eq_zero_iff.1 hzero
      subst hempty
      rfl
    have hinside : start.toNat + bytes.size ≤ data.size := by
      have hsize := congrArg ByteArray.size hbytes
      rw [ByteArray.size_extract] at hsize
      omega
    have hstart : Reader.Passes source start bytes.size ByteArray.empty.size := .start
    have hending := Reader.fillFrom_ending hdelivers hword hpos hstart
      (Nat.le_add_left bytes.size _) hunbroken (.inl rfl)
    obtain ⟨-, expected, hfill⟩ | ⟨hend, -⟩ := hending
    · have hexpected := Reader.fillFrom_full hs hword (by simp) (Nat.zero_le _) (by simp) hfill
      have hsame : expected.data = bytes.data := by rw [hexpected.2, ← hbytes]
      simp only [verify, Reader.fill, hfill, hsame, if_true]
    · omega

end Scan
end ReadCache
