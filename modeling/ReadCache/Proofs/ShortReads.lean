import Mathlib
import ReadCache.Proofs.Reading

namespace ReadCache

namespace ByteSource

/-- A source of these bytes that gives at least one wherever there are more. It may fail. -/
structure Delivers (s : ByteSource) (data : ByteArray) : Prop where
  serves : s.Serves data
  progress : ∀ position length piece, s.readAt position length = .ok piece → 0 < length →
    position.toNat < data.size → piece.size ≠ 0

variable {s : ByteSource} {data : ByteArray}

theorem size_slice (data : ByteArray) (position length : Nat) :
    (slice data position length).size = min (position + length) data.size - position := by
  simp [slice]

theorem delivers_ofMemory (path : String) (data : ByteArray) :
    (ofMemory path data).Delivers data where
  serves := serves_ofMemory path data
  progress := by
    intro position length piece h hlength hposition
    cases h
    rw [size_slice]
    omega

theorem delivers_ofFile (path : String) (data : ByteArray) :
    (ofFile path data).Delivers data where
  serves := serves_ofFile path data
  progress := by
    intro position length piece h hlength hposition
    simp only [ofFile] at h
    split at h <;> cases h
    rw [size_slice]
    omega

theorem Delivers.atMost (h : s.Delivers data) {most : Nat} (hmost : 0 < most) :
    (s.atMost most).Delivers data where
  serves := h.serves.atMost most
  progress := by
    intro position length piece he hlength hposition
    exact h.progress position (min length most) piece he (by omega) hposition

theorem Delivers.failingFrom (h : s.Delivers data) (start : UInt64) (e : Error) :
    (s.failingFrom start e).Delivers data where
  serves := h.serves.failingFrom start e
  progress := by
    intro position length piece he hlength hposition
    simp only [ByteSource.failingFrom] at he
    split at he
    · cases he
    · exact h.progress position length piece he hlength hposition

theorem Serves.le_size (h : s.Serves data) {position : UInt64} {length : Nat} {piece : ByteArray}
    (he : s.readAt position length = .ok piece) (hsome : piece.size ≠ 0) :
    position.toNat + piece.size ≤ data.size := by
  obtain ⟨-, hpiece⟩ := h position length piece he
  have hsize := congrArg ByteArray.size hpiece
  rw [ByteArray.size_extract] at hsize
  omega

end ByteSource

namespace Reader

/-- Reading `length` bytes at a position, there comes a time when so many are there. -/
inductive Passes (source : ByteSource) (position : UInt64) (length : Nat) : Nat → Prop
  | start : Passes source position length 0
  | more {filled : Nat} {piece : ByteArray} : Passes source position length filled →
    filled < length → source.readAt (position + .ofNat filled) (length - filled) = .ok piece →
    piece.size ≠ 0 → Passes source position length (filled + piece.size)

def Unbroken (source : ByteSource) (position : UInt64) (length : Nat) : Prop :=
  ∀ filled, Passes source position length filled → filled < length →
    ∀ e, source.readAt (position + .ofNat filled) (length - filled) ≠ .error e

variable {source : ByteSource} {data : ByteArray} {position : UInt64} {length filled : Nat}

theorem toNat_add_filled (h : position.toNat + filled < UInt64.size) :
    (position + .ofNat filled).toNat = position.toNat + filled := by
  simp only [UInt64.size] at h
  rw [UInt64.toNat_add, UInt64.toNat_ofNat_of_lt' (by simp only [UInt64.size]; omega)]
  exact Nat.mod_eq_of_lt (by omega)

theorem Passes.le_length (h : Passes source position length filled)
    (hs : source.Serves data) : filled ≤ length := by
  induction h with
  | start => exact Nat.zero_le _
  | more _ hless hread _ _ =>
    obtain ⟨hpiece, -⟩ := hs _ _ _ hread
    omega

theorem Passes.fill_eq (h : Passes source position length filled) :
    ∃ bytes missing, bytes.size = filled ∧ length ≤ filled + missing ∧
      fill source position length = fillFrom source position length missing bytes := by
  induction h with
  | start => exact ⟨ByteArray.empty, length, rfl, by omega, rfl⟩
  | @more filled piece _ hless hread hsome ih =>
    obtain ⟨bytes, missing, hsize, hmissing, he⟩ := ih
    cases missing with
    | zero => omega
    | succ missing =>
      refine ⟨bytes ++ piece, missing, ?_, ?_, ?_⟩
      · rw [ByteArray.size_append, hsize]
      · omega
      · rw [he, fillFrom, if_neg (by omega), hsize, hread]
        exact if_neg hsome

theorem Passes.fill_broken (h : Passes source position length filled) (hless : filled < length)
    {e : Error} (he : source.readAt (position + .ofNat filled) (length - filled) = .error e) :
    ∃ bytes, fill source position length = .broken bytes e := by
  obtain ⟨bytes, missing, hsize, hmissing, hfill⟩ := h.fill_eq
  cases missing with
  | zero => omega
  | succ missing =>
    refine ⟨bytes, ?_⟩
    rw [hfill, fillFrom, if_neg (by omega), hsize, he]

/-- How the loop ends from some time on, unless a read fails: only what the data reach counts. -/
theorem fillFrom_ending (hs : source.Delivers data)
    (hword : position.toNat + length < UInt64.size) (hpos : 0 < length) {missing : Nat}
    {bytes : ByteArray} (hpasses : Passes source position length bytes.size)
    (hmissing : length ≤ bytes.size + missing) (hunbroken : Unbroken source position length)
    (hreach : bytes.size = 0 ∨ position.toNat + bytes.size ≤ data.size) :
    (position.toNat + length ≤ data.size ∧
      ∃ result, fillFrom source position length missing bytes = .full result) ∨
    (data.size < position.toNat + length ∧ ∃ result,
      fillFrom source position length missing bytes = .short result ∧
        result.size = data.size - position.toNat) := by
  have hle := hpasses.le_length hs.serves
  induction missing generalizing bytes with
  | zero => exact .inl ⟨by omega, bytes, rfl⟩
  | succ missing ih =>
    by_cases hfull : length ≤ bytes.size
    · exact .inl ⟨by omega, bytes, by rw [fillFrom, if_pos hfull]⟩
    have hless : bytes.size < length := Nat.lt_of_not_le hfull
    have hat : (position + .ofNat bytes.size).toNat = position.toNat + bytes.size :=
      toNat_add_filled (by omega)
    cases hread : source.readAt (position + .ofNat bytes.size) (length - bytes.size) with
    | error e => exact absurd hread (hunbroken _ hpasses hless e)
    | ok piece =>
      by_cases hnone : piece.size = 0
      · -- The data end here: before their end a read gives something.
        have hend : data.size ≤ position.toNat + bytes.size := by
          by_contra hmore
          exact hs.progress _ _ _ hread (by omega) (by omega) hnone
        refine .inr ⟨by omega, bytes, ?_, by omega⟩
        rw [fillFrom, if_neg hfull, hread]
        exact if_pos hnone
      · have hnext := hs.serves.le_size hread hnone
        have hsize : (bytes ++ piece).size = bytes.size + piece.size := ByteArray.size_append
        have hpasses' : Passes source position length (bytes ++ piece).size :=
          hsize ▸ hpasses.more hless hread hnone
        rw [fillFrom, if_neg hfull, hread]
        simp only [hnone, if_false]
        exact ih hpasses' (by omega) (.inr (by omega)) (hpasses'.le_length hs.serves)

def Fills (source : ByteSource) (position : UInt64) (length : Nat) : Prop :=
  ∀ filled, Passes source position length filled → filled < length →
    ∃ piece, source.readAt (position + .ofNat filled) (length - filled) = .ok piece ∧
      piece.size ≠ 0 ∧ piece.size ≤ length - filled

theorem fillFrom_of_fills {missing : Nat} {bytes : ByteArray}
    (h : Fills source position length) (hpasses : Passes source position length bytes.size)
    (hle : bytes.size ≤ length) (hmissing : length ≤ bytes.size + missing) :
    ∃ result, fillFrom source position length missing bytes = .full result ∧
      result.size = length := by
  induction missing generalizing bytes with
  | zero => exact ⟨bytes, rfl, Nat.le_antisymm hle hmissing⟩
  | succ missing ih =>
    by_cases hfull : length ≤ bytes.size
    · exact ⟨bytes, if_pos hfull, Nat.le_antisymm hle hfull⟩
    · have hless := Nat.lt_of_not_le hfull
      obtain ⟨piece, hread, hsome, hpiece⟩ := h _ hpasses hless
      have hsize : (bytes ++ piece).size = bytes.size + piece.size := ByteArray.size_append
      have hnext := hsize ▸ hpasses.more hless hread hsome
      obtain ⟨result, hresult, hlength⟩ := ih hnext (by omega) (by omega)
      refine ⟨result, ?_, hlength⟩
      rw [fillFrom, if_neg hfull, hread]
      simp only [hsome, if_false]
      exact hresult

theorem fills_of_delivers (hs : source.Delivers data) (hunbroken : Unbroken source position length)
    (hword : position.toNat + length < UInt64.size) (hreach : position.toNat + length ≤ data.size) :
    Fills source position length := by
  intro filled hpasses hless
  have hat : (position + .ofNat filled).toNat = position.toNat + filled :=
    toNat_add_filled (by omega)
  cases hread : source.readAt (position + .ofNat filled) (length - filled) with
  | error e => exact absurd hread (hunbroken _ hpasses hless e)
  | ok piece =>
    obtain ⟨hpiece, -⟩ := hs.serves _ _ _ hread
    exact ⟨piece, rfl, hs.progress _ _ _ hread (by omega) (by omega), hpiece⟩

variable {r : Reader}

theorem chunkLength_pos (hpow : isPowerOfTwo r.chunkSize = true) (hinside : position < r.length) :
    0 < r.chunkLength position := by
  obtain ⟨k, -, hk⟩ := toNat_of_isPowerOfTwo hpow
  have hlt := UInt64.lt_iff_toNat_lt.1 hinside
  have hsize := Nat.two_pow_pos k
  simp only [chunkLength]
  omega

theorem add_chunkLength_le (r : Reader) (hinside : position < r.length) :
    position.toNat + r.chunkLength position ≤ r.length.toNat := by
  have hlt := UInt64.lt_iff_toNat_lt.1 hinside
  simp only [chunkLength]
  omega

theorem readChunk_inside (haligned : position % r.chunkSize = 0) (hopen : r.closed = false)
    (hinside : position < r.length) (b : Block) (hfits : b.fits (r.chunkLength position) = true) :
    r.readChunk position b =
      match fill r.source position (r.chunkLength position) with
      | .full bytes => (.ok (), b.fill bytes)
      | .short bytes =>
        (.error (.error (r.endOfFile position bytes.size (r.chunkLength position))),
          { b with capacity := Block.grownCapacity b.capacity (r.chunkLength position) }.clear)
      | .broken bytes e =>
        (.error (.error e), b.fill (bytes ++ zeros (r.chunkLength position - bytes.size))) := by
  cases hfill : fill r.source position (r.chunkLength position) <;>
    simp only [readChunk, haligned, hopen, hfits, UInt64.not_le.2 hinside, hfill, ne_eq, not_true,
      if_false, Bool.false_eq_true, Bool.not_true]

theorem readChunk_unfit (haligned : position % r.chunkSize = 0) (hopen : r.closed = false)
    (hinside : position < r.length) (b : Block)
    (hfits : b.fits (r.chunkLength position) = false) :
    r.readChunk position b = (.error .panic, b.clear) := by
  simp only [readChunk, haligned, hopen, hfits, UInt64.not_le.2 hinside, ne_eq, not_true, if_false,
    Bool.false_eq_true, Bool.not_false, if_true]

theorem readChunk_of_fills (haligned : position % r.chunkSize = 0) (hopen : r.closed = false)
    (hinside : position < r.length)
    (hfills : Fills r.source position (r.chunkLength position)) {b : Block}
    (hroom : r.chunkLength position ≤ b.capacity) :
    ∃ bytes, bytes.size = r.chunkLength position ∧
      r.readChunk position b = (.ok (), { b with bytes }) := by
  have hempty : ByteArray.empty.size ≤ r.chunkLength position := Nat.zero_le _
  obtain ⟨bytes, hfill, hsize⟩ :=
    fillFrom_of_fills hfills .start hempty (Nat.le_add_left (r.chunkLength position) _)
  have hfits : b.fits (r.chunkLength position) = true := by simp [Block.fits, hroom]
  refine ⟨bytes, hsize, ?_⟩
  rw [readChunk_inside haligned hopen hinside b hfits, fill, hfill]
  simp only [Block.fill, Block.grownCapacity, hsize, if_pos hroom]

theorem readChunk_outside (haligned : position % r.chunkSize = 0) (houtside : r.length ≤ position)
    (b : Block) : r.readChunk position b = (.error (.error (if r.closed then .readerClosed r.path
      else .positionOutOfBounds r.path position r.length)), b) := by
  cases hclosed : r.closed <;> simp [readChunk, haligned, hclosed, houtside]

/-- What is read does not depend on how the source splits its answers. A closed reader says so, and
a position past the length is out of bounds; in an open reader a failing read on the way is the
answer as it is, and else the chunk is there if the data reach its end, and if not the error tells
how much of it they reach. The sums on the way stay within the length. -/
theorem readChunk_any_split (hs : r.source.Delivers data) (hpow : isPowerOfTwo r.chunkSize = true)
    (haligned : position % r.chunkSize = 0) (b : Block) :
    (r.closed = true → r.readChunk position b = (.error (.error (.readerClosed r.path)), b)) ∧
    (r.closed = false →
      (r.length ≤ position → r.readChunk position b =
        (.error (.error (.positionOutOfBounds r.path position r.length)), b)) ∧
      (position < r.length → b.fits (r.chunkLength position) = false →
        r.readChunk position b = (.error .panic, b.clear)) ∧
      (position < r.length → b.fits (r.chunkLength position) = true →
        (∀ filled, Passes r.source position (r.chunkLength position) filled →
          filled ≤ r.chunkLength position ∧ position.toNat + filled ≤ r.length.toNat) ∧
        (∀ filled, Passes r.source position (r.chunkLength position) filled →
          filled < r.chunkLength position →
          ∀ e, r.source.readAt (position + .ofNat filled) (r.chunkLength position - filled) =
            .error e →
          ∃ b', r.readChunk position b = (.error (.error e), b')) ∧
        (Unbroken r.source position (r.chunkLength position) →
          position.toNat + r.chunkLength position ≤ data.size →
          ∃ b', r.readChunk position b = (.ok (), b') ∧ b'.bytes =
            data.extract position.toNat (position.toNat + r.chunkLength position)) ∧
        (Unbroken r.source position (r.chunkLength position) →
          data.size < position.toNat + r.chunkLength position →
          ∃ b', r.readChunk position b =
            (.error (.error (r.endOfFile position (data.size - position.toNat)
              (r.chunkLength position))), b') ∧ b'.bytes = ByteArray.empty))) := by
  constructor
  · intro hclosed
    simp [readChunk, haligned, hclosed]
  intro hopen
  refine ⟨?_, ?_, ?_⟩
  · intro houtside
    simp [readChunk, haligned, hopen, houtside]
  · intro hinside hfits
    exact readChunk_unfit haligned hopen hinside b hfits
  intro hinside hfits
  have hbound := r.add_chunkLength_le hinside
  have hword : position.toNat + r.chunkLength position < UInt64.size :=
    Nat.lt_of_le_of_lt hbound r.length.toNat_lt
  have hread := readChunk_inside haligned hopen hinside b hfits
  have hstart : Passes r.source position (r.chunkLength position) ByteArray.empty.size := .start
  have hending := fillFrom_ending hs hword (chunkLength_pos hpow hinside) hstart
    (Nat.le_add_left (r.chunkLength position) _)
  refine ⟨?_, ?_, ?_, ?_⟩
  · intro filled h
    have hle := h.le_length hs.serves
    omega
  · intro filled h hless e he
    obtain ⟨bytes, hfill⟩ := h.fill_broken hless he
    rw [hread, hfill]
    exact ⟨_, rfl⟩
  · intro hunbroken hreach
    obtain ⟨-, result, hfill⟩ | ⟨hend, -⟩ := hending hunbroken (.inl rfl)
    · rw [hread, fill, hfill]
      refine ⟨_, rfl, ?_⟩
      exact (fillFrom_full hs.serves hword (by simp) (Nat.zero_le _) (by simp) hfill).2
    · omega
  · intro hunbroken hend
    obtain ⟨hreach, -⟩ | ⟨-, result, hfill, hsize⟩ := hending hunbroken (.inl rfl)
    · omega
    · rw [hread, fill, hfill, ← hsize]
      exact ⟨_, rfl, rfl⟩

theorem readChunk_any_split_pairs :
    ∃ r : Reader, withLength? ((ByteSource.ofMemory "five" ⟨#[1, 2, 3, 4, 5]⟩).atMost 2) 4 8 =
      .ok r ∧ ∃ b', r.readChunk 4 { id := 0, capacity := 4, bytes := ⟨#[9, 9]⟩ } =
        (.error (.error (.corruption "five" 4 "unexpected end of file after 1 of 4 bytes")), b') ∧
        b'.bytes = ByteArray.empty := by
  let r : Reader :=
    { source := (ByteSource.ofMemory "five" ⟨#[1, 2, 3, 4, 5]⟩).atMost 2
      chunkSize := 4
      length := 8
      bufferKind := .standard
      kind := simpleKind
      closed := false
      crcCheckChance := .one
      statedChunkSize := 4 }
  have hs : r.source.Delivers ⟨#[1, 2, 3, 4, 5]⟩ :=
    (ByteSource.delivers_ofMemory "five" _).atMost Nat.two_pos
  have hpow : isPowerOfTwo r.chunkSize = true := by decide
  have haligned : (4 : UInt64) % r.chunkSize = 0 := by decide
  have hopen := (readChunk_any_split hs hpow haligned
    { id := 0, capacity := 4, bytes := ⟨#[9, 9]⟩ }).2 rfl
  have htext : r.endOfFile 4 1 4 =
      .corruption "five" 4 "unexpected end of file after 1 of 4 bytes" := by
    rfl
  refine ⟨r, if_pos hpow, ?_⟩
  rw [← htext]
  refine (hopen.2.2 (by decide) (by decide)).2.2.2 ?_ (by decide)
  intro filled hpasses hless e he
  cases he

/-- No memory has room for a chunk of `2 ^ 63` bytes, even where the data are few: instead of
telling that they end early, the read gives up. -/
theorem vast_chunk_panics :
    ∃ r : Reader, withLength? (.ofMemory "hm" (ByteSource.pattern 100 3 1)) 9223372036854775808
        18446744073709551615 = .ok r ∧
      r.source.Delivers (ByteSource.pattern 100 3 1) ∧ isPowerOfTwo r.chunkSize = true ∧
      (0 : UInt64) % r.chunkSize = 0 ∧ r.closed = false ∧ 0 < r.length ∧
      Unbroken r.source 0 (r.chunkLength 0) ∧
      r.readChunk 0 { id := 0, capacity := 0 } = (.error .panic, { id := 0, capacity := 0 }) := by
  have hpow : isPowerOfTwo 9223372036854775808 = true := by decide
  refine ⟨_, if_pos hpow, ByteSource.delivers_ofMemory _ _, hpow, by decide, rfl, by decide, ?_, ?_⟩
  · intro filled hpasses hless e he
    cases he
  · exact readChunk_unfit (by decide) rfl (by decide) _ (by decide)

end Reader
end ReadCache
