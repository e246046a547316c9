/-
  The evaluation fixtures — bytes that are made on demand (acquisition_evaluation.py,
  `DeterministicBytes`).

  A fixture is never held whole: a range is put together from blocks, the last of them
  made as short as the fixture needs it.  `represented` is the byte string that all the
  ranges are slices of.  The number of a block has sixteen bytes; `addressable` is where
  the numbers end.

  * `readFrom_eq`, `readFrom_overflow`: a range that ends before, and one that does not;
  * `streamed_eq`, `streamed_overflow`: the same for a pass in chunks;
  * `read_slice`: every method in terms of the one byte string.
-/
import Mathlib.Algebra.Group.Int.Defs
import Mathlib.Data.List.Range
import TodDl.Lib.Sha256
import TodDl.Provenance.Value

namespace TodDl.Evaluation

/-! ## Blocks -/

/-- An extendable-output function, as `hashlib.shake_256(data).digest(size)`: a shorter
    digest begins a longer one. -/
structure Xof where
  digest : List UInt8 → ℕ → List UInt8
  length_digest : ∀ data size, (digest data size).length = size
  take_digest : ∀ data size size', size ≤ size' →
    (digest data size').take size = digest data size

/-- The exceptions of this module. -/
inductive Error where
  /-- `EvaluationError` -/
  | evaluation (message : String)
  /-- `OverflowError`: the number of a block has no sixteen bytes -/
  | overflow
  | valueError
  deriving DecidableEq

/-- `GENERATOR_BLOCK_SIZE` -/
def generatorBlockSize : ℕ := 1024 * 1024

/-- The bytes of `index.to_bytes(16, "big")`. -/
def counterBytes (index : ℕ) : List UInt8 :=
  (List.range 16).map fun i => UInt8.ofNat (index / 256 ^ (15 - i))

/-- `_generate_block(seed, index, size)`; its cache is not seen. -/
def generateBlock (xof : Xof) (seed : List UInt8) (index : ℕ) (size : ℤ) :
    Except Error (List UInt8) :=
  if index ≥ 256 ^ 16 then .error .overflow
  else if size < 0 then .error .valueError
  else .ok (xof.digest (seed ++ counterBytes index) size.toNat)

/-! ## `DeterministicBytes` -/

/-- What `DeterministicBytes` holds: a seed that is not empty, and a length. -/
structure DeterministicBytes where
  seed : List UInt8
  seed_ne : seed ≠ []
  length : ℕ

theorem utf8_ne_nil {seed : String} (h : seed ≠ "") : Provenance.utf8 seed.toList ≠ [] := by
  obtain ⟨c, cs, hcs⟩ := List.exists_cons_of_ne_nil (mt String.toList_eq_nil_iff.1 h)
  rw [hcs, Provenance.utf8, List.flatMap_cons]
  intro hnil
  exact String.utf8EncodeChar_ne_nil (List.append_eq_nil_iff.1 hnil).1

namespace DeterministicBytes

/-- `DeterministicBytes(seed, length)` -/
def init (seed : String) (length : ℤ) : Except Error DeterministicBytes :=
  if h : seed = "" then .error (.evaluation "fixture seed must not be empty")
  else if length < 0 then .error (.evaluation "fixture length must not be negative")
  else .ok ⟨Provenance.utf8 seed.toList, utf8_ne_nil h, length.toNat⟩

section
variable (xof : Xof) (self : DeterministicBytes)

/-- `_block(index)` -/
def block (index : ℕ) : Except Error (List UInt8) :=
  generateBlock xof self.seed index
    (min (generatorBlockSize : ℤ) (self.length - index * generatorBlockSize))

/-- What one pass of the loop of `read` takes from its block. -/
def takeAt (position remaining : ℕ) : ℕ :=
  min remaining (generatorBlockSize - position % generatorBlockSize)

theorem takeAt_pos (position : ℕ) {remaining : ℕ} (h : remaining ≠ 0) :
    0 < takeAt position remaining := by
  have hmod : position % generatorBlockSize < generatorBlockSize := Nat.mod_lt _ (by decide)
  unfold takeAt
  omega

/-- The loop of `read`. -/
def readFrom (position remaining : ℕ) : Except Error (List UInt8) :=
  if _ : remaining = 0 then .ok []
  else do
    let block ← self.block xof (position / generatorBlockSize)
    let take := takeAt position remaining
    let rest ← readFrom (position + take) (remaining - take)
    return (block.drop (position % generatorBlockSize)).take take ++ rest
termination_by remaining
decreasing_by
  have htake := takeAt_pos position ‹¬remaining = 0›
  omega

/-- `read(offset, length)` -/
def read (offset length : ℤ) : Except Error (List UInt8) :=
  if offset < 0 ∨ length < 0 ∨ offset + length > self.length then
    .error (.evaluation "requested fixture range is outside its representation")
  else self.readFrom xof offset.toNat length.toNat

/-- The loop of `sha256`: the bytes that the digest is updated with. -/
def streamed (chunk : ℕ) (hchunk : 0 < chunk) (offset : ℕ) : Except Error (List UInt8) :=
  if _ : offset < self.length then do
    let size := min chunk (self.length - offset)
    let bytes ← self.read xof offset size
    let rest ← streamed chunk hchunk (offset + size)
    return bytes ++ rest
  else .ok []
termination_by self.length - offset
decreasing_by omega

/-- `sha256(chunk_size)` -/
def sha256 (chunkSize : ℤ) : Except Error String :=
  if h : chunkSize ≤ 0 then .error (.evaluation "digest chunk size must be positive")
  else (self.streamed xof chunkSize.toNat (by omega) 0).map Lib.Sha256.hexdigest

/-! ## The byte string of a fixture -/

/-- The byte at a position, from the whole block there. -/
def byteAt (position : ℕ) : UInt8 :=
  (xof.digest (self.seed ++ counterBytes (position / generatorBlockSize)) generatorBlockSize).getD
    (position % generatorBlockSize) 0

/-- The byte string that the fixture represents. -/
def represented : List UInt8 := (List.range self.length).map (self.byteAt xof)

/-- The positions that the numbers of blocks reach. -/
def addressable : ℕ := 256 ^ 16 * generatorBlockSize

end

section
variable {xof : Xof} {self : DeterministicBytes} {position remaining : ℕ}

theorem length_represented : (self.represented xof).length = self.length := by
  rw [represented, List.length_map, List.length_range]

theorem slice_represented {offset length : ℕ} (h : offset + length ≤ self.length) :
    ((self.represented xof).drop offset).take length =
      (List.range' offset length).map (self.byteAt xof) := by
  rw [represented, ← List.map_drop, ← List.map_take, List.range_eq_range', List.drop_range',
    List.take_range'_of_length_ge (by omega), Nat.zero_add, Nat.mul_one]

/-- What a pass takes ends within the block, the last one included. -/
theorem take_within {b : ℕ} (hb : 0 < b) (hend : position + remaining ≤ self.length) :
    ∃ size : ℕ, min (b : ℤ) (self.length - (position / b : ℕ) * b) = size ∧ size ≤ b ∧
      position % b + min remaining (b - position % b) ≤ size := by
  have hmod : position % b < b := Nat.mod_lt _ hb
  have hdiv := Nat.div_add_mod' position b
  have hlast : (position / b : ℕ) * (b : ℤ) + (position % b : ℕ) = position := by
    exact_mod_cast hdiv
  generalize (position / b : ℕ) * (b : ℤ) = start at hlast ⊢
  exact ⟨(min (b : ℤ) (self.length - start)).toNat, by omega, by omega, by omega⟩

/-- What a pass takes from its block, the last one included, are the bytes of the fixture. -/
theorem slice_block (xof : Xof) (hend : position + remaining ≤ self.length)
    (hindex : position / generatorBlockSize < 256 ^ 16) :
    ∃ block, self.block xof (position / generatorBlockSize) = .ok block ∧
      (block.drop (position % generatorBlockSize)).take (takeAt position remaining) =
        (List.range' position (takeAt position remaining)).map (self.byteAt xof) := by
  have hmod : position % generatorBlockSize < generatorBlockSize := Nat.mod_lt _ (by decide)
  have hdiv := Nat.div_add_mod' position generatorBlockSize
  have hroom : takeAt position remaining ≤ generatorBlockSize - position % generatorBlockSize :=
    Nat.min_le_right _ _
  obtain ⟨size, hsize, hwhole, hwithin⟩ := take_within (b := generatorBlockSize) (by decide) hend
  change position % generatorBlockSize + takeAt position remaining ≤ size at hwithin
  refine ⟨xof.digest (self.seed ++ counterBytes (position / generatorBlockSize)) size, ?_, ?_⟩
  · rw [block, generateBlock, if_neg (Nat.not_le.2 hindex), hsize,
      if_neg (Int.not_lt.2 (Int.natCast_nonneg size)), Int.toNat_natCast]
  · rw [← xof.take_digest _ _ _ hwhole]
    refine List.ext_getElem ?_ fun i hleft hright => ?_
    · rw [List.length_take, List.length_drop, List.length_take, xof.length_digest, List.length_map,
        List.length_range']
      omega
    · rw [List.length_map, List.length_range'] at hright
      have hnext : position + i =
          position % generatorBlockSize + i + position / generatorBlockSize * generatorBlockSize := by
        omega
      have hlow : position % generatorBlockSize + i < generatorBlockSize := by omega
      rw [List.getElem_take, List.getElem_drop, List.getElem_take, List.getElem_map,
        List.getElem_range', Nat.one_mul, byteAt, hnext, Nat.add_mul_mod_self_right,
        Nat.mod_eq_of_lt hlow, Nat.add_mul_div_right _ _ (by decide), Nat.div_eq_of_lt hlow,
        Nat.zero_add, ← List.getElem_eq_getD]

/-! ## Reading -/

theorem lt_addressable (h : position < addressable) : position / generatorBlockSize < 256 ^ 16 :=
  (Nat.div_lt_iff_lt_mul (by decide)).2 h

/-- **A range that ends in time** is a slice of the byte string. -/
theorem readFrom_eq (hend : position + remaining ≤ self.length)
    (haddress : position + remaining ≤ addressable) : self.readFrom xof position remaining =
      .ok ((List.range' position remaining).map (self.byteAt xof)) := by
  induction remaining using Nat.strong_induction_on generalizing position with
  | h remaining ih =>
    rw [readFrom]
    split
    · next hnone => rw [hnone]; rfl
    · next hsome =>
      have htake := takeAt_pos position hsome
      have hle : takeAt position remaining ≤ remaining := Nat.min_le_left _ _
      obtain ⟨block, hblock, hslice⟩ :=
        slice_block xof hend (lt_addressable (by omega))
      rw [hblock]
      dsimp only [bind, Except.bind, pure, Except.pure]
      rw [ih _ (by omega) (by omega) (by omega), hslice]
      dsimp only
      rw [← List.map_append, List.range'_append_1, Nat.add_sub_cancel' hle]

/-- A block takes the range to its end, or to the end of the range. -/
theorem addressable_takeAt (h : position < addressable) :
    position + takeAt position remaining ≤ addressable := by
  have hdiv := Nat.div_add_mod' position generatorBlockSize
  have hmod : position % generatorBlockSize < generatorBlockSize := Nat.mod_lt _ (by decide)
  have hroom : takeAt position remaining ≤ generatorBlockSize - position % generatorBlockSize :=
    Nat.min_le_right _ _
  have hlast : (position / generatorBlockSize + 1) * generatorBlockSize ≤ addressable :=
    Nat.mul_le_mul_right _ (lt_addressable h)
  rw [Nat.add_mul, Nat.one_mul] at hlast
  omega

/-- A range that goes on beyond them raises. -/
theorem readFrom_overflow (hremaining : remaining ≠ 0) (hend : position + remaining ≤ self.length)
    (haddress : addressable < position + remaining) :
    self.readFrom xof position remaining = .error .overflow := by
  induction remaining using Nat.strong_induction_on generalizing position with
  | h remaining ih =>
    rw [readFrom, dif_neg hremaining]
    by_cases hstart : position < addressable
    · have htake := takeAt_pos position hremaining
      have hle : takeAt position remaining ≤ remaining := Nat.min_le_left _ _
      have hmore : position + takeAt position remaining ≤ addressable :=
        addressable_takeAt hstart
      obtain ⟨block, hblock, -⟩ := slice_block xof hend (lt_addressable hstart)
      rw [hblock]
      dsimp only [bind, Except.bind]
      rw [ih _ (by omega) (by omega) (by omega) (by omega)]
    · have hindex : position / generatorBlockSize ≥ 256 ^ 16 :=
        (Nat.le_div_iff_mul_le (by decide)).2 (Nat.le_of_not_lt hstart)
      rw [block, generateBlock, if_pos hindex]
      rfl

theorem read_nat {offset length : ℕ} (h : offset + length ≤ self.length) :
    self.read xof offset length = self.readFrom xof offset length := by
  rw [read, if_neg (by omega)]
  rfl

/-- **A pass in chunks** sees the rest of the byte string, whatever the chunks are. -/
theorem streamed_eq {chunk offset : ℕ} (hchunk : 0 < chunk) (hoffset : offset ≤ self.length)
    (haddress : self.length ≤ addressable) : self.streamed xof chunk hchunk offset =
      .ok ((List.range' offset (self.length - offset)).map (self.byteAt xof)) := by
  induction hn : self.length - offset using Nat.strong_induction_on generalizing offset with
  | h n ih =>
    rw [streamed]
    split
    · next hmore =>
      set size := min chunk (self.length - offset) with hsize
      have hread : self.read xof offset size = _ :=
        (read_nat (by omega)).trans (readFrom_eq (by omega) (by omega))
      dsimp only
      rw [hread]
      dsimp only [bind, Except.bind, pure, Except.pure]
      rw [ih (self.length - (offset + size)) (by omega) (by omega) rfl]
      dsimp only
      rw [← List.map_append, show self.length - (offset + size) = n - size by omega,
        List.range'_append_1, Nat.add_sub_cancel' (by omega)]
    · next hdone =>
      rw [show n = 0 by omega]
      rfl

theorem streamed_overflow {chunk offset : ℕ} (hchunk : 0 < chunk) (hoffset : offset ≤ addressable)
    (haddress : addressable < self.length) :
    self.streamed xof chunk hchunk offset = .error .overflow := by
  induction hn : self.length - offset using Nat.strong_induction_on generalizing offset with
  | h n ih =>
    rw [streamed, dif_pos (by omega)]
    set size := min chunk (self.length - offset) with hsize
    dsimp only
    rw [read_nat (by omega)]
    by_cases hover : addressable < offset + size
    · rw [readFrom_overflow (by omega) (by omega) hover]
      rfl
    · rw [readFrom_eq (by omega) (by omega)]
      dsimp only [bind, Except.bind]
      rw [ih (self.length - (offset + size)) (by omega) (by omega) rfl]

/-- **The ranges of a fixture are slices of one byte string**, as far as the numbers of blocks
    go; other ranges raise, and the digest is that of the byte string. -/
theorem read_slice (xof : Xof) (self : DeterministicBytes) :
    ∃ bytes : List UInt8, bytes.length = self.length ∧
      (∀ offset length : ℤ, self.read xof offset length =
        if offset < 0 ∨ length < 0 ∨ offset + length > self.length then
          .error (.evaluation "requested fixture range is outside its representation")
        else if length ≠ 0 ∧ offset + length > 2 ^ 148 then .error .overflow
        else .ok ((bytes.drop offset.toNat).take length.toNat)) ∧
      ∀ chunkSize : ℤ, self.sha256 xof chunkSize =
        if chunkSize ≤ 0 then .error (.evaluation "digest chunk size must be positive")
        else if self.length > 2 ^ 148 then .error .overflow
        else .ok (Lib.Sha256.hexdigest bytes) := by
  have haddress : addressable = 2 ^ 148 := by decide
  refine ⟨self.represented xof, length_represented, fun offset length => ?_, fun chunkSize => ?_⟩
  · rw [read]
    split
    · rfl
    · next hrange =>
      have hend : offset.toNat + length.toNat ≤ self.length := by omega
      split
      · next hover => exact readFrom_overflow (by omega) hend (by omega)
      · next hshort =>
        rw [slice_represented hend]
        by_cases hnone : length = 0
        · rw [hnone, Int.toNat_zero, readFrom]
          rfl
        · exact readFrom_eq hend (by omega)
  · rw [sha256]
    split
    · rfl
    · next hpositive =>
      split
      · next hlong =>
        rw [streamed_overflow _ (Nat.zero_le _) (by omega)]
        rfl
      · next hshort =>
        rw [streamed_eq _ (Nat.zero_le _) (by omega), represented, List.range_eq_range']
        rfl

end

/-- A fixture of one byte more than the numbers of blocks reach. -/
def beyond : DeterministicBytes := ⟨[115], by decide, 2 ^ 148 + 1⟩

/-- Zeros, as long as they are asked for. -/
def zeros : Xof where
  digest _ size := List.replicate size 0
  length_digest _ _ := List.length_replicate
  take_digest _ _ _ h := by rw [List.take_replicate, Nat.min_eq_left h]

/-- Its last byte is in range, and cannot be read. -/
theorem last_byte_overflows : ¬ ∀ (xof : Xof) (self : DeterministicBytes),
    ∃ bytes : List UInt8, bytes.length = self.length ∧ ∀ offset length : ℤ,
      ¬ (offset < 0 ∨ length < 0 ∨ offset + length > self.length) →
        self.read xof offset length = .ok ((bytes.drop offset.toNat).take length.toNat) := by
  intro hall
  obtain ⟨bytes, -, hread⟩ := hall zeros beyond
  have hlast := hread (2 ^ 148) 1 (by decide)
  have hover : beyond.read zeros (2 ^ 148 : ℕ) (1 : ℕ) = .error .overflow :=
    (read_nat (by decide)).trans (readFrom_overflow (by decide) (by decide) (by decide))
  cases hover.symm.trans hlast

end DeterministicBytes

end TodDl.Evaluation
