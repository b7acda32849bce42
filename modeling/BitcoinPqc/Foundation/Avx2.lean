import BitcoinPqc.Foundation.X86

/-!
# Eight words in a register

The AVX2 intrinsics that work on the eight double words of a 256-bit register. Most of them
compute word by word. The unpack instructions and the permutation of the halves move whole
words, so that eight registers can be transposed; for these the lemmas say from which lane
of which operand each word comes.
-/

namespace BitcoinPqc

/-!
## Word by word
-/

/-- The register with the given double words. -/
def ofDwords (f : ℕ → UInt32) : M256i :=
  (List.range 8).foldl (fun x i => write x (4 * i) (dwordCodec.toBytes (f i)))
    (Vector.replicate 32 0)

/-- An operation on the double words. -/
def mapDwords (f : UInt32 → UInt32) (a : M256i) : M256i :=
  ofDwords fun i => f (lane dwordCodec a i)

/-- An operation on the double words of two registers. -/
def zipDwords (f : UInt32 → UInt32 → UInt32) (a b : M256i) : M256i :=
  ofDwords fun i => f (lane dwordCodec a i) (lane dwordCodec b i)

/-- `_mm256_set1_epi32`. -/
def mm256Set1Epi32 (a : UInt32) : M256i := ofDwords fun _ => a

/-- `_mm256_set_epi32`, for its arguments in order; the highest word is the first. -/
def mm256SetEpi32 (e : Vector UInt32 8) : M256i := ofDwords fun i => e.reverse.getD i 0

/-- `_mm256_set_epi8`, for its arguments in order; the highest byte is the first. -/
def mm256SetEpi8 (e : Vector UInt8 32) : M256i := e.reverse

/-- `_mm256_add_epi32`. -/
def mm256AddEpi32 (a b : M256i) : M256i := zipDwords (· + ·) a b

/-- `_mm256_xor_si256`. -/
def mm256XorSi256 (a b : M256i) : M256i := zipDwords (· ^^^ ·) a b

/-- `_mm256_or_si256`. -/
def mm256OrSi256 (a b : M256i) : M256i := zipDwords (· ||| ·) a b

/-- `_mm256_and_si256`. -/
def mm256AndSi256 (a b : M256i) : M256i := zipDwords (· &&& ·) a b

/-- `_mm256_srli_epi32`. -/
def mm256SrliEpi32 (a : M256i) (imm : UInt32) : M256i :=
  mapDwords (fun x => if imm < 32 then x >>> imm else 0) a

/-- `_mm256_slli_epi32`. -/
def mm256SlliEpi32 (a : M256i) (imm : UInt32) : M256i :=
  mapDwords (fun x => if imm < 32 then x <<< imm else 0) a

section Words

variable {i : ℕ} (hi : i < 8)
include hi

theorem lane_ofDwords (f : ℕ → UInt32) : lane dwordCodec (ofDwords f) i = f i := by
  rw [lane, ofDwords, slice_foldl_write (fun i => dwordCodec.toBytes (f i)) _ (by decide) hi,
    dwordCodec.ofBytes_toBytes]

theorem lane_set1 (a : UInt32) : lane dwordCodec (mm256Set1Epi32 a) i = a :=
  lane_ofDwords hi _

theorem lane_setEpi32 (e : Vector UInt32 8) :
    lane dwordCodec (mm256SetEpi32 e) i = e.reverse.getD i 0 :=
  lane_ofDwords hi _

variable (a b : M256i)

theorem lane_add : lane dwordCodec (mm256AddEpi32 a b) i =
    lane dwordCodec a i + lane dwordCodec b i := by
  rw [mm256AddEpi32, zipDwords, lane_ofDwords hi]

theorem lane_xor : lane dwordCodec (mm256XorSi256 a b) i =
    lane dwordCodec a i ^^^ lane dwordCodec b i := by
  rw [mm256XorSi256, zipDwords, lane_ofDwords hi]

theorem lane_or : lane dwordCodec (mm256OrSi256 a b) i =
    lane dwordCodec a i ||| lane dwordCodec b i := by
  rw [mm256OrSi256, zipDwords, lane_ofDwords hi]

theorem lane_and : lane dwordCodec (mm256AndSi256 a b) i =
    lane dwordCodec a i &&& lane dwordCodec b i := by
  rw [mm256AndSi256, zipDwords, lane_ofDwords hi]

theorem lane_srli {imm : UInt32} (himm : imm < 32) :
    lane dwordCodec (mm256SrliEpi32 a imm) i = lane dwordCodec a i >>> imm := by
  rw [mm256SrliEpi32, mapDwords, lane_ofDwords hi, if_pos himm]

theorem lane_slli {imm : UInt32} (himm : imm < 32) :
    lane dwordCodec (mm256SlliEpi32 a imm) i = lane dwordCodec a i <<< imm := by
  rw [mm256SlliEpi32, mapDwords, lane_ofDwords hi, if_pos himm]

end Words

/-!
## Moving words
-/

/-- The byte numbers of the unpack instructions on two registers, one behind the other. In
each half of 16 bytes the words of `size` bytes are taken from the operands in turn, from
byte `start` of the half on. -/
def unpackIdx (size start i : ℕ) : ℕ :=
  32 * (i % 16 / size % 2) + 16 * (i / 16) + start + size * (i % 16 / size / 2) + i % size

/-- `_mm256_unpacklo_epi32`. -/
def mm256UnpackloEpi32 (a b : M256i) : M256i := gather (unpackIdx 4 0) (a ++ b)

/-- `_mm256_unpackhi_epi32`. -/
def mm256UnpackhiEpi32 (a b : M256i) : M256i := gather (unpackIdx 4 8) (a ++ b)

/-- `_mm256_unpacklo_epi64`. -/
def mm256UnpackloEpi64 (a b : M256i) : M256i := gather (unpackIdx 8 0) (a ++ b)

/-- `_mm256_unpackhi_epi64`. -/
def mm256UnpackhiEpi64 (a b : M256i) : M256i := gather (unpackIdx 8 8) (a ++ b)

section Moves

variable (a b : M256i)

theorem lane_append (i : ℕ) (hi : i < 16) :
    lane dwordCodec (a ++ b) i =
      if i < 8 then lane dwordCodec a i else lane dwordCodec b (i - 8) := by
  split
  · exact lane_append_left dwordCodec a b i (by omega)
  · exact lane_append_right dwordCodec a b i (i - 8) (by omega) (by omega)

/-- An instruction that moves the double word `src i` into lane `i`. -/
theorem lane_gather_append {f : ℕ → ℕ} (src : ℕ → ℕ)
    (hf : ∀ i < 8, ∀ j < 4, f (4 * i + j) = 4 * src i + j) (hsrc : ∀ i < 8, src i < 16)
    {i : ℕ} (hi : i < 8) :
    lane dwordCodec (gather f (a ++ b) : M256i) i =
      if src i < 8 then lane dwordCodec a (src i) else lane dwordCodec b (src i - 8) := by
  rw [lane_gather dwordCodec (a ++ b) i (src i) (by omega) (hf i hi),
    lane_append a b _ (hsrc i hi)]

variable {i : ℕ} (hi : i < 8)
include hi

theorem lane_unpackloEpi32 : lane dwordCodec (mm256UnpackloEpi32 a b) i =
    lane dwordCodec (if i % 2 = 0 then a else b) (4 * (i / 4) + i % 4 / 2) := by
  rw [mm256UnpackloEpi32, lane_gather_append a b
    (fun i => 8 * (i % 2) + (4 * (i / 4) + i % 4 / 2)) (by decide) (by decide) hi]
  interval_cases i <;> rfl

theorem lane_unpackhiEpi32 : lane dwordCodec (mm256UnpackhiEpi32 a b) i =
    lane dwordCodec (if i % 2 = 0 then a else b) (4 * (i / 4) + 2 + i % 4 / 2) := by
  rw [mm256UnpackhiEpi32, lane_gather_append a b
    (fun i => 8 * (i % 2) + (4 * (i / 4) + 2 + i % 4 / 2)) (by decide) (by decide) hi]
  interval_cases i <;> rfl

theorem lane_unpackloEpi64 : lane dwordCodec (mm256UnpackloEpi64 a b) i =
    lane dwordCodec (if i % 4 < 2 then a else b) (4 * (i / 4) + i % 2) := by
  rw [mm256UnpackloEpi64, lane_gather_append a b
    (fun i => 8 * (i % 4 / 2) + (4 * (i / 4) + i % 2)) (by decide) (by decide) hi]
  interval_cases i <;> rfl

theorem lane_unpackhiEpi64 : lane dwordCodec (mm256UnpackhiEpi64 a b) i =
    lane dwordCodec (if i % 4 < 2 then a else b) (4 * (i / 4) + 2 + i % 2) := by
  rw [mm256UnpackhiEpi64, lane_gather_append a b
    (fun i => 8 * (i % 4 / 2) + (4 * (i / 4) + 2 + i % 2)) (by decide) (by decide) hi]
  interval_cases i <;> rfl

theorem lane_permute2x128_0x20 : lane dwordCodec (mm256Permute2x128 a b 0x20) i =
    lane dwordCodec (if i < 4 then a else b) (i % 4) := by
  rw [mm256Permute2x128, lane_gather_append a b
    (fun i => 8 * (i / 4) + i % 4) (by decide) (by decide) hi]
  interval_cases i <;> rfl

theorem lane_permute2x128_0x31 : lane dwordCodec (mm256Permute2x128 a b 0x31) i =
    lane dwordCodec (if i < 4 then a else b) (4 + i % 4) := by
  rw [mm256Permute2x128, lane_gather_append a b
    (fun i => 8 * (i / 4) + (4 + i % 4)) (by decide) (by decide) hi]
  interval_cases i <;> rfl

end Moves

end BitcoinPqc
