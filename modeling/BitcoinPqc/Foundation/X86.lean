import BitcoinPqc.Foundation.Simd

/-!
# Intrinsics of x86

The intrinsics for 128-bit and 256-bit registers that move bytes or add words, for every
operand and control value. The lemmas say what they do to the lanes, for the control
values that swap, rotate and combine whole lanes.
-/

namespace BitcoinPqc

/-- `__m128i`. -/
abbrev M128i : Type := Vector UInt8 16

/-- `__m256i`. -/
abbrev M256i : Type := Vector UInt8 32

section Shuffles

variable {n : ℕ}

/-- The byte numbers of a shuffle of the double words in each half of 16 bytes. -/
def shuffleDwordIdx (imm i : ℕ) : ℕ :=
  16 * (i / 16) + 4 * ((imm >>> (2 * (i % 16 / 4))) &&& 3) + i % 4

/-- The byte numbers of a shuffle of the bytes in each half of 16 bytes. A control byte
with its highest bit set gives zero. -/
def shuffleByteIdx (b : Vector UInt8 n) (i : ℕ) : ℕ :=
  if 0x80 ≤ (b.getD i 0).toNat then n else 16 * (i / 16) + ((b.getD i 0).toNat &&& 15)

/-- The byte numbers of a choice between two registers by the bits of `imm`, each for
`size` bytes. -/
def blendIdx (n size imm i : ℕ) : ℕ := if imm.testBit (i / size) then n + i else i

/-- The byte numbers of a choice of halves of 16 bytes by four control bits each. -/
def permuteHalfIdx (imm i : ℕ) : ℕ :=
  let control := (imm >>> (4 * (i / 16))) &&& 15
  if control.testBit 3 then 64 else 16 * (control &&& 3) + i % 16

/-- The byte numbers of a permutation of the quad words. -/
def permuteQwordIdx (imm i : ℕ) : ℕ := 8 * ((imm >>> (2 * (i / 8))) &&& 3) + i % 8

/-- `_mm_shuffle_epi32`. -/
def mmShuffleEpi32 (a : M128i) (imm : ℕ) : M128i := gather (shuffleDwordIdx imm) a

/-- `_mm256_shuffle_epi32`. -/
def mm256ShuffleEpi32 (a : M256i) (imm : ℕ) : M256i := gather (shuffleDwordIdx imm) a

/-- `_mm_shuffle_epi8`. -/
def mmShuffleEpi8 (a b : M128i) : M128i := gather (shuffleByteIdx b) a

/-- `_mm256_shuffle_epi8`. -/
def mm256ShuffleEpi8 (a b : M256i) : M256i := gather (shuffleByteIdx b) a

/-- `_mm_alignr_epi8`. -/
def mmAlignrEpi8 (a b : M128i) (imm : ℕ) : M128i := gather (fun i => i + imm) (b ++ a)

/-- `_mm_blend_epi16`. -/
def mmBlendEpi16 (a b : M128i) (imm : ℕ) : M128i := gather (blendIdx 16 2 imm) (a ++ b)

/-- `_mm256_blend_epi32`. -/
def mm256BlendEpi32 (a b : M256i) (imm : ℕ) : M256i := gather (blendIdx 32 4 imm) (a ++ b)

/-- `_mm256_permute2x128_si256`. -/
def mm256Permute2x128 (a b : M256i) (imm : ℕ) : M256i := gather (permuteHalfIdx imm) (a ++ b)

/-- `_mm256_permute4x64_epi64`. -/
def mm256Permute4x64 (a : M256i) (imm : ℕ) : M256i := gather (permuteQwordIdx imm) a

/-- `_mm256_extracti128_si256`. -/
def mm256Extracti128 (a : M256i) (imm : ℕ) : M128i :=
  gather (fun i => 16 * (imm &&& 1) + i) a

end Shuffles

/-- `_mm_add_epi32`. -/
def mmAddEpi32 (a b : M128i) : M128i := mapLanes dwordCodec (· + ·) a b

/-- `_mm256_add_epi64`. -/
def mm256AddEpi64 (a b : M256i) : M256i := mapLanes qwordCodec (· + ·) a b

/-- `_mm_set_epi64x`. -/
def mmSetEpi64x (e1 e0 : UInt64) : M128i := qwordCodec.toBytes e0 ++ qwordCodec.toBytes e1

/-- `_mm256_set_epi64x`. -/
def mm256SetEpi64x (e3 e2 e1 e0 : UInt64) : M256i := ofLanes qwordCodec #v[e0, e1, e2, e3]

/-!
## Lanes
-/

section Dwords

variable (a b : M128i)

theorem lanes_mmAddEpi32 (v w : Vector UInt32 4) (hv : lanes dwordCodec a = v)
    (hw : lanes dwordCodec b = w) :
    lanes dwordCodec (mmAddEpi32 a b) =
      #v[v.getD 0 0 + w.getD 0 0, v.getD 1 0 + w.getD 1 0, v.getD 2 0 + w.getD 2 0,
        v.getD 3 0 + w.getD 3 0] :=
  lanes_mapLanes dwordCodec (by decide) (· + ·) hv hw

theorem lanes_mmShuffleEpi32_0x1B :
    lanes dwordCodec (mmShuffleEpi32 a 0x1B) =
      #v[lane dwordCodec a 3, lane dwordCodec a 2, lane dwordCodec a 1,
        lane dwordCodec a 0] :=
  lanes_gather dwordCodec a 3 2 1 0 (by decide) (by decide)

theorem lanes_mmShuffleEpi32_0xB1 :
    lanes dwordCodec (mmShuffleEpi32 a 0xB1) =
      #v[lane dwordCodec a 1, lane dwordCodec a 0, lane dwordCodec a 3,
        lane dwordCodec a 2] :=
  lanes_gather dwordCodec a 1 0 3 2 (by decide) (by decide)

theorem lanes_mmShuffleEpi32_0x0E :
    lanes dwordCodec (mmShuffleEpi32 a 0x0E) =
      #v[lane dwordCodec a 2, lane dwordCodec a 3, lane dwordCodec a 0,
        lane dwordCodec a 0] :=
  lanes_gather dwordCodec a 2 3 0 0 (by decide) (by decide)

theorem lanes_mmBlendEpi16_0xF0 :
    lanes dwordCodec (mmBlendEpi16 a b 0xF0) =
      #v[lane dwordCodec a 0, lane dwordCodec a 1, lane dwordCodec b 2,
        lane dwordCodec b 3] := by
  rw [mmBlendEpi16, lanes_gather dwordCodec (a ++ b) 0 1 6 7 (by decide) (by decide),
    lane_append_left _ _ _ 0 (by decide), lane_append_left _ _ _ 1 (by decide),
    lane_append_right _ _ _ 6 2 (by decide) (by decide),
    lane_append_right _ _ _ 7 3 (by decide) (by decide)]

theorem lanes_mmAlignrEpi8_4 :
    lanes dwordCodec (mmAlignrEpi8 a b 4) =
      #v[lane dwordCodec b 1, lane dwordCodec b 2, lane dwordCodec b 3,
        lane dwordCodec a 0] := by
  rw [mmAlignrEpi8, lanes_gather dwordCodec (b ++ a) 1 2 3 4 (by decide) (by decide),
    lane_append_left _ _ _ 1 (by decide), lane_append_left _ _ _ 2 (by decide),
    lane_append_left _ _ _ 3 (by decide),
    lane_append_right _ _ _ 4 0 (by decide) (by decide)]

theorem lanes_mmAlignrEpi8_8 :
    lanes dwordCodec (mmAlignrEpi8 a b 8) =
      #v[lane dwordCodec b 2, lane dwordCodec b 3, lane dwordCodec a 0,
        lane dwordCodec a 1] := by
  rw [mmAlignrEpi8, lanes_gather dwordCodec (b ++ a) 2 3 4 5 (by decide) (by decide),
    lane_append_left _ _ _ 2 (by decide), lane_append_left _ _ _ 3 (by decide),
    lane_append_right _ _ _ 4 0 (by decide) (by decide),
    lane_append_right _ _ _ 5 1 (by decide) (by decide)]

end Dwords

section Qwords

variable (a b : M256i)

theorem lanes_mm256AddEpi64 (v w : Vector UInt64 4) (hv : lanes qwordCodec a = v)
    (hw : lanes qwordCodec b = w) :
    lanes qwordCodec (mm256AddEpi64 a b) =
      #v[v.getD 0 0 + w.getD 0 0, v.getD 1 0 + w.getD 1 0, v.getD 2 0 + w.getD 2 0,
        v.getD 3 0 + w.getD 3 0] :=
  lanes_mapLanes qwordCodec (by decide) (· + ·) hv hw

theorem lanes_mm256ShuffleEpi32_0x4E :
    lanes qwordCodec (mm256ShuffleEpi32 a 0x4E) =
      #v[lane qwordCodec a 1, lane qwordCodec a 0, lane qwordCodec a 3,
        lane qwordCodec a 2] :=
  lanes_gather qwordCodec a 1 0 3 2 (by decide) (by decide)

theorem lanes_mm256Permute2x128_0x13 :
    lanes qwordCodec (mm256Permute2x128 a b 0x13) =
      #v[lane qwordCodec b 2, lane qwordCodec b 3, lane qwordCodec a 2,
        lane qwordCodec a 3] := by
  rw [mm256Permute2x128, lanes_gather qwordCodec (a ++ b) 6 7 2 3 (by decide) (by decide),
    lane_append_right _ _ _ 6 2 (by decide) (by decide),
    lane_append_right _ _ _ 7 3 (by decide) (by decide),
    lane_append_left _ _ _ 2 (by decide), lane_append_left _ _ _ 3 (by decide)]

theorem lanes_mm256Permute2x128_0x02 :
    lanes qwordCodec (mm256Permute2x128 a b 0x02) =
      #v[lane qwordCodec b 0, lane qwordCodec b 1, lane qwordCodec a 0,
        lane qwordCodec a 1] := by
  rw [mm256Permute2x128, lanes_gather qwordCodec (a ++ b) 4 5 0 1 (by decide) (by decide),
    lane_append_right _ _ _ 4 0 (by decide) (by decide),
    lane_append_right _ _ _ 5 1 (by decide) (by decide),
    lane_append_left _ _ _ 0 (by decide), lane_append_left _ _ _ 1 (by decide)]

theorem lanes_mm256BlendEpi32_0x03 :
    lanes qwordCodec (mm256BlendEpi32 a b 0x03) =
      #v[lane qwordCodec b 0, lane qwordCodec a 1, lane qwordCodec a 2,
        lane qwordCodec a 3] := by
  rw [mm256BlendEpi32, lanes_gather qwordCodec (a ++ b) 4 1 2 3 (by decide) (by decide),
    lane_append_right _ _ _ 4 0 (by decide) (by decide),
    lane_append_left _ _ _ 1 (by decide), lane_append_left _ _ _ 2 (by decide),
    lane_append_left _ _ _ 3 (by decide)]

theorem lanes_mm256Permute4x64_0x39 :
    lanes qwordCodec (mm256Permute4x64 a 0x39) =
      #v[lane qwordCodec a 1, lane qwordCodec a 2, lane qwordCodec a 3,
        lane qwordCodec a 0] :=
  lanes_gather qwordCodec a 1 2 3 0 (by decide) (by decide)

theorem lane_mm256Extracti128_0 {i : ℕ} (hi : i < 2) :
    lane qwordCodec (mm256Extracti128 a 0) i = lane qwordCodec a i :=
  lane_gather qwordCodec a i i (by omega) fun j _ => by simp

theorem lane_mm256Extracti128_1 {i : ℕ} (hi : i < 2) :
    lane qwordCodec (mm256Extracti128 a 1) i = lane qwordCodec a (i + 2) :=
  lane_gather qwordCodec a i (i + 2) (by omega) fun j _ => by
    simp only [Nat.and_self]
    omega

end Qwords

end BitcoinPqc
