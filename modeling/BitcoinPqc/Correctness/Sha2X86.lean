import BitcoinPqc.Correctness.Sha2
import BitcoinPqc.Correctness.Sha2Schedule
import BitcoinPqc.Sphincs.Sha2X86
import Mathlib.Data.UInt

/-!
# The x86 blocks are SHA-2 blocks

A register with four words of the schedule, or with the first part of four later words, is
described by the number of its first word. Four rounds on the registers are four rounds on
the variables, and the registers of the schedule move on by four words with every four
rounds.
-/

namespace BitcoinPqc

/-!
## The functions of the instructions
-/

/-- The functions of the scalar code, as the instructions use them. -/
def Sigmas.shaFns {W : Type} [AndOp W] [XorOp W] [Complement W] (S : Sigmas W) : ShaFns W where
  ch := ch
  maj := maj
  sum0 := S.bigSigma0
  sum1 := S.bigSigma1
  sigma0 := S.sigma0
  sigma1 := S.sigma1

/-- Of the bits that a rotation shifts to the left only the low ones stay. -/
theorem and_shiftLeft_mod (x : ℕ) {c b : ℕ} (hc : c ≤ b) :
    (x &&& (2 ^ c - 1)) <<< (b - c) % 2 ^ b = x <<< (b - c) % 2 ^ b := by
  have hpow : 2 ^ b = 2 ^ c * 2 ^ (b - c) := by rw [← Nat.pow_add, Nat.add_sub_cancel' hc]
  rw [Nat.and_two_pow_sub_one_eq_mod, Nat.shiftLeft_eq, Nat.shiftLeft_eq, hpow,
    Nat.mul_mod_mul_right, Nat.mul_mod_mul_right, Nat.mod_mod]

theorem ror32_eq_rotr32 (x c : UInt32) (hpos : 0 < c.toNat) (hlt : c.toNat < 32) :
    ror32 x c = rotr32 x c := by
  rw [ror32, rotr32]
  congr 1
  apply UInt32.toNat_inj.mp
  have hsub : (32 - c).toNat = 32 - c.toNat :=
    UInt32.toNat_sub_of_le _ _ (UInt32.le_iff_toNat_le.mpr (Nat.le_of_lt hlt))
  have hone : (1 <<< c : UInt32).toNat = 2 ^ c.toNat := by
    rw [UInt32.toNat_shiftLeft, Nat.mod_eq_of_lt hlt, Nat.shiftLeft_eq, UInt32.toNat_one,
      Nat.one_mul, Nat.mod_eq_of_lt (Nat.pow_lt_pow_right (by decide) hlt)]
  have hmask : ((1 <<< c) - 1 : UInt32).toNat = 2 ^ c.toNat - 1 := by
    rw [UInt32.toNat_sub_of_le _ _ (UInt32.le_iff_toNat_le.mpr (hone ▸ Nat.one_le_two_pow)), hone]
    rfl
  have hmod : (32 - c).toNat % 32 = 32 - c.toNat := by
    rw [hsub, Nat.mod_eq_of_lt (by omega)]
  rw [UInt32.toNat_shiftLeft, UInt32.toNat_shiftLeft, UInt32.toNat_and, hmask, hmod,
    and_shiftLeft_mod _ (Nat.le_of_lt hlt)]

theorem ror64_eq_rotr64 (x c : UInt64) (hpos : 0 < c.toNat) (hlt : c.toNat < 64) :
    ror64 x c = rotr64 x c := by
  rw [ror64, rotr64]
  congr 1
  apply UInt64.toNat_inj.mp
  have hsub : (64 - c).toNat = 64 - c.toNat :=
    UInt64.toNat_sub_of_le _ _ (UInt64.le_iff_toNat_le.mpr (Nat.le_of_lt hlt))
  have hone : (1 <<< c : UInt64).toNat = 2 ^ c.toNat := by
    rw [UInt64.toNat_shiftLeft, Nat.mod_eq_of_lt hlt, Nat.shiftLeft_eq, UInt64.toNat_one,
      Nat.one_mul, Nat.mod_eq_of_lt (Nat.pow_lt_pow_right (by decide) hlt)]
  have hmask : ((1 <<< c) - 1 : UInt64).toNat = 2 ^ c.toNat - 1 := by
    rw [UInt64.toNat_sub_of_le _ _ (UInt64.le_iff_toNat_le.mpr (hone ▸ Nat.one_le_two_pow)), hone]
    rfl
  have hmod : (64 - c).toNat % 64 = 64 - c.toNat := by
    rw [hsub, Nat.mod_eq_of_lt (by omega)]
  rw [UInt64.toNat_shiftLeft, UInt64.toNat_shiftLeft, UInt64.toNat_and, hmask, hmod,
    and_shiftLeft_mod _ (Nat.le_of_lt hlt)]

theorem shaFns32_eq : shaFns32 = sigmas32.shaFns := by
  rw [shaFns32, sigmas32]
  simp (disch := decide) only [ror32_eq_rotr32]
  rfl

theorem shaFns64_eq : shaFns64 = sigmas64.shaFns := by
  rw [shaFns64, sigmas64]
  simp (disch := decide) only [ror64_eq_rotr64]
  rfl

/-!
## Rounds and words
-/

section Words

variable {W : Type} [AddCommSemigroup W] [AndOp W] [XorOp W] [Complement W] [Inhabited W]
  {S : Sigmas W}

theorem shaRound_shaFns (v : Vector W 8) (w k : W) :
    shaRound S.shaFns v (w + k) = sha2Round S v w k := by
  have ha (x y z m s : W) : x + y + (w + k) + z + m + s = z + y + (x + k) + w + (s + m) := by
    ac_rfl
  have he (x y z d : W) : x + y + (w + k) + z + d = d + (z + y + (x + k) + w) := by
    ac_rfl
  rw [shaRound, sha2Round]
  dsimp only [Sigmas.shaFns]
  rw [ha, he]

/-- Four words from the word `t` on. -/
def fourWords (w : ℕ → W) (t : ℕ) : Vector W 4 := #v[w t, w (t + 1), w (t + 2), w (t + 3)]

omit [AddCommSemigroup W] [AndOp W] [XorOp W] [Complement W] [Inhabited W] in
theorem ofFn_eq_fourWords (w : ℕ → W) (t : ℕ) :
    (Vector.ofFn fun i => w (t + i.val)) = fourWords w t :=
  rfl

omit [AddCommSemigroup W] [AndOp W] [XorOp W] [Complement W] in
theorem fourWords_append (v : Vector W 8) :
    (fourWords (fun i => v.getD i default) 0 ++ fourWords (fun i => v.getD i default) 4 :
      Vector W (4 + 4)) = v := by
  rw [← ofFn_eq_fourWords, ← ofFn_eq_fourWords]
  apply Vector.ext
  intro i hi
  by_cases hlt : i < 4
  · rw [Vector.getElem_append_left hlt, Vector.getElem_ofFn, Nat.zero_add, getD_eq_getElem]
  · rw [Vector.getElem_append_right hi (Nat.le_of_not_lt hlt), Vector.getElem_ofFn,
      getD_eq_getElem _ (by omega)]
    congr 1
    exact Nat.add_sub_cancel' (Nat.le_of_not_lt hlt)

variable (S) in
/-- The first part of the four words that come sixteen words later. -/
def partWords (w : ℕ → W) (t : ℕ) : Vector W 4 := shaMsg1 S.shaFns (fourWords w t) (w (t + 4))

/-- The second part of the schedule completes four words. -/
theorem shaMsg2_partWords {w : ℕ → W} (hw : IsSchedule S w) (t : ℕ) :
    shaMsg2 S.shaFns
        #v[(partWords S w t).getD 0 default + w (t + 9),
          (partWords S w t).getD 1 default + w (t + 10),
          (partWords S w t).getD 2 default + w (t + 11),
          (partWords S w t).getD 3 default + w (t + 12)] (fourWords w (t + 12)) =
      fourWords w (t + 16) := by
  have hword (i : ℕ) : w i + S.sigma0 (w (i + 1)) + w (i + 9) + S.sigma1 (w (i + 14)) =
      w (i + 16) := by
    rw [hw]
    ac_rfl
  have h₁₆ : w t + S.sigma0 (w (t + 1)) + w (t + 9) + S.sigma1 (w (t + 12 + 2)) =
      w (t + 16) := hword t
  have h₁₇ : w (t + 1) + S.sigma0 (w (t + 2)) + w (t + 10) + S.sigma1 (w (t + 12 + 3)) =
      w (t + 17) := hword (t + 1)
  have h₁₈ : w (t + 2) + S.sigma0 (w (t + 3)) + w (t + 11) + S.sigma1 (w (t + 16)) =
      w (t + 18) := hword (t + 2)
  have h₁₉ : w (t + 3) + S.sigma0 (w (t + 4)) + w (t + 12) + S.sigma1 (w (t + 17)) =
      w (t + 19) := hword (t + 3)
  conv_rhs => rw [fourWords, ← h₁₈, ← h₁₉, ← h₁₆, ← h₁₇]
  rfl

omit [AndOp W] [XorOp W] [Complement W] in
theorem abef_addWords (u v : Vector W 8) :
    abef (addWords u v) =
      #v[(abef u).getD 0 default + (abef v).getD 0 default,
        (abef u).getD 1 default + (abef v).getD 1 default,
        (abef u).getD 2 default + (abef v).getD 2 default,
        (abef u).getD 3 default + (abef v).getD 3 default] := by
  rw [abef, addWords_getD _ _ (by decide), addWords_getD _ _ (by decide),
    addWords_getD _ _ (by decide), addWords_getD _ _ (by decide)]
  rfl

omit [AndOp W] [XorOp W] [Complement W] in
theorem cdgh_addWords (u v : Vector W 8) :
    cdgh (addWords u v) =
      #v[(cdgh u).getD 0 default + (cdgh v).getD 0 default,
        (cdgh u).getD 1 default + (cdgh v).getD 1 default,
        (cdgh u).getD 2 default + (cdgh v).getD 2 default,
        (cdgh u).getD 3 default + (cdgh v).getD 3 default] := by
  rw [cdgh, addWords_getD _ _ (by decide), addWords_getD _ _ (by decide),
    addWords_getD _ _ (by decide), addWords_getD _ _ (by decide)]
  rfl

variable (S) in
theorem roundsFrom_four (w k : ℕ → W) (t : ℕ) (v : Vector W 8) :
    roundsFrom S w k t 4 v =
      shaRound S.shaFns (shaRound S.shaFns (shaRound S.shaFns (shaRound S.shaFns v
        (w t + k t)) (w (t + 1) + k (t + 1))) (w (t + 2) + k (t + 2))) (w (t + 3) + k (t + 3)) := by
  rw [shaRound_shaFns, shaRound_shaFns, shaRound_shaFns, shaRound_shaFns]
  rfl

variable (S) in
/-- The first two of four rounds leave the later half of the variables. -/
theorem shaRnds2_first (w k : ℕ → W) (t : ℕ) (v : Vector W 8) :
    shaRnds2 S.shaFns (cdgh v) (abef v) (w t + k t) (w (t + 1) + k (t + 1)) =
      cdgh (roundsFrom S w k t 4 v) := by
  rw [roundsFrom_four, cdgh_shaRound_shaRound, shaRnds2_cdgh_abef]

variable (S) in
/-- The other two leave the earlier half. -/
theorem shaRnds2_second (w k : ℕ → W) (t : ℕ) (v : Vector W 8) :
    shaRnds2 S.shaFns (abef v) (cdgh (roundsFrom S w k t 4 v)) (w (t + 2) + k (t + 2))
        (w (t + 3) + k (t + 3)) = abef (roundsFrom S w k t 4 v) := by
  rw [← shaRnds2_first, roundsFrom_four, shaRnds2_cdgh_abef,
    ← cdgh_shaRound_shaRound S.shaFns v (w t + k t) (w (t + 1) + k (t + 1)), shaRnds2_cdgh_abef]

end Words

/-!
## SHA-256 in registers
-/

section Sha256

variable {w k : ℕ → UInt32} {t : ℕ} {v : Vector UInt32 8}

/-- The registers with the variables. -/
structure HasState256 (s : ShaState M128i) (v : Vector UInt32 8) : Prop where
  state0 : lanes dwordCodec s.state0 = abef v
  state1 : lanes dwordCodec s.state1 = cdgh v

theorem lanes_mmSha256rnds2 (a b x : M128i) :
    lanes dwordCodec (mmSha256rnds2 a b x) =
      shaRnds2 sigmas32.shaFns (lanes dwordCodec a) (lanes dwordCodec b)
        (lane dwordCodec x 0) (lane dwordCodec x 1) := by
  rw [mmSha256rnds2, lanes_ofLanes _ (by decide), shaFns32_eq]

theorem lanes_mmSha256msg1 {a b : M128i} (ha : lanes dwordCodec a = fourWords w t)
    (hb : lanes dwordCodec b = fourWords w (t + 4)) :
    lanes dwordCodec (mmSha256msg1 a b) = partWords sigmas32 w t := by
  obtain ⟨hlane, -, -, -⟩ := (lanes_eq_iff dwordCodec).mp hb
  rw [mmSha256msg1, lanes_ofLanes _ (by decide), shaFns32_eq, ha, hlane, partWords]

theorem spxSha256FourRounds_sat {s : ShaState M128i} {msg c : M128i} (hs : HasState256 s v)
    (hmsg : lanes dwordCodec msg = fourWords w t) (hc : lanes dwordCodec c = fourWords k t) :
    HasState256 (spxSha256FourRounds s msg c) (roundsFrom sigmas32 w k t 4 v) := by
  have hsum : lanes dwordCodec (mmAddEpi32 msg c) =
      #v[w t + k t, w (t + 1) + k (t + 1), w (t + 2) + k (t + 2), w (t + 3) + k (t + 3)] :=
    lanes_mmAddEpi32 msg c _ _ hmsg hc
  obtain ⟨h₀, h₁, h₂, h₃⟩ := (lanes_eq_iff dwordCodec).mp hsum
  have hshuffle := lanes_mmShuffleEpi32_0x0E (mmAddEpi32 msg c)
  rw [h₂, h₃] at hshuffle
  obtain ⟨h₂, h₃, -, -⟩ := (lanes_eq_iff dwordCodec).mp hshuffle
  have hstate1 : lanes dwordCodec (spxSha256FourRounds s msg c).state1 =
      cdgh (roundsFrom sigmas32 w k t 4 v) := by
    rw [spxSha256FourRounds, lanes_mmSha256rnds2, hs.state0, hs.state1, h₀, h₁, shaRnds2_first]
  refine ⟨?_, hstate1⟩
  rw [← shaRnds2_second, ← hstate1, ← hs.state0, ← h₂, ← h₃, spxSha256FourRounds,
    lanes_mmSha256rnds2]

theorem spxSha256NextWords_sat (hw : IsSchedule sigmas32 w) {m₀ m₂ m₃ : M128i}
    (h₀ : lanes dwordCodec m₀ = partWords sigmas32 w t)
    (h₂ : lanes dwordCodec m₂ = fourWords w (t + 8))
    (h₃ : lanes dwordCodec m₃ = fourWords w (t + 12)) :
    lanes dwordCodec (spxSha256NextWords m₀ m₂ m₃) = fourWords w (t + 16) := by
  have halign : lanes dwordCodec (mmAlignrEpi8 m₃ m₂ 4) = fourWords w (t + 9) := by
    obtain ⟨-, hone, htwo, hthree⟩ := (lanes_eq_iff dwordCodec).mp h₂
    obtain ⟨hlast, -, -, -⟩ := (lanes_eq_iff dwordCodec).mp h₃
    rw [lanes_mmAlignrEpi8_4, hone, htwo, hthree, hlast]
    rfl
  have hsum := lanes_mmAddEpi32 m₀ (mmAlignrEpi8 m₃ m₂ 4) _ _ h₀ halign
  rw [spxSha256NextWords, mmSha256msg2, lanes_ofLanes _ (by decide), shaFns32_eq, hsum, h₃]
  exact shaMsg2_partWords hw t

theorem HasState256.four {s : ShaState M128i} {msg c : M128i}
    (hs : HasState256 s (roundsFrom sigmas32 w k 0 t v))
    (hmsg : lanes dwordCodec msg = fourWords w t) (hc : lanes dwordCodec c = fourWords k t) :
    HasState256 (spxSha256FourRounds s msg c) (roundsFrom sigmas32 w k 0 (t + 4) v) := by
  rw [roundsFrom_add, Nat.zero_add]
  exact spxSha256FourRounds_sat hs hmsg hc

theorem HasState256.add {x s : ShaState M128i} {u : Vector UInt32 8} (hx : HasState256 x u)
    (hs : HasState256 s v) :
    HasState256 ⟨mmAddEpi32 x.state0 s.state0, mmAddEpi32 x.state1 s.state1⟩
      (addWords u v) where
  state0 := (lanes_mmAddEpi32 _ _ _ _ hx.state0 hs.state0).trans (abef_addWords u v).symm
  state1 := (lanes_mmAddEpi32 _ _ _ _ hx.state1 hs.state1).trans (cdgh_addWords u v).symm

/-!
### The message schedule
-/

/-- What the code does for four rounds in the middle of a block, with the registers turned so
that `m3` has the words of these rounds. -/
def spxSha256Step (x : ShaRegs M128i) (c : M128i) : ShaRegs M128i where
  state := spxSha256FourRounds x.state x.m3 c
  m0 := x.m1
  m1 := mmSha256msg1 x.m2 x.m3
  m2 := x.m3
  m3 := spxSha256NextWords x.m0 x.m2 x.m3

/-- The registers before the round `t + 12`. -/
structure HasRegs256 (w k : ℕ → UInt32) (v : Vector UInt32 8) (t : ℕ)
    (x : ShaRegs M128i) : Prop where
  state : HasState256 x.state (roundsFrom sigmas32 w k 0 (t + 12) v)
  m0 : lanes dwordCodec x.m0 = partWords sigmas32 w t
  m1 : lanes dwordCodec x.m1 = partWords sigmas32 w (t + 4)
  m2 : lanes dwordCodec x.m2 = fourWords w (t + 8)
  m3 : lanes dwordCodec x.m3 = fourWords w (t + 12)

theorem HasRegs256.step (hw : IsSchedule sigmas32 w) {x : ShaRegs M128i}
    (hx : HasRegs256 w k v t x) {c : M128i} (hc : lanes dwordCodec c = fourWords k (t + 12)) :
    HasRegs256 w k v (t + 4) (spxSha256Step x c) where
  state := hx.state.four hx.m3 hc
  m0 := hx.m1
  m1 := lanes_mmSha256msg1 hx.m2 hx.m3
  m2 := hx.m3
  m3 := spxSha256NextWords_sat hw hx.m0 hx.m2 hx.m3

/-- The constants of the code, four at a time. -/
def spxSha256K : List M128i :=
  [mmSetEpi64x 0xE9B5DBA5B5C0FBCF 0x71374491428A2F98,
    mmSetEpi64x 0xAB1C5ED5923F82A4 0x59F111F13956C25B,
    mmSetEpi64x 0x550C7DC3243185BE 0x12835B01D807AA98,
    mmSetEpi64x 0xC19BF1749BDC06A7 0x80DEB1FE72BE5D74,
    mmSetEpi64x 0x240CA1CC0FC19DC6 0xEFBE4786E49B69C1,
    mmSetEpi64x 0x76F988DA5CB0A9DC 0x4A7484AA2DE92C6F,
    mmSetEpi64x 0xBF597FC7B00327C8 0xA831C66D983E5152,
    mmSetEpi64x 0x1429296706CA6351 0xD5A79147C6E00BF3,
    mmSetEpi64x 0x53380D134D2C6DFC 0x2E1B213827B70A85,
    mmSetEpi64x 0x92722C8581C2C92E 0x766A0ABB650A7354,
    mmSetEpi64x 0xC76C51A3C24B8B70 0xA81A664BA2BFE8A1,
    mmSetEpi64x 0x106AA070F40E3585 0xD6990624D192E819,
    mmSetEpi64x 0x34B0BCB52748774C 0x1E376C0819A4C116,
    mmSetEpi64x 0x682E6FF35B9CCA4F 0x4ED8AA4A391C0CB3,
    mmSetEpi64x 0x8CC7020884C87814 0x78A5636F748F82EE,
    mmSetEpi64x 0xC67178F2BEF9A3F7 0xA4506CEB90BEFFFA]

theorem lanes_spxSha256K : ∀ i < 16, lanes dwordCodec (spxSha256K.getD i default) =
    fourWords (roundConstant roundConstants32) (4 * i) := by
  decide +kernel

/-- The rounds of a block on the registers with its words. -/
def spxSha256Rounds (s : ShaState M128i) (m₀ m₁ m₂ m₃ : M128i) : ShaState M128i :=
  let s := spxSha256FourRounds s m₀ (spxSha256K.getD 0 default)
  let s := spxSha256FourRounds s m₁ (spxSha256K.getD 1 default)
  let s := spxSha256FourRounds s m₂ (spxSha256K.getD 2 default)
  let x := (List.range' 3 10).foldl (fun x i => spxSha256Step x (spxSha256K.getD i default))
    ⟨s, mmSha256msg1 m₀ m₁, mmSha256msg1 m₁ m₂, m₂, m₃⟩
  let s := spxSha256FourRounds x.state x.m3 (spxSha256K.getD 13 default)
  let m₀ := spxSha256NextWords x.m0 x.m2 x.m3
  let s := spxSha256FourRounds s m₀ (spxSha256K.getD 14 default)
  let m₁ := spxSha256NextWords x.m1 x.m3 m₀
  spxSha256FourRounds s m₁ (spxSha256K.getD 15 default)

theorem spxSha256BlockX86_eq (s : ShaState M128i) (data : Vector UInt8 64) :
    spxSha256BlockX86 s data =
      let x := spxSha256Rounds s (mmShuffleEpi8 (slice data 0 16) bswapMask32)
        (mmShuffleEpi8 (slice data 16 16) bswapMask32)
        (mmShuffleEpi8 (slice data 32 16) bswapMask32)
        (mmShuffleEpi8 (slice data 48 16) bswapMask32)
      ⟨mmAddEpi32 x.state0 s.state0, mmAddEpi32 x.state1 s.state1⟩ :=
  rfl

/-- The registers after `n` groups in the middle of a block. -/
theorem hasRegs256_foldl (hw : IsSchedule sigmas32 w) {x : ShaRegs M128i}
    (hx : HasRegs256 w (roundConstant roundConstants32) v 0 x) (n : ℕ) (hn : n ≤ 13) :
    HasRegs256 w (roundConstant roundConstants32) v (4 * n)
      ((List.range' 3 n).foldl (fun x i => spxSha256Step x (spxSha256K.getD i default)) x) := by
  induction n with
  | zero => exact hx
  | succ n ih =>
      have hconst : lanes dwordCodec (spxSha256K.getD (3 + n) default) =
          fourWords (roundConstant roundConstants32) (4 * n + 12) := by
        rw [lanes_spxSha256K _ (by omega)]
        congr 1
        omega
      rw [List.range'_1_concat, List.foldl_append]
      exact (ih (by omega)).step hw hconst

theorem spxSha256Rounds_sat (hw : IsSchedule sigmas32 w) {s : ShaState M128i}
    {m₀ m₁ m₂ m₃ : M128i} (hs : HasState256 s v)
    (h₀ : lanes dwordCodec m₀ = fourWords w 0) (h₁ : lanes dwordCodec m₁ = fourWords w 4)
    (h₂ : lanes dwordCodec m₂ = fourWords w 8) (h₃ : lanes dwordCodec m₃ = fourWords w 12) :
    HasState256 (spxSha256Rounds s m₀ m₁ m₂ m₃)
      (roundsFrom sigmas32 w (roundConstant roundConstants32) 0 64 v) := by
  have hk (i : ℕ) (hi : i < 16) := lanes_spxSha256K i hi
  have hs : HasState256 s (roundsFrom sigmas32 w (roundConstant roundConstants32) 0 0 v) := hs
  have hloaded : HasRegs256 w (roundConstant roundConstants32) v 0
      ⟨spxSha256FourRounds (spxSha256FourRounds (spxSha256FourRounds s m₀
        (spxSha256K.getD 0 default)) m₁ (spxSha256K.getD 1 default)) m₂
        (spxSha256K.getD 2 default), mmSha256msg1 m₀ m₁, mmSha256msg1 m₁ m₂, m₂, m₃⟩ :=
    { state := ((hs.four h₀ (hk 0 (by decide))).four h₁ (hk 1 (by decide))).four h₂
        (hk 2 (by decide))
      m0 := lanes_mmSha256msg1 h₀ h₁
      m1 := lanes_mmSha256msg1 h₁ h₂
      m2 := h₂
      m3 := h₃ }
  have hx := hasRegs256_foldl hw hloaded 10 (by decide)
  have hwords := spxSha256NextWords_sat hw hx.m0 hx.m2 hx.m3
  exact ((hx.state.four hx.m3 (hk 13 (by decide))).four hwords (hk 14 (by decide))).four
    (spxSha256NextWords_sat hw hx.m1 hx.m3 hwords) (hk 15 (by decide))

/-!
### Words in memory
-/

theorem shuffleByteIdx_bswapMask32 : ∀ i < 4, ∀ j < 4,
    shuffleByteIdx bswapMask32 (4 * i + j) = 4 * i + (3 - j) := by
  decide +kernel

theorem lane_bswap32 (r : M128i) {i : ℕ} (hi : i < 4) :
    lane dwordCodec (mmShuffleEpi8 r bswapMask32) i = loadBigendian32 (slice r (4 * i) 4) := by
  have hreverse : (slice (mmShuffleEpi8 r bswapMask32) (4 * i) 4).reverse = slice r (4 * i) 4 :=
    reverse_slice_gather r (by omega) (shuffleByteIdx_bswapMask32 i hi)
  rw [loadBigendian32, ← hreverse]
  rfl

theorem lanes_loadWords32 (data : Vector UInt8 64) (j : ℕ) (hj : j < 4) :
    lanes dwordCodec (mmShuffleEpi8 (slice data (16 * j) 16) bswapMask32) =
      fourWords (scheduleWord sigmas32 (loadWords32 16 data)) (4 * j) := by
  have hlane (i : ℕ) (hi : i < 4) :
      lane dwordCodec (mmShuffleEpi8 (slice data (16 * j) 16) bswapMask32) i =
        scheduleWord sigmas32 (loadWords32 16 data) (4 * j + i) := by
    rw [lane_bswap32 _ hi, slice_slice _ _ _ _ _ (by omega) (by omega),
      scheduleWord_of_lt _ _ (show 4 * j + i < 16 by omega), loadWords32, getD_ofFn _ (by omega)]
    congr 2
    dsimp only
    omega
  exact (lanes_eq_iff dwordCodec).mpr ⟨hlane 0 (by decide), hlane 1 (by decide),
    hlane 2 (by decide), hlane 3 (by decide)⟩

theorem spxSha256BlockX86_sat {s : ShaState M128i} (hs : HasState256 s v)
    (data : Vector UInt8 64) : HasState256 (spxSha256BlockX86 s data) (sha256Compress v data) := by
  have hx := spxSha256Rounds_sat (isSchedule_scheduleWord sigmas32 (loadWords32 16 data)) hs
    (lanes_loadWords32 data 0 (by decide)) (lanes_loadWords32 data 1 (by decide))
    (lanes_loadWords32 data 2 (by decide)) (lanes_loadWords32 data 3 (by decide))
  rw [spxSha256BlockX86_eq, sha256Compress, sha2Compress_eq]
  exact hx.add hs

theorem lanes_mmLoadWords (state : Vector UInt32 8) (i : ℕ) :
    lanes dwordCodec (mmLoadWords state i) = fourWords (fun j => state.getD j 0) i := by
  rw [mmLoadWords, lanes_ofLanes _ (by decide)]
  exact ofFn_eq_fourWords (fun j => state.getD j 0) i

theorem spxSha256LoadState_sat (state : Vector UInt32 8) :
    HasState256 (spxSha256LoadState state) state := by
  obtain ⟨h₀, h₁, h₂, h₃⟩ := (lanes_eq_iff dwordCodec).mp (lanes_mmLoadWords state 0)
  obtain ⟨h₄, h₅, h₆, h₇⟩ := (lanes_eq_iff dwordCodec).mp (lanes_mmLoadWords state 4)
  obtain ⟨hb, ha, hd, hc⟩ := (lanes_eq_iff dwordCodec).mp
    (lanes_mmShuffleEpi32_0xB1 (mmLoadWords state 0))
  obtain ⟨hh, hg, hf, he⟩ := (lanes_eq_iff dwordCodec).mp
    (lanes_mmShuffleEpi32_0x1B (mmLoadWords state 4))
  constructor
  · rw [spxSha256LoadState, lanes_mmAlignrEpi8_8, hf, he, hb, ha, h₅, h₄, h₁, h₀]
    rfl
  · rw [spxSha256LoadState, lanes_mmBlendEpi16_0xF0, hh, hg, hd, hc, h₇, h₆, h₃, h₂]
    rfl

theorem spxSha256StoreState_eq {s : ShaState M128i} (hs : HasState256 s v) :
    spxSha256StoreState s = v := by
  obtain ⟨h₅, h₄, h₁, h₀⟩ := (lanes_eq_iff dwordCodec).mp hs.state0
  obtain ⟨h₇, h₆, h₃, h₂⟩ := (lanes_eq_iff dwordCodec).mp hs.state1
  obtain ⟨ha, hb, he, hf⟩ := (lanes_eq_iff dwordCodec).mp (lanes_mmShuffleEpi32_0x1B s.state0)
  obtain ⟨hg, hh, hc, hd⟩ := (lanes_eq_iff dwordCodec).mp (lanes_mmShuffleEpi32_0xB1 s.state1)
  rw [spxSha256StoreState, lanes_mmBlendEpi16_0xF0, lanes_mmAlignrEpi8_8, ha, hb, hc, hd, he,
    hf, hg, hh, h₀, h₁, h₂, h₃, h₄, h₅, h₆, h₇]
  exact fourWords_append v

theorem spxSha256ProcessX86_eq (state : Vector UInt32 8) (data : List UInt8) :
    spxSha256ProcessX86 state data = absorb sha256Compress state data := by
  have hstate : HasState256 (absorb spxSha256BlockX86 (spxSha256LoadState state) data)
      (absorb sha256Compress state data) :=
    absorb_rel (r := HasState256) (fun _ _ block hs => spxSha256BlockX86_sat hs block)
      (spxSha256LoadState_sat state) data
  rw [spxSha256ProcessX86, hashblocksLoop_eq]
  exact spxSha256StoreState_eq hstate

end Sha256

/-!
## SHA-512 in registers
-/

section Sha512

variable {w k : ℕ → UInt64} {t : ℕ} {v : Vector UInt64 8}

/-- The registers with the variables. -/
structure HasState512 (s : ShaState M256i) (v : Vector UInt64 8) : Prop where
  state0 : lanes qwordCodec s.state0 = cdgh v
  state1 : lanes qwordCodec s.state1 = abef v

theorem lanes_mm256Sha512rnds2 (a b : M256i) (x : M128i) :
    lanes qwordCodec (mm256Sha512rnds2 a b x) =
      shaRnds2 sigmas64.shaFns (lanes qwordCodec a) (lanes qwordCodec b)
        (lane qwordCodec x 0) (lane qwordCodec x 1) := by
  rw [mm256Sha512rnds2, lanes_ofLanes _ (by decide), shaFns64_eq]

theorem lanes_mm256Sha512msg1 {a b : M256i} (ha : lanes qwordCodec a = fourWords w t)
    (hb : lanes qwordCodec b = fourWords w (t + 4)) :
    lanes qwordCodec (mm256Sha512msg1 a (mm256Extracti128 b 0)) = partWords sigmas64 w t := by
  obtain ⟨hlane, -, -, -⟩ := (lanes_eq_iff qwordCodec).mp hb
  rw [mm256Sha512msg1, lanes_ofLanes _ (by decide), shaFns64_eq, ha,
    lane_mm256Extracti128_0 _ (by decide), hlane, partWords]

theorem spxSha512FourRounds_sat {s : ShaState M256i} {msg c : M256i} (hs : HasState512 s v)
    (hmsg : lanes qwordCodec msg = fourWords w t) (hc : lanes qwordCodec c = fourWords k t) :
    HasState512 (spxSha512FourRounds s msg c) (roundsFrom sigmas64 w k t 4 v) := by
  have hsum : lanes qwordCodec (mm256AddEpi64 msg c) =
      #v[w t + k t, w (t + 1) + k (t + 1), w (t + 2) + k (t + 2), w (t + 3) + k (t + 3)] :=
    lanes_mm256AddEpi64 msg c _ _ hmsg hc
  obtain ⟨h₀, h₁, h₂, h₃⟩ := (lanes_eq_iff qwordCodec).mp hsum
  have hstate0 : lanes qwordCodec (spxSha512FourRounds s msg c).state0 =
      cdgh (roundsFrom sigmas64 w k t 4 v) := by
    rw [spxSha512FourRounds, lanes_mm256Sha512rnds2, hs.state0, hs.state1,
      lane_mm256Extracti128_0 _ (by decide), lane_mm256Extracti128_0 _ (by decide), h₀, h₁,
      shaRnds2_first]
  refine ⟨hstate0, ?_⟩
  rw [← shaRnds2_second, ← hstate0, ← hs.state1, ← h₂, ← h₃, spxSha512FourRounds,
    lanes_mm256Sha512rnds2, lane_mm256Extracti128_1 _ (by decide),
    lane_mm256Extracti128_1 _ (by decide)]

theorem HasState512.four {s : ShaState M256i} {msg c : M256i}
    (hs : HasState512 s (roundsFrom sigmas64 w k 0 t v))
    (hmsg : lanes qwordCodec msg = fourWords w t) (hc : lanes qwordCodec c = fourWords k t) :
    HasState512 (spxSha512FourRounds s msg c) (roundsFrom sigmas64 w k 0 (t + 4) v) := by
  rw [roundsFrom_add, Nat.zero_add]
  exact spxSha512FourRounds_sat hs hmsg hc

theorem HasState512.add {x s : ShaState M256i} {u : Vector UInt64 8} (hx : HasState512 x u)
    (hs : HasState512 s v) :
    HasState512 ⟨mm256AddEpi64 x.state0 s.state0, mm256AddEpi64 x.state1 s.state1⟩
      (addWords u v) where
  state0 := (lanes_mm256AddEpi64 _ _ _ _ hx.state0 hs.state0).trans (cdgh_addWords u v).symm
  state1 := (lanes_mm256AddEpi64 _ _ _ _ hx.state1 hs.state1).trans (abef_addWords u v).symm

/-!
### The message schedule
-/

/-- The first register that is expanded gets the next four words. -/
theorem spxSha512MsgExpand_fst (hw : IsSchedule sigmas64 w) {m₀ m₁ m₂ : M256i} (m₃ : M256i)
    (h₀ : lanes qwordCodec m₀ = fourWords w (t + 8))
    (h₁ : lanes qwordCodec m₁ = fourWords w (t + 12))
    (h₂ : lanes qwordCodec m₂ = partWords sigmas64 w t) :
    lanes qwordCodec (spxSha512MsgExpand m₀ m₁ m₂ m₃).1 = fourWords w (t + 16) := by
  have hturned : lanes qwordCodec (mm256Permute4x64 (mm256BlendEpi32 m₀ m₁ 0x03) 0x39) =
      fourWords w (t + 9) := by
    obtain ⟨-, hone, htwo, hthree⟩ := (lanes_eq_iff qwordCodec).mp h₀
    obtain ⟨hlast, -, -, -⟩ := (lanes_eq_iff qwordCodec).mp h₁
    obtain ⟨g₀, g₁, g₂, g₃⟩ := (lanes_eq_iff qwordCodec).mp (lanes_mm256BlendEpi32_0x03 m₀ m₁)
    rw [lanes_mm256Permute4x64_0x39, g₀, g₁, g₂, g₃, hone, htwo, hthree, hlast]
    rfl
  have hsum := lanes_mm256AddEpi64 m₂ _ _ _ h₂ hturned
  rw [spxSha512MsgExpand, mm256Sha512msg2, lanes_ofLanes _ (by decide), shaFns64_eq, hsum, h₁]
  exact shaMsg2_partWords hw t

/-- The code for four rounds in the loop over `r`, with the registers turned so that `m2` has
the words of these rounds. -/
def spxSha512Step (x : ShaRegs M256i) (c : M256i) : ShaRegs M256i where
  state := spxSha512FourRounds x.state x.m2 c
  m0 := (spxSha512MsgExpand x.m2 x.m3 x.m0 x.m1).2
  m1 := x.m2
  m2 := x.m3
  m3 := (spxSha512MsgExpand x.m2 x.m3 x.m0 x.m1).1

/-- The registers before the round `t + 8`. -/
structure HasRegs512 (w k : ℕ → UInt64) (v : Vector UInt64 8) (t : ℕ)
    (x : ShaRegs M256i) : Prop where
  state : HasState512 x.state (roundsFrom sigmas64 w k 0 (t + 8) v)
  m0 : lanes qwordCodec x.m0 = partWords sigmas64 w t
  m1 : lanes qwordCodec x.m1 = fourWords w (t + 4)
  m2 : lanes qwordCodec x.m2 = fourWords w (t + 8)
  m3 : lanes qwordCodec x.m3 = fourWords w (t + 12)

theorem HasRegs512.step (hw : IsSchedule sigmas64 w) {x : ShaRegs M256i}
    (hx : HasRegs512 w k v t x) {c : M256i} (hc : lanes qwordCodec c = fourWords k (t + 8)) :
    HasRegs512 w k v (t + 4) (spxSha512Step x c) where
  state := hx.state.four hx.m2 hc
  m0 := lanes_mm256Sha512msg1 hx.m1 hx.m2
  m1 := hx.m2
  m2 := hx.m3
  m3 := spxSha512MsgExpand_fst hw x.m1 hx.m2 hx.m3 hx.m0

theorem spxSha512RoundsBody_eq (x : ShaRegs M256i) (r : ℕ) :
    spxSha512RoundsBody x r =
      spxSha512Step (spxSha512Step (spxSha512Step (spxSha512Step x
        (spxSha512KRegister r)) (spxSha512KRegister (r + 1))) (spxSha512KRegister (r + 2)))
          (spxSha512KRegister (r + 3)) :=
  rfl

theorem spxSha512K_getD : ∀ t < 80, spxSha512K.getD t 0 = roundConstant roundConstants64 t := by
  decide +kernel

theorem lanes_spxSha512KRegister (i : ℕ) (hi : i < 20) :
    lanes qwordCodec (spxSha512KRegister i) =
      fourWords (roundConstant roundConstants64) (4 * i) := by
  rw [spxSha512KRegister, lanes_ofLanes _ (by decide),
    ofFn_eq_fourWords (fun j => spxSha512K.getD j 0), fourWords, fourWords,
    spxSha512K_getD _ (by omega), spxSha512K_getD _ (by omega), spxSha512K_getD _ (by omega),
    spxSha512K_getD _ (by omega)]

theorem hasRegs512_foldl (hw : IsSchedule sigmas64 w) {x : ShaRegs M256i}
    (hx : HasRegs512 w (roundConstant roundConstants64) v 0 x) (n : ℕ) (hn : n ≤ 4) :
    HasRegs512 w (roundConstant roundConstants64) v (16 * n)
      ((List.range' 2 n 4).foldl spxSha512RoundsBody x) := by
  induction n with
  | zero => exact hx
  | succ n ih =>
      have hconst (i : ℕ) (hi : i < 4) : lanes qwordCodec (spxSha512KRegister (2 + 4 * n + i)) =
          fourWords (roundConstant roundConstants64) (16 * n + 4 * i + 8) := by
        rw [lanes_spxSha512KRegister _ (by omega)]
        congr 1
        omega
      rw [List.range'_concat, List.foldl_append, List.foldl_cons, List.foldl_nil,
        spxSha512RoundsBody_eq]
      exact ((((ih (by omega)).step hw (hconst 0 (by decide))).step hw
        (hconst 1 (by decide))).step hw (hconst 2 (by decide))).step hw (hconst 3 (by decide))

/-- The rounds of a block on the registers with its words. -/
def spxSha512Rounds (s : ShaState M256i) (m₀ m₁ m₂ m₃ : M256i) : ShaState M256i :=
  let s := spxSha512FourRounds s m₀ (spxSha512KRegister 0)
  let s := spxSha512FourRounds s m₁ (spxSha512KRegister 1)
  let x := (List.range' 2 4 4).foldl spxSha512RoundsBody
    ⟨s, mm256Sha512msg1 m₀ (mm256Extracti128 m₁ 0), m₁, m₂, m₃⟩
  let s := spxSha512FourRounds x.state x.m2 (spxSha512KRegister 18)
  spxSha512FourRounds s x.m3 (spxSha512KRegister 19)

theorem spxSha512Rounds_sat (hw : IsSchedule sigmas64 w) {s : ShaState M256i}
    {m₀ m₁ m₂ m₃ : M256i} (hs : HasState512 s v)
    (h₀ : lanes qwordCodec m₀ = fourWords w 0) (h₁ : lanes qwordCodec m₁ = fourWords w 4)
    (h₂ : lanes qwordCodec m₂ = fourWords w 8) (h₃ : lanes qwordCodec m₃ = fourWords w 12) :
    HasState512 (spxSha512Rounds s m₀ m₁ m₂ m₃)
      (roundsFrom sigmas64 w (roundConstant roundConstants64) 0 80 v) := by
  have hk (i : ℕ) (hi : i < 20) := lanes_spxSha512KRegister i hi
  have hs : HasState512 s (roundsFrom sigmas64 w (roundConstant roundConstants64) 0 0 v) := hs
  have hloaded : HasRegs512 w (roundConstant roundConstants64) v 0
      ⟨spxSha512FourRounds (spxSha512FourRounds s m₀ (spxSha512KRegister 0)) m₁
        (spxSha512KRegister 1), mm256Sha512msg1 m₀ (mm256Extracti128 m₁ 0), m₁, m₂, m₃⟩ :=
    { state := (hs.four h₀ (hk 0 (by decide))).four h₁ (hk 1 (by decide))
      m0 := lanes_mm256Sha512msg1 h₀ h₁
      m1 := h₁
      m2 := h₂
      m3 := h₃ }
  have hx := hasRegs512_foldl hw hloaded 4 (by decide)
  exact (hx.state.four hx.m2 (hk 18 (by decide))).four hx.m3 (hk 19 (by decide))

/-!
### Words in memory
-/

theorem shuffleByteIdx_bswapMask64 : ∀ i < 4, ∀ j < 8,
    shuffleByteIdx bswapMask64 (8 * i + j) = 8 * i + (7 - j) := by
  decide +kernel

theorem lane_bswap64 (r : M256i) {i : ℕ} (hi : i < 4) :
    lane qwordCodec (mm256ShuffleEpi8 r bswapMask64) i = loadBigendian64 (slice r (8 * i) 8) := by
  have hreverse : (slice (mm256ShuffleEpi8 r bswapMask64) (8 * i) 8).reverse =
      slice r (8 * i) 8 :=
    reverse_slice_gather r (by omega) (shuffleByteIdx_bswapMask64 i hi)
  rw [loadBigendian64, ← hreverse]
  rfl

theorem lanes_loadWords64 (data : Vector UInt8 128) (j : ℕ) (hj : j < 4) :
    lanes qwordCodec (mm256ShuffleEpi8 (slice data (32 * j) 32) bswapMask64) =
      fourWords (scheduleWord sigmas64 (loadWords64 16 data)) (4 * j) := by
  have hlane (i : ℕ) (hi : i < 4) :
      lane qwordCodec (mm256ShuffleEpi8 (slice data (32 * j) 32) bswapMask64) i =
        scheduleWord sigmas64 (loadWords64 16 data) (4 * j + i) := by
    rw [lane_bswap64 _ hi, slice_slice _ _ _ _ _ (by omega) (by omega),
      scheduleWord_of_lt _ _ (show 4 * j + i < 16 by omega), loadWords64, getD_ofFn _ (by omega)]
    congr 2
    dsimp only
    omega
  exact (lanes_eq_iff qwordCodec).mpr ⟨hlane 0 (by decide), hlane 1 (by decide),
    hlane 2 (by decide), hlane 3 (by decide)⟩

theorem spxSha512BlockX86_eq (s : ShaState M256i) (input : Vector UInt8 128) :
    spxSha512BlockX86 s input =
      let x := spxSha512Rounds s (mm256ShuffleEpi8 (slice input 0 32) bswapMask64)
        (mm256ShuffleEpi8 (slice input 32 32) bswapMask64)
        (mm256ShuffleEpi8 (slice input 64 32) bswapMask64)
        (mm256ShuffleEpi8 (slice input 96 32) bswapMask64)
      ⟨mm256AddEpi64 x.state0 s.state0, mm256AddEpi64 x.state1 s.state1⟩ :=
  rfl

theorem spxSha512BlockX86_sat {s : ShaState M256i} (hs : HasState512 s v)
    (input : Vector UInt8 128) :
    HasState512 (spxSha512BlockX86 s input) (sha512Compress v input) := by
  have hx := spxSha512Rounds_sat (isSchedule_scheduleWord sigmas64 (loadWords64 16 input)) hs
    (lanes_loadWords64 input 0 (by decide)) (lanes_loadWords64 input 1 (by decide))
    (lanes_loadWords64 input 2 (by decide)) (lanes_loadWords64 input 3 (by decide))
  rw [spxSha512BlockX86_eq, sha512Compress, sha2Compress_eq]
  exact hx.add hs

theorem spxSha512PermuteState_lanes {s : ShaState M256i} {a b c d e f g h : UInt64}
    (h₀ : lanes qwordCodec s.state0 = #v[a, b, c, d])
    (h₁ : lanes qwordCodec s.state1 = #v[e, f, g, h]) :
    lanes qwordCodec (spxSha512PermuteState s).state0 = #v[h, g, d, c] ∧
      lanes qwordCodec (spxSha512PermuteState s).state1 = #v[f, e, b, a] := by
  obtain ⟨ha, hb, hc, hd⟩ := (lanes_eq_iff qwordCodec).mp h₀
  obtain ⟨he, hf, hg, hh⟩ := (lanes_eq_iff qwordCodec).mp h₁
  obtain ⟨a₀, a₁, a₂, a₃⟩ := (lanes_eq_iff qwordCodec).mp
    (lanes_mm256ShuffleEpi32_0x4E s.state0)
  obtain ⟨b₀, b₁, b₂, b₃⟩ := (lanes_eq_iff qwordCodec).mp
    (lanes_mm256ShuffleEpi32_0x4E s.state1)
  constructor
  · rw [spxSha512PermuteState, lanes_mm256Permute2x128_0x13, a₂, a₃, b₂, b₃, hc, hd, hg, hh]
  · rw [spxSha512PermuteState, lanes_mm256Permute2x128_0x02, a₀, a₁, b₀, b₁, ha, hb, he, hf]

theorem lanes_mm256LoadWords (state : Vector UInt64 8) (i : ℕ) :
    lanes qwordCodec (mm256LoadWords state i) = fourWords (fun j => state.getD j 0) i := by
  rw [mm256LoadWords, lanes_ofLanes _ (by decide)]
  exact ofFn_eq_fourWords (fun j => state.getD j 0) i

theorem spxSha512ProcessX86_eq (state : Vector UInt64 8) (input : List UInt8) :
    spxSha512ProcessX86 state input = absorb sha512Compress state input := by
  obtain ⟨hload0, hload1⟩ := spxSha512PermuteState_lanes
    (s := ⟨mm256LoadWords state 0, mm256LoadWords state 4⟩)
    (lanes_mm256LoadWords state 0) (lanes_mm256LoadWords state 4)
  have hstate : HasState512 (absorb spxSha512BlockX86
      (spxSha512PermuteState ⟨mm256LoadWords state 0, mm256LoadWords state 4⟩) input)
      (absorb sha512Compress state input) :=
    absorb_rel (r := HasState512) (fun _ _ block hs => spxSha512BlockX86_sat hs block)
      ⟨hload0, hload1⟩ input
  obtain ⟨hstore0, hstore1⟩ := spxSha512PermuteState_lanes hstate.state0 hstate.state1
  rw [spxSha512ProcessX86, hashblocksLoop_eq]
  dsimp only
  rw [hstore0, hstore1]
  exact fourWords_append (absorb sha512Compress state input)

end Sha512

end BitcoinPqc
