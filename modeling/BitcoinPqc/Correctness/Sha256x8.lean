import BitcoinPqc.Correctness.Sha2X86
import BitcoinPqc.Sphincs.Sha256x8

/-!
# Each lane computes SHA-256

The variables of a lane are the words of that lane in the eight registers, in the order in
which the next round names them. A round of the vector code is a round of the scalar code on
the variables of every lane, and the words of a lane are the schedule of its block. The
lanes do not meet, so each lane of the digest is the digest of that lane's input.
-/

namespace BitcoinPqc

/-!
## Macros
-/

section Macros

variable {j : ℕ} (hj : j < 8)
include hj

theorem lane_notAvx (x : M256i) :
    lane dwordCodec (notAvx x) j = ~~~lane dwordCodec x j := by
  have hones : (Vector.replicate 8 (0xffffffff : UInt32)).reverse.getD j 0 = 0xffffffff := by
    rw [getD_eq_getElem _ hj]
    simp
  rw [notAvx, lane_xor hj, lane_setEpi32 hj, hones]
  exact UInt32.xor_neg_one

theorem lane_rotr32Avx (x : M256i) {y : UInt32} (hpos : 0 < y.toNat) (hlt : y.toNat < 32) :
    lane dwordCodec (rotr32Avx x y) j = rotr32 (lane dwordCodec x j) y := by
  have hsub : (32 - y).toNat = 32 - y.toNat :=
    UInt32.toNat_sub_of_le _ _ (UInt32.le_iff_toNat_le.mpr (Nat.le_of_lt hlt))
  have hleft : 32 - y < 32 := by
    rw [UInt32.lt_iff_toNat_lt, hsub]
    exact Nat.sub_lt (by decide) hpos
  rw [rotr32Avx, lane_or hj, lane_srli hj _ (UInt32.lt_iff_toNat_lt.mpr hlt),
    lane_slli hj _ hleft, ← ror32_eq_rotr32 _ _ hpos hlt, ror32]

theorem lane_xor3Avx (a b c : M256i) :
    lane dwordCodec (xor3Avx a b c) j =
      lane dwordCodec a j ^^^ lane dwordCodec b j ^^^ lane dwordCodec c j := by
  rw [xor3Avx, lane_xor hj, lane_xor hj]

theorem lane_majAvx (a b c : M256i) :
    lane dwordCodec (majAvx a b c) j =
      maj (lane dwordCodec a j) (lane dwordCodec b j) (lane dwordCodec c j) := by
  rw [majAvx, lane_xor3Avx hj, lane_and hj, lane_and hj, lane_and hj, maj]

theorem lane_chAvx (a b c : M256i) :
    lane dwordCodec (chAvx a b c) j =
      ch (lane dwordCodec a j) (lane dwordCodec b j) (lane dwordCodec c j) := by
  rw [chAvx, lane_xor hj, lane_and hj, lane_and hj, lane_notAvx hj, ch]

theorem lane_bigSigma1Avx (x : M256i) :
    lane dwordCodec (bigSigma1Avx x) j = sigmas32.bigSigma1 (lane dwordCodec x j) := by
  rw [bigSigma1Avx, lane_xor3Avx hj, lane_rotr32Avx hj _ (by decide) (by decide),
    lane_rotr32Avx hj _ (by decide) (by decide), lane_rotr32Avx hj _ (by decide) (by decide)]
  rfl

theorem lane_bigSigma0Avx (x : M256i) :
    lane dwordCodec (bigSigma0Avx x) j = sigmas32.bigSigma0 (lane dwordCodec x j) := by
  rw [bigSigma0Avx, lane_xor3Avx hj, lane_rotr32Avx hj _ (by decide) (by decide),
    lane_rotr32Avx hj _ (by decide) (by decide), lane_rotr32Avx hj _ (by decide) (by decide)]
  rfl

theorem lane_wsigma1Avx (x : M256i) :
    lane dwordCodec (wsigma1Avx x) j = sigmas32.sigma1 (lane dwordCodec x j) := by
  rw [wsigma1Avx, lane_xor3Avx hj, lane_rotr32Avx hj _ (by decide) (by decide),
    lane_rotr32Avx hj _ (by decide) (by decide), lane_srli hj _ (by decide)]
  rfl

theorem lane_wsigma0Avx (x : M256i) :
    lane dwordCodec (wsigma0Avx x) j = sigmas32.sigma0 (lane dwordCodec x j) := by
  rw [wsigma0Avx, lane_xor3Avx hj, lane_rotr32Avx hj _ (by decide) (by decide),
    lane_rotr32Avx hj _ (by decide) (by decide), lane_srli hj _ (by decide)]
  rfl

end Macros

/-!
## Loading and transposing
-/

/-- Two stages of unpacking collect the words with the same number in the halves of four
registers. -/
theorem lane_unpack_stages (q : ℕ → M256i) {j : ℕ} (hj : j < 8) :
    lane dwordCodec (mm256UnpackloEpi64 (mm256UnpackloEpi32 (q 0) (q 1))
        (mm256UnpackloEpi32 (q 2) (q 3))) j = lane dwordCodec (q (j % 4)) (4 * (j / 4)) ∧
      lane dwordCodec (mm256UnpackhiEpi64 (mm256UnpackloEpi32 (q 0) (q 1))
        (mm256UnpackloEpi32 (q 2) (q 3))) j = lane dwordCodec (q (j % 4)) (4 * (j / 4) + 1) ∧
      lane dwordCodec (mm256UnpackloEpi64 (mm256UnpackhiEpi32 (q 0) (q 1))
        (mm256UnpackhiEpi32 (q 2) (q 3))) j = lane dwordCodec (q (j % 4)) (4 * (j / 4) + 2) ∧
      lane dwordCodec (mm256UnpackhiEpi64 (mm256UnpackhiEpi32 (q 0) (q 1))
        (mm256UnpackhiEpi32 (q 2) (q 3))) j = lane dwordCodec (q (j % 4)) (4 * (j / 4) + 3) := by
  rw [lane_unpackloEpi64 _ _ hj, lane_unpackhiEpi64 _ _ hj, lane_unpackloEpi64 _ _ hj,
    lane_unpackhiEpi64 _ _ hj]
  interval_cases j <;> simp [lane_unpackloEpi32, lane_unpackhiEpi32]

/-- The last stage puts the halves of two registers together. -/
theorem lane_permute_stage (q : ℕ → M256i) {t t' : M256i} {k : ℕ}
    (ht : ∀ j < 8, lane dwordCodec t j = lane dwordCodec (q (j % 4)) (4 * (j / 4) + k))
    (ht' : ∀ j < 8, lane dwordCodec t' j = lane dwordCodec (q (4 + j % 4)) (4 * (j / 4) + k))
    {j : ℕ} (hj : j < 8) :
    lane dwordCodec (mm256Permute2x128 t t' 0x20) j = lane dwordCodec (q j) k ∧
      lane dwordCodec (mm256Permute2x128 t t' 0x31) j = lane dwordCodec (q j) (4 + k) := by
  rw [lane_permute2x128_0x20 _ _ hj, lane_permute2x128_0x31 _ _ hj]
  interval_cases j <;> simp [ht, ht']

theorem lane_transpose (s : Vector M256i 8) {i j : ℕ} (hi : i < 8) (hj : j < 8) :
    lane dwordCodec ((transpose s).getD i default) j =
      lane dwordCodec (s.getD j default) i := by
  let q (m : ℕ) : M256i := s.getD m default
  have hlow (m : ℕ) (hm : m < 8) := lane_unpack_stages q hm
  have hhigh (m : ℕ) (hm : m < 8) := lane_unpack_stages (fun m => q (4 + m)) hm
  have h0 := lane_permute_stage q (k := 0) (fun m hm => (hlow m hm).1)
    (fun m hm => (hhigh m hm).1) hj
  have h1 := lane_permute_stage q (fun m hm => (hlow m hm).2.1)
    (fun m hm => (hhigh m hm).2.1) hj
  have h2 := lane_permute_stage q (fun m hm => (hlow m hm).2.2.1)
    (fun m hm => (hhigh m hm).2.2.1) hj
  have h3 := lane_permute_stage q (fun m hm => (hlow m hm).2.2.2)
    (fun m hm => (hhigh m hm).2.2.2) hj
  interval_cases i
  · exact h0.1
  · exact h1.1
  · exact h2.1
  · exact h3.1
  · exact h0.2
  · exact h1.2
  · exact h2.2
  · exact h3.2

theorem shuffleByteIdx_byteswapMaskAvx : ∀ i < 8, ∀ j < 4,
    shuffleByteIdx byteswapMaskAvx (4 * i + j) = 4 * i + (4 - 1 - j) := by
  decide +kernel

theorem reverse_slice_byteswapAvx (x : M256i) {i : ℕ} (hi : i < 8) :
    (slice (byteswapAvx x) (4 * i) 4).reverse = slice x (4 * i) 4 :=
  reverse_slice_gather x (by omega) (shuffleByteIdx_byteswapMaskAvx i hi)

theorem lane_byteswapAvx (x : M256i) {i : ℕ} (hi : i < 8) :
    lane dwordCodec (byteswapAvx x) i = loadBigendian32 (slice x (4 * i) 4) := by
  rw [loadBigendian32, ← reverse_slice_byteswapAvx x hi]
  rfl

/-!
## Rounds
-/

theorem getD_setIfInBounds {α : Type*} {n : ℕ} (v : Vector α n) (i : ℕ) {j : ℕ}
    (hj : j < n) (x d : α) :
    (v.setIfInBounds i x).getD j d = if i = j then x else v.getD j d := by
  rw [getD_eq_getElem _ hj, getD_eq_getElem _ hj, Vector.getElem_setIfInBounds]

/-- The variables of lane `j` in front of the round `rc`. -/
def laneVars (s : Vector M256i 8) (rc j : ℕ) : Vector UInt32 8 :=
  Vector.ofFn fun m => lane dwordCodec (s.getD (roundVar rc m.val) default) j

theorem laneVars_getD (s : Vector M256i 8) (rc j : ℕ) {m : ℕ} (hm : m < 8) :
    (laneVars s rc j).getD m default = lane dwordCodec (s.getD (roundVar rc m) default) j := by
  rw [laneVars, getD_ofFn _ hm]

theorem rcAvx_getD : ∀ t < 64, rcAvx.getD t 0 = roundConstant roundConstants32 t := by
  decide +kernel

theorem lane_roundSums (a b c e f g h w : M256i) {rc j : ℕ} (hrc : rc < 64) (hj : j < 8) :
    lane dwordCodec (add5Avx h (bigSigma1Avx e) (chAvx e f g)
        (mm256Set1Epi32 (rcAvx.getD rc 0)) w) j =
      ((lane dwordCodec h j + sigmas32.bigSigma1 (lane dwordCodec e j)) +
        (ch (lane dwordCodec e j) (lane dwordCodec f j) (lane dwordCodec g j) +
          roundConstant roundConstants32 rc)) + lane dwordCodec w j ∧
      lane dwordCodec (mm256AddEpi32 (bigSigma0Avx a) (majAvx a b c)) j =
        sigmas32.bigSigma0 (lane dwordCodec a j) +
          maj (lane dwordCodec a j) (lane dwordCodec b j) (lane dwordCodec c j) := by
  constructor
  · rw [add5Avx, lane_add hj, lane_add hj, lane_add hj, lane_add hj, lane_bigSigma1Avx hj,
      lane_chAvx hj, lane_set1 hj, rcAvx_getD rc hrc, ← UInt32.add_assoc (_ + _) (ch _ _ _)]
  · rw [lane_add hj, lane_bigSigma0Avx hj, lane_majAvx hj]

theorem laneVars_sha256RoundAvx (s : Vector M256i 8) {rc j : ℕ} (hrc : rc < 64) (hj : j < 8)
    (w : M256i) :
    laneVars (sha256RoundAvx s rc w) (rc + 1) j =
      sha2Round sigmas32 (laneVars s rc j) (lane dwordCodec w j)
        (roundConstant roundConstants32 rc) := by
  have hlt (m : ℕ) : roundVar rc m < 8 := Nat.mod_lt _ (by decide)
  have hfirst : roundVar (rc + 1) 0 = roundVar rc 7 := by
    rw [roundVar, roundVar]
    omega
  have hnext (m : ℕ) : roundVar (rc + 1) (m + 1) = roundVar rc m := by
    rw [roundVar, roundVar]
    omega
  have hne {m k : ℕ} (hm : m < 8) (hk : k < 8) (hmk : m ≠ k) : roundVar rc m ≠ roundVar rc k := by
    rw [roundVar, roundVar]
    omega
  obtain ⟨ht0, ht1⟩ := lane_roundSums (s.getD (roundVar rc 0) default)
    (s.getD (roundVar rc 1) default) (s.getD (roundVar rc 2) default)
    (s.getD (roundVar rc 4) default) (s.getD (roundVar rc 5) default)
    (s.getD (roundVar rc 6) default) (s.getD (roundVar rc 7) default) w hrc hj
  have hvar {m : ℕ} (hm : m < 8) : lane dwordCodec (s.getD (roundVar rc m) default) j =
      (laneVars s rc j).getD m default := (laneVars_getD s rc j hm).symm
  simp only [hvar (show 0 < 8 by decide), hvar (show 1 < 8 by decide),
    hvar (show 2 < 8 by decide), hvar (show 4 < 8 by decide), hvar (show 5 < 8 by decide),
    hvar (show 6 < 8 by decide), hvar (show 7 < 8 by decide)] at ht0 ht1
  have hnew : lane dwordCodec ((sha256RoundAvx s rc w).getD (roundVar rc 7) default) j =
      (sha2Round sigmas32 (laneVars s rc j) (lane dwordCodec w j)
        (roundConstant roundConstants32 rc)).getD 0 default := by
    rw [sha256RoundAvx]
    rw [getD_setIfInBounds _ _ (hlt 7), if_pos rfl, lane_add hj, ht0, ht1]
    rfl
  have hd : lane dwordCodec ((sha256RoundAvx s rc w).getD (roundVar rc 3) default) j =
      (sha2Round sigmas32 (laneVars s rc j) (lane dwordCodec w j)
        (roundConstant roundConstants32 rc)).getD 4 default := by
    rw [sha256RoundAvx]
    rw [getD_setIfInBounds _ _ (hlt 3), if_neg (hne (by decide) (by decide) (by decide)),
      getD_setIfInBounds _ _ (hlt 3), if_pos rfl, lane_add hj, ht0, hvar (by decide)]
    rfl
  -- The variables that a round does not assign keep their words and get the next number.
  have hkeep (m : ℕ) (hm : m < 7) (hm3 : m ≠ 3) :
      lane dwordCodec ((sha256RoundAvx s rc w).getD (roundVar rc m) default) j =
        (laneVars s rc j).getD m default := by
    rw [laneVars_getD _ _ _ (by omega), sha256RoundAvx]
    rw [getD_setIfInBounds _ _ (hlt m), if_neg (hne (by decide) (by omega) (by omega)),
      getD_setIfInBounds _ _ (hlt m), if_neg (hne (by decide) (by omega) hm3.symm)]
  apply ext_getD (d := default)
  intro i hi
  rw [laneVars_getD _ _ _ hi]
  rcases i with _ | m
  · rw [hfirst, hnew]
  · rw [hnext]
    by_cases hm3 : m = 3
    · rw [hm3, hd]
    · rw [hkeep m (by omega) hm3, sha2Round_getD_succ _ _ _ (by omega) hm3]

/-!
## Blocks
-/

/-- What the registers and the words of lane `j` hold after `n` rounds. -/
structure HasRoundsAvx (w : ℕ → UInt32) (v : Vector UInt32 8) (j n : ℕ)
    (x : Vector M256i 8 × Vector M256i 64) : Prop where
  vars : laneVars x.1 n j = roundsFrom sigmas32 w (roundConstant roundConstants32) 0 n v
  words : ∀ t < max 16 n, lane dwordCodec (x.2.getD t default) j = w t

theorem lane_scheduleAvx {w : ℕ → UInt32} (hw : IsSchedule sigmas32 w) {x : Vector M256i 64}
    {j n : ℕ} (hj : j < 8) (hn : 16 ≤ n)
    (hx : ∀ t < n, lane dwordCodec (x.getD t default) j = w t) :
    lane dwordCodec (add4Avx (wsigma1Avx (x.getD (n - 2) default)) (x.getD (n - 16) default)
      (x.getD (n - 7) default) (wsigma0Avx (x.getD (n - 15) default))) j = w n := by
  obtain ⟨t, rfl⟩ := Nat.exists_eq_add_of_le' hn
  rw [add4Avx, lane_add hj, lane_add hj, lane_add hj, lane_wsigma1Avx hj, lane_wsigma0Avx hj,
    hx _ (by omega), hx _ (by omega), hx _ (by omega), hx _ (by omega), hw t]
  simp only [Nat.add_sub_cancel, show t + 16 - 2 = t + 14 by omega,
    show t + 16 - 7 = t + 9 by omega, show t + 16 - 15 = t + 1 by omega]
  ac_rfl

theorem HasRoundsAvx.step {w : ℕ → UInt32} (hw : IsSchedule sigmas32 w) {v : Vector UInt32 8}
    {j n : ℕ} (hj : j < 8) (hn : n < 64) {x : Vector M256i 8 × Vector M256i 64}
    (hx : HasRoundsAvx w v j n x) : HasRoundsAvx w v j (n + 1) (sha256StepAvx x n) := by
  have hwords : ∀ t < max 16 (n + 1),
      lane dwordCodec ((sha256StepAvx x n).2.getD t default) j = w t := by
    intro t ht
    rw [sha256StepAvx]
    dsimp only
    split
    · exact hx.words t (by omega)
    · next hge =>
        rw [getD_setIfInBounds _ _ (by omega)]
        split
        · next htn =>
            rw [← htn]
            exact lane_scheduleAvx hw hj (by omega) fun t ht => hx.words t (by omega)
        · exact hx.words t (by omega)
  refine ⟨?_, hwords⟩
  have hround : laneVars (sha256StepAvx x n).1 (n + 1) j =
      sha2Round sigmas32 (laneVars x.1 n j)
        (lane dwordCodec ((sha256StepAvx x n).2.getD n default) j)
        (roundConstant roundConstants32 n) := laneVars_sha256RoundAvx x.1 hn hj _
  rw [hround, hwords n (by omega), hx.vars, roundsFrom_add]
  simp [roundsFrom]

theorem hasRoundsAvx_foldl {w : ℕ → UInt32} (hw : IsSchedule sigmas32 w) {v : Vector UInt32 8}
    {j : ℕ} (hj : j < 8) {x : Vector M256i 8 × Vector M256i 64} (hx : HasRoundsAvx w v j 0 x)
    {n : ℕ} (hn : n ≤ 64) :
    HasRoundsAvx w v j n ((List.range n).foldl sha256StepAvx x) := by
  induction n with
  | zero => exact hx
  | succ n ih =>
      rw [List.range_succ, List.foldl_append]
      exact (ih (by omega)).step hw hj (by omega)

/-- The state of lane `j`. -/
def laneState (s : Vector M256i 8) (j : ℕ) : Vector UInt32 8 :=
  Vector.ofFn fun i => lane dwordCodec (s.getD i.val default) j

theorem laneState_getD (s : Vector M256i 8) (j : ℕ) {i : ℕ} (hi : i < 8) :
    (laneState s j).getD i default = lane dwordCodec (s.getD i default) j := by
  rw [laneState, getD_ofFn _ hi]

/-- In front of the first round and after the last the variables are in order. -/
theorem laneVars_of_dvd (s : Vector M256i 8) (j : ℕ) {rc : ℕ} (hrc : rc ≤ 64) (h8 : 8 ∣ rc) :
    laneVars s rc j = laneState s j := by
  have hvar (m : Fin 8) : roundVar rc m.val = m.val := by
    rw [roundVar]
    omega
  simp only [laneVars, laneState, hvar]

theorem lane_loadWordsAvx (data : Lanes (Vector UInt8 64)) (w : Vector M256i 64) (j : Fin 8)
    {t : ℕ} (ht : t < 16) :
    lane dwordCodec ((loadWordsAvx data w).getD t default) j.val =
      scheduleWord sigmas32 (loadWords32 16 (data j)) t := by
  have hword {k i : ℕ} (hi : i < 8) (hk : k + 32 ≤ 64) :
      lane dwordCodec ((transpose (Vector.ofFn fun m : Fin 8 =>
        byteswapAvx (slice (data m) k 32))).getD i default) j.val =
        loadBigendian32 (slice (data j) (k + 4 * i) 4) := by
    rw [lane_transpose _ hi j.isLt, getD_ofFn _ j.isLt, lane_byteswapAvx _ hi,
      slice_slice _ _ _ _ _ (by omega) hk]
  rw [scheduleWord_of_lt _ _ ht, loadWords32, getD_ofFn _ ht, loadWordsAvx,
    getD_eq_getElem _ (by omega)]
  dsimp only
  by_cases hlow : t < 8
  · rw [getElem_write_of_not_mem _ _ _ _ _ (by omega),
      getElem_write_of_mem _ _ _ _ _ ⟨by omega, by omega⟩, ← getD_eq_getElem _ _ default,
      Nat.sub_zero, hword hlow (by decide), Nat.zero_add]
  · rw [getElem_write_of_mem _ _ _ _ _ ⟨by omega, by omega⟩, ← getD_eq_getElem _ _ default,
      hword (by omega) (by decide)]
    congr 2
    omega

theorem laneState_sha256Transform8x (w : Vector M256i 64) (s : Vector M256i 8)
    (data : Lanes (Vector UInt8 64)) (j : Fin 8) :
    laneState (sha256Transform8x w s data) j.val =
      sha256Compress (laneState s j.val) (data j) := by
  have hstart : HasRoundsAvx (scheduleWord sigmas32 (loadWords32 16 (data j)))
      (laneState s j.val) j.val 0 (s, loadWordsAvx data w) :=
    ⟨laneVars_of_dvd s j.val (by decide) (by decide),
      fun t ht => lane_loadWordsAvx data w j (by simpa using ht)⟩
  have hend := (hasRoundsAvx_foldl (isSchedule_scheduleWord _ _) j.isLt hstart
    (Nat.le_refl 64)).vars
  rw [laneVars_of_dvd _ _ (by decide) (by decide)] at hend
  rw [sha256Compress, sha2Compress_eq]
  apply ext_getD (d := default)
  intro i hi
  rw [addWords_getD _ _ hi, laneState_getD _ _ hi, laneState_getD _ _ hi, sha256Transform8x,
    getD_ofFn _ hi, lane_add j.isLt]
  dsimp only
  rw [← laneState_getD _ _ hi, hend]
  rfl

/-!
## The last blocks
-/

theorem toList_slice_add {n : ℕ} (v : Vector UInt8 n) (o : ℕ) {a b c : ℕ} (hc : a + b = c)
    (h : o + c ≤ n) :
    (slice v o c).toList = (slice v o a).toList ++ (slice v (o + a) b).toList := by
  rw [toList_slice _ _ _ h, toList_slice _ _ _ (by omega), toList_slice _ _ _ (by omega),
    ← hc, List.take_add, List.drop_drop]

theorem toList_padBytes {d : ℕ} (hd : d < 64) :
    (padBytes d).toList = 0x80 :: List.replicate (63 - d) 0 := by
  apply List.ext_getElem
  · rw [Vector.length_toList, List.length_cons, List.length_replicate]
    omega
  · intro i hi _
    rw [Vector.length_toList] at hi
    simp only [padBytes, Vector.getElem_toList, Vector.getElem_ofFn]
    cases i with
    | zero => rfl
    | succ i => rw [List.getElem_cons_succ, List.getElem_replicate, if_neg (Nat.succ_ne_zero i)]

section Parts

variable {n m : ℕ} (buf : Vector UInt8 n) (x : Lanes (Vector UInt8 m)) (j : Fin 8)

theorem slice_writeParts {size off : ℕ} (hoff : off + m ≤ size) (hn : 8 * size ≤ n) :
    slice (writeParts buf size off x) (j.val * size + off) m = x j := by
  have hj : laneIdx j.val = j := Fin.ofNat_val_eq_self j
  rw [writeParts, slice_foldl_write_parts off (fun i => x (laneIdx i)) buf hoff hn j.isLt, hj]

theorem slice_writeParts_zero {size : ℕ} (hm : m ≤ size) (hn : 8 * size ≤ n) :
    slice (writeParts buf size 0 x) (j.val * size) m = x j :=
  slice_writeParts buf x j (show 0 + m ≤ size by omega) hn

theorem slice_writeParts_front {size off len : ℕ} (hoff : off + m ≤ size) (hlen : len ≤ off) :
    slice (writeParts buf size off x) (j.val * size) len = slice buf (j.val * size) len :=
  slice_foldl_write_parts_of_disjoint off (fun i => x (laneIdx i)) buf hoff 8
    (show 0 + len ≤ size by omega) (Or.inr (by omega)) j.val

end Parts

theorem ullToBytes_mod (n x : ℕ) : ullToBytes n (x % 256 ^ n) = ullToBytes n x := by
  rw [← bytesToUll_ullToBytes, ullToBytes_bytesToUll]

theorem byteswapAvx_transpose (s : Vector M256i 8) (j : Fin 8) :
    byteswapAvx ((transpose s).getD j.val default) = storeWords32 (laneState s j.val) := by
  apply ext_of_blocks 4 8 (by decide) rfl
  intro i hi
  have hword : slice (byteswapAvx ((transpose s).getD j.val default)) (4 * i) 4 =
      storeBigendian32 (lane dwordCodec ((transpose s).getD j.val default) i) := by
    have hload : lane dwordCodec ((transpose s).getD j.val default) i =
        loadBigendian32 (slice ((transpose s).getD j.val default) (4 * i) 4).reverse := rfl
    have hbytes := congrArg Vector.reverse
      (reverse_slice_byteswapAvx ((transpose s).getD j.val default) hi)
    rw [Vector.reverse_reverse] at hbytes
    rw [hload, storeBigendian32_load, hbytes]
  rw [hword, lane_transpose _ j.isLt hi, storeWords32,
    slice_foldl_write (fun i => storeBigendian32 ((laneState s j.val).getD i 0)) _ (by decide) hi]
  exact congrArg storeBigendian32 (laneState_getD s j.val hi).symm

theorem laneState_transformBlocks (w : Vector M256i 64) (ctx : Sha256Ctx) (j : Fin 8) :
    laneState (ctx.transformBlocks w).s j.val =
      absorb sha256Compress (laneState ctx.s j.val)
        (slice ctx.msgblocks (j.val * 64) 64).toList := by
  rw [Sha256Ctx.transformBlocks, laneState_sha256Transform8x, absorb,
    wholeBlocks_toList (by decide)]
  rfl

section Final

variable {d : ℕ} (hd : d < 64) (msgblocks : Vector UInt8 512) (j : Fin 8)

include hd in
theorem toList_slice_padded :
    (slice (writeParts msgblocks 64 d fun _ => padBytes d) (j.val * 64) 64).toList =
      (slice msgblocks (j.val * 64) d).toList ++ 0x80 :: List.replicate (63 - d) 0 := by
  have hj := j.isLt
  rw [toList_slice_add _ _ (show d + (64 - d) = 64 by omega) (by omega),
    slice_writeParts _ _ j (by omega) (by decide), toList_padBytes hd,
    slice_writeParts_front _ _ j (by omega) (Nat.le_refl d)]

theorem toList_slice_length (x : Vector UInt8 8) :
    (slice (writeParts msgblocks 64 56 fun _ => x) (j.val * 64) 64).toList =
      (slice msgblocks (j.val * 64) 64).toList.take 56 ++ x.toList := by
  have hj := j.isLt
  rw [toList_slice_add _ _ (show 56 + 8 = 64 from rfl) (by omega),
    slice_writeParts _ _ j (by decide) (by decide),
    slice_writeParts_front _ _ j (by decide) (Nat.le_refl 56),
    toList_slice_add msgblocks _ (show 56 + 8 = 64 from rfl) (by omega),
    List.take_left' (Vector.length_toList)]

end Final

theorem sha256Padded_of_lt {rest : List UInt8} (h : rest.length < 56) (bytes : ℕ) :
    sha256Padded rest bytes =
      (rest ++ 0x80 :: List.replicate (63 - rest.length) 0).take 56 ++
        sha256LengthBytes bytes := by
  have hzeros : List.replicate (63 - rest.length) (0 : UInt8) =
      List.replicate (56 - (rest.length + 1)) 0 ++ List.replicate 8 0 := by
    rw [List.replicate_append_replicate]
    congr 1
    omega
  have htake : (rest ++ 0x80 :: List.replicate (63 - rest.length) 0).take 56 =
      rest ++ [0x80] ++ List.replicate (56 - (rest.length + 1)) 0 := by
    rw [hzeros, ← List.cons_append, ← List.append_assoc, List.take_left', List.append_assoc]
    · rfl
    · rw [List.length_append, List.length_cons, List.length_replicate]
      omega
  rw [sha256Padded, if_pos h, htake]

theorem sha256Padded_of_le {rest : List UInt8} (h : 56 ≤ rest.length) (hlt : rest.length < 64)
    (bytes : ℕ) :
    sha256Padded rest bytes = (rest ++ 0x80 :: List.replicate (63 - rest.length) 0) ++
      (List.replicate 56 0 ++ sha256LengthBytes bytes) := by
  have hzeros : List.replicate (120 - (rest.length + 1)) (0 : UInt8) =
      List.replicate (63 - rest.length) 0 ++ List.replicate 56 0 := by
    rw [List.replicate_append_replicate]
    congr 1
    omega
  rw [sha256Padded, if_neg (Nat.not_lt.mpr h), hzeros]
  simp only [List.append_assoc, List.cons_append, List.nil_append]

/-- The padded input of lane `j` is the rest of the input with its padding: the part that is
compressed already and the part in the blocks, to which the length is added. -/
theorem absorb_pad (w : Vector M256i 64) (ctx : Sha256Ctx) (hd : ctx.datalen < 64) (j : Fin 8)
    (bytes : ℕ) :
    absorb sha256Compress (laneState (ctx.pad w).s j.val)
        ((slice (ctx.pad w).msgblocks (j.val * 64) 64).toList.take 56 ++
          sha256LengthBytes bytes) =
      absorb sha256Compress (laneState ctx.s j.val)
        (sha256Padded (slice ctx.msgblocks (j.val * 64) ctx.datalen).toList bytes) := by
  have hrest : (slice ctx.msgblocks (j.val * 64) ctx.datalen).toList.length = ctx.datalen :=
    Vector.length_toList
  rw [Sha256Ctx.pad]
  dsimp only
  by_cases h56 : ctx.datalen < 56
  · rw [if_pos h56]
    dsimp only
    rw [toList_slice_padded hd, sha256Padded_of_lt (by omega), hrest]
  · have hzeros : (slice (Vector.replicate 512 (0 : UInt8)) (j.val * 64) 64).toList.take 56 =
        List.replicate 56 0 := by
      have hj := j.isLt
      have hslice : slice (Vector.replicate 512 (0 : UInt8)) (j.val * 64) 64 =
          Vector.replicate 64 0 := by
        ext i hi
        rw [getElem_slice _ _ _ _ hi (by omega), Vector.getElem_replicate,
          Vector.getElem_replicate]
      rw [hslice, Vector.toList_replicate, List.take_replicate]
      rfl
    have haligned : 64 ∣ ((slice ctx.msgblocks (j.val * 64) ctx.datalen).toList ++
        0x80 :: List.replicate (63 - ctx.datalen) 0).length := by
      rw [List.length_append, hrest, List.length_cons, List.length_replicate]
      omega
    rw [if_neg h56]
    dsimp only
    rw [laneState_transformBlocks, toList_slice_padded hd, hzeros,
      sha256Padded_of_le (by omega) (by omega), hrest, absorb_append (by decide) haligned]

theorem sha256Final8x_eq (w : Vector M256i 64) (ctx : Sha256Ctx) (hd : ctx.datalen < 64)
    (bytes : ℕ) (hbytes : (ctx.msglen + ctx.datalen * 8) % 2 ^ 64 = 8 * bytes % 2 ^ 64)
    (j : Fin 8) :
    sha256Final8x w ctx j = storeWords32 (absorb sha256Compress (laneState ctx.s j.val)
      (sha256Padded (slice ctx.msgblocks (j.val * 64) ctx.datalen).toList bytes)) := by
  have hcount : (ctx.pad w).msglen + (ctx.pad w).datalen * 8 = ctx.msglen + ctx.datalen * 8 := by
    rw [Sha256Ctx.pad]
    dsimp only
    split
    · rfl
    · rfl
  have hlength : (ullToBytes 8 ((ctx.msglen + ctx.datalen * 8) % 2 ^ 64)).toList =
      sha256LengthBytes bytes := by
    rw [hbytes, sha256LengthBytes_eq, show (2 : ℕ) ^ 64 = 256 ^ 8 from rfl, ullToBytes_mod]
  rw [sha256Final8x]
  dsimp only
  rw [byteswapAvx_transpose, laneState_transformBlocks, toList_slice_length, hcount, hlength,
    absorb_pad w ctx hd]

/-!
## Inputs
-/

section Inputs

variable (U : X8Locals) (inp : Lanes (List UInt8)) {inlen : ℕ} (j : Fin 8)

/-- The loop compresses the whole blocks of every input and counts their bits. -/
theorem sha256x8Loop_spec (hlen : ∀ j, inlen ≤ (inp j).length) (ctx : Sha256Ctx) (i : ℕ)
    (hi : i ≤ inlen) :
    (sha256x8Loop U ctx inp inlen i).2 = i + 64 * ((inlen - i) / 64) ∧
      (sha256x8Loop U ctx inp inlen i).1.msgblocks = ctx.msgblocks ∧
      (sha256x8Loop U ctx inp inlen i).1.msglen % 2 ^ 64 =
        (ctx.msglen + 8 * (64 * ((inlen - i) / 64))) % 2 ^ 64 ∧
      laneState (sha256x8Loop U ctx inp inlen i).1.s j.val =
        absorb sha256Compress (laneState ctx.s j.val) (((inp j).take inlen).drop i) := by
  induction hn : inlen - i using Nat.strongRecOn generalizing ctx i with
  | ind n ih =>
      have hrest : (((inp j).take inlen).drop i).length = n := by
        rw [List.length_drop, List.length_take, Nat.min_eq_left (hlen j), hn]
      rw [sha256x8Loop]
      by_cases hle : 64 ≤ inlen - i
      · rw [if_pos hle]
        obtain ⟨hpos, hblocks, hcount, hstate⟩ := ih (inlen - (i + 64)) (by omega)
          { ctx with
            s := sha256Transform8x U.w ctx.s fun j => headBlock 64 ((inp j).drop i)
            msglen := (ctx.msglen + 512) % 2 ^ 64 } (i + 64) (by omega) rfl
        have hhead : headBlock 64 ((inp j).drop i) =
            headBlock 64 (((inp j).take inlen).drop i) := by
          apply headBlock_eq_of_take_eq
          rw [List.drop_take, List.take_take, Nat.min_eq_left hle]
        dsimp only at hcount
        refine ⟨hpos.trans (by omega), hblocks, hcount.trans (by omega), ?_⟩
        rw [hstate, laneState_sha256Transform8x, hhead,
          absorb_of_le (by decide) (x := ((inp j).take inlen).drop i) (by omega), List.drop_drop]
      · rw [if_neg hle]
        have hzero : n / 64 = 0 := Nat.div_eq_of_lt (by omega)
        refine ⟨by rw [hzero]; rfl, rfl, by rw [hzero]; rfl, ?_⟩
        rw [absorb_of_lt (x := ((inp j).take inlen).drop i) (by omega)]

omit j in
theorem toList_bytesAt {n : ℕ} {x : List UInt8} (h : n ≤ x.length) :
    (bytesAt n x).toList = x.take n := by
  apply List.ext_getElem
  · rw [Vector.length_toList, List.length_take, Nat.min_eq_left h]
  · intro i hi _
    rw [Vector.length_toList] at hi
    simp only [bytesAt, Vector.getElem_toList, Vector.getElem_ofFn]
    rw [List.getElem_take, List.getD_eq_getElem _ _ (by omega)]

theorem sha256x8Inner_eq (hlen : ∀ j, inlen ≤ (inp j).length) (ctx : Sha256Ctx) (bytes : ℕ)
    (hbytes : (ctx.msglen + 8 * inlen) % 2 ^ 64 = 8 * bytes % 2 ^ 64) :
    sha256x8Inner U ctx inp inlen j = storeWords32 (absorb sha256Compress
      (absorb sha256Compress (laneState ctx.s j.val) ((inp j).take inlen))
        (sha256Padded (partialBlock 64 ((inp j).take inlen)) bytes)) := by
  obtain ⟨hpos, -, hcount, hstate⟩ :=
    sha256x8Loop_spec U inp j hlen ctx 0 (Nat.zero_le inlen)
  rw [Nat.zero_add, Nat.sub_zero] at hpos
  rw [Nat.sub_zero] at hcount
  have hj := hlen j
  have hcopied : (inlen - (sha256x8Loop U ctx inp inlen 0).2) % 2 ^ 32 = inlen % 64 := by
    rw [hpos]
    omega
  have hrest : (slice (writeParts (sha256x8Loop U ctx inp inlen 0).1.msgblocks 64 0 fun j =>
      bytesAt ((inlen - (sha256x8Loop U ctx inp inlen 0).2) % 2 ^ 32)
        ((inp j).drop (sha256x8Loop U ctx inp inlen 0).2)) (j.val * 64)
        ((inlen - (sha256x8Loop U ctx inp inlen 0).2) % 2 ^ 32)).toList =
      partialBlock 64 ((inp j).take inlen) := by
    rw [slice_writeParts_zero _ _ j (by omega) (by decide),
      toList_bytesAt (by rw [List.length_drop]; omega), partialBlock, List.length_take,
      Nat.min_eq_left hj, List.drop_take, hcopied, hpos, Nat.mod_eq_sub]
  rw [sha256x8Inner]
  dsimp only
  rw [sha256Final8x_eq U.w _ (by dsimp only; omega) bytes (by dsimp only; omega)]
  dsimp only
  rw [hrest, hstate, List.drop_zero]

theorem laneState_set1 (words : Vector UInt32 8) :
    laneState (Vector.ofFn fun i => mm256Set1Epi32 (words.get i)) j.val = words := by
  apply ext_getD (d := default)
  intro i hi
  rw [laneState_getD _ _ hi, getD_ofFn _ hi, lane_set1 j.isLt, getD_eq_getElem _ hi]
  rfl

/-- Each lane of `sha256x8_seeded` finishes the state that the seed is taken from, when the
number of bits that is passed is the number of bits that the state counts. -/
theorem sha256x8Seeded_eq (hlen : ∀ j, inlen ≤ (inp j).length) (state : Vector UInt8 40)
    {seedlen : ℕ} (hseed : seedlen % 2 ^ 64 = 8 * bytesToUll (slice state 32 8) % 2 ^ 64) :
    sha256x8Seeded U state seedlen inp inlen j =
      sha256IncFinalize sha256Compress state ((inp j).take inlen) := by
  have hj := hlen j
  have hwords : loadWords32 8 (slice state 0 32) = loadWords32 8 state := by
    apply Vector.ext
    intro i hi
    rw [loadWords32, loadWords32, Vector.getElem_ofFn, Vector.getElem_ofFn]
    dsimp only
    rw [slice_slice _ _ _ _ _ (by omega) (by decide), Nat.zero_add]
  have hcount : (seedlen + 8 * inlen) % 2 ^ 64 =
      8 * ((bytesToUll (slice state 32 8) + ((inp j).take inlen).length) % 2 ^ 64) % 2 ^ 64 := by
    rw [List.length_take, Nat.min_eq_left hj]
    omega
  rw [sha256x8Seeded, sha256x8Inner_eq U inp j hlen _ _ hcount]
  dsimp only
  rw [laneState_set1, sha256IncFinalize_eq, hwords]

theorem loadWords32_iv256 : loadWords32 8 iv256 = initWordsAvx := by
  decide +kernel

theorem sha256x8_eq (hlen : ∀ j, inlen ≤ (inp j).length) :
    sha256x8 U inp inlen j = sha256 sha256Compress ((inp j).take inlen) := by
  have hj := hlen j
  have hwords : slice sha256IncInit 0 32 = iv256 := slice_append_left _ _
  have hcount : bytesToUll (slice sha256IncInit 32 8) = 0 := by decide
  have hbits : ((sha256Init8x U.msgblocks).msglen + 8 * inlen) % 2 ^ 64 =
      8 * ((0 + ((inp j).take inlen).length) % 2 ^ 64) % 2 ^ 64 := by
    rw [List.length_take, Nat.min_eq_left hj, sha256Init8x]
    dsimp only
    omega
  rw [sha256x8, sha256x8Inner_eq U inp j hlen _ _ hbits, sha256Init8x]
  dsimp only
  rw [laneState_set1, sha256, sha256IncFinalize_eq, hwords, hcount, loadWords32_iv256]

end Inputs

end BitcoinPqc
