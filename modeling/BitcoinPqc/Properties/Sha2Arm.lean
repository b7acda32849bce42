import BitcoinPqc.Correctness.Sha2
import BitcoinPqc.Correctness.Sha2Schedule
import BitcoinPqc.Sphincs.Sha2Arm
import Mathlib.Data.UInt

/-!
# The ARMv8 backend

`SPX_SHA256_ROUND4` gives the two halves of the state to the instructions in the wrong
order, and gives the second instruction a half that the first has already replaced. Four
rounds then forget something: two states that differ in one word have the same successor.
The rounds of SHA-256 forget nothing, so for every block the code leaves the wrong state for
some states, and it computes SHA-256 only as long as there is no block.
-/

namespace BitcoinPqc

/-!
## Two states with one successor
-/

theorem sha256HashRound_mk (x₀ x₁ x₂ x₃ y₀ y₁ y₂ y₃ w : UInt32) :
    sha256HashRound (#v[x₀, x₁, x₂, x₃], #v[y₀, y₁, y₂, y₃]) w =
      (#v[y₃ + shaHashSigma1 y₀ + shaChoose y₀ y₁ y₂ + w + shaHashSigma0 x₀ +
          shaMajority x₀ x₁ x₂, x₀, x₁, x₂],
        #v[y₃ + shaHashSigma1 y₀ + shaChoose y₀ y₁ y₂ + w + x₃, y₀, y₁, y₂]) :=
  rfl

theorem sha256Hash_mk (x y : Uint32x4) (w₀ w₁ w₂ w₃ : UInt32) :
    sha256Hash x y #v[w₀, w₁, w₂, w₃] =
      sha256HashRound (sha256HashRound (sha256HashRound (sha256HashRound (x, y) w₀) w₁) w₂) w₃ :=
  rfl

/-- Four rounds that forget the first word `x`. The words of `y` cancel the first two words of
the schedule, so `x` is moved through the places where it has no effect, to the end of the
half that is not returned. -/
theorem sha256Hash_forgets {x : UInt32} (w₀ w₁ w₂ w₃ : UInt32)
    (hfirst : shaHashSigma0 x + shaMajority x 0 1 = 0) (hsecond : shaMajority 0 x 0 = 0)
    (hthird : shaMajority 0 0 x = 0) :
    (sha256Hash #v[x, 0, 1, 0] #v[0, 0, -w₁, w₁ - w₀] #v[w₀, w₁, w₂, w₃]).1 =
      (sha256HashRound (#v[shaHashSigma1 1 + w₂, 0, 0, 0], #v[shaHashSigma1 1 + w₂, 1, 0, 0])
        w₃).1 := by
  have hzero : shaHashSigma0 0 = 0 := by decide
  have hzero' : shaHashSigma1 0 = 0 := by decide
  have hchoose (y z : UInt32) : shaChoose 0 y z = z := by simp [shaChoose]
  have hchoose' (y : UInt32) : shaChoose y 0 0 = 0 := by simp [shaChoose]
  have hround₁ : sha256HashRound (#v[x, 0, 1, 0], #v[0, 0, -w₁, w₁ - w₀]) w₀ =
      (#v[0, x, 0, 1], #v[0, 0, 0, -w₁]) := by
    have ht : w₁ - w₀ + 0 + -w₁ + w₀ = 0 := by grind
    rw [sha256HashRound_mk, hzero', hchoose, ht, add_assoc, hfirst]
    rfl
  have hround₂ : sha256HashRound (#v[0, x, 0, 1], #v[0, 0, 0, -w₁]) w₁ =
      (#v[0, 0, x, 0], #v[1, 0, 0, 0]) := by
    have ht : -w₁ + 0 + 0 + w₁ = 0 := by grind
    rw [sha256HashRound_mk, hzero', hchoose, ht, hzero, hsecond]
    rfl
  have hround₃ : sha256HashRound (#v[0, 0, x, 0], #v[1, 0, 0, 0]) w₂ =
      (#v[shaHashSigma1 1 + w₂, 0, 0, x], #v[shaHashSigma1 1 + w₂, 1, 0, 0]) := by
    rw [sha256HashRound_mk, hchoose', hzero, hthird]
    simp only [UInt32.zero_add, UInt32.add_zero]
  rw [sha256Hash_mk, hround₁, hround₂, hround₃, sha256HashRound_mk, sha256HashRound_mk]

/-- The first four rounds have one result for two states. -/
theorem spxSha256Round4_not_injective (msg : Uint32x4) (offset : ℕ) :
    ¬ Function.Injective fun s => spxSha256Round4 s msg offset := by
  intro hinj
  obtain ⟨w₀, w₁, w₂, w₃, htmp⟩ : ∃ w₀ w₁ w₂ w₃, vaddqU32 msg (loadRoundConsts offset) =
      #v[w₀, w₁, w₂, w₃] := ⟨_, _, _, _, rfl⟩
  have hhalf : vsha256hqU32 #v[0xffffffff, 0, 1, 0] #v[0, 0, -w₁, w₁ - w₀]
      #v[w₀, w₁, w₂, w₃] = vsha256hqU32 #v[0, 0, 1, 0] #v[0, 0, -w₁, w₁ - w₀]
        #v[w₀, w₁, w₂, w₃] :=
    (sha256Hash_forgets w₀ w₁ w₂ w₃ (by decide) (by decide) (by decide)).trans
      (sha256Hash_forgets w₀ w₁ w₂ w₃ (by decide) (by decide) (by decide)).symm
  have hstep : spxSha256Round4 (#v[0, 0, -w₁, w₁ - w₀], #v[0xffffffff, 0, 1, 0]) msg offset =
      spxSha256Round4 (#v[0, 0, -w₁, w₁ - w₀], #v[0, 0, 1, 0]) msg offset := by
    unfold spxSha256Round4
    rw [htmp]
    dsimp only
    rw [hhalf]
  have hword : (0xffffffff : UInt32) = 0 := congrArg (fun s => s.2.getD 0 0) (hinj hstep)
  exact absurd hword (by decide)

theorem spxSha256RoundsArm_not_injective (msg0 msg1 msg2 msg3 : Uint32x4) :
    ¬ Function.Injective fun s => spxSha256RoundsArm s msg0 msg1 msg2 msg3 := by
  intro hinj
  apply spxSha256Round4_not_injective msg0 0
  intro s s' hstep
  dsimp only at hstep
  apply hinj
  change spxSha256RoundsArm s msg0 msg1 msg2 msg3 = spxSha256RoundsArm s' msg0 msg1 msg2 msg3
  unfold spxSha256RoundsArm
  rw [hstep]

/-!
## The eight words of the two halves
-/

theorem armWords_getD_left (s : Uint32x4 × Uint32x4) {i : ℕ} (hi : i < 4) :
    (armWords s).getD i 0 = s.1.getD i 0 := by
  rw [armWords, getD_eq_getElem _ (by omega), getD_eq_getElem _ hi,
    Vector.getElem_append_left hi]

theorem armWords_getD_right (s : Uint32x4 × Uint32x4) {i : ℕ} (hi : i < 4) :
    (armWords s).getD (4 + i) 0 = s.2.getD i 0 := by
  rw [armWords, getD_eq_getElem _ (by omega), getD_eq_getElem _ hi,
    Vector.getElem_append_right (by omega) (by omega)]
  congr 1
  omega

theorem armWords_armHalves (state : Vector UInt32 8) : armWords (armHalves state) = state := by
  apply ext_getD (d := 0)
  intro i hi
  interval_cases i
  · exact armWords_getD_left _ (by decide)
  · exact armWords_getD_left _ (by decide)
  · exact armWords_getD_left _ (by decide)
  · exact armWords_getD_left _ (by decide)
  · exact armWords_getD_right (i := 0) _ (by decide)
  · exact armWords_getD_right (i := 1) _ (by decide)
  · exact armWords_getD_right (i := 2) _ (by decide)
  · exact armWords_getD_right (i := 3) _ (by decide)

theorem armHalves_armWords (s : Uint32x4 × Uint32x4) : armHalves (armWords s) = s := by
  have hleft : (armHalves (armWords s)).1 = s.1 := by
    apply ext_getD (d := 0)
    intro i hi
    rw [← armWords_getD_left s hi, ← armWords_getD_left (armHalves (armWords s)) hi,
      armWords_armHalves]
  have hright : (armHalves (armWords s)).2 = s.2 := by
    apply ext_getD (d := 0)
    intro i hi
    rw [← armWords_getD_right s hi, ← armWords_getD_right (armHalves (armWords s)) hi,
      armWords_armHalves]
  exact Prod.ext hleft hright

theorem vaddqU32_getD (a b : Uint32x4) {i : ℕ} (hi : i < 4) :
    (vaddqU32 a b).getD i 0 = a.getD i 0 + b.getD i 0 := by
  rw [vaddqU32, getD_ofFn _ hi, getD_eq_getElem _ hi, getD_eq_getElem _ hi]
  rfl

theorem armWords_vaddqU32 (s saved : Uint32x4 × Uint32x4) :
    armWords (vaddqU32 s.1 saved.1, vaddqU32 s.2 saved.2) =
      addWords (armWords s) (armWords saved) := by
  apply ext_getD (d := 0)
  intro i hi
  have hsum : (addWords (armWords s) (armWords saved)).getD i 0 =
      (armWords s).getD i 0 + (armWords saved).getD i 0 := addWords_getD _ _ hi
  rw [hsum]
  by_cases hlt : i < 4
  · rw [armWords_getD_left _ hlt, armWords_getD_left _ hlt, armWords_getD_left _ hlt,
      vaddqU32_getD _ _ hlt]
  · obtain ⟨j, rfl⟩ := Nat.exists_eq_add_of_le (Nat.le_of_not_lt hlt)
    rw [armWords_getD_right _ (by omega), armWords_getD_right _ (by omega),
      armWords_getD_right _ (by omega), vaddqU32_getD _ _ (by omega)]

/-!
## Exactly when the code computes SHA-256
-/

/-- The code leaves the state that the scalar code leaves on the bytes of the state. -/
def ArmMatchesRef (state : Vector UInt32 8) (inp : List UInt8) : Prop :=
  storeWords32 (spxSha256ProcessArm state inp) =
    (cryptoHashblocksSha256Ref (storeWords32 state) inp).val.1

theorem armMatchesRef_iff (s : Uint32x4 × Uint32x4) (inp : List UInt8) :
    ArmMatchesRef (armWords s) inp ↔
      armWords (absorb spxSha256BlockArm s inp) = absorb sha256Compress (armWords s) inp := by
  have hprocess : spxSha256ProcessArm (armWords s) inp =
      armWords (absorb spxSha256BlockArm (armHalves (armWords s)) inp) := by
    rw [spxSha256ProcessArm, hashblocksLoop_eq]
  rw [ArmMatchesRef, hprocess, armHalves_armWords, cryptoHashblocksSha256Ref,
    cryptoHashblocksSha256, hashblocks_eq, loadWords32_storeWords32]
  constructor
  · intro h
    have hwords := congrArg (loadWords32 8) h
    rw [loadWords32_storeWords32, loadWords32_storeWords32] at hwords
    exact hwords
  · intro h
    rw [h]

/-- For every block there is a state after which the code is wrong. -/
theorem exists_block_ne (inp : Vector UInt8 64) :
    ∃ s, armWords (spxSha256BlockArm s inp) ≠ sha256Compress (armWords s) inp := by
  by_contra hno
  apply spxSha256RoundsArm_not_injective (spxLoadBeU32x4 (slice inp 0 16))
    (spxLoadBeU32x4 (slice inp 16 16)) (spxLoadBeU32x4 (slice inp 32 16))
    (spxLoadBeU32x4 (slice inp 48 16))
  have hrounds (s : Uint32x4 × Uint32x4) :
      armWords (spxSha256RoundsArm s (spxLoadBeU32x4 (slice inp 0 16))
        (spxLoadBeU32x4 (slice inp 16 16)) (spxLoadBeU32x4 (slice inp 32 16))
        (spxLoadBeU32x4 (slice inp 48 16))) =
      roundsFrom sigmas32 (scheduleWord sigmas32 (loadWords32 16 inp))
        (roundConstant roundConstants32) 0 64 (armWords s) := by
    have hblock := not_not.mp fun hne => hno ⟨s, hne⟩
    rw [spxSha256BlockArm, sha256Compress, sha2Compress_eq] at hblock
    rw [armWords_vaddqU32] at hblock
    exact addWords_right_cancel hblock
  intro s s' hsame
  have hwords := congrArg armWords hsame
  rw [hrounds, hrounds] at hwords
  rw [← armHalves_armWords s, ← armHalves_armWords s', roundsFrom_injective _ _ _ _ _ hwords]

/-- On an input the code leaves the state of the scalar code after every whole block, for
every state, exactly if there is no whole block. -/
theorem armMatchesRef_iff_length (inp : List UInt8) :
    (∀ state k, ArmMatchesRef state (inp.take (64 * k))) ↔ inp.length < 64 := by
  constructor
  · intro h
    by_contra hge
    have hle : 64 ≤ (inp.take (64 * 1)).length := by
      rw [List.length_take]
      omega
    have hrest : ((inp.take (64 * 1)).drop 64).length < 64 := by
      rw [List.length_drop, List.length_take]
      omega
    obtain ⟨s, hs⟩ := exists_block_ne (headBlock 64 (inp.take (64 * 1)))
    apply hs
    have hmatch := (armMatchesRef_iff s _).mp (h (armWords s) 1)
    rw [absorb_of_le (by decide) hle, absorb_of_le (by decide) hle, absorb_of_lt hrest,
      absorb_of_lt hrest] at hmatch
    exact hmatch
  · intro hlt state k
    have hshort : (inp.take (64 * k)).length < 64 := by
      rw [List.length_take]
      omega
    rw [← armWords_armHalves state, armMatchesRef_iff, absorb_of_lt hshort, absorb_of_lt hshort]

/-- The padded message `abc` from the initial state. -/
theorem not_armMatchesRef_abc :
    64 ∣ (sha256Padded [0x61, 0x62, 0x63] 3).length ∧
      ¬ ArmMatchesRef (loadWords32 8 iv256) (sha256Padded [0x61, 0x62, 0x63] 3) := by
  have hne : armWords (absorb spxSha256BlockArm (armHalves (loadWords32 8 iv256))
      (sha256Padded [0x61, 0x62, 0x63] 3)) ≠
      absorb sha256Compress (loadWords32 8 iv256) (sha256Padded [0x61, 0x62, 0x63] 3) := by
    decide +kernel
  refine ⟨by decide +kernel, fun hmatch => hne ?_⟩
  rw [← armWords_armHalves (loadWords32 8 iv256), armMatchesRef_iff,
    armWords_armHalves] at hmatch
  exact hmatch

end BitcoinPqc
