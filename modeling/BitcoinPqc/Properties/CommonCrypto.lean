import BitcoinPqc.Correctness.Sha2
import Mathlib.Data.Finite.Prod
import Mathlib.Data.Fintype.EquivFin

/-!
# The CommonCrypto backend

CommonCrypto takes the length of its input in 32 bits. The backend passes it the length of
all whole blocks in one call, so from 4 GiB on it compresses only as many blocks as the
low 32 bits of that length ask for, and returns as if it had compressed all of them.
Below 4 GiB it does what the scalar code does.
-/

namespace BitcoinPqc

/-!
## The assumption on CommonCrypto
-/

section Update

variable {W : Type} [OfNat W 0] {b : ℕ}

/-- `CC_SHA256_Update` and `CC_SHA512_Update` on a zeroed context with the hash words set
compress the whole blocks of the bytes that they are given. -/
def CcUpdates (compress : Vector W 8 → Vector UInt8 b → Vector W 8)
    (update : CcCtx W → List UInt8 → ℕ → Traced (Vector UInt8 b) (CcCtx W)) : Prop :=
  ∀ (hash : Vector W 8) (data : List UInt8) (len : ℕ), len ≤ data.length → len < 2 ^ 32 →
    (update ⟨Vector.replicate 2 0, hash, Vector.replicate 16 0⟩ data len).log =
        wholeBlocks b (data.take len) ∧
      (update ⟨Vector.replicate 2 0, hash, Vector.replicate 16 0⟩ data len).val.hash =
        absorb compress hash (data.take len)

/-- An update that does this and leaves the rest of the context alone. -/
def ccUpdate (compress : Vector W 8 → Vector UInt8 b → Vector W 8) (ctx : CcCtx W)
    (data : List UInt8) (len : ℕ) : Traced (Vector UInt8 b) (CcCtx W) :=
  ⟨{ ctx with hash := absorb compress ctx.hash (data.take len) },
    wholeBlocks b (data.take len)⟩

theorem ccUpdates_ccUpdate (compress : Vector W 8 → Vector UInt8 b → Vector W 8) :
    CcUpdates compress (ccUpdate compress) :=
  fun _ _ _ _ _ => ⟨rfl, rfl⟩

end Update

/-!
## Agreement
-/

/-- A backend absorbs exactly the whole blocks of its input, in order, and leaves the state
and returns the remainder that the scalar code does. -/
structure HashblocksAgree {b n : ℕ} (inp : List UInt8)
    (backend ref : Traced (Vector UInt8 b) (Vector UInt8 n × ℕ)) : Prop where
  absorbs : backend.log = wholeBlocks b inp
  state : backend.val.1 = ref.val.1
  remainder : backend.val.2 = ref.val.2

section Backend

variable {W : Type} [OfNat W 0] {b n : ℕ} {load : Vector UInt8 n → Vector W 8}
  {store : Vector W 8 → Vector UInt8 n} {compress : Vector W 8 → Vector UInt8 b → Vector W 8}
  {update : CcCtx W → List UInt8 → ℕ → Traced (Vector UInt8 b) (CcCtx W)}

variable (load store) in
theorem ccHashblocks_of_le (hb : 0 < b) (hupdate : CcUpdates compress update) {inp : List UInt8}
    (hmask : inp.length &&& (2 ^ 64 - b) = b * (inp.length / b)) (hle : b ≤ inp.length)
    (st : Vector UInt8 n) :
    let len := b * (inp.length / b) % 2 ^ 32
    (ccHashblocks load store update st inp).log = wholeBlocks b (inp.take len) ∧
      (ccHashblocks load store update st inp).val =
        (store (absorb compress (load st) (inp.take len)), inp.length % b) := by
  intro len
  have hne : b * (inp.length / b) ≠ 0 :=
    Nat.mul_ne_zero hb.ne' (Nat.div_pos hle hb).ne'
  have hlen : len ≤ inp.length := (Nat.mod_le _ _).trans (Nat.mul_div_le _ _)
  obtain ⟨hlog, hhash⟩ := hupdate (load st) inp len hlen (Nat.mod_lt _ (by decide))
  rw [ccHashblocks, hmask, if_neg hne]
  constructor
  · rw [Traced.log_bind, Traced.log_pure, List.append_nil]
    exact hlog
  · rw [Traced.val_bind, Traced.val_pure, hhash, ← Nat.mod_eq_sub]

theorem ccHashblocks_agree_iff (hb : 0 < b) (hdvd : b ∣ 2 ^ 32)
    (hstore : ∀ st, store (load st) = st) (hupdate : CcUpdates compress update)
    {inp : List UInt8} (hmask : inp.length &&& (2 ^ 64 - b) = b * (inp.length / b))
    (st : Vector UInt8 n) :
    HashblocksAgree inp (ccHashblocks load store update st inp)
        (hashblocks hb load store compress st inp) ↔ inp.length < 2 ^ 32 := by
  obtain ⟨k, hk⟩ := hdvd
  have hpos : 0 < 2 ^ 32 := by decide
  have hble : b ≤ 2 ^ 32 := Nat.le_of_dvd hpos ⟨k, hk⟩
  rw [hashblocks_eq]
  by_cases hle : b ≤ inp.length
  · obtain ⟨hlog, hval⟩ := ccHashblocks_of_le load store hb hupdate hmask hle st
    have hlen : b * (inp.length / b) % 2 ^ 32 = b * (inp.length / b % k) := by
      rw [hk, Nat.mul_mod_mul_left]
    have hfew : inp.length < 2 ^ 32 ↔ inp.length / b < k := by
      rw [hk, Nat.mul_comm, Nat.div_lt_iff_lt_mul hb]
    rw [hlen] at hlog hval
    rw [hfew]
    constructor
    · intro hagree
      have hblocks := congrArg List.length (hlog.symm.trans hagree.absorbs)
      have htake : b * (inp.length / b % k) ≤ inp.length :=
        (Nat.mul_le_mul_left b (Nat.mod_le _ _)).trans (Nat.mul_div_le _ _)
      rw [length_wholeBlocks, length_wholeBlocks, List.length_take, Nat.min_eq_left htake,
        Nat.mul_div_cancel_left _ hb] at hblocks
      rw [← hblocks]
      apply Nat.mod_lt
      exact Nat.pos_of_mul_pos_left (hk ▸ hpos)
    · intro hlt
      rw [Nat.mod_eq_of_lt hlt] at hlog hval
      rw [absorb_take hb] at hval
      rw [wholeBlocks_take hb] at hlog
      exact ⟨hlog, congrArg Prod.fst hval, congrArg Prod.snd hval⟩
  · have hlt := Nat.lt_of_not_le hle
    refine ⟨fun _ => hlt.trans_le hble, fun _ => ?_⟩
    rw [ccHashblocks, hmask, Nat.div_eq_of_lt hlt, Nat.mul_zero, if_pos rfl]
    refine ⟨?_, ?_, ?_⟩
    · rw [wholeBlocks_of_lt hlt]
      rfl
    · rw [absorb_of_lt hlt]
      exact (hstore st).symm
    · exact (Nat.mod_eq_of_lt hlt).symm

end Backend

/-- Both backends agree with the scalar code on an input exactly when it is shorter than
4 GiB. -/
theorem commonCrypto_agrees_iff
    (update256 : CcCtx UInt32 → List UInt8 → ℕ → Traced (Vector UInt8 64) (CcCtx UInt32))
    (update512 : CcCtx UInt64 → List UInt8 → ℕ → Traced (Vector UInt8 128) (CcCtx UInt64))
    (h256 : CcUpdates sha256Compress update256) (h512 : CcUpdates sha512Compress update512)
    (st256 : Vector UInt8 32) (st512 : Vector UInt8 64) (inp : List UInt8)
    (hsize : inp.length < 2 ^ 64) :
    (HashblocksAgree inp (spxCcSha256Hashblocks update256 st256 inp)
        (cryptoHashblocksSha256Ref st256 inp) ↔ inp.length < 2 ^ 32) ∧
      (HashblocksAgree inp (spxCcSha512Hashblocks update512 st512 inp)
        (cryptoHashblocksSha512Ref st512 inp) ↔ inp.length < 2 ^ 32) :=
  ⟨ccHashblocks_agree_iff (by decide) (by decide) storeWords32_loadWords32 h256
      (and_two_pow_sub _ 6 hsize (by decide)) st256,
    ccHashblocks_agree_iff (by decide) (by decide) storeWords64_loadWords64 h512
      (and_two_pow_sub _ 7 hsize (by decide)) st512⟩

/-- The padded message `abc`, which is one block of SHA-512 and two blocks of SHA-256. -/
def abcBlock : List UInt8 := [0x61, 0x62, 0x63, 0x80] ++ List.replicate 123 0 ++ [0x18]

theorem commonCrypto_agrees_abc :
    HashblocksAgree abcBlock (spxCcSha256Hashblocks (ccUpdate sha256Compress) iv256 abcBlock)
        (cryptoHashblocksSha256Ref iv256 abcBlock) ∧
      HashblocksAgree abcBlock
        (spxCcSha512Hashblocks (ccUpdate sha512Compress) iv512 abcBlock)
        (cryptoHashblocksSha512Ref iv512 abcBlock) := by
  have hlen : abcBlock.length < 2 ^ 32 := by simp [abcBlock]
  have hagree := commonCrypto_agrees_iff (ccUpdate sha256Compress) (ccUpdate sha512Compress)
    (ccUpdates_ccUpdate _) (ccUpdates_ccUpdate _) iv256 iv512 abcBlock
    (hlen.trans (by decide))
  exact ⟨hagree.1.mpr hlen, hagree.2.mpr hlen⟩

/-!
## Four gibibytes
-/

theorem finite_words32 : Finite (Vector UInt32 8) := by
  have hword : Finite UInt32 := Finite.of_injective UInt32.toFin fun _ _ => UInt32.toFin_inj.mp
  apply Finite.of_injective fun (v : Vector UInt32 8) (i : Fin 8) => v[i]
  intro v w h
  apply Vector.ext
  intro i hi
  exact congrFun h ⟨i, hi⟩

/-- From 4 GiB exactly on nothing of the input is compressed. -/
theorem spxCcSha256Hashblocks_of_length {inp : List UInt8} (hlen : inp.length = 2 ^ 32)
    (st : Vector UInt8 32) :
    spxCcSha256Hashblocks (ccUpdate sha256Compress) st inp = ⟨(st, 0), []⟩ := by
  have hmask := and_two_pow_sub inp.length 6 (by rw [hlen]; decide) (by decide)
  obtain ⟨hlog, hval⟩ := ccHashblocks_of_le (loadWords32 8) storeWords32 (by decide)
    (ccUpdates_ccUpdate sha256Compress) hmask (by rw [hlen]; decide) st
  have hzero : 64 * (2 ^ 32 / 64) % 2 ^ 32 = 0 := by decide
  rw [hlen, hzero, List.take_zero] at hlog hval
  apply Traced.ext
  · rw [absorb_of_lt (by decide), storeWords32_loadWords32] at hval
    exact hval
  · exact hlog

/-- On 4 GiB of zeros the backend compresses nothing, where the scalar code compresses
`2 ^ 26` blocks, and some state and input of that length show it in the state bytes. -/
theorem commonCrypto_disagrees :
    ¬ HashblocksAgree (List.replicate (2 ^ 32) 0)
        (spxCcSha256Hashblocks (ccUpdate sha256Compress) iv256 (List.replicate (2 ^ 32) 0))
        (cryptoHashblocksSha256Ref iv256 (List.replicate (2 ^ 32) 0)) ∧
      ¬ HashblocksAgree (List.replicate (2 ^ 32) 0)
        (spxCcSha512Hashblocks (ccUpdate sha512Compress) iv512 (List.replicate (2 ^ 32) 0))
        (cryptoHashblocksSha512Ref iv512 (List.replicate (2 ^ 32) 0)) ∧
      (spxCcSha256Hashblocks (ccUpdate sha256Compress) iv256
        (List.replicate (2 ^ 32) 0)).log = [] ∧
      (cryptoHashblocksSha256Ref iv256 (List.replicate (2 ^ 32) 0)).log.length = 2 ^ 26 ∧
      ∃ (st : Vector UInt8 32) (inp : List UInt8), inp.length = 2 ^ 32 ∧
        (spxCcSha256Hashblocks (ccUpdate sha256Compress) st inp).val.1 ≠
          (cryptoHashblocksSha256Ref st inp).val.1 := by
  have hlen : (List.replicate (2 ^ 32) (0 : UInt8)).length = 2 ^ 32 := List.length_replicate
  have hsize : (List.replicate (2 ^ 32) (0 : UInt8)).length < 2 ^ 64 := by
    rw [hlen]
    decide
  have hnot : ¬ (List.replicate (2 ^ 32) (0 : UInt8)).length < 2 ^ 32 := by
    rw [hlen]
    exact lt_irrefl _
  refine ⟨fun h => hnot ?_, fun h => hnot ?_, ?_, ?_, ?_⟩
  · exact (ccHashblocks_agree_iff (by decide) (by decide) storeWords32_loadWords32
      (ccUpdates_ccUpdate _) (and_two_pow_sub _ 6 hsize (by decide)) iv256).mp h
  · exact (ccHashblocks_agree_iff (by decide) (by decide) storeWords64_loadWords64
      (ccUpdates_ccUpdate _) (and_two_pow_sub _ 7 hsize (by decide)) iv512).mp h
  · rw [spxCcSha256Hashblocks_of_length hlen]
  · rw [cryptoHashblocksSha256Ref, cryptoHashblocksSha256, hashblocks_eq, length_wholeBlocks,
      hlen]
    decide
  · have hne : sha256Compress (loadWords32 8 iv256) (Vector.replicate 64 0) ≠
        sha256Compress (loadWords32 8 iv256) (Vector.replicate 64 1) := by
      decide +kernel
    have hfinite := finite_words32
    obtain ⟨s, x, hx, hmove⟩ := exists_absorb_ne (by decide) hne (2 ^ 26 - 1)
    refine ⟨storeWords32 s, x, hx, fun hsame => hmove ?_⟩
    rw [spxCcSha256Hashblocks_of_length hx, cryptoHashblocksSha256Ref, cryptoHashblocksSha256,
      hashblocks_eq] at hsame
    have hwords := congrArg (loadWords32 8) hsame
    rw [loadWords32_storeWords32, loadWords32_storeWords32] at hwords
    exact hwords.symm

end BitcoinPqc
