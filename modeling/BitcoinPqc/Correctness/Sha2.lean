import BitcoinPqc.Sphincs.Sha2

/-!
# Incremental SHA-2 computes SHA-2

The loop over the blocks absorbs the whole blocks of its input and compresses nothing
else. Whole blocks that were absorbed before can be put back in front of the input that is
finished, so the digest does not depend on the pieces in which a message arrived.
-/

namespace BitcoinPqc

/-!
## The loop over the blocks
-/

section Loop

variable {σ : Type} {b : ℕ}

theorem hashblocksLoop_eq (hb : 0 < b) (f : σ → Vector UInt8 b → σ) (s : σ)
    (x : List UInt8) :
    hashblocksLoop hb f s x = ⟨(absorb f s x, partialBlock b x), wholeBlocks b x⟩ := by
  induction hlen : x.length using Nat.strongRecOn generalizing s x with
  | ind n ih =>
      rw [hashblocksLoop]
      by_cases hle : b ≤ x.length
      · have hrest := ih (x.drop b).length (by rw [List.length_drop]; omega)
          (f s (headBlock b x)) (x.drop b) rfl
        rw [if_pos hle, absorb_of_le hb hle, partialBlock_of_le hb hle,
          wholeBlocks_of_le hb hle]
        apply Traced.ext
        · rw [Traced.val_bind, Traced.val_ask, hrest]
        · rw [Traced.log_bind, Traced.val_ask, hrest]
          rfl
      · rw [if_neg hle, absorb_of_lt (Nat.lt_of_not_le hle),
          partialBlock_of_lt (Nat.lt_of_not_le hle), wholeBlocks_of_lt (Nat.lt_of_not_le hle)]
        rfl

theorem hashblocks_eq {n : ℕ} (hb : 0 < b) (load : Vector UInt8 n → σ)
    (store : σ → Vector UInt8 n) (f : σ → Vector UInt8 b → σ) (st : Vector UInt8 n)
    (x : List UInt8) :
    hashblocks hb load store f st x =
      ⟨(store (absorb f (load st) x), x.length % b), wholeBlocks b x⟩ := by
  rw [hashblocks, hashblocksLoop_eq]
  apply Traced.ext
  · rw [Traced.val_bind, Traced.val_pure, length_partialBlock]
  · rw [Traced.log_bind, Traced.log_pure, List.append_nil]

end Loop

/-!
## Lengths
-/

theorem and_two_pow_sub (x k : ℕ) (hx : x < 2 ^ 64) (hk : k ≤ 64) :
    x &&& (2 ^ 64 - 2 ^ k) = 2 ^ k * (x / 2 ^ k) := by
  have hmask : 2 ^ 64 - 2 ^ k = (2 ^ (64 - k) - 1) <<< k := by
    rw [Nat.shiftLeft_eq, Nat.sub_mul, ← Nat.pow_add, Nat.sub_add_cancel hk, Nat.one_mul]
  have hblocks : 2 ^ k * (x / 2 ^ k) = (x >>> k) <<< k := by
    rw [Nat.shiftRight_eq_div_pow, Nat.shiftLeft_eq, Nat.mul_comm]
  rw [hmask, hblocks]
  apply Nat.eq_of_testBit_eq
  intro i
  rw [Nat.testBit_and, Nat.testBit_shiftLeft, Nat.testBit_shiftLeft,
    Nat.testBit_two_pow_sub_one, Nat.testBit_shiftRight]
  by_cases hi : k ≤ i
  · rw [Nat.add_sub_cancel' hi]
    by_cases h64 : i < 64
    · rw [decide_eq_true (show i - k < 64 - k by omega), Bool.and_true, Bool.and_comm]
    · have hhigh : x.testBit i = false :=
        Nat.testBit_lt_two_pow (hx.trans_le (Nat.pow_le_pow_right (by decide) (by omega)))
      rw [hhigh, Bool.false_and, Bool.and_false]
  · rw [decide_eq_false hi, Bool.false_and, Bool.false_and, Bool.and_false]

/-!
## Words
-/

theorem loadBigendian32_store (u : UInt32) : loadBigendian32 (storeBigendian32 u) = u := by
  rw [loadBigendian32, storeBigendian32, bytesToUll_ullToBytes,
    Nat.mod_eq_of_lt (show u.toNat < 256 ^ 4 from u.toNat_lt)]
  exact UInt32.ofNat_toNat

theorem loadBigendian64_store (u : UInt64) : loadBigendian64 (storeBigendian64 u) = u := by
  rw [loadBigendian64, storeBigendian64, bytesToUll_ullToBytes,
    Nat.mod_eq_of_lt (show u.toNat < 256 ^ 8 from u.toNat_lt)]
  exact UInt64.ofNat_toNat

theorem storeBigendian32_load (x : Vector UInt8 4) :
    storeBigendian32 (loadBigendian32 x) = x := by
  have hlt : bytesToUll x < 2 ^ 32 := bytesToUll_lt x
  have hnat : (UInt32.ofNat (bytesToUll x)).toNat = bytesToUll x := UInt32.toNat_ofNat_of_lt' hlt
  rw [storeBigendian32, loadBigendian32, hnat, ullToBytes_bytesToUll]

theorem storeBigendian64_load (x : Vector UInt8 8) :
    storeBigendian64 (loadBigendian64 x) = x := by
  have hlt : bytesToUll x < 2 ^ 64 := bytesToUll_lt x
  have hnat : (UInt64.ofNat (bytesToUll x)).toNat = bytesToUll x := UInt64.toNat_ofNat_of_lt' hlt
  rw [storeBigendian64, loadBigendian64, hnat, ullToBytes_bytesToUll]

@[simp] theorem loadWords32_storeWords32 (v : Vector UInt32 8) :
    loadWords32 8 (storeWords32 v) = v := by
  apply Vector.ext
  intro i hi
  rw [loadWords32, Vector.getElem_ofFn, storeWords32]
  dsimp only
  rw [slice_foldl_write (fun i => storeBigendian32 (v.getD i 0)) _ (by decide) hi,
    loadBigendian32_store, getD_eq_getElem v hi]

@[simp] theorem loadWords64_storeWords64 (v : Vector UInt64 8) :
    loadWords64 8 (storeWords64 v) = v := by
  apply Vector.ext
  intro i hi
  rw [loadWords64, Vector.getElem_ofFn, storeWords64]
  dsimp only
  rw [slice_foldl_write (fun i => storeBigendian64 (v.getD i 0)) _ (by decide) hi,
    loadBigendian64_store, getD_eq_getElem v hi]

theorem storeWords32_loadWords32 (st : Vector UInt8 32) :
    storeWords32 (loadWords32 8 st) = st := by
  apply ext_of_blocks 4 8 (by decide) rfl
  intro j hj
  have hword : (loadWords32 8 st).getD j 0 = loadBigendian32 (slice st (4 * j) 4) := by
    rw [loadWords32, getD_ofFn _ hj]
  rw [storeWords32, slice_foldl_write (fun i => storeBigendian32 ((loadWords32 8 st).getD i 0))
    _ (by decide) hj, hword, storeBigendian32_load]

theorem storeWords64_loadWords64 (st : Vector UInt8 64) :
    storeWords64 (loadWords64 8 st) = st := by
  apply ext_of_blocks 8 8 (by decide) rfl
  intro j hj
  have hword : (loadWords64 8 st).getD j 0 = loadBigendian64 (slice st (8 * j) 8) := by
    rw [loadWords64, getD_ofFn _ hj]
  rw [storeWords64, slice_foldl_write (fun i => storeBigendian64 ((loadWords64 8 st).getD i 0))
    _ (by decide) hj, hword, storeBigendian64_load]

/-!
## SHA-256 in one piece
-/

/-- The padding of a message of the given length: one bit, zeros up to the last eight bytes
of a block, and the length in bits. -/
def sha256Padding (length : ℕ) : List UInt8 :=
  [0x80] ++ List.replicate ((119 - length % 64) % 64) 0 ++ (ullToBytes 8 (8 * length)).toList

/-- SHA-256 on the padded message. -/
def sha256Of (compress : Vector UInt32 8 → Vector UInt8 64 → Vector UInt32 8)
    (m : List UInt8) : Vector UInt8 32 :=
  storeWords32 (absorb compress (loadWords32 8 iv256) (m ++ sha256Padding m.length))

theorem sha256LengthBytes_eq (bytes : ℕ) :
    sha256LengthBytes bytes = (ullToBytes 8 (8 * bytes)).toList := by
  have hshift (k : ℕ) : bytes >>> (8 * k + 5) = (8 * bytes) >>> (8 * (k + 1)) := by
    rw [show 8 * bytes = bytes <<< 3 by rw [Nat.shiftLeft_eq, Nat.mul_comm],
      show 8 * (k + 1) = 3 + (8 * k + 5) by omega, Nat.shiftRight_add (bytes <<< 3),
      Nat.shiftLeft_shiftRight]
  have hnil (y : ℕ) : (ullToBytes 0 y).toList = [] := rfl
  simp only [toList_ullToBytes_succ, hnil, List.nil_append, List.cons_append,
    ← Nat.shiftRight_add, sha256LengthBytes]
  rw [hshift 6, hshift 5, hshift 4, hshift 3, hshift 2, hshift 1, hshift 0,
    Nat.shiftLeft_eq, Nat.mul_comm]

/-- What the code compresses last is the rest of the message with its padding. -/
theorem sha256Padded_eq {rest : List UInt8} {bytes : ℕ} (hrest : rest.length = bytes % 64) :
    sha256Padded rest bytes = rest ++ sha256Padding bytes := by
  have hlt : rest.length < 64 := hrest ▸ Nat.mod_lt _ (by decide)
  have hzeros : (119 - bytes % 64) % 64 =
      if rest.length < 56 then 56 - (rest.length + 1) else 120 - (rest.length + 1) := by
    rw [← hrest]
    split
    · omega
    · omega
  rw [sha256Padded, sha256Padding, sha256LengthBytes_eq, hzeros]
  split
  · simp only [List.append_assoc]
  · simp only [List.append_assoc]

/-!
## SHA-256 in pieces
-/

section Incremental

variable {compress : Vector UInt32 8 → Vector UInt8 64 → Vector UInt32 8}

theorem sha256IncFinalize_eq (state : Vector UInt8 40) (x : List UInt8) :
    sha256IncFinalize compress state x =
      storeWords32 (absorb compress (absorb compress (loadWords32 8 (slice state 0 32)) x)
        (sha256Padded (partialBlock 64 x)
          ((bytesToUll (slice state 32 8) + x.length) % 2 ^ 64))) := by
  have hrest : x.drop (x.length - (x.length &&& 63)) = partialBlock 64 x := by
    rw [partialBlock, show x.length &&& 63 = x.length % 2 ^ 6 from
      Nat.and_two_pow_sub_one_eq_mod x.length 6, show x.length - x.length % 2 ^ 6 =
        64 * (x.length / 64) by omega]
  rw [sha256IncFinalize, hrest, cryptoHashblocksSha256, hashblocks_eq, hashblocks_eq,
    loadWords32_storeWords32]

/-- Whole blocks that are absorbed first belong to the input that is finished. -/
theorem sha256IncFinalize_blocks (state : Vector UInt8 40) {x : List UInt8} {n : ℕ}
    (hn : 64 * n ≤ x.length) (y : List UInt8) :
    sha256IncFinalize compress (sha256IncBlocks compress state x n) y =
      sha256IncFinalize compress state (x.take (64 * n) ++ y) := by
  have hlen : (x.take (64 * n)).length = 64 * n := by
    rw [List.length_take, Nat.min_eq_left hn]
  have haligned : 64 ∣ (x.take (64 * n)).length := by
    rw [hlen]
    exact Nat.dvd_mul_right 64 n
  have hwords : loadWords32 8 (slice (sha256IncBlocks compress state x n) 0 32) =
      absorb compress (loadWords32 8 (slice state 0 32)) (x.take (64 * n)) := by
    rw [sha256IncBlocks, cryptoHashblocksSha256, hashblocks_eq, slice_write_of_disjoint _ _ _ _ _
      (Or.inr (by decide)), slice_write_self _ _ _ (by decide), loadWords32_storeWords32]
  have hcount : (bytesToUll (slice (sha256IncBlocks compress state x n) 32 8) + y.length) %
      2 ^ 64 = (bytesToUll (slice state 32 8) + (x.take (64 * n) ++ y).length) % 2 ^ 64 := by
    rw [sha256IncBlocks, slice_write_self _ _ _ (by decide), bytesToUll_ullToBytes,
      List.length_append, hlen]
    omega
  rw [sha256IncFinalize_eq, sha256IncFinalize_eq, hwords, hcount,
    partialBlock_append (by decide) haligned, absorb_append (by decide) haligned]

theorem sha256_eq {x : List UInt8} (hlen : x.length < 2 ^ 61) :
    sha256 compress x = sha256Of compress x := by
  have hwords : slice sha256IncInit 0 32 = iv256 := slice_append_left _ _
  have hcount : bytesToUll (slice sha256IncInit 32 8) = 0 := by decide
  have hbytes : (0 + x.length) % 2 ^ 64 = x.length := by omega
  rw [sha256, sha256IncFinalize_eq, hwords, hcount, hbytes,
    sha256Padded_eq (length_partialBlock x), ← absorb_take (by decide) x,
    ← absorb_append (by decide), ← List.append_assoc, take_append_partialBlock, sha256Of]
  rw [length_take_wholeBlocks]
  exact Nat.dvd_mul_right 64 _

end Incremental

end BitcoinPqc
