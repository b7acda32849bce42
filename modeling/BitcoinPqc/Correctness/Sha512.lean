import BitcoinPqc.Correctness.Sha2

/-!
# Incremental SHA-512 computes SHA-512

The counter of `sha512_inc_finalize` has 64 bits, so nine of the sixteen bytes of the length
field are computed from it and the others are zeros like the padding in front of them.
-/

namespace BitcoinPqc

/-- The padding of a message of the given length: one bit, zeros up to the last sixteen bytes
of a block, and the length in bits. -/
def sha512Padding (length : ℕ) : List UInt8 :=
  [0x80] ++ List.replicate ((239 - length % 128) % 128) 0 ++ (ullToBytes 16 (8 * length)).toList

/-- SHA-512 on the padded message. -/
def sha512Of (compress : Vector UInt64 8 → Vector UInt8 128 → Vector UInt64 8)
    (m : List UInt8) : Vector UInt8 64 :=
  storeWords64 (absorb compress (loadWords64 8 iv512) (m ++ sha512Padding m.length))

theorem toList_ullToBytes_cons (n x : ℕ) :
    (ullToBytes (n + 1) x).toList = UInt8.ofNat (x >>> (8 * n)) :: (ullToBytes n x).toList := by
  induction n generalizing x with
  | zero => rw [toList_ullToBytes_succ]; rfl
  | succ n ih =>
      rw [toList_ullToBytes_succ, ih, toList_ullToBytes_succ, List.cons_append,
        ← Nat.shiftRight_add, show 8 + 8 * n = 8 * (n + 1) by omega]

/-- A number with fewer bytes is written with zeros in front. -/
theorem toList_ullToBytes_add (a : ℕ) {b x : ℕ} (hx : x < 256 ^ b) :
    (ullToBytes (a + b) x).toList = List.replicate a 0 ++ (ullToBytes b x).toList := by
  induction a with
  | zero => rw [Nat.zero_add, List.replicate_zero, List.nil_append]
  | succ a ih =>
      have hzero : x >>> (8 * (a + b)) = 0 := by
        rw [Nat.shiftRight_eq_div_pow]
        refine Nat.div_eq_of_lt (hx.trans_le ?_)
        rw [show 256 = 2 ^ 8 from rfl, ← Nat.pow_mul]
        exact Nat.pow_le_pow_right (by decide) (by omega)
      rw [show a + 1 + b = a + b + 1 by omega, toList_ullToBytes_cons, ih, hzero,
        List.replicate_succ, List.cons_append]
      rfl

theorem sha512LengthBytes_eq (bytes : ℕ) :
    sha512LengthBytes bytes = (ullToBytes 9 (8 * bytes)).toList := by
  have hshift : (8 * bytes) >>> (8 * 8) = bytes >>> 61 := by
    rw [Nat.shiftRight_eq_div_pow, Nat.shiftRight_eq_div_pow,
      show 2 ^ (8 * 8) = 8 * 2 ^ 61 from rfl, Nat.mul_div_mul_left _ _ (by decide)]
  rw [toList_ullToBytes_cons, hshift, ← sha256LengthBytes_eq, sha512LengthBytes]

theorem sha512Padded_eq {rest : List UInt8} {bytes : ℕ} (hrest : rest.length = bytes % 128)
    (hbytes : bytes < 2 ^ 64) : sha512Padded rest bytes = rest ++ sha512Padding bytes := by
  have hlt : rest.length < 128 := hrest ▸ Nat.mod_lt _ (by decide)
  have hlength : (ullToBytes 16 (8 * bytes)).toList =
      List.replicate 7 0 ++ sha512LengthBytes bytes := by
    rw [sha512LengthBytes_eq, ← toList_ullToBytes_add 7 (b := 9) (by omega)]
  have hzeros : (239 - bytes % 128) % 128 + 7 =
      if rest.length < 112 then 119 - (rest.length + 1) else 247 - (rest.length + 1) := by
    rw [← hrest]
    split
    · omega
    · omega
  rw [sha512Padded, sha512Padding, hlength, List.append_assoc [0x80] (List.replicate _ 0),
    ← List.append_assoc (List.replicate _ 0), List.replicate_append_replicate, hzeros]
  split
  · simp only [List.append_assoc]
  · simp only [List.append_assoc]

section Incremental

variable {compress : Vector UInt64 8 → Vector UInt8 128 → Vector UInt64 8}

theorem sha512IncFinalize_eq (state : Vector UInt8 72) (x : List UInt8) :
    sha512IncFinalize compress state x =
      storeWords64 (absorb compress (absorb compress (loadWords64 8 (slice state 0 64)) x)
        (sha512Padded (partialBlock 128 x)
          ((bytesToUll (slice state 64 8) + x.length) % 2 ^ 64))) := by
  have hrest : x.drop (x.length - (x.length &&& 127)) = partialBlock 128 x := by
    rw [partialBlock, show x.length &&& 127 = x.length % 2 ^ 7 from
      Nat.and_two_pow_sub_one_eq_mod x.length 7, show x.length - x.length % 2 ^ 7 =
        128 * (x.length / 128) by omega]
  rw [sha512IncFinalize, hrest, cryptoHashblocksSha512, hashblocks_eq, hashblocks_eq,
    loadWords64_storeWords64]

theorem sha512IncFinalize_blocks (state : Vector UInt8 72) {x : List UInt8} {n : ℕ}
    (hn : 128 * n ≤ x.length) (y : List UInt8) :
    sha512IncFinalize compress (sha512IncBlocks compress state x n) y =
      sha512IncFinalize compress state (x.take (128 * n) ++ y) := by
  have hlen : (x.take (128 * n)).length = 128 * n := by
    rw [List.length_take, Nat.min_eq_left hn]
  have haligned : 128 ∣ (x.take (128 * n)).length := by
    rw [hlen]
    exact Nat.dvd_mul_right 128 n
  have hwords : loadWords64 8 (slice (sha512IncBlocks compress state x n) 0 64) =
      absorb compress (loadWords64 8 (slice state 0 64)) (x.take (128 * n)) := by
    rw [sha512IncBlocks, cryptoHashblocksSha512, hashblocks_eq, slice_write_of_disjoint _ _ _ _ _
      (Or.inr (by decide)), slice_write_self _ _ _ (by decide), loadWords64_storeWords64]
  have hcount : (bytesToUll (slice (sha512IncBlocks compress state x n) 64 8) + y.length) %
      2 ^ 64 = (bytesToUll (slice state 64 8) + (x.take (128 * n) ++ y).length) % 2 ^ 64 := by
    rw [sha512IncBlocks, slice_write_self _ _ _ (by decide), bytesToUll_ullToBytes,
      List.length_append, hlen]
    omega
  rw [sha512IncFinalize_eq, sha512IncFinalize_eq, hwords, hcount,
    partialBlock_append (by decide) haligned, absorb_append (by decide) haligned]

/-- `sha512` is SHA-512. The counter of the code has 64 bits. -/
theorem sha512_eq {x : List UInt8} (hlen : x.length < 2 ^ 64) :
    sha512 compress x = sha512Of compress x := by
  have hwords : slice sha512IncInit 0 64 = iv512 := slice_append_left _ _
  have hcount : bytesToUll (slice sha512IncInit 64 8) = 0 := by decide
  have hbytes : (0 + x.length) % 2 ^ 64 = x.length := by omega
  rw [sha512, sha512IncFinalize_eq, hwords, hcount, hbytes,
    sha512Padded_eq (length_partialBlock x) hlen, ← absorb_take (by decide) x,
    ← absorb_append (by decide), ← List.append_assoc, take_append_partialBlock, sha512Of]
  rw [length_take_wholeBlocks]
  exact Nat.dvd_mul_right 128 _

end Incremental

end BitcoinPqc
