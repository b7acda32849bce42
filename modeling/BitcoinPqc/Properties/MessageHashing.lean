import BitcoinPqc.Api.SlhDsa
import BitcoinPqc.Correctness.Sha2
import BitcoinPqc.Sphincs.HashSha2
import Mathlib.Data.List.Basic

/-!
# Message hashing

The functions that hash the message choose between two ways to feed it to SHA-256,
depending on whether it fills up a first block. Both ways feed the same bytes, and so does
MGF1 with a cached chaining value, so every function computes its definition on whole
messages, for every message length and every compression function.
-/

namespace BitcoinPqc

variable (compress : Vector UInt32 8 → Vector UInt8 64 → Vector UInt32 8)

/-!
## Definitions on whole messages
-/

/-- MGF1 with SHA-256: the digests of the seed and a big-endian counter, one after the
other, cut to the length. -/
def mgf1Of (outlen : ℕ) (seed : List UInt8) : List UInt8 :=
  ((List.range ((outlen + 31) / 32)).flatMap fun i =>
    (sha256Of compress (seed ++ (u32ToBytes i).toList)).toList).take outlen

/-- The key of HMAC, filled up to a block and XORed with `pad`. -/
def hmacKey (pad : UInt8) (key : Block) : List UInt8 :=
  (key.toList ++ List.replicate 48 0).map fun x => pad ^^^ x

/-- HMAC with SHA-256. -/
def hmacOf (key : Block) (data : List UInt8) : Vector UInt8 32 :=
  sha256Of compress
    (hmacKey 0x5c key ++ (sha256Of compress (hmacKey 0x36 key ++ data)).toList)

/-- The bytes that `hash_message` splits. -/
def messageDigestOf (R pubSeed root : Block) (m : List UInt8) : DigestBytes :=
  headBlock 20 (mgf1Of compress 20 (R.toList ++ pubSeed.toList ++
    (sha256Of compress (R.toList ++ pubSeed.toList ++ root.toList ++ m)).toList))

variable {compress}

/-!
## MGF1
-/

theorem mgf1Loop_eq (digest : ℕ → Vector UInt8 32) (outlen n i : ℕ)
    (hn : (outlen + 31) / 32 = i + n) :
    mgf1Loop digest outlen i =
      ((List.range n).flatMap fun k => (digest (i + k)).toList).take (outlen - i * 32) := by
  induction n generalizing i with
  | zero =>
      rw [mgf1Loop, if_neg (by omega), if_neg (by omega)]
      exact List.take_nil.symm
  | succ n ih =>
      have hlen : (digest i).toList.length = 32 := Vector.length_toList
      have hblocks : ((List.range (n + 1)).flatMap fun k => (digest (i + k)).toList) =
          (digest i).toList ++ (List.range n).flatMap fun k => (digest (i + 1 + k)).toList := by
        rw [List.range_succ_eq_map, List.flatMap_cons, List.flatMap_map, Nat.add_zero]
        congr 2
        funext k
        rw [Nat.succ_eq_add_one, Nat.add_assoc i 1 k, Nat.add_comm 1 k]
      rw [mgf1Loop, hblocks]
      by_cases hfull : (i + 1) * 32 ≤ outlen
      · rw [if_pos hfull, ih (i + 1) (by omega), List.take_append, hlen,
          List.take_of_length_le (show (digest i).toList.length ≤ outlen - i * 32 by omega),
          show outlen - i * 32 - 32 = outlen - (i + 1) * 32 by omega]
      · rw [if_neg hfull, if_pos (by omega), List.take_append_of_le_length (by omega)]

theorem mgf1Loop_eq_take (digest : ℕ → Vector UInt8 32) (outlen : ℕ) :
    mgf1Loop digest outlen 0 =
      ((List.range ((outlen + 31) / 32)).flatMap fun i => (digest i).toList).take outlen := by
  have hloop := mgf1Loop_eq digest outlen ((outlen + 31) / 32) 0 (Nat.zero_add _).symm
  simp only [Nat.zero_add, Nat.zero_mul, Nat.sub_zero] at hloop
  exact hloop

/-- The cached chaining value stands for the whole blocks of the input. -/
theorem mgf1XCached_eq (outlen : ℕ) (x : List UInt8) :
    mgf1XCached compress outlen x = mgf1256 compress outlen x := by
  have htail : (x.drop (x.length / 64 * 64)).take (x.length % 64) = partialBlock 64 x := by
    rw [Nat.mul_comm, ← partialBlock, List.take_of_length_le]
    rw [length_partialBlock]
  have hseeded (y : List UInt8) :
      sha256IncFinalize compress
          (if x.length / 64 > 0 then sha256IncBlocks compress sha256IncInit x (x.length / 64)
            else sha256IncInit) (partialBlock 64 x ++ y) =
        sha256 compress (x ++ y) := by
    split
    · rw [sha256IncFinalize_blocks _ (Nat.mul_div_le x.length 64), ← List.append_assoc,
        take_append_partialBlock, sha256]
    · next hnone =>
        rw [partialBlock_of_lt (by omega), sha256]
  rw [mgf1XCached, mgf1256]
  simp only [htail, hseeded]

theorem mgf1256_eq (outlen : ℕ) {x : List UInt8} (hlen : x.length < 2 ^ 61 - 4)
    (hcount : (outlen + 31) / 32 ≤ 2 ^ 32) :
    mgf1256 compress outlen x = mgf1Of compress outlen x := by
  rw [mgf1256, mgf1Loop_eq_take, mgf1Of]
  apply congrArg (List.take outlen)
  apply List.flatMap_congr
  intro i hi
  have hlt : i < 2 ^ 32 := (List.mem_range.mp hi).trans_le hcount
  rw [Nat.mod_eq_of_lt hlt, sha256_eq]
  rw [List.length_append, Vector.length_toList]
  omega

/-!
## Buffers
-/

theorem take_memcpy {buf pre : List UInt8} (hpre : buf.take pre.length = pre)
    (src : List UInt8) :
    (memcpy buf pre.length src).take (pre.length + src.length) = pre ++ src := by
  rw [memcpy, hpre, List.take_append_of_le_length (by rw [List.length_append]),
    List.take_of_length_le (by rw [List.length_append])]

theorem take_memcpy_zero (buf src : List UInt8) :
    (memcpy buf 0 src).take src.length = src := by
  rw [memcpy, List.take_zero, List.nil_append, List.take_append_of_le_length le_rfl,
    List.take_length]

variable (compress) in
/-- A part of a message behind `pre`, in a block of 64 bytes, and the rest of the message:
both ways of feeding them give the digest of everything. -/
theorem sha256IncFinalize_message (state : Vector UInt8 40) {buf pre : List UInt8}
    (hpre : buf.take pre.length = pre) (hbuf : buf.length = 64) (hlen : pre.length ≤ 64)
    (m : List UInt8) :
    (if pre.length + m.length < 64 then
        sha256IncFinalize compress state
          ((memcpy buf pre.length m).take (pre.length + m.length))
      else
        sha256IncFinalize compress
          (sha256IncBlocks compress state (memcpy buf pre.length (m.take (64 - pre.length))) 1)
          (m.drop (64 - pre.length))) =
      sha256IncFinalize compress state (pre ++ m) := by
  split
  · rw [take_memcpy hpre]
  · next hlong =>
      have htake : (m.take (64 - pre.length)).length = 64 - pre.length := by
        rw [List.length_take]
        omega
      have hfirst := take_memcpy hpre (m.take (64 - pre.length))
      rw [htake, show pre.length + (64 - pre.length) = 64 * 1 by omega] at hfirst
      have hblock : 64 * 1 ≤ (memcpy buf pre.length (m.take (64 - pre.length))).length := by
        rw [memcpy, List.length_append, List.length_append, List.length_take, htake, hbuf]
        omega
      rw [sha256IncFinalize_blocks _ hblock, hfirst, List.append_assoc,
        List.take_append_drop]

/-!
## The functions of the library
-/

theorem hmacBlock_eq (pad : UInt8) (key : Block) : hmacBlock pad key = hmacKey pad key := by
  rw [hmacBlock, hmacKey, List.map_append, List.map_replicate, UInt8.xor_zero]
  rfl

theorem length_hmacBlock (pad : UInt8) (key : Block) : (hmacBlock pad key).length = 64 := by
  rw [hmacBlock, List.length_append, List.length_map, Vector.length_toList,
    List.length_replicate]
  rfl

/-- `gen_message_random` is the first half of an HMAC. -/
theorem genMessageRandom_eq (skPrf optrand : Block) {m : List UInt8}
    (hm : m.length < 2 ^ 61 - 128) :
    genMessageRandom compress skPrf optrand m =
      slice (hmacOf compress skPrf (optrand.toList ++ m)) 0 16 := by
  have hkey := length_hmacBlock 0x36 skPrf
  have hopt : optrand.toList.length = 16 := Vector.length_toList
  have hbuf : (memcpy (hmacBlock 0x36 skPrf) 0 optrand.toList).length = 64 := by
    rw [memcpy, List.length_append, List.length_append, List.length_take, List.length_drop,
      hkey, hopt]
    rfl
  have hpre : (memcpy (hmacBlock 0x36 skPrf) 0 optrand.toList).take optrand.toList.length =
      optrand.toList := take_memcpy_zero _ _
  have hinner := sha256IncFinalize_message compress
    (sha256IncBlocks compress sha256IncInit (hmacBlock 0x36 skPrf) 1) hpre hbuf
    (by rw [hopt]; decide) m
  have hwhole : sha256IncFinalize compress
      (sha256IncBlocks compress sha256IncInit (hmacBlock 0x36 skPrf) 1)
      (optrand.toList ++ m) = sha256Of compress (hmacKey 0x36 skPrf ++ (optrand.toList ++ m)) := by
    rw [sha256IncFinalize_blocks _ (Nat.le_of_eq hkey.symm), List.take_of_length_le
      (Nat.le_of_eq hkey), hmacBlock_eq]
    apply sha256_eq
    rw [← hmacBlock_eq, List.length_append, List.length_append, hkey, hopt]
    omega
  rw [hwhole, hopt] at hinner
  rw [genMessageRandom, hmacOf, ← hinner, hmacBlock_eq 0x5c, sha256_eq]
  · rw [Nat.add_comm m.length]
  · rw [List.length_append, Vector.length_toList, ← hmacBlock_eq, length_hmacBlock]
    decide

theorem messageDigest_eq (inbuf : Vector UInt8 64) (R : Block) (pk : Vector UInt8 32)
    {m : List UInt8} (hm : m.length < 2 ^ 61 - 128) :
    messageDigest compress inbuf R pk m =
      messageDigestOf compress R (slice pk 0 16) (slice pk 16 16) m := by
  have hR : R.toList.length = 16 := Vector.length_toList
  have hpk : pk.toList.length = 32 := Vector.length_toList
  have hlen : (R.toList ++ pk.toList).length = 48 := by
    rw [List.length_append, hR, hpk]
  have hparts : pk.toList =
      (slice pk 0 16 : Block).toList ++ (slice pk 16 16 : Block).toList := by
    rw [← Vector.toList_append]
    exact congrArg Vector.toList (slice_append_slice (k := 16) (l := 16) pk).symm
  have hfirst : (memcpy inbuf.toList 0 R.toList).take R.toList.length = R.toList :=
    take_memcpy_zero _ _
  have hpre := take_memcpy hfirst pk.toList
  rw [← List.length_append, hR] at hpre
  have hbuf : (memcpy (memcpy inbuf.toList 0 R.toList) 16 pk.toList).length = 64 := by
    simp only [memcpy, List.length_append, List.length_take, List.length_drop,
      Vector.length_toList]
    rfl
  have hseed := sha256IncFinalize_message compress sha256IncInit hpre hbuf
    (by rw [hlen]; decide) m
  have hwhole : sha256IncFinalize compress sha256IncInit (R.toList ++ pk.toList ++ m) =
      sha256Of compress (R.toList ++ (slice pk 0 16 : Block).toList ++
        (slice pk 16 16 : Block).toList ++ m) := by
    rw [List.append_assoc R.toList (slice pk 0 16 : Block).toList, ← hparts]
    apply sha256_eq
    rw [List.length_append, hlen]
    omega
  rw [hwhole, hlen] at hseed
  rw [messageDigest, messageDigestOf, ← hseed, mgf1XCached_eq, mgf1256_eq]
  · rfl
  · rw [List.length_append, List.length_append, hR, Vector.length_toList,
      Vector.length_toList]
    decide
  · decide

theorem write_halves (v : Vector UInt8 64) (a b : Vector UInt8 32) :
    write (write v 0 a) 32 b = a ++ b :=
  (write_append v 0 a b).symm.trans (write_full v (a ++ b))

variable (compress)

theorem slhDsaDerandomizeUnburned_eq
    (compress512 : Vector UInt64 8 → Vector UInt8 128 → Vector UInt64 8)
    (inbuf : Vector UInt8 64) (seed : Vector UInt8 64) {m : Option (List UInt8)} {mlen : ℕ}
    (hm : m = none → mlen = 0) (hlen : mlen < 2 ^ 61 - 128) (sk : List UInt8)
    (T : ThreadState) :
    let h := sha256Of compress ((bytesAt 64 sk).toList ++ (m.getD []).take mlen)
    slhDsaDerandomizeUnburned (sha2HashFns compress compress512 inbuf) (some seed) m mlen
        (some sk) T =
      (some (h ++ sha256Of compress (h.toList ++ [1])), T) := by
  intro h
  have hnot : ¬ (m.isNone ∧ mlen ≠ 0) := by
    rintro ⟨hnone, hsize⟩
    exact hsize (hm (Option.isNone_iff_eq_none.mp hnone))
  have hmessage : (m.getD [0]).take mlen = (m.getD []).take mlen := by
    cases m with
    | none => rw [hm rfl, List.take_zero, List.take_zero]
    | some m => rfl
  have hsk : (bytesAt 64 sk).toList.length = 64 := Vector.length_toList
  have hdigest : (sha2HashFns compress compress512 inbuf).sha256Inc (bytesAt 64 sk)
      ((m.getD []).take mlen) = h := by
    change sha256IncFinalize compress _ _ = h
    rw [sha256IncFinalize_blocks _ (Nat.le_of_eq hsk.symm), List.take_of_length_le
      (Nat.le_of_eq hsk)]
    apply sha256_eq
    rw [List.length_append, hsk, List.length_take]
    omega
  have hsecond : (sha2HashFns compress compress512 inbuf).sha256 (h.toList ++ [1]) =
      sha256Of compress (h.toList ++ [1]) := by
    apply sha256_eq
    rw [List.length_append, Vector.length_toList]
    decide
  rw [slhDsaDerandomizeUnburned, if_neg hnot]
  dsimp only
  rw [hmessage, hdigest, hsecond, write_halves]

/-!
## The split
-/

/-- The tree index: 24 bits, most significant byte first. -/
def digestTree (d : DigestBytes) : ℕ :=
  (d.getD 16 0).toNat * 65536 + (d.getD 17 0).toNat * 256 + (d.getD 18 0).toNat

/-- The leaf index: the low six bits of the last byte. -/
def digestLeaf (d : DigestBytes) : ℕ := (d.getD 19 0).toNat % 64

variable {compress} in
theorem hashMessage_eq {H : HashFns} {R : Block} {pk : Vector UInt8 32} {m : List UInt8}
    {d : DigestBytes} (hd : H.messageDigest R pk m = d) :
    hashMessage H R pk m = (slice d 0 16, digestTree d, digestLeaf d) := by
  have hbyte (v : Vector UInt8 1) : bytesToUll v = (v.getD 0 0).toNat := by
    obtain ⟨w, x, rfl⟩ := (Vector.exists_push :
      ∃ (w : Vector UInt8 0) (x : UInt8), v = w.push x)
    rw [bytesToUll_push, (Vector.eq_empty : w = #v[])]
    exact Nat.zero_add _
  have hhead (o : ℕ) : (slice d o 1).getD 0 0 = d.getD o 0 := by
    simp [slice, Vector.getD]
    rfl
  have htree : bytesToUll (slice d 16 3) = digestTree d := by
    have hpush : slice d 16 3 =
        ((slice d 16 1).push (d.getD 17 0)).push (d.getD 18 0) := by
      apply Vector.ext
      intro i hi
      obtain rfl | rfl | rfl : i = 0 ∨ i = 1 ∨ i = 2 := by omega
      · simp [slice]
      · simp [slice, Vector.getD]
      · simp [slice, Vector.getD]
    rw [hpush, bytesToUll_push, bytesToUll_push, hbyte, hhead, digestTree]
    omega
  have hleaf : bytesToUll (slice d 19 1) = (d.getD 19 0).toNat := by
    rw [hbyte, hhead]
  have htreeLt : digestTree d < 2 ^ 24 := by
    have h16 := (d.getD 16 0).toNat_lt
    have h17 := (d.getD 17 0).toNat_lt
    have h18 := (d.getD 18 0).toNat_lt
    rw [digestTree]
    omega
  have htreeMask : digestTree d &&& (2 ^ 64 - 1) >>> (64 - spxTreeBits) = digestTree d :=
    (Nat.and_two_pow_sub_one_eq_mod _ 24).trans (Nat.mod_eq_of_lt htreeLt)
  have hleafMask : (d.getD 19 0).toNat &&& (2 ^ 32 - 1) >>> (32 - spxLeafBits) = digestLeaf d :=
    Nat.and_two_pow_sub_one_eq_mod _ 6
  rw [← htree] at htreeMask
  rw [← hleaf] at hleafMask
  rw [hashMessage, hd, ← htree]
  exact Prod.ext rfl (Prod.ext htreeMask hleafMask)

/-!
## The result
-/

/-- For every compression function and every message the library hashes messages as
defined: the digest, tree and leaf of `hash_message`, the salt of `gen_message_random` and
the seed of `slh_dsa_derandomize`. MGF1 with a cached chaining value is MGF1 on every input
and for every output length. -/
theorem messageHashing (compress512 : Vector UInt64 8 → Vector UInt8 128 → Vector UInt64 8)
    (inbuf : Vector UInt8 64) (m : List UInt8) (hm : m.length < 2 ^ 61 - 128) :
    (∀ (R : Block) (pk : Vector UInt8 32),
      let d := messageDigestOf compress R (slice pk 0 16) (slice pk 16 16) m
      hashMessage (sha2HashFns compress compress512 inbuf) R pk m =
        (slice d 0 16, digestTree d, digestLeaf d)) ∧
    (∀ skPrf optrand : Block,
      (sha2HashFns compress compress512 inbuf).genMessageRandom skPrf optrand m =
        slice (hmacOf compress skPrf (optrand.toList ++ m)) 0 16) ∧
    (∀ (seed : Vector UInt8 64) (sk : List UInt8) (T : ThreadState),
      let h := sha256Of compress ((bytesAt 64 sk).toList ++ m)
      slhDsaDerandomize (sha2HashFns compress compress512 inbuf) (some seed) (some m) m.length
          (some sk) T =
        (some (h ++ sha256Of compress (h.toList ++ [1])), T)) ∧
    ∀ (outlen : ℕ) (x : List UInt8), (outlen + 31) / 32 < 2 ^ 32 →
      mgf1XCached compress outlen x = mgf1256 compress outlen x := by
  refine ⟨fun R pk => ?_, fun skPrf optrand => ?_, fun seed sk T => ?_, fun outlen x _ => ?_⟩
  · exact hashMessage_eq (messageDigest_eq inbuf R pk hm)
  · exact genMessageRandom_eq skPrf optrand hm
  · have hseed := slhDsaDerandomizeUnburned_eq compress compress512 inbuf seed
      (m := some m) (fun h => by cases h) hm sk T
    rw [Option.getD_some, List.take_length] at hseed
    exact hseed
  · exact mgf1XCached_eq outlen x

/-- The message `abc`, whose salt is computed on the way through the short buffer. -/
theorem messageHashing_abc :
    (sha2HashFns sha256Compress sha512Compress (Vector.replicate 64 7)).genMessageRandom
        (Vector.replicate 16 1) (Vector.replicate 16 2) [0x61, 0x62, 0x63] =
      slice (hmacOf sha256Compress (Vector.replicate 16 1)
        (List.replicate 16 2 ++ [0x61, 0x62, 0x63])) 0 16 :=
  (messageHashing sha256Compress sha512Compress (Vector.replicate 64 7) [0x61, 0x62, 0x63]
    (by decide)).2.1 (Vector.replicate 16 1) (Vector.replicate 16 2)

end BitcoinPqc
