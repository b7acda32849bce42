import BitcoinPqc.Correctness.Sha256x8

/-!
# The hash functions for eight lanes compute the scalar ones

The scalar functions count the bytes that the seeded state has absorbed; the functions for
eight lanes pass the number of bits, 512. The two agree on the states that `seed_state`
makes, so on every context that `initialize_hash_function` returns each lane of `thashx8` and
of `prf_addrx8` is `thash` and `prf_addr` on the address and the input of that lane, whatever
the local buffers held. `mgf1x8` is `mgf1_256` in each lane, for every output length.
-/

namespace BitcoinPqc

variable (U : X8Locals)

/-!
## SHA-256
-/

/-- Each lane of `sha256x8` computes SHA-256, and each lane of `sha256x8_seeded` computes it
for the blocks that the seed has absorbed followed by the input of that lane. -/
theorem sha256x8_isSha256 (x : List UInt8) {n : ℕ} (hn : 64 * n ≤ x.length)
    {inp : Lanes (List UInt8)} {inlen : ℕ} (hinp : ∀ j, inlen ≤ (inp j).length)
    (hlen : 64 * n + inlen < 2 ^ 61) :
    (sha256x8 U inp inlen = fun j => sha256Of sha256Compress ((inp j).take inlen)) ∧
      sha256x8Seeded U (sha256IncBlocks sha256Compress sha256IncInit x n) (512 * n) inp inlen =
        fun j => sha256Of sha256Compress (x.take (64 * n) ++ (inp j).take inlen) := by
  have hcount : bytesToUll (slice (sha256IncBlocks sha256Compress sha256IncInit x n) 32 8) =
      64 * n := by
    have hzero : bytesToUll (slice sha256IncInit 32 8) = 0 := by decide
    rw [sha256IncBlocks, slice_write_self _ _ _ (by decide), bytesToUll_ullToBytes, hzero]
    omega
  have hinput (j : Fin 8) : ((inp j).take inlen).length = inlen := by
    rw [List.length_take, Nat.min_eq_left (hinp j)]
  constructor
  · funext j
    rw [sha256x8_eq U inp j hinp, sha256_eq (by rw [hinput]; omega)]
  · funext j
    rw [sha256x8Seeded_eq U inp j hinp _ (by rw [hcount]; omega), sha256IncFinalize_blocks _ hn]
    refine sha256_eq ?_
    rw [List.length_append, hinput, List.length_take, Nat.min_eq_left hn]
    exact hlen

/-- Other bytes in each lane. -/
def laneBytes (len : ℕ) : Lanes (List UInt8) := fun j =>
  (List.range len).map fun i => UInt8.ofNat (j.val * len + i)

theorem length_laneBytes (len : ℕ) (j : Fin 8) : (laneBytes len j).length = len := by
  rw [laneBytes, List.length_map, List.length_range]

/-- A block of zeros has been absorbed, and each lane has seventy bytes of its own. -/
theorem sha256x8_isSha256_laneBytes :
    (sha256x8 default (laneBytes 70) 70 =
        fun j => sha256Of sha256Compress ((laneBytes 70 j).take 70)) ∧
      sha256x8Seeded default
        (sha256IncBlocks sha256Compress sha256IncInit (List.replicate 64 0) 1) 512
        (laneBytes 70) 70 =
          fun j => sha256Of sha256Compress
            ((List.replicate 64 0).take 64 ++ (laneBytes 70 j).take 70) :=
  sha256x8_isSha256 default (List.replicate 64 0) (n := 1) (by decide)
    (fun j => (length_laneBytes 70 j).ge) (by decide)

/-!
## Parts of a buffer
-/

section Parts

variable {n size len : ℕ} (buf : Vector UInt8 n) (j : Fin 8)

theorem take_partsOf (hlen : len ≤ size) (hn : 8 * size ≤ n) :
    (partsOf buf size j).take len = (slice buf (j.val * size) len).toList := by
  have hj : (j.val + 1) * size ≤ 8 * size := Nat.mul_le_mul_right size j.isLt
  rw [Nat.succ_mul] at hj
  rw [partsOf, toList_slice _ _ _ (by omega)]

theorem le_length_partsOf (hn : 8 * size ≤ n) : size ≤ (partsOf buf size j).length := by
  have hj : (j.val + 1) * size ≤ 8 * size := Nat.mul_le_mul_right size j.isLt
  rw [Nat.succ_mul] at hj
  rw [partsOf, List.length_drop, Vector.length_toList]
  omega

theorem toList_slice_twoParts {a b : ℕ} (x : Lanes (Vector UInt8 a)) (y : Lanes (Vector UInt8 b))
    (hn : 8 * (a + b) ≤ n) :
    (slice (writeParts (writeParts buf (a + b) 0 x) (a + b) a y) (j.val * (a + b))
      (a + b)).toList = (x j).toList ++ (y j).toList := by
  have hj : (j.val + 1) * (a + b) ≤ 8 * (a + b) := Nat.mul_le_mul_right _ j.isLt
  rw [Nat.succ_mul] at hj
  rw [toList_slice_add _ _ rfl (by omega), slice_writeParts _ y j (Nat.le_refl _) hn,
    slice_writeParts_front _ y j (Nat.le_refl _) (Nat.le_refl a),
    slice_writeParts_zero _ x j (Nat.le_add_right a b) hn]

end Parts

/-- The state that absorbed the public seed counts one block. -/
theorem bytesToUll_seedState (compress : Vector UInt32 8 → Vector UInt8 64 → Vector UInt32 8)
    (pubSeed : Block) : bytesToUll (slice (seedState compress pubSeed) 32 8) = 64 := by
  have hcount : bytesToUll (slice sha256IncInit 32 8) = 0 := by decide
  rw [seedState, sha256IncBlocks, slice_write_self _ _ _ (by decide), bytesToUll_ullToBytes,
    hcount]
  rfl

theorem length_flatten_blocks (input : List Block) :
    (input.map Vector.toList).flatten.length = input.length * spxN := by
  induction input with
  | nil => rw [List.map_nil, List.flatten_nil, List.length_nil, List.length_nil, Nat.zero_mul]
  | cons b input ih =>
      rw [List.map_cons, List.flatten_cons, List.length_append, ih, Vector.length_toList,
        List.length_cons, Nat.succ_mul, Nat.add_comm]

/-!
## Tweakable hash and PRF
-/

section Seeded

variable {pubSeed : Block} (addrx8 : Lanes AddrBytes) (j : Fin 8)

theorem sha256x8Seeded_parts {compress : Vector UInt32 8 → Vector UInt8 64 → Vector UInt32 8}
    {n size : ℕ} (buf : Vector UInt8 n) (hn : 8 * size ≤ n) {x : List UInt8}
    (hx : (slice buf (j.val * size) size).toList = x) :
    sha256x8Seeded U (seedState compress pubSeed) 512 (partsOf buf size) size j =
      sha256IncFinalize sha256Compress (seedState compress pubSeed) x := by
  rw [sha256x8Seeded_eq U _ j (fun j => le_length_partsOf buf j hn) _
    (by rw [bytesToUll_seedState]), take_partsOf buf j (Nat.le_refl size) hn, hx]

theorem thashx8Sha2_eq (compress : Vector UInt32 8 → Vector UInt8 64 → Vector UInt32 8)
    {inblocks : ℕ} (bufx8 : Vector UInt8 (8 * (22 + inblocks * 16)))
    {input : Lanes (List Block)} (hinput : ∀ j, (input j).length = inblocks) :
    thashx8Sha2 U inblocks bufx8 (seedState compress pubSeed) addrx8
        (fun j => ((input j).map Vector.toList).flatten) j =
      thashSha2 sha256Compress (seedState compress pubSeed) (addrx8 j) (input j) := by
  have hlen : inblocks * spxN = ((input j).map Vector.toList).flatten.length := by
    rw [length_flatten_blocks, hinput]
  have hpart := toList_slice_twoParts bufx8 j addrx8
    (fun j => bytesAt (inblocks * spxN) ((input j).map Vector.toList).flatten) (Nat.le_refl _)
  rw [toList_bytesAt (Nat.le_of_eq hlen), List.take_of_length_le (Nat.le_of_eq hlen.symm)] at hpart
  rw [thashx8Sha2, thashSha2]
  exact congrArg (fun x => slice x 0 spxN)
    (sha256x8Seeded_parts U j _ (Nat.le_refl _) hpart)

theorem prfAddrx8Sha2_eq (compress : Vector UInt32 8 → Vector UInt8 64 → Vector UInt32 8)
    (bufx8 : Vector UInt8 (8 * (16 + 22))) (skSeed : Block) :
    prfAddrx8Sha2 U bufx8 (seedState compress pubSeed) addrx8 skSeed j =
      prfAddrSha2 sha256Compress (seedState compress pubSeed) (addrx8 j) skSeed := by
  have hpart : (slice ((List.range 8).foldl (fun b i => write (write b (i * (spxN + 22))
      (addrx8 (laneIdx i))) (i * (spxN + 22) + 22) skSeed) bufx8) (j.val * (spxN + 22))
        (spxN + 22)).toList = (addrx8 j).toList ++ skSeed.toList := by
    simp only [← write_append]
    exact (congrArg Vector.toList (slice_writeParts_zero bufx8 (fun j => addrx8 j ++ skSeed) j
      (Nat.le_refl _) (Nat.le_refl _))).trans Vector.toList_append
  rw [prfAddrx8Sha2, prfAddrSha2]
  exact congrArg (fun x => slice x 0 spxN)
    (sha256x8Seeded_parts U j _ (Nat.le_refl _) hpart)

end Seeded

theorem initializeHashFunction_skSeed (H : HashFns) (c : SpxCtx) :
    (initializeHashFunction H c).skSeed = c.skSeed := rfl

/-- On every context that `initialize_hash_function` returns, and for inputs with the same
number of blocks, the functions for eight lanes of the vector code compute `thash` and
`prf_addr` in each lane. -/
theorem hashx8_lanes (compress512 : Vector UInt64 8 → Vector UInt8 128 → Vector UInt64 8)
    (inbuf : Vector UInt8 64) (c : SpxCtx) (addrx8 : Lanes Addr) {inblocks : ℕ}
    (input : Lanes (List Block)) (hinput : ∀ j, (input j).length = inblocks)
    (bufThash : Vector UInt8 (8 * (22 + inblocks * 16)))
    (bufPrf : Vector UInt8 (8 * (16 + 22))) :
    thashx8Sha2 U inblocks bufThash
        (initializeHashFunction (sha2HashFns sha256Compress compress512 inbuf) c).stateSeeded
        (fun j => adrs (addrx8 j)) (fun j => ((input j).map Vector.toList).flatten) =
        (fun j => (thash (sha2HashFns sha256Compress compress512 inbuf) (input j)
          (initializeHashFunction (sha2HashFns sha256Compress compress512 inbuf) c)
          (addrx8 j)).val) ∧
      prfAddrx8Sha2 U bufPrf
        (initializeHashFunction (sha2HashFns sha256Compress compress512 inbuf) c).stateSeeded
        (fun j => adrs (addrx8 j)) c.skSeed =
        fun j => (prfAddr (sha2HashFns sha256Compress compress512 inbuf)
          (initializeHashFunction (sha2HashFns sha256Compress compress512 inbuf) c)
          (addrx8 j)).val := by
  have hstate : (initializeHashFunction (sha2HashFns sha256Compress compress512 inbuf)
      c).stateSeeded = seedState sha256Compress c.pubSeed := rfl
  constructor
  · funext j
    rw [thash, Traced.val_ask, hstate]
    exact thashx8Sha2_eq U (fun j => adrs (addrx8 j)) j sha256Compress bufThash hinput
  · funext j
    rw [prfAddr, Traced.val_ask, hstate, initializeHashFunction_skSeed]
    exact prfAddrx8Sha2_eq U (fun j => adrs (addrx8 j)) j sha256Compress bufPrf c.skSeed

/-- An address and two blocks of its own in each lane. -/
theorem hashx8_lanes_laneBytes :
    let H := sha2HashFns sha256Compress sha512Compress default
    let c := initializeHashFunction H
      ⟨Vector.replicate 16 1, Vector.replicate 16 2, Vector.replicate 40 0⟩
    let addrx8 : Lanes Addr := fun j => addrOf 0 0 0 0 0 j.val
    let input : Lanes (List Block) := fun j =>
      [bytesAt 16 (laneBytes 32 j), bytesAt 16 ((laneBytes 32 j).drop 16)]
    thashx8Sha2 default 2 default c.stateSeeded (fun j => adrs (addrx8 j))
        (fun j => ((input j).map Vector.toList).flatten) =
        (fun j => (thash H (input j) c (addrx8 j)).val) ∧
      prfAddrx8Sha2 default default c.stateSeeded (fun j => adrs (addrx8 j))
          (Vector.replicate 16 2) =
        fun j => (prfAddr H c (addrx8 j)).val :=
  hashx8_lanes default sha512Compress default
    ⟨Vector.replicate 16 1, Vector.replicate 16 2, Vector.replicate 40 0⟩
    (fun j => addrOf 0 0 0 0 0 j.val)
    (fun j => [bytesAt 16 (laneBytes 32 j), bytesAt 16 ((laneBytes 32 j).drop 16)])
    (fun _ => rfl) default default

/-!
## MGF1
-/

section Mgf1

variable {inlen : ℕ} {x : Lanes (List UInt8)} {n : ℕ} {inbufx8 : Vector UInt8 n}
  (hn : 8 * (inlen + 4) ≤ n)
  (hin : ∀ j : Fin 8, (slice inbufx8 (j.val * (inlen + 4)) inlen).toList = x j) (j : Fin 8)
include hn hin

theorem mgf1x8Digests_spec (i : ℕ) :
    (slice (mgf1x8Digests U inbufx8 inlen i).1 (j.val * (inlen + 4)) inlen).toList = x j ∧
      (mgf1x8Digests U inbufx8 inlen i).2 j =
        sha256 sha256Compress (x j ++ (u32ToBytes (i % 2 ^ 32)).toList) := by
  have hj : (j.val + 1) * (inlen + 4) ≤ 8 * (inlen + 4) := Nat.mul_le_mul_right _ j.isLt
  rw [Nat.succ_mul] at hj
  have hkeep : (slice (mgf1x8Digests U inbufx8 inlen i).1 (j.val * (inlen + 4)) inlen).toList =
      x j := by
    rw [mgf1x8Digests]
    dsimp only
    rw [slice_writeParts_front _ _ j (Nat.le_refl _) (Nat.le_refl inlen), hin]
  refine ⟨hkeep, ?_⟩
  rw [mgf1x8Digests] at hkeep ⊢
  dsimp only at hkeep ⊢
  rw [sha256x8_eq U _ j fun j => le_length_partsOf _ j hn, take_partsOf _ j (Nat.le_refl _) hn,
    toList_slice_add _ _ rfl (by omega), hkeep, slice_writeParts _ _ j (Nat.le_refl _) hn]

/-- The rest of the output of a lane from the counter `i` on. -/
theorem mgf1x8Loop_eq {outlen i : ℕ} (hi : i * 32 ≤ outlen) {m : ℕ} (outx8 : Vector UInt8 m)
    (hm : 8 * outlen ≤ m) :
    (slice (mgf1x8Loop U outlen inlen i inbufx8 outx8) (j.val * outlen) outlen).toList =
      (slice outx8 (j.val * outlen) (i * 32)).toList ++
        mgf1Loop (fun i => sha256 sha256Compress (x j ++ (u32ToBytes (i % 2 ^ 32)).toList))
          outlen i := by
  have hj : (j.val + 1) * outlen ≤ 8 * outlen := Nat.mul_le_mul_right _ j.isLt
  rw [Nat.succ_mul] at hj
  induction hk : outlen - i * 32 using Nat.strongRecOn generalizing i inbufx8 outx8 with
  | ind k ih =>
      have hpass (j : Fin 8) := mgf1x8Digests_spec U hn hin j i
      rw [mgf1x8Loop, mgf1Loop]
      by_cases hle : (i + 1) * 32 ≤ outlen
      · rw [if_pos hle, if_pos hle, ih (outlen - (i + 1) * 32) (by omega)
          (fun j => (hpass j).1) hle _ rfl,
          toList_slice_add _ _ (show i * 32 + 32 = (i + 1) * 32 by omega) (by omega),
          slice_writeParts_front _ _ j (by omega) (Nat.le_refl _),
          slice_writeParts _ _ j (by omega) hm, (hpass j).2, List.append_assoc]
      · have hlast : (slice (sha256 sha256Compress (x j ++ (u32ToBytes (i % 2 ^ 32)).toList)) 0
            (outlen - i * 32)).toList =
            if outlen > i * 32 then (sha256 sha256Compress
              (x j ++ (u32ToBytes (i % 2 ^ 32)).toList)).toList.take (outlen - i * 32) else [] := by
          rw [toList_slice _ _ _ (by omega), List.drop_zero]
          split
          · rfl
          · rw [show outlen - i * 32 = 0 by omega, List.take_zero]
        rw [if_neg hle, if_neg hle,
          toList_slice_add _ _ (show i * 32 + (outlen - i * 32) = outlen by omega) (by omega),
          slice_writeParts_front _ _ j (by omega) (Nat.le_refl _),
          slice_writeParts _ _ j (by omega) hm, (hpass j).2, hlast]

end Mgf1

/-- `mgf1x8` is `mgf1_256` in each lane, for every length of the inputs and of the output and
whatever the buffers held. -/
theorem mgf1x8_eq_mgf1256 (outlen inlen : ℕ) (inbufx8 : Vector UInt8 (8 * (inlen + 4)))
    (outx8 : Vector UInt8 (8 * outlen)) (inp : Lanes (List UInt8))
    (hinp : ∀ j, inlen ≤ (inp j).length) (j : Fin 8) :
    (slice (mgf1x8 U outlen inlen inbufx8 outx8 inp) (j.val * outlen) outlen).toList =
      mgf1256 sha256Compress outlen ((inp j).take inlen) := by
  have hlen (j : Fin 8) : ((inp j).take inlen).length = inlen := by
    rw [List.length_take, Nat.min_eq_left (hinp j)]
  have hin (j : Fin 8) : (slice (writeParts inbufx8 (inlen + 4) 0 fun j =>
      bytesAt inlen (inp j)) (j.val * (inlen + 4)) inlen).toList = (inp j).take inlen := by
    rw [slice_writeParts_zero _ _ j (by omega) (Nat.le_refl _), toList_bytesAt (hinp j)]
  have hloop := mgf1x8Loop_eq U (x := fun j => (inp j).take inlen) (Nat.le_refl _) hin j
    (i := 0) (Nat.zero_le _) outx8 (Nat.le_refl _)
  rw [mgf1x8, mgf1256]
  exact hloop

/-- Forty bytes of output for twenty bytes in each lane. -/
theorem mgf1x8_eq_mgf1256_laneBytes :
    (fun j : Fin 8 => (slice (mgf1x8 default 40 20 default default (laneBytes 20)) (j.val * 40)
        40).toList) = fun j => mgf1256 sha256Compress 40 ((laneBytes 20 j).take 20) :=
  funext fun j => mgf1x8_eq_mgf1256 default 40 20 default default (laneBytes 20)
    (fun j => (length_laneBytes 20 j).ge) j

end BitcoinPqc
