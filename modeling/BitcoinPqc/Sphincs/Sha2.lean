import BitcoinPqc.Foundation.BlockHash
import BitcoinPqc.Foundation.Bytes
import BitcoinPqc.Foundation.Traced

/-!
# SHA-2

The code of `sha2.c`. SHA-256 and SHA-512 differ in the word size, the rotations and the
round constants, so the rounds and the loop over the blocks are stated once. A run of the
loop records the blocks that it compresses. The incremental functions keep the chaining
value and a big-endian counter of the absorbed bytes in one buffer.

The scalar functions use the compression functions of the code. The functions above them
take the compression function as a parameter, because the library chooses it at run time.
-/

namespace BitcoinPqc

/-!
## Rounds
-/

section Rounds

variable {W : Type} [Add W] [AndOp W] [XorOp W] [Complement W]

/-- `Ch`. -/
def ch (x y z : W) : W := (x &&& y) ^^^ (~~~x &&& z)

/-- `Maj`. -/
def maj (x y z : W) : W := (x &&& y) ^^^ (x &&& z) ^^^ (y &&& z)

/-- The four functions built from rotations and shifts. -/
structure Sigmas (W : Type) where
  bigSigma0 : W → W
  bigSigma1 : W → W
  sigma0 : W → W
  sigma1 : W → W

variable [Inhabited W] (S : Sigmas W)

/-- `F_32` and `F_64`, on the variables `a` to `h`. -/
def sha2Round (v : Vector W 8) (w k : W) : Vector W 8 :=
  let a := v.getD 0 default
  let b := v.getD 1 default
  let c := v.getD 2 default
  let d := v.getD 3 default
  let e := v.getD 4 default
  let f := v.getD 5 default
  let g := v.getD 6 default
  let h := v.getD 7 default
  let t1 := ((h + S.bigSigma1 e) + (ch e f g + k)) + w
  let t2 := S.bigSigma0 a + maj a b c
  #v[t1 + t2, a, b, c, d + t1, e, f, g]

/-- `M_32` and `M_64`, on the word with number `i`. -/
def sha2Schedule (w : Vector W 16) (i : ℕ) : Vector W 16 :=
  let word (j : ℕ) := w.getD ((i + j) % 16) default
  w.setIfInBounds i ((S.sigma1 (word 14) + word 9) + (S.sigma0 (word 1) + word 0))

/-- `EXPAND_32` and `EXPAND_64`, on the variables `w0` to `w15`. -/
def sha2Expand (w : Vector W 16) : Vector W 16 := (List.range 16).foldl (sha2Schedule S) w

/-- Sixteen rounds. -/
def sha2Rounds (k w : Vector W 16) (v : Vector W 8) : Vector W 8 :=
  (List.range 16).foldl (fun v i => sha2Round S v (w.getD i default) (k.getD i default)) v

/-- The rounds of a block, sixteen at a time, with the words expanded in between. -/
def sha2Groups : List (Vector W 16) → Vector W 16 → Vector W 8 → Vector W 8
  | [], _, v => v
  | k :: ks, w, v => sha2Groups ks (sha2Expand S w) (sha2Rounds S k w v)

/-- One pass through the loop over the blocks. -/
def sha2Compress (ks : List (Vector W 16)) (state : Vector W 8) (w : Vector W 16) :
    Vector W 8 :=
  let v := sha2Groups S ks w state
  Vector.ofFn fun i => v[i] + state[i]

end Rounds

/-- `ROTR_32`. -/
def rotr32 (x c : UInt32) : UInt32 := (x >>> c) ||| ((x &&& ((1 <<< c) - 1)) <<< (32 - c))

/-- `ROTR_64`. -/
def rotr64 (x c : UInt64) : UInt64 := (x >>> c) ||| ((x &&& ((1 <<< c) - 1)) <<< (64 - c))

/-- `Sigma0_32`, `Sigma1_32`, `sigma0_32` and `sigma1_32`. -/
def sigmas32 : Sigmas UInt32 where
  bigSigma0 x := rotr32 x 2 ^^^ rotr32 x 13 ^^^ rotr32 x 22
  bigSigma1 x := rotr32 x 6 ^^^ rotr32 x 11 ^^^ rotr32 x 25
  sigma0 x := rotr32 x 7 ^^^ rotr32 x 18 ^^^ (x >>> 3)
  sigma1 x := rotr32 x 17 ^^^ rotr32 x 19 ^^^ (x >>> 10)

/-- `Sigma0_64`, `Sigma1_64`, `sigma0_64` and `sigma1_64`. -/
def sigmas64 : Sigmas UInt64 where
  bigSigma0 x := rotr64 x 28 ^^^ rotr64 x 34 ^^^ rotr64 x 39
  bigSigma1 x := rotr64 x 14 ^^^ rotr64 x 18 ^^^ rotr64 x 41
  sigma0 x := rotr64 x 1 ^^^ rotr64 x 8 ^^^ (x >>> 7)
  sigma1 x := rotr64 x 19 ^^^ rotr64 x 61 ^^^ (x >>> 6)

/-- The constants of `crypto_hashblocks_sha256_ref`. -/
def roundConstants32 : List (Vector UInt32 16) :=
  [#v[0x428a2f98, 0x71374491, 0xb5c0fbcf, 0xe9b5dba5, 0x3956c25b, 0x59f111f1,
     0x923f82a4, 0xab1c5ed5, 0xd807aa98, 0x12835b01, 0x243185be, 0x550c7dc3,
     0x72be5d74, 0x80deb1fe, 0x9bdc06a7, 0xc19bf174],
   #v[0xe49b69c1, 0xefbe4786, 0x0fc19dc6, 0x240ca1cc, 0x2de92c6f, 0x4a7484aa,
     0x5cb0a9dc, 0x76f988da, 0x983e5152, 0xa831c66d, 0xb00327c8, 0xbf597fc7,
     0xc6e00bf3, 0xd5a79147, 0x06ca6351, 0x14292967],
   #v[0x27b70a85, 0x2e1b2138, 0x4d2c6dfc, 0x53380d13, 0x650a7354, 0x766a0abb,
     0x81c2c92e, 0x92722c85, 0xa2bfe8a1, 0xa81a664b, 0xc24b8b70, 0xc76c51a3,
     0xd192e819, 0xd6990624, 0xf40e3585, 0x106aa070],
   #v[0x19a4c116, 0x1e376c08, 0x2748774c, 0x34b0bcb5, 0x391c0cb3, 0x4ed8aa4a,
     0x5b9cca4f, 0x682e6ff3, 0x748f82ee, 0x78a5636f, 0x84c87814, 0x8cc70208,
     0x90befffa, 0xa4506ceb, 0xbef9a3f7, 0xc67178f2]]

/-- The constants of `crypto_hashblocks_sha512_ref`. -/
def roundConstants64 : List (Vector UInt64 16) :=
  [#v[0x428a2f98d728ae22, 0x7137449123ef65cd, 0xb5c0fbcfec4d3b2f, 0xe9b5dba58189dbbc,
     0x3956c25bf348b538, 0x59f111f1b605d019, 0x923f82a4af194f9b, 0xab1c5ed5da6d8118,
     0xd807aa98a3030242, 0x12835b0145706fbe, 0x243185be4ee4b28c, 0x550c7dc3d5ffb4e2,
     0x72be5d74f27b896f, 0x80deb1fe3b1696b1, 0x9bdc06a725c71235, 0xc19bf174cf692694],
   #v[0xe49b69c19ef14ad2, 0xefbe4786384f25e3, 0x0fc19dc68b8cd5b5, 0x240ca1cc77ac9c65,
     0x2de92c6f592b0275, 0x4a7484aa6ea6e483, 0x5cb0a9dcbd41fbd4, 0x76f988da831153b5,
     0x983e5152ee66dfab, 0xa831c66d2db43210, 0xb00327c898fb213f, 0xbf597fc7beef0ee4,
     0xc6e00bf33da88fc2, 0xd5a79147930aa725, 0x06ca6351e003826f, 0x142929670a0e6e70],
   #v[0x27b70a8546d22ffc, 0x2e1b21385c26c926, 0x4d2c6dfc5ac42aed, 0x53380d139d95b3df,
     0x650a73548baf63de, 0x766a0abb3c77b2a8, 0x81c2c92e47edaee6, 0x92722c851482353b,
     0xa2bfe8a14cf10364, 0xa81a664bbc423001, 0xc24b8b70d0f89791, 0xc76c51a30654be30,
     0xd192e819d6ef5218, 0xd69906245565a910, 0xf40e35855771202a, 0x106aa07032bbd1b8],
   #v[0x19a4c116b8d2d0c8, 0x1e376c085141ab53, 0x2748774cdf8eeb99, 0x34b0bcb5e19b48a8,
     0x391c0cb3c5c95a63, 0x4ed8aa4ae3418acb, 0x5b9cca4f7763e373, 0x682e6ff3d6b2b8a3,
     0x748f82ee5defb2fc, 0x78a5636f43172f60, 0x84c87814a1f0ab72, 0x8cc702081a6439ec,
     0x90befffa23631e28, 0xa4506cebde82bde9, 0xbef9a3f7b2c67915, 0xc67178f2e372532b],
   #v[0xca273eceea26619c, 0xd186b8c721c0c207, 0xeada7dd6cde0eb1e, 0xf57d4f7fee6ed178,
     0x06f067aa72176fba, 0x0a637dc5a2c898a6, 0x113f9804bef90dae, 0x1b710b35131c471b,
     0x28db77f523047d84, 0x32caab7b40c72493, 0x3c9ebe0a15c9bebc, 0x431d67c49c100d4c,
     0x4cc5d4becb3e42b6, 0x597f299cfc657e2a, 0x5fcb6fab3ad6faec, 0x6c44198c4a475817]]

/-!
## Words and bytes
-/

/-- `load_bigendian_32`. -/
def loadBigendian32 (x : Vector UInt8 4) : UInt32 := UInt32.ofNat (bytesToUll x)

/-- `store_bigendian_32`. -/
def storeBigendian32 (u : UInt32) : Vector UInt8 4 := ullToBytes 4 u.toNat

/-- `load_bigendian_64`. -/
def loadBigendian64 (x : Vector UInt8 8) : UInt64 := UInt64.ofNat (bytesToUll x)

/-- `store_bigendian_64`. -/
def storeBigendian64 (u : UInt64) : Vector UInt8 8 := ullToBytes 8 u.toNat

/-- Consecutive 32-bit words. -/
def loadWords32 {n : ℕ} (count : ℕ) (x : Vector UInt8 n) : Vector UInt32 count :=
  Vector.ofFn fun i => loadBigendian32 (slice x (4 * i.val) 4)

/-- The bytes of eight 32-bit words. -/
def storeWords32 (v : Vector UInt32 8) : Vector UInt8 32 :=
  (List.range 8).foldl (fun x i => write x (4 * i) (storeBigendian32 (v.getD i 0)))
    (Vector.replicate 32 0)

/-- Consecutive 64-bit words. -/
def loadWords64 {n : ℕ} (count : ℕ) (x : Vector UInt8 n) : Vector UInt64 count :=
  Vector.ofFn fun i => loadBigendian64 (slice x (8 * i.val) 8)

/-- The bytes of eight 64-bit words. -/
def storeWords64 (v : Vector UInt64 8) : Vector UInt8 64 :=
  (List.range 8).foldl (fun x i => write x (8 * i) (storeBigendian64 (v.getD i 0)))
    (Vector.replicate 64 0)

/-!
## The loop over the blocks
-/

section Blocks

variable {σ : Type} {b n : ℕ}

/-- The loop of the `crypto_hashblocks_*_ref` functions. It compresses whole blocks while
there are any, and returns what it left over. -/
def hashblocksLoop (hb : 0 < b) (compress : σ → Vector UInt8 b → σ) (state : σ)
    (inp : List UInt8) : Traced (Vector UInt8 b) (σ × List UInt8) :=
  if b ≤ inp.length then do
    let state ← Traced.ask (headBlock b inp) (compress state (headBlock b inp))
    hashblocksLoop hb compress state (inp.drop b)
  else pure (state, inp)
termination_by inp.length
decreasing_by
  rw [List.length_drop]
  omega

/-- The `crypto_hashblocks_*` functions: the state bytes after the whole blocks, and the
number of bytes left over. -/
def hashblocks (hb : 0 < b) (load : Vector UInt8 n → σ) (store : σ → Vector UInt8 n)
    (compress : σ → Vector UInt8 b → σ) (statebytes : Vector UInt8 n) (inp : List UInt8) :
    Traced (Vector UInt8 b) (Vector UInt8 n × ℕ) := do
  let r ← hashblocksLoop hb compress (load statebytes) inp
  pure (store r.1, r.2.length)

end Blocks

theorem sha256BlockBytes_pos : 0 < 64 := by decide

theorem sha512BlockBytes_pos : 0 < 128 := by decide

/-- The body of the loop of `crypto_hashblocks_sha256_ref`. -/
def sha256Compress (state : Vector UInt32 8) (block : Vector UInt8 64) : Vector UInt32 8 :=
  sha2Compress sigmas32 roundConstants32 state (loadWords32 16 block)

/-- The body of the loop of `crypto_hashblocks_sha512_ref`. -/
def sha512Compress (state : Vector UInt64 8) (block : Vector UInt8 128) : Vector UInt64 8 :=
  sha2Compress sigmas64 roundConstants64 state (loadWords64 16 block)

/-- `crypto_hashblocks_sha256`. -/
def cryptoHashblocksSha256 (compress : Vector UInt32 8 → Vector UInt8 64 → Vector UInt32 8) :
    Vector UInt8 32 → List UInt8 → Traced (Vector UInt8 64) (Vector UInt8 32 × ℕ) :=
  hashblocks (Nat.succ_pos _) (loadWords32 8) storeWords32 compress

/-- `crypto_hashblocks_sha512`. -/
def cryptoHashblocksSha512 (compress : Vector UInt64 8 → Vector UInt8 128 → Vector UInt64 8) :
    Vector UInt8 64 → List UInt8 → Traced (Vector UInt8 128) (Vector UInt8 64 × ℕ) :=
  hashblocks (Nat.succ_pos _) (loadWords64 8) storeWords64 compress

/-- `crypto_hashblocks_sha256_ref`. -/
def cryptoHashblocksSha256Ref (statebytes : Vector UInt8 32) (inp : List UInt8) :
    Traced (Vector UInt8 64) (Vector UInt8 32 × ℕ) :=
  cryptoHashblocksSha256 sha256Compress statebytes inp

/-- `crypto_hashblocks_sha512_ref`. -/
def cryptoHashblocksSha512Ref (statebytes : Vector UInt8 64) (inp : List UInt8) :
    Traced (Vector UInt8 128) (Vector UInt8 64 × ℕ) :=
  cryptoHashblocksSha512 sha512Compress statebytes inp

/-!
## The CommonCrypto backend

`update` is `CC_SHA256_Update` or `CC_SHA512_Update`. Its length argument is a `CC_LONG`,
which has 32 bits.
-/

/-- `CC_SHA256_CTX` and `CC_SHA512_CTX`. -/
structure CcCtx (W : Type) where
  count : Vector W 2
  hash : Vector W 8
  wbuf : Vector W 16

/-- The body of the `spx_cc_*_hashblocks` functions. -/
def ccHashblocks {W : Type} [OfNat W 0] {b n : ℕ} (load : Vector UInt8 n → Vector W 8)
    (store : Vector W 8 → Vector UInt8 n)
    (update : CcCtx W → List UInt8 → ℕ → Traced (Vector UInt8 b) (CcCtx W))
    (statebytes : Vector UInt8 n) (inp : List UInt8) :
    Traced (Vector UInt8 b) (Vector UInt8 n × ℕ) :=
  let fullBytes := inp.length &&& (2 ^ 64 - b)
  if fullBytes = 0 then pure (statebytes, inp.length)
  else do
    let ctx : CcCtx W := ⟨Vector.replicate 2 0, load statebytes, Vector.replicate 16 0⟩
    let ctx ← update ctx inp (fullBytes % 2 ^ 32)
    pure (store ctx.hash, inp.length - fullBytes)

/-- `spx_cc_sha256_hashblocks`. -/
def spxCcSha256Hashblocks
    (update : CcCtx UInt32 → List UInt8 → ℕ → Traced (Vector UInt8 64) (CcCtx UInt32)) :
    Vector UInt8 32 → List UInt8 → Traced (Vector UInt8 64) (Vector UInt8 32 × ℕ) :=
  ccHashblocks (loadWords32 8) storeWords32 update

/-- `spx_cc_sha512_hashblocks`. -/
def spxCcSha512Hashblocks
    (update : CcCtx UInt64 → List UInt8 → ℕ → Traced (Vector UInt8 128) (CcCtx UInt64)) :
    Vector UInt8 64 → List UInt8 → Traced (Vector UInt8 128) (Vector UInt8 64 × ℕ) :=
  ccHashblocks (loadWords64 8) storeWords64 update

/-!
## Incremental hashing
-/

section Sha256

variable (compress : Vector UInt32 8 → Vector UInt8 64 → Vector UInt32 8)

/-- `iv_256`. -/
def iv256 : Vector UInt8 32 :=
  #v[0x6a, 0x09, 0xe6, 0x67, 0xbb, 0x67, 0xae, 0x85, 0x3c, 0x6e, 0xf3, 0x72, 0xa5, 0x4f, 0xf5,
    0x3a, 0x51, 0x0e, 0x52, 0x7f, 0x9b, 0x05, 0x68, 0x8c, 0x1f, 0x83, 0xd9, 0xab, 0x5b, 0xe0,
    0xcd, 0x19]

/-- `sha256_inc_init`. -/
def sha256IncInit : Vector UInt8 40 := iv256 ++ (Vector.replicate 8 0 : Vector UInt8 8)

/-- `sha256_inc_blocks`. -/
def sha256IncBlocks (state : Vector UInt8 40) (inp : List UInt8) (inblocks : ℕ) :
    Vector UInt8 40 :=
  let bytes := bytesToUll (slice state 32 8)
  let r := cryptoHashblocksSha256 compress (slice state 0 32) (inp.take (64 * inblocks))
  let bytes := (bytes + 64 * inblocks) % 2 ^ 64
  write (write state 0 r.val.1) 32 (ullToBytes 8 bytes)

/-- The eight bytes of the length in bits. -/
def sha256LengthBytes (bytes : ℕ) : List UInt8 :=
  [UInt8.ofNat (bytes >>> 53), UInt8.ofNat (bytes >>> 45), UInt8.ofNat (bytes >>> 37),
    UInt8.ofNat (bytes >>> 29), UInt8.ofNat (bytes >>> 21), UInt8.ofNat (bytes >>> 13),
    UInt8.ofNat (bytes >>> 5), UInt8.ofNat (bytes <<< 3)]

/-- The part of `padded` that `sha256_inc_finalize` compresses, for the bytes behind the
last whole block and the number of all bytes. -/
def sha256Padded (rest : List UInt8) (bytes : ℕ) : List UInt8 :=
  if rest.length < 56 then
    rest ++ [0x80] ++ List.replicate (56 - (rest.length + 1)) 0 ++ sha256LengthBytes bytes
  else
    rest ++ [0x80] ++ List.replicate (120 - (rest.length + 1)) 0 ++ sha256LengthBytes bytes

/-- `sha256_inc_finalize`. -/
def sha256IncFinalize (state : Vector UInt8 40) (inp : List UInt8) : Vector UInt8 32 :=
  let bytes := (bytesToUll (slice state 32 8) + inp.length) % 2 ^ 64
  let r := cryptoHashblocksSha256 compress (slice state 0 32) inp
  let rest := inp.drop (inp.length - (inp.length &&& 63))
  (cryptoHashblocksSha256 compress r.val.1 (sha256Padded rest bytes)).val.1

/-- `sha256`. -/
def sha256 (inp : List UInt8) : Vector UInt8 32 :=
  sha256IncFinalize compress sha256IncInit inp

end Sha256

/-- The block of the message `abc`. -/
example : sha256Compress (loadWords32 8 iv256)
    (headBlock 64 (sha256Padded [0x61, 0x62, 0x63] 3)) =
    #v[0xba7816bf, 0x8f01cfea, 0x414140de, 0x5dae2223, 0xb00361a3, 0x96177a9c, 0xb410ff61,
      0xf20015ad] := by
  decide +kernel

section Sha512

variable (compress : Vector UInt64 8 → Vector UInt8 128 → Vector UInt64 8)

/-- `iv_512`. -/
def iv512 : Vector UInt8 64 :=
  #v[0x6a, 0x09, 0xe6, 0x67, 0xf3, 0xbc, 0xc9, 0x08, 0xbb, 0x67, 0xae, 0x85, 0x84, 0xca, 0xa7,
    0x3b, 0x3c, 0x6e, 0xf3, 0x72, 0xfe, 0x94, 0xf8, 0x2b, 0xa5, 0x4f, 0xf5, 0x3a, 0x5f, 0x1d,
    0x36, 0xf1, 0x51, 0x0e, 0x52, 0x7f, 0xad, 0xe6, 0x82, 0xd1, 0x9b, 0x05, 0x68, 0x8c, 0x2b,
    0x3e, 0x6c, 0x1f, 0x1f, 0x83, 0xd9, 0xab, 0xfb, 0x41, 0xbd, 0x6b, 0x5b, 0xe0, 0xcd, 0x19,
    0x13, 0x7e, 0x21, 0x79]

/-- `sha512_inc_init`. -/
def sha512IncInit : Vector UInt8 72 := iv512 ++ (Vector.replicate 8 0 : Vector UInt8 8)

/-- `sha512_inc_blocks`. -/
def sha512IncBlocks (state : Vector UInt8 72) (inp : List UInt8) (inblocks : ℕ) :
    Vector UInt8 72 :=
  let bytes := bytesToUll (slice state 64 8)
  let r := cryptoHashblocksSha512 compress (slice state 0 64) (inp.take (128 * inblocks))
  let bytes := (bytes + 128 * inblocks) % 2 ^ 64
  write (write state 0 r.val.1) 64 (ullToBytes 8 bytes)

/-- The nine bytes of the length in bits. -/
def sha512LengthBytes (bytes : ℕ) : List UInt8 :=
  UInt8.ofNat (bytes >>> 61) :: sha256LengthBytes bytes

/-- The part of `padded` that `sha512_inc_finalize` compresses. -/
def sha512Padded (rest : List UInt8) (bytes : ℕ) : List UInt8 :=
  if rest.length < 112 then
    rest ++ [0x80] ++ List.replicate (119 - (rest.length + 1)) 0 ++ sha512LengthBytes bytes
  else
    rest ++ [0x80] ++ List.replicate (247 - (rest.length + 1)) 0 ++ sha512LengthBytes bytes

/-- `sha512_inc_finalize`. -/
def sha512IncFinalize (state : Vector UInt8 72) (inp : List UInt8) : Vector UInt8 64 :=
  let bytes := (bytesToUll (slice state 64 8) + inp.length) % 2 ^ 64
  let r := cryptoHashblocksSha512 compress (slice state 0 64) inp
  let rest := inp.drop (inp.length - (inp.length &&& 127))
  (cryptoHashblocksSha512 compress r.val.1 (sha512Padded rest bytes)).val.1

/-- `sha512`. -/
def sha512 (inp : List UInt8) : Vector UInt8 64 :=
  sha512IncFinalize compress sha512IncInit inp

end Sha512

/-- The block of the message `abc`. -/
example : (sha512Compress (loadWords64 8 iv512)
    (headBlock 128 (sha512Padded [0x61, 0x62, 0x63] 3))) =
    #v[0xddaf35a193617aba, 0xcc417349ae204131, 0x12e6fa4e89a97ea2, 0x0a9eeee64b55d39a,
      0x2192992a274fc1a8, 0x36ba3c23a3feebbd, 0x454d4423643ce80e, 0x2a9ac94fa54ca49f] := by
  decide +kernel

end BitcoinPqc
