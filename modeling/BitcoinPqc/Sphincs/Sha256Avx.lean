import BitcoinPqc.Foundation.Avx2
import BitcoinPqc.Sphincs.Hash

/-!
# Eight SHA-256 computations at once

The code of `sha256avx.c` and the macros of `sha256avx.h`. Word `i` of the state of every
computation is in register `i`, one computation in each lane. The input words arrive in the
order of the bytes in memory, so the registers that were loaded are transposed.

The code names the eight variables of a round in turn instead of moving them. The round with
number `rc` is given the variables from `s[(8 - rc) % 8]` on.
-/

namespace BitcoinPqc

/-!
## Macros
-/

/-- `RC`. -/
def rcAvx : List UInt32 :=
  [0x428a2f98, 0x71374491, 0xb5c0fbcf, 0xe9b5dba5, 0x3956c25b, 0x59f111f1, 0x923f82a4,
    0xab1c5ed5, 0xd807aa98, 0x12835b01, 0x243185be, 0x550c7dc3, 0x72be5d74, 0x80deb1fe,
    0x9bdc06a7, 0xc19bf174, 0xe49b69c1, 0xefbe4786, 0x0fc19dc6, 0x240ca1cc, 0x2de92c6f,
    0x4a7484aa, 0x5cb0a9dc, 0x76f988da, 0x983e5152, 0xa831c66d, 0xb00327c8, 0xbf597fc7,
    0xc6e00bf3, 0xd5a79147, 0x06ca6351, 0x14292967, 0x27b70a85, 0x2e1b2138, 0x4d2c6dfc,
    0x53380d13, 0x650a7354, 0x766a0abb, 0x81c2c92e, 0x92722c85, 0xa2bfe8a1, 0xa81a664b,
    0xc24b8b70, 0xc76c51a3, 0xd192e819, 0xd6990624, 0xf40e3585, 0x106aa070, 0x19a4c116,
    0x1e376c08, 0x2748774c, 0x34b0bcb5, 0x391c0cb3, 0x4ed8aa4a, 0x5b9cca4f, 0x682e6ff3,
    0x748f82ee, 0x78a5636f, 0x84c87814, 0x8cc70208, 0x90befffa, 0xa4506ceb, 0xbef9a3f7,
    0xc67178f2]

/-- `NOT`. -/
def notAvx (x : M256i) : M256i :=
  mm256XorSi256 x (mm256SetEpi32 (Vector.replicate 8 0xffffffff))

/-- The second operand of `BYTESWAP`. -/
def byteswapMaskAvx : M256i :=
  mm256SetEpi8
    #v[0xc, 0xd, 0xe, 0xf, 0x8, 0x9, 0xa, 0xb, 0x4, 0x5, 0x6, 0x7, 0x0, 0x1, 0x2, 0x3,
      0xc, 0xd, 0xe, 0xf, 0x8, 0x9, 0xa, 0xb, 0x4, 0x5, 0x6, 0x7, 0x0, 0x1, 0x2, 0x3]

/-- `BYTESWAP`. -/
def byteswapAvx (x : M256i) : M256i := mm256ShuffleEpi8 x byteswapMaskAvx

/-- `ROTR32`. -/
def rotr32Avx (x : M256i) (y : UInt32) : M256i :=
  mm256OrSi256 (mm256SrliEpi32 x y) (mm256SlliEpi32 x (32 - y))

/-- `XOR3`. -/
def xor3Avx (a b c : M256i) : M256i := mm256XorSi256 (mm256XorSi256 a b) c

/-- `ADD4_32`. -/
def add4Avx (a b c d : M256i) : M256i := mm256AddEpi32 (mm256AddEpi32 (mm256AddEpi32 a b) c) d

/-- `ADD5_32`. -/
def add5Avx (a b c d e : M256i) : M256i :=
  mm256AddEpi32 (mm256AddEpi32 (mm256AddEpi32 (mm256AddEpi32 a b) c) d) e

/-- `MAJ_AVX`. -/
def majAvx (a b c : M256i) : M256i :=
  xor3Avx (mm256AndSi256 a b) (mm256AndSi256 a c) (mm256AndSi256 b c)

/-- `CH_AVX`. -/
def chAvx (a b c : M256i) : M256i :=
  mm256XorSi256 (mm256AndSi256 a b) (mm256AndSi256 (notAvx a) c)

/-- `SIGMA1_AVX`. -/
def bigSigma1Avx (x : M256i) : M256i :=
  xor3Avx (rotr32Avx x 6) (rotr32Avx x 11) (rotr32Avx x 25)

/-- `SIGMA0_AVX`. -/
def bigSigma0Avx (x : M256i) : M256i :=
  xor3Avx (rotr32Avx x 2) (rotr32Avx x 13) (rotr32Avx x 22)

/-- `WSIGMA1_AVX`. -/
def wsigma1Avx (x : M256i) : M256i :=
  xor3Avx (rotr32Avx x 17) (rotr32Avx x 19) (mm256SrliEpi32 x 10)

/-- `WSIGMA0_AVX`. -/
def wsigma0Avx (x : M256i) : M256i :=
  xor3Avx (rotr32Avx x 7) (rotr32Avx x 18) (mm256SrliEpi32 x 3)

/-- `transpose`. -/
def transpose (s : Vector M256i 8) : Vector M256i 8 :=
  let r (i : ℕ) := s.getD i default
  let tmp00 := mm256UnpackloEpi32 (r 0) (r 1)
  let tmp01 := mm256UnpackhiEpi32 (r 0) (r 1)
  let tmp02 := mm256UnpackloEpi32 (r 2) (r 3)
  let tmp03 := mm256UnpackhiEpi32 (r 2) (r 3)
  let tmp04 := mm256UnpackloEpi32 (r 4) (r 5)
  let tmp05 := mm256UnpackhiEpi32 (r 4) (r 5)
  let tmp06 := mm256UnpackloEpi32 (r 6) (r 7)
  let tmp07 := mm256UnpackhiEpi32 (r 6) (r 7)
  let tmp10 := mm256UnpackloEpi64 tmp00 tmp02
  let tmp11 := mm256UnpackhiEpi64 tmp00 tmp02
  let tmp12 := mm256UnpackloEpi64 tmp01 tmp03
  let tmp13 := mm256UnpackhiEpi64 tmp01 tmp03
  let tmp14 := mm256UnpackloEpi64 tmp04 tmp06
  let tmp15 := mm256UnpackhiEpi64 tmp04 tmp06
  let tmp16 := mm256UnpackloEpi64 tmp05 tmp07
  let tmp17 := mm256UnpackhiEpi64 tmp05 tmp07
  #v[mm256Permute2x128 tmp10 tmp14 0x20, mm256Permute2x128 tmp11 tmp15 0x20,
    mm256Permute2x128 tmp12 tmp16 0x20, mm256Permute2x128 tmp13 tmp17 0x20,
    mm256Permute2x128 tmp10 tmp14 0x31, mm256Permute2x128 tmp11 tmp15 0x31,
    mm256Permute2x128 tmp12 tmp16 0x31, mm256Permute2x128 tmp13 tmp17 0x31]

/-!
## A block in each lane
-/

/-- The number of the variable that is argument `j` of the round `rc`. -/
def roundVar (rc j : ℕ) : ℕ := (64 + j - rc) % 8

/-- `SHA256ROUND_AVX`. -/
def sha256RoundAvx (s : Vector M256i 8) (rc : ℕ) (w : M256i) : Vector M256i 8 :=
  let a := s.getD (roundVar rc 0) default
  let b := s.getD (roundVar rc 1) default
  let c := s.getD (roundVar rc 2) default
  let d := s.getD (roundVar rc 3) default
  let e := s.getD (roundVar rc 4) default
  let f := s.getD (roundVar rc 5) default
  let g := s.getD (roundVar rc 6) default
  let h := s.getD (roundVar rc 7) default
  let t0 := add5Avx h (bigSigma1Avx e) (chAvx e f g) (mm256Set1Epi32 (rcAvx.getD rc 0)) w
  let s := s.setIfInBounds (roundVar rc 3) (mm256AddEpi32 d t0)
  let t1 := mm256AddEpi32 (bigSigma0Avx a) (majAvx a b c)
  s.setIfInBounds (roundVar rc 7) (mm256AddEpi32 t0 t1)

/-- The lines of `sha256_transform8x` for the round `rc`. From the round 16 on the word is
computed first. -/
def sha256StepAvx (x : Vector M256i 8 × Vector M256i 64) (rc : ℕ) :
    Vector M256i 8 × Vector M256i 64 :=
  let word (i : ℕ) := x.2.getD i default
  let w :=
    if rc < 16 then x.2
    else x.2.setIfInBounds rc (add4Avx (wsigma1Avx (word (rc - 2))) (word (rc - 16))
      (word (rc - 7)) (wsigma0Avx (word (rc - 15))))
  (sha256RoundAvx x.1 rc (w.getD rc default), w)

/-- The array `w` after the words are loaded, for what it held before. -/
def loadWordsAvx (data : Lanes (Vector UInt8 64)) (w : Vector M256i 64) : Vector M256i 64 :=
  let low : Vector M256i 8 := Vector.ofFn fun k => byteswapAvx (slice (data k) 0 32)
  let high : Vector M256i 8 := Vector.ofFn fun k => byteswapAvx (slice (data k) 32 32)
  write (write w 0 (transpose low)) 8 (transpose high)

/-- `sha256_transform8x` on the state in the context. `w` is what the local array holds when
the function is entered. -/
def sha256Transform8x (w : Vector M256i 64) (s : Vector M256i 8)
    (data : Lanes (Vector UInt8 64)) : Vector M256i 8 :=
  let r := (List.range 64).foldl sha256StepAvx (s, loadWordsAvx data w)
  Vector.ofFn fun i => mm256AddEpi32 (r.1.getD i.val default) (s.getD i.val default)

/-!
## The context
-/

/-- `sha256ctx`. -/
structure Sha256Ctx where
  s : Vector M256i 8
  msgblocks : Vector UInt8 512
  datalen : ℕ
  msglen : ℕ

/-- The words that `sha256_init8x` puts into every lane. -/
def initWordsAvx : Vector UInt32 8 :=
  #v[0x6a09e667, 0xbb67ae85, 0x3c6ef372, 0xa54ff53a, 0x510e527f, 0x9b05688c, 0x1f83d9ab,
    0x5be0cd19]

/-- `sha256_init8x`, for the previous contents of the blocks. -/
def sha256Init8x (msgblocks : Vector UInt8 512) : Sha256Ctx where
  s := Vector.ofFn fun i => mm256Set1Epi32 (initWordsAvx.get i)
  msgblocks := msgblocks
  datalen := 0
  msglen := 0

/-- A buffer with a part of `size` bytes for each lane, after something is written to every
part, at the same place. -/
def writeParts {n m : ℕ} (buf : Vector UInt8 n) (size off : ℕ) (x : Lanes (Vector UInt8 m)) :
    Vector UInt8 n :=
  (List.range 8).foldl (fun b i => write b (i * size + off) (x (laneIdx i))) buf

/-- `sha256_transform8x` on the blocks of the context. -/
def Sha256Ctx.transformBlocks (w : Vector M256i 64) (ctx : Sha256Ctx) : Sha256Ctx :=
  { ctx with s := sha256Transform8x w ctx.s fun j => slice ctx.msgblocks (j.val * 64) 64 }

/-- What the padding loop writes from `datalen` up to the end of a block. -/
def padBytes (datalen : ℕ) : Vector UInt8 (64 - datalen) :=
  Vector.ofFn fun i => if i.val = 0 then 0x80 else 0

/-- The padding in `sha256_final8x`. Where the length does not fit behind it the blocks are
compressed and cleared. -/
def Sha256Ctx.pad (w : Vector M256i 64) (ctx : Sha256Ctx) : Sha256Ctx :=
  let ctx := { ctx with
    msgblocks := writeParts ctx.msgblocks 64 ctx.datalen fun _ => padBytes ctx.datalen }
  if ctx.datalen < 56 then ctx
  else { ctx.transformBlocks w with msgblocks := Vector.replicate 512 0 }

/-- `sha256_final8x`. -/
def sha256Final8x (w : Vector M256i 64) (ctx : Sha256Ctx) : Lanes (Vector UInt8 32) :=
  let ctx := ctx.pad w
  let msglen := (ctx.msglen + ctx.datalen * 8) % 2 ^ 64
  let msgblocks := writeParts ctx.msgblocks 64 56 fun _ => ullToBytes 8 msglen
  let ctx := { ctx with msgblocks := msgblocks, msglen := msglen }.transformBlocks w
  let s := transpose ctx.s
  fun j => byteswapAvx (s.getD j.val default)

end BitcoinPqc
