import BitcoinPqc.Sphincs.HashSha2
import BitcoinPqc.Sphincs.Sha256Avx

/-!
# The hash functions for eight lanes

The code of `sha256x8.c`, `thash_sha2_simplex8.c` and `hash_sha2x8.c`. The eight inputs of a
call have one length. A buffer with a part for each lane is one buffer, as in the code, and
the parts are passed on as what is behind a position in it.

`X8Locals` is what uninitialised local variables hold.
-/

namespace BitcoinPqc

/-- The array `w` of `sha256_transform8x` and the blocks of a new context. -/
structure X8Locals where
  w : Vector M256i 64
  msgblocks : Vector UInt8 512
  deriving Inhabited

variable (U : X8Locals)

/-!
## SHA-256
-/

/-- The loop of `_sha256x8` over the whole blocks, from byte `i` on. -/
def sha256x8Loop (ctx : Sha256Ctx) (inp : Lanes (List UInt8)) (inlen i : ℕ) :
    Sha256Ctx × ℕ :=
  if 64 ≤ inlen - i then
    let s := sha256Transform8x U.w ctx.s fun j => headBlock 64 ((inp j).drop i)
    sha256x8Loop { ctx with s := s, msglen := (ctx.msglen + 512) % 2 ^ 64 } inp inlen (i + 64)
  else (ctx, i)
termination_by inlen - i
decreasing_by omega

/-- `_sha256x8`, on an initialised context. -/
def sha256x8Inner (ctx : Sha256Ctx) (inp : Lanes (List UInt8)) (inlen : ℕ) :
    Lanes (Vector UInt8 32) :=
  let (ctx, i) := sha256x8Loop U ctx inp inlen 0
  let bytesToCopy := (inlen - i) % 2 ^ 32
  let msgblocks := writeParts ctx.msgblocks 64 0 fun j =>
    bytesAt bytesToCopy ((inp j).drop i)
  sha256Final8x U.w { ctx with msgblocks := msgblocks, datalen := bytesToCopy }

/-- `sha256x8_seeded`. `seedlen` is a number of bits. -/
def sha256x8Seeded {n : ℕ} (seed : Vector UInt8 n) (seedlen : ℕ) (inp : Lanes (List UInt8))
    (inlen : ℕ) : Lanes (Vector UInt8 32) :=
  let words := loadWords32 8 seed
  let ctx : Sha256Ctx :=
    { s := Vector.ofFn fun i => mm256Set1Epi32 (words.get i)
      msgblocks := U.msgblocks
      datalen := 0
      msglen := seedlen }
  sha256x8Inner U ctx inp inlen

/-- `sha256x8`. -/
def sha256x8 (inp : Lanes (List UInt8)) (inlen : ℕ) : Lanes (Vector UInt8 32) :=
  sha256x8Inner U (sha256Init8x U.msgblocks) inp inlen

/-!
## Tweakable hash and PRF
-/

/-- The parts of a buffer, each with what is behind it. -/
def partsOf {n : ℕ} (buf : Vector UInt8 n) (size : ℕ) : Lanes (List UInt8) :=
  fun j => buf.toList.drop (j.val * size)

/-- `thashx8`, on a seeded state. `bufx8` is the local buffer with its previous contents. -/
def thashx8Sha2 (inblocks : ℕ) (bufx8 : Vector UInt8 (8 * (22 + inblocks * 16)))
    (stateSeeded : Vector UInt8 40) (addrx8 : Lanes AddrBytes) (inp : Lanes (List UInt8)) :
    Lanes Block :=
  let size := 22 + inblocks * spxN
  let bufx8 := writeParts bufx8 size 0 addrx8
  let bufx8 := writeParts bufx8 size 22 fun j => bytesAt (inblocks * spxN) (inp j)
  let outbufx8 := sha256x8Seeded U stateSeeded 512 (partsOf bufx8 size) size
  fun j => slice (outbufx8 j) 0 spxN

/-- `prf_addrx8`, on a seeded state. `bufx8` is the local buffer with its previous
contents. -/
def prfAddrx8Sha2 (bufx8 : Vector UInt8 (8 * (16 + 22))) (stateSeeded : Vector UInt8 40)
    (addrx8 : Lanes AddrBytes) (skSeed : Block) : Lanes Block :=
  let size := spxN + 22
  let bufx8 := (List.range 8).foldl (fun b j =>
    write (write b (j * size) (addrx8 (laneIdx j))) (j * size + 22) skSeed) bufx8
  let outbufx8 := sha256x8Seeded U stateSeeded 512 (partsOf bufx8 size) (22 + spxN)
  fun j => slice (outbufx8 j) 0 spxN

/-!
## MGF1
-/

/-- The pass of `mgf1x8` for the counter `i`: the buffer of the inputs and the digests. -/
def mgf1x8Digests {n : ℕ} (inbufx8 : Vector UInt8 n) (inlen i : ℕ) :
    Vector UInt8 n × Lanes (Vector UInt8 32) :=
  let inbufx8 := writeParts inbufx8 (inlen + 4) inlen fun _ => u32ToBytes (i % 2 ^ 32)
  (inbufx8, sha256x8 U (partsOf inbufx8 (inlen + 4)) (inlen + 4))

/-- The loop of `mgf1x8` from the counter `i` on, and the pass behind it. The pointer to the
output has moved by `32 * i`. -/
def mgf1x8Loop {n m : ℕ} (outlen inlen i : ℕ) (inbufx8 : Vector UInt8 n)
    (outx8 : Vector UInt8 m) : Vector UInt8 m :=
  let r := mgf1x8Digests U inbufx8 inlen i
  if (i + 1) * 32 ≤ outlen then
    mgf1x8Loop outlen inlen (i + 1) r.1 (writeParts outx8 outlen (i * 32) r.2)
  else
    writeParts outx8 outlen (i * 32) fun j => (slice (r.2 j) 0 (outlen - i * 32))
termination_by outlen - i * 32
decreasing_by omega

/-- `mgf1x8`, for the previous contents of its buffers. -/
def mgf1x8 (outlen inlen : ℕ) (inbufx8 : Vector UInt8 (8 * (inlen + 4)))
    (outx8 : Vector UInt8 (8 * outlen)) (inp : Lanes (List UInt8)) : Vector UInt8 (8 * outlen) :=
  let inbufx8 := writeParts inbufx8 (inlen + 4) 0 fun j => bytesAt inlen (inp j)
  mgf1x8Loop U outlen inlen 0 inbufx8 outx8

end BitcoinPqc
