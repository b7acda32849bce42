import BitcoinPqc.Sphincs.Hash
import BitcoinPqc.Sphincs.Sha2

/-!
# The SHA-2 instance of the hash functions

The code of `hash_sha2.c` and `thash_sha2_simple.c`, of `seed_state` and the MGF1 functions
of `sha2.c`, and `sha2HashFns`, in which they are the hash functions of the model.

A local buffer is the list of its bytes, and `memcpy` overwrites a part of it. The
compression functions are parameters, as they are for the incremental functions. The
8-lane functions run the scalar ones in each lane.
-/

namespace BitcoinPqc

variable (compress : Vector UInt32 8 → Vector UInt8 64 → Vector UInt32 8)

/-- `memcpy(buf + off, src, n)` for the `n` bytes of `src`. -/
def memcpy (buf : List UInt8) (off : ℕ) (src : List UInt8) : List UInt8 :=
  buf.take off ++ src ++ buf.drop (off + src.length)

/-- `seed_state`. -/
def seedState (pubSeed : Block) : Vector UInt8 40 :=
  let block := pubSeed.toList ++ List.replicate (128 - spxN) 0
  sha256IncBlocks compress sha256IncInit block 1

/-- `thash`, on a seeded state. -/
def thashSha2 (stateSeeded : Vector UInt8 40) (addr : AddrBytes) (input : List Block) :
    Block :=
  let buf := addr.toList ++ (input.map Vector.toList).flatten
  slice (sha256IncFinalize compress stateSeeded buf) 0 spxN

/-- `prf_addr`, on a seeded state. -/
def prfAddrSha2 (stateSeeded : Vector UInt8 40) (addr : AddrBytes) (skSeed : Block) : Block :=
  slice (sha256IncFinalize compress stateSeeded (addr.toList ++ skSeed.toList)) 0 spxN

/-!
## The message
-/

/-- The key block of HMAC: the key, filled up with zeros, with every byte XORed with
`pad`. -/
def hmacBlock (pad : UInt8) (skPrf : Block) : List UInt8 :=
  (skPrf.toList.map fun x => pad ^^^ x) ++ List.replicate (64 - spxN) pad

/-- `gen_message_random`. The first 64 bytes of the local `buf` are `buf` here, and the
last 32 bytes, which receive the inner digest, are `inner`. -/
def genMessageRandom (skPrf optrand : Block) (m : List UInt8) : Block :=
  let buf := hmacBlock 0x36 skPrf
  let state := sha256IncBlocks compress sha256IncInit buf 1
  let buf := memcpy buf 0 optrand.toList
  let inner :=
    if spxN + m.length < 64 then
      let buf := memcpy buf spxN m
      sha256IncFinalize compress state (buf.take (m.length + spxN))
    else
      let buf := memcpy buf spxN (m.take (64 - spxN))
      let state := sha256IncBlocks compress state buf 1
      sha256IncFinalize compress state (m.drop (64 - spxN))
  slice (sha256 compress (hmacBlock 0x5c skPrf ++ inner.toList)) 0 spxN

/-- The loop of the MGF1 functions from counter `i` on, where `digest` gives the block of a
counter. -/
def mgf1Loop (digest : ℕ → Vector UInt8 32) (outlen i : ℕ) : List UInt8 :=
  if (i + 1) * 32 ≤ outlen then (digest i).toList ++ mgf1Loop digest outlen (i + 1)
  else if outlen > i * 32 then (digest i).toList.take (outlen - i * 32)
  else []
termination_by outlen - i * 32
decreasing_by omega

/-- `mgf1_256`. -/
def mgf1256 (outlen : ℕ) (inp : List UInt8) : List UInt8 :=
  mgf1Loop (fun i => sha256 compress (inp ++ (u32ToBytes (i % 2 ^ 32)).toList)) outlen 0

/-- `mgf1_X_cached`. -/
def mgf1XCached (outlen : ℕ) (inp : List UInt8) : List UInt8 :=
  let inblocks := inp.length / 64
  let inrem := inp.length % 64
  let seededState :=
    if inblocks > 0 then sha256IncBlocks compress sha256IncInit inp inblocks
    else sha256IncInit
  let tail := (inp.drop (inblocks * 64)).take inrem
  mgf1Loop (fun i => sha256IncFinalize compress seededState
    (tail ++ (u32ToBytes (i % 2 ^ 32)).toList)) outlen 0

/-- `hash_message` up to the split: the bytes of `buf`. The local `inbuf` is passed with
its previous contents. -/
def messageDigest (inbuf : Vector UInt8 64) (R : Block) (pk : Vector UInt8 32)
    (m : List UInt8) : DigestBytes :=
  let state := sha256IncInit
  let inbuf := memcpy inbuf.toList 0 R.toList
  let inbuf := memcpy inbuf spxN pk.toList
  let seed :=
    if spxN + spxPkBytes + m.length < 64 then
      let inbuf := memcpy inbuf (spxN + spxPkBytes) m
      sha256IncFinalize compress state (inbuf.take (spxN + spxPkBytes + m.length))
    else
      let inbuf := memcpy inbuf (spxN + spxPkBytes) (m.take (64 - spxN - spxPkBytes))
      let state := sha256IncBlocks compress state inbuf 1
      sha256IncFinalize compress state (m.drop (64 - spxN - spxPkBytes))
  headBlock 20 (mgf1XCached compress 20
    (R.toList ++ (slice pk 0 spxN : Block).toList ++ seed.toList))

/-- The hash functions of the library. -/
def sha2HashFns (compress512 : Vector UInt64 8 → Vector UInt8 128 → Vector UInt64 8)
    (inbuf : Vector UInt8 64) : HashFns where
  seedState := seedState compress
  thash := thashSha2 compress
  prfAddr := prfAddrSha2 compress
  sha256 := sha256 compress
  sha512 := sha512 compress512
  sha256Inc := fun sk m =>
    sha256IncFinalize compress (sha256IncBlocks compress sha256IncInit sk.toList 1) m
  genMessageRandom := genMessageRandom compress
  messageDigest := messageDigest compress inbuf
  thashx8 := fun st addr input j => thashSha2 compress st (addr j) (input j)
  prfAddrx8 := fun st addr skSeed j => prfAddrSha2 compress st (addr j) skSeed
  thashx8_lane := fun _ _ _ _ => rfl
  prfAddrx8_lane := fun _ _ _ _ => rfl

end BitcoinPqc
