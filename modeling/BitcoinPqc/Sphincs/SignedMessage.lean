import BitcoinPqc.Foundation.Memory
import BitcoinPqc.Sphincs.Sign

/-!
# Signed messages in memory

`crypto_sign` and `crypto_sign_open` of `sign.c` with their pointers. Both move the
message with `memmove`, so a caller may sign a message that lies where the signed message
will have it and may open a signed message into the buffer that holds it. The memory is
flat and a pointer is an address in it.

`crypto_sign_signature` writes the signature while it still reads the message, so a
caller keeps the message out of the first `SPX_BYTES` bytes of `sm`. The keys lie outside
the buffers that are written.
-/

namespace BitcoinPqc

variable (E : Build) (H : HashFns)

/-- Where `crypto_sign` finds the message and puts the signed message. -/
structure SignBuffers where
  sm : ℕ
  m : ℕ
  mlen : ℕ
  /-- The message and the signature do not overlap. -/
  apart : m + mlen ≤ sm ∨ sm + spxBytes ≤ m
  /-- The end of the signed message has an address. -/
  fits : sm + (spxBytes + mlen) < 2 ^ 64

/-- What `crypto_sign` and `crypto_sign_open` return and leave in `*smlen` or `*mlen` and in
memory. -/
structure MemResult where
  code : Int
  len : ℕ
  mem : Mem UInt8
  T : ThreadState

/-- `crypto_sign` in memory. -/
def cryptoSignAt (B : SignBuffers) (mem : Mem UInt8) (sk : Vector UInt8 64)
    (T : ThreadState) : Traced Query MemResult := do
  let r ← cryptoSignSignature E H (bytesAt 3680 (mem.read B.sm spxBytes))
    (mem.read B.m B.mlen) sk T
  let mem := mem.store B.sm r.sig.toList
  if r.code ≠ 0 then pure ⟨r.code, 0, mem.memset B.sm 0 spxBytes, r.T⟩
  else
    pure ⟨0, (r.siglen + B.mlen) % 2 ^ 64, mem.memmove (B.sm + spxBytes) B.m B.mlen, r.T⟩

/-- `crypto_sign_open`. -/
def cryptoSignOpen (mem : Mem UInt8) (m sm smlen : ℕ) (pk : Vector UInt8 32)
    (T : ThreadState) : Traced Query MemResult := do
  if smlen < spxBytes then pure ⟨-1, 0, mem.memset m 0 smlen, T⟩
  else do
    let mlen := smlen - spxBytes
    let (code, T) ← cryptoSignVerify E H (bytesAt 3680 (mem.read sm spxBytes)) spxBytes
      (mem.read (sm + spxBytes) mlen) pk T
    if code ≠ 0 then pure ⟨-1, 0, mem.memset m 0 smlen, T⟩
    else pure ⟨0, mlen, mem.memmove m (sm + spxBytes) mlen, T⟩

end BitcoinPqc
