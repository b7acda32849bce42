import BitcoinPqc.Foundation.BoundedSearch
import BitcoinPqc.Foundation.HashChain
import BitcoinPqc.Sphincs.Hash
import BitcoinPqc.Sphincs.ThreadState
import Mathlib.Logic.Function.Basic

/-!
# WOTS+C chains and the counter search

The code of `wots.c`: the chaining function, the counter search that replaces
the checksum chains, and the recomputation of a WOTS public key from a
signature. Local arrays of blocks are functions of the block number.

The search takes the least counter whose digits have the target checksum. Its
bound depends on whether a stats object is active, but the counter it selects
does not, so `chainLengths` succeeds with the same lengths under every bound
that reaches that counter.
-/

namespace BitcoinPqc

variable (E : Build) (H : HashFns)

/-- `gen_chain`. -/
def genChain (inp : Block) (start steps : ℕ) (ctx : SpxCtx) (addr : Addr) :
    Traced Query (Block × Addr) :=
  Traced.forRange (min (start + steps) spxWotsW - start)
    (fun k s => do
      let addr := setHashAddr s.2 (start + k)
      let out ← thash H [s.1] ctx addr
      pure (out, addr))
    (inp, addr)

/-- The loop of `base_w` from the state `(in, bits, total)`, with `n` digits to
go. -/
def baseWLoop (input : Block) : (n inp bits : ℕ) → (total : UInt8) → List ℕ
  | 0, _, _, _ => []
  | n + 1, inp, bits, total =>
      let total := if bits = 0 then input.getD inp 0 else total
      let inp := if bits = 0 then inp + 1 else inp
      let bits := (if bits = 0 then bits + 8 else bits) - spxWotsLogw
      ((total.toNat >>> bits) &&& (spxWotsW - 1)) ::
        baseWLoop input n inp bits total

/-- `base_w`: the digits of `input` in base `w`. -/
def baseW (outLen : ℕ) (input : Block) : Vector ℕ outLen :=
  Vector.ofFn fun i => (baseWLoop input outLen 0 0 0).getD i.val 0

/-- The bytes hashed by `wotsc_hash_counter`, cut to a block. -/
def wotscCompressed (msg : Block) (counter : ℕ) : Block :=
  slice (H.sha256 (msg.toList ++
    [UInt8.ofNat (counter >>> 8), UInt8.ofNat counter])) 0 spxN

/-- The sum of `w - 1 - lengths[i]`. -/
def wotscChecksum (lengths : Vector ℕ 16) : ℕ :=
  lengths.toList.foldl (fun checksum d => checksum + (spxWotsW - 1 - d)) 0

/-- `wotsc_hash_counter`: the compressed message and its checksum. -/
def wotscHashCounter (msg : Block) (counter : ℕ) : Traced Query (Block × ℕ) :=
  let compressedMsg := wotscCompressed H msg counter
  let checksum := wotscChecksum (baseW spxWotsLen1 compressedMsg)
  Traced.ask (.wotscHash msg counter) (compressedMsg, checksum)

/-- The loop of `wotsc_compress_message_checked_bounded` at `counter`, where `n`
is `max_counter - counter`. -/
def wotscSearchLoop (msg : Block) : (n counter : ℕ) → ThreadState →
    Traced Query (Except Int (Block × ℕ × ℕ) × ThreadState)
  | n, counter, T => do
      let r ← wotscHashCounter H msg counter
      let attempts := counter + 1
      if r.2 = spxWotscTarget then
        pure (.ok (r.1, counter, r.2), T.recordWotscAttempts attempts)
      else
        match n with
        | 0 =>
            pure (.error signLimitExceeded,
              (T.recordWotscAttempts attempts).recordWotscCap)
        | n + 1 => wotscSearchLoop msg n (counter + 1) T

/-- `wotsc_compress_message_checked_bounded`: the compressed message, the counter
and the checksum, or the limit code. -/
def wotscCompressMessageCheckedBounded (msg : Block) (maxCounter : ℕ)
    (T : ThreadState) :
    Traced Query (Except Int (Block × ℕ × ℕ) × ThreadState) :=
  wotscSearchLoop H msg maxCounter 0 T

/-- The inclusive bound `wotsc_compress_message_checked` searches up to. -/
def wotscBound (T : ThreadState) : ℕ :=
  if T.signStats.isSome then E.wotscMaxCounter else 0xFFFF

/-- `wotsc_compress_message_checked`. -/
def wotscCompressMessageChecked (msg : Block) (T : ThreadState) :
    Traced Query (Except Int (Block × ℕ × ℕ) × ThreadState) :=
  wotscCompressMessageCheckedBounded H msg (wotscBound E T) T

/-- `chain_lengths`. -/
def chainLengths (msg : Block) (T : ThreadState) :
    Traced Query (Except Int (Vector ℕ 16) × ThreadState) := do
  let r ← wotscCompressMessageChecked E H msg T
  match r with
  | (.error result, T) => pure (.error result, T)
  | (.ok (compressedMsg, _, _), T) => pure (.ok (baseW spxWotsLen1 compressedMsg), T)

/-- The chain loop of `wots_pk_from_sig`. -/
def wotsPkChains {n : ℕ} (pk : ℕ → Block) (sig : Vector UInt8 n) (sigPtr : ℕ)
    (lengths : Vector ℕ 16) (ctx : SpxCtx) (addr : Addr) :
    Traced Query ((ℕ → Block) × Addr) :=
  Traced.forRange spxWotsLen
    (fun i s => do
      let addr := setChainAddr s.2 i
      let r ← genChain H (slice sig (sigPtr + i * spxN) spxN) (lengths.getD i 0)
        (spxWotsW - 1 - lengths.getD i 0) ctx addr
      pure (Function.update s.1 i r.1, r.2))
    (pk, addr)

/-- `wots_pk_from_sig`: the public key and the address buffer, or `-1`. -/
def wotsPkFromSig {n : ℕ} (pk : ℕ → Block) (sig : Vector UInt8 n) (sigPtr : ℕ)
    (msg : Block) (ctx : SpxCtx) (addr : Addr) (T : ThreadState) :
    Traced Query (Except Int ((ℕ → Block) × Addr) × ThreadState) := do
  let r ← chainLengths E H msg T
  match r with
  | (.error _, T) => pure (.error (-1), T)
  | (.ok lengths, T) => do
      let s ← wotsPkChains H pk sig sigPtr lengths ctx addr
      pure (.ok s, T)

end BitcoinPqc
