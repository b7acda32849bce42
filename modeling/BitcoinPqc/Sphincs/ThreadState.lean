import BitcoinPqc.Foundation.Traced
import BitcoinPqc.Sphincs.Params
import Mathlib.Tactic.Common

/-!
# Build configuration and thread-local state

`Build` holds what is fixed when the library is compiled and started: the two
signing caps, within the bounds the header enforces, and whether the vectorised
code is dispatched to. `ThreadState` holds the thread-local variables of
`utils.c` and `sign_stats.c`. A pointer to a buffer or an object is modelled by
what it points to, and the NULL pointer by `none`, so an installed stats object
is carried in the state while it is installed.

The read offset of the random source stays below its size; the modulo in the
copy loop keeps it so, and this is what makes the loop end. The loop records what it
reads of the source, as offsets and lengths.
-/

namespace BitcoinPqc

/-- Compile-time caps and the outcome of the CPU check. -/
structure Build where
  /-- `BITCOINPQC_FORSC_MAX_GRIND_ATTEMPTS`. -/
  forscMaxGrindAttempts : ℕ
  /-- `BITCOINPQC_WOTSC_MAX_COUNTER`. -/
  wotscMaxCounter : ℕ
  /-- `spx_has_avx2()`. -/
  hasAvx2 : Bool
  /-- Contents of uninitialised local buffers. -/
  uninit : ℕ → Block
  forsc_pos : 1 ≤ forscMaxGrindAttempts
  forsc_le : forscMaxGrindAttempts ≤ 0xFFFFFFFF
  wotsc_le : wotscMaxCounter ≤ 0xFFFF

/-- `bitcoin_pqc_sign_stats_t`. -/
@[ext] structure SignStats where
  forscAttempts : ℕ
  forscMaxAttempts : ℕ
  wotscAttempts : Vector ℕ 5
  wotscLayerCount : ℕ
  wotscMaxAttempts : ℕ
  wotscMaxObservedAttempts : ℕ
  capExceeded : ℕ
  deriving DecidableEq

/-- `BITCOIN_PQC_SIGN_LIMIT_NONE`. -/
@[simp] abbrev limitNone : ℕ := 0

/-- `BITCOIN_PQC_SIGN_LIMIT_FORSC`. -/
@[simp] abbrev limitForsc : ℕ := 1

/-- `BITCOIN_PQC_SIGN_LIMIT_WOTSC`. -/
@[simp] abbrev limitWotsc : ℕ := 2

/-- The thread-local variables. -/
@[ext] structure ThreadState where
  randomData : Option (List UInt8)
  randomDataSize : ℕ
  randomDataOffset : ℕ
  randomSourceFailed : Bool
  signStats : Option SignStats
  offset_lt : randomDataSize ≠ 0 → randomDataOffset < randomDataSize

namespace ThreadState

/-- A thread that has made no call yet. -/
def fresh : ThreadState where
  randomData := none
  randomDataSize := 0
  randomDataOffset := 0
  randomSourceFailed := false
  signStats := none
  offset_lt := fun h => absurd rfl h

/-- `slh_dsa_random_source_clear_failure`. -/
def clearFailure (T : ThreadState) : ThreadState :=
  { T with randomSourceFailed := false }

/-- `mark_random_source_failed`. -/
def markRandomSourceFailed (T : ThreadState) : ThreadState :=
  { T with randomSourceFailed := true }

/-- `slh_dsa_init_random_source`. -/
def initRandomSource (T : ThreadState) (data : Option (List UInt8)) (size : ℕ) :
    ThreadState :=
  clearFailure
    { T with
      randomData := data
      randomDataSize := size
      randomDataOffset := 0
      offset_lt := Nat.pos_of_ne_zero }

/-- `slh_dsa_restore_original_random`. -/
def restoreOriginalRandom (T : ThreadState) : ThreadState :=
  { T with
    randomData := none
    randomDataSize := 0
    randomDataOffset := 0
    offset_lt := fun h => absurd rfl h }

/-- The copy loop of `custom_slh_randombytes_impl` from position `position` of
the output on: the bytes it delivers and the final offset. -/
def randomCopyLoop (data : List UInt8) (size outlen position offset : ℕ)
    (h : offset < size) : Traced (ℕ × ℕ) (List UInt8 × { o : ℕ // o < size }) :=
  if hpos : position < outlen then do
    let toCopy := min (outlen - position) (size - offset)
    let copied ← .ask (offset, toCopy) ((data.drop offset).take toCopy)
    let rest ← randomCopyLoop data size outlen (position + toCopy)
      ((offset + toCopy) % size) (Nat.mod_lt _ (by omega))
    pure (copied ++ rest.1, rest.2)
  else pure ([], ⟨offset, h⟩)
termination_by outlen - position
decreasing_by omega

/-- `custom_slh_randombytes_impl(out, outlen)`, with the previous contents of
`out`. -/
def customSlhRandombytesImpl (out : Option (List UInt8)) (outlen : ℕ)
    (T : ThreadState) : Traced (ℕ × ℕ) (Option (List UInt8) × ThreadState) :=
  if outlen = 0 then pure (out, T)
  else
    match out with
    | none => pure (none, T.markRandomSourceFailed)
    | some out =>
      match T.randomData with
      | none =>
          pure (some (List.replicate outlen 0 ++ out.drop outlen),
            T.markRandomSourceFailed)
      | some data =>
          if hsize : T.randomDataSize = 0 then
            pure (some (List.replicate outlen 0 ++ out.drop outlen),
              T.markRandomSourceFailed)
          else do
            let r ← randomCopyLoop data T.randomDataSize outlen 0
              T.randomDataOffset (T.offset_lt hsize)
            pure (some (r.1 ++ out.drop outlen),
              { T with
                randomDataOffset := r.2.val
                offset_lt := fun _ => r.2.property })

/-- `randombytes(x, n)` into a local buffer of that size. -/
def randombytes (n : ℕ) (T : ThreadState) : Vector UInt8 n × ThreadState :=
  let r := (customSlhRandombytesImpl (some (List.replicate n 0)) n T).val
  (Vector.ofFn fun i => (r.1.getD []).getD i.val 0, r.2)

/-- `randombytes(x, SPX_N)` into a local buffer. -/
def randombytesBlock (T : ThreadState) : Block × ThreadState := T.randombytes spxN

@[simp] theorem signStats_randombytesBlock (T : ThreadState) :
    T.randombytesBlock.2.signStats = T.signStats := by
  simp only [randombytesBlock, randombytes, customSlhRandombytesImpl]
  rw [if_neg (by decide)]
  split
  · rfl
  · split
    · rfl
    · rfl

/-- An installed source never runs dry. -/
theorem randomSourceFailed_randombytesBlock {T : ThreadState}
    (hdata : T.randomData.isSome) (hsize : T.randomDataSize ≠ 0) :
    T.randombytesBlock.2.randomSourceFailed = T.randomSourceFailed := by
  obtain ⟨data, hdata⟩ := Option.isSome_iff_exists.mp hdata
  simp only [randombytesBlock, randombytes, customSlhRandombytesImpl]
  rw [if_neg (by decide)]
  split
  · next hnone =>
      rw [hdata] at hnone
      cases hnone
  · rw [dif_neg hsize]
    rfl

/-!
## Signing statistics
-/

/-- `bitcoin_pqc_sign_stats_begin(stats)` with a non-NULL object. -/
def signStatsBegin (E : Build) (T : ThreadState) : ThreadState :=
  { T with
    signStats := some
      { forscAttempts := 0
        forscMaxAttempts := E.forscMaxGrindAttempts
        wotscAttempts := Vector.replicate 5 0
        wotscLayerCount := 0
        wotscMaxAttempts := E.wotscMaxCounter + 1
        wotscMaxObservedAttempts := 0
        capExceeded := limitNone } }

/-- `bitcoin_pqc_sign_stats_end`. -/
def signStatsEnd (T : ThreadState) : ThreadState :=
  { T with signStats := none }

/-- `bitcoin_pqc_sign_stats_record_forsc_attempts`. -/
def recordForscAttempts (attempts : ℕ) (T : ThreadState) : ThreadState :=
  { T with signStats := T.signStats.map fun s => { s with forscAttempts := attempts } }

/-- `bitcoin_pqc_sign_stats_record_forsc_cap`. -/
def recordForscCap (T : ThreadState) : ThreadState :=
  { T with signStats := T.signStats.map fun s =>
      { s with capExceeded := s.capExceeded ||| limitForsc } }

/-- `bitcoin_pqc_sign_stats_record_wotsc_attempts`. -/
def recordWotscAttempts (attempts : ℕ) (T : ThreadState) : ThreadState :=
  { T with signStats := T.signStats.map fun s =>
      let layer := s.wotscLayerCount
      { s with
        wotscAttempts :=
          if h : layer < 5 then s.wotscAttempts.set layer attempts
          else s.wotscAttempts
        wotscLayerCount := layer + 1
        wotscMaxObservedAttempts :=
          if attempts > s.wotscMaxObservedAttempts then attempts
          else s.wotscMaxObservedAttempts } }

/-- `bitcoin_pqc_sign_stats_record_wotsc_cap`. -/
def recordWotscCap (T : ThreadState) : ThreadState :=
  { T with signStats := T.signStats.map fun s =>
      { s with capExceeded := s.capExceeded ||| limitWotsc } }

end ThreadState

end BitcoinPqc
