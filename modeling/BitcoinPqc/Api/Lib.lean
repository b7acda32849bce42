import BitcoinPqc.Api.BitcoinPqc

/-!
# The Rust functions

The functions of `lib.rs`. They call the public functions with structs and pointers of their
own, copy the results out of the buffers and release the buffers. A slice or a `Vec<u8>` is a
list, and its pointer is not NULL.

A `Process` has one heap and any number of threads with their thread-local variables. A `run`
is any sequence of calls, each by any thread.
-/

namespace BitcoinPqc

/-- The value of a `bitcoin_pqc_error_t`. -/
def BitcoinPqcError.code : BitcoinPqcError → ℤ
  | ok => 0
  | badArg => -1
  | badKey => -2
  | badSignature => -3
  | notImplemented => -4
  | signingLimit => -5
  | outOfMemory => -6

namespace Rust

variable (E : Build) (H : HashFns) (A : Allocator)

/-!
## Types
-/

/-- `PqcError`. -/
inductive PqcError
  | badArgument
  | insufficientData
  | badKey
  | badSignature
  | notImplemented
  | signingLimitExceeded
  | other (code : ℤ)
deriving DecidableEq

/-- `PublicKey`. -/
structure PublicKey where
  bytes : List UInt8
deriving DecidableEq

/-- `SecretKey`. -/
structure SecretKey where
  bytes : List UInt8
deriving DecidableEq

/-- `Signature`. -/
structure Signature where
  bytes : List UInt8
deriving DecidableEq

/-- `KeyPair`. -/
structure KeyPair where
  publicKey : PublicKey
  secretKey : SecretKey
deriving DecidableEq

/-- `SigningStats`. -/
structure SigningStats where
  forscAttempts : ℕ
  forscMaxAttempts : ℕ
  wotscAttempts : List ℕ
  wotscMaxAttempts : ℕ
  wotscMaxObservedAttempts : ℕ
  capExceeded : ℕ
deriving DecidableEq

/-- `SignWithStatsError`, and `SignInnerError` with the same fields. -/
structure SignWithStatsError where
  error : PqcError
  stats : Option SigningStats
deriving DecidableEq

/-- `PublicKey::try_from_slice`. -/
def PublicKey.tryFromSlice (bytes : List UInt8) : Except PqcError PublicKey :=
  if bytes.length ≠ slhDsaPublicKeySize then .error .badKey else .ok ⟨bytes⟩

/-- `SecretKey::try_from_slice`. -/
def SecretKey.tryFromSlice (bytes : List UInt8) : Except PqcError SecretKey :=
  if bytes.length ≠ slhDsaSecretKeySize then .error .badKey else .ok ⟨bytes⟩

/-- `Signature::try_from_slice`. -/
def Signature.tryFromSlice (bytes : List UInt8) : Except PqcError Signature :=
  if bytes.length ≠ slhDsaSignatureSize then .error .badSignature else .ok ⟨bytes⟩

/-- `SigningStats::from_raw`. -/
def SigningStats.fromRaw (raw : SignStats) : SigningStats :=
  let layerCount := min raw.wotscLayerCount 5
  { forscAttempts := raw.forscAttempts
    forscMaxAttempts := raw.forscMaxAttempts
    wotscAttempts := raw.wotscAttempts.toList.take layerCount
    wotscMaxAttempts := raw.wotscMaxAttempts
    wotscMaxObservedAttempts := raw.wotscMaxObservedAttempts
    capExceeded := raw.capExceeded }

/-- `pqc_error_from_code`. -/
def pqcErrorFromCode (error : ℤ) : PqcError :=
  if error = BitcoinPqcError.badArg.code then .badArgument
  else if error = BitcoinPqcError.badKey.code then .badKey
  else if error = BitcoinPqcError.badSignature.code then .badSignature
  else if error = BitcoinPqcError.notImplemented.code then .notImplemented
  else if error = BitcoinPqcError.signingLimit.code then .signingLimitExceeded
  else .other error

/-- `map_error`. -/
def mapError (error : ℤ) : Except PqcError Unit :=
  if error = BitcoinPqcError.ok.code then .ok () else .error (pqcErrorFromCode error)

/-!
## Functions
-/

/-- What a function returns and leaves. -/
structure Return (α : Type) where
  value : α
  heap : Heap
  T : ThreadState

/-- `std::slice::from_raw_parts(p, len).to_vec()`. -/
def toVec (heap : Heap) (p : Option ℕ) (len : ℕ) : List UInt8 := (heap.load p).take len

/-- `generate_keypair` after the call: copy the keys out and release the buffers. -/
def generateKeypairCalled (r : KeygenResult) : Return (Except PqcError KeyPair) :=
  if r.error ≠ .ok then
    let freed := bitcoinPqcKeypairFree r.keypair r.heap
    let value := do
      mapError r.error.code
      .error (.other r.error.code)
    ⟨value, freed.2, r.T⟩
  else
    let keypair := r.keypair.getD Keypair.empty
    let publicKey : PublicKey := ⟨toVec r.heap keypair.publicKey keypair.publicKeySize⟩
    let secretKey : SecretKey := ⟨toVec r.heap keypair.secretKey keypair.secretKeySize⟩
    let freed := bitcoinPqcKeypairFree r.keypair r.heap
    ⟨.ok ⟨publicKey, secretKey⟩, freed.2, r.T⟩

/-- `generate_keypair`. -/
def generateKeypair (randomData : List UInt8) (heap : Heap) (T : ThreadState) :
    Return (Except PqcError KeyPair) :=
  if randomData.length < 128 then ⟨.error .insufficientData, heap, T⟩
  else
    generateKeypairCalled (bitcoinPqcKeygen E H A (some Keypair.empty) (some randomData)
      randomData.length heap T)

/-- `sign_inner` after the call: copy the signature out and release the buffer. -/
def signInnerCalled (r : SignImplResult) :
    Return (Except SignWithStatsError (Signature × Option SigningStats)) :=
  let mappedStats := r.stats.map SigningStats.fromRaw
  let freed := bitcoinPqcSignatureFree r.signature r.heap
  if r.error ≠ .ok then
    ⟨.error ⟨pqcErrorFromCode r.error.code, mappedStats⟩, freed.2, r.T⟩
  else
    let signature := r.signature.getD .empty
    let sig : Signature := ⟨toVec r.heap signature.signature signature.signatureSize⟩
    ⟨.ok (sig, mappedStats), freed.2, r.T⟩

/-- `sign_inner`. -/
def signInner (secretKey : SecretKey) (message : List UInt8) (stats : Option SignStats)
    (heap : Heap) (T : ThreadState) :
    Return (Except SignWithStatsError (Signature × Option SigningStats)) :=
  if secretKey.bytes.length ≠ slhDsaSecretKeySize then ⟨.error ⟨.badKey, none⟩, heap, T⟩
  else if stats.isNone then
    signInnerCalled (bitcoinPqcSign E H A (some secretKey.bytes) secretKey.bytes.length
      (some message) message.length (some .empty) heap T)
  else
    signInnerCalled (bitcoinPqcSignWithStats E H A (some secretKey.bytes)
      secretKey.bytes.length (some message) message.length (some .empty) stats heap T)

/-- `sign`. -/
def sign (secretKey : SecretKey) (message : List UInt8) (heap : Heap) (T : ThreadState) :
    Return (Except PqcError Signature) :=
  let r := signInner E H A secretKey message none heap T
  ⟨(r.value.map Prod.fst).mapError SignWithStatsError.error, r.heap, r.T⟩

/-- The struct that `sign_with_stats` passes on. -/
def zeroStats : SignStats := ⟨0, 0, Vector.replicate 5 0, 0, 0, 0, 0⟩

/-- `sign_with_stats`. It returns nothing where `expect` panics. -/
def signWithStats (secretKey : SecretKey) (message : List UInt8) (heap : Heap)
    (T : ThreadState) :
    Return (Option (Except SignWithStatsError (Signature × SigningStats))) :=
  let r := signInner E H A secretKey message (some zeroStats) heap T
  let value : Option (Except SignWithStatsError (Signature × SigningStats)) :=
    match r.value with
    | .ok (signature, stats) => stats.map fun stats => .ok (signature, stats)
    | .error error => some (.error ⟨error.error, error.stats⟩)
  ⟨value, r.heap, r.T⟩

/-- `verify`. -/
def verify (publicKey : PublicKey) (message : List UInt8) (signature : Signature)
    (T : ThreadState) : Except PqcError Unit × ThreadState :=
  if publicKey.bytes.length ≠ slhDsaPublicKeySize then (.error .badKey, T)
  else if signature.bytes.length ≠ slhDsaSignatureSize then (.error .badSignature, T)
  else
    let r := bitcoinPqcVerify E H (some publicKey.bytes) publicKey.bytes.length
      (some message) message.length (some signature.bytes) signature.bytes.length T
    (mapError r.1.code, r.2)

/-!
## Runs
-/

/-- The heap and the thread-local variables of every thread. -/
structure Process where
  heap : Heap
  threads : ℕ → ThreadState

/-- A process that has not called the library yet. -/
def Process.start : Process := ⟨Heap.empty, fun _ => .fresh⟩

/-- The functions with their arguments. -/
inductive Call
  | generateKeypair (randomData : List UInt8)
  | sign (secretKey : SecretKey) (message : List UInt8)
  | signWithStats (secretKey : SecretKey) (message : List UInt8)
  | verify (publicKey : PublicKey) (message : List UInt8) (signature : Signature)

/-- The process after thread `t` has made the call. -/
def Process.step (s : Process) (t : ℕ) : Call → Process
  | .generateKeypair randomData =>
      let r := Rust.generateKeypair E H A randomData s.heap (s.threads t)
      ⟨r.heap, Function.update s.threads t r.T⟩
  | .sign secretKey message =>
      let r := Rust.sign E H A secretKey message s.heap (s.threads t)
      ⟨r.heap, Function.update s.threads t r.T⟩
  | .signWithStats secretKey message =>
      let r := Rust.signWithStats E H A secretKey message s.heap (s.threads t)
      ⟨r.heap, Function.update s.threads t r.T⟩
  | .verify publicKey message signature =>
      let r := Rust.verify E H publicKey message signature (s.threads t)
      ⟨s.heap, Function.update s.threads t r.2⟩

/-- The process after a sequence of calls by any threads. -/
def Process.run (s : Process) (calls : List (ℕ × Call)) : Process :=
  calls.foldl (fun s c => s.step E H A c.1 c.2) s

end Rust

end BitcoinPqc
