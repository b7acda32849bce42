import BitcoinPqc.Api.SlhDsa

/-!
# The public functions

The code of `bitcoinpqc.c`. The structs hold heap addresses; a function that fills or
releases a struct is given its contents and returns them with the heap. The hash calls
are not recorded at this level.

The buffer of a new signature and those of a new key pair are written through the heap:
the inner function receives what the buffer holds and what it leaves is stored back.
-/

namespace BitcoinPqc

variable (E : Build) (H : HashFns) (A : Allocator)

/-- `bitcoin_pqc_error_t`. -/
inductive BitcoinPqcError where
  | ok
  | badArg
  | badKey
  | badSignature
  | notImplemented
  | signingLimit
  | outOfMemory
  deriving DecidableEq

/-- `bitcoin_pqc_keypair_t`. -/
@[ext] structure Keypair where
  publicKey : Option ℕ
  secretKey : Option ℕ
  publicKeySize : ℕ
  secretKeySize : ℕ
  deriving DecidableEq

/-- `bitcoin_pqc_signature_t`. -/
@[ext] structure Signature where
  signature : Option ℕ
  signatureSize : ℕ
  deriving DecidableEq

/-- A key pair struct with all bytes zero. -/
def Keypair.empty : Keypair := ⟨none, none, 0, 0⟩

/-- A signature struct with all bytes zero. -/
def Signature.empty : Signature := ⟨none, 0⟩

/-- `EMPTY_MESSAGE`. -/
def emptyMessage : List UInt8 := [0]

/-- `keypair_output_is_empty`. -/
def keypairOutputIsEmpty (keypair : Keypair) : Bool :=
  keypair.publicKey = none ∧ keypair.secretKey = none ∧ keypair.publicKeySize = 0 ∧
    keypair.secretKeySize = 0

/-- `signature_output_is_empty`. -/
def signatureOutputIsEmpty (signature : Signature) : Bool :=
  signature.signature = none ∧ signature.signatureSize = 0

theorem keypairOutputIsEmpty_iff (keypair : Keypair) :
    keypairOutputIsEmpty keypair = true ↔ keypair = Keypair.empty := by
  rw [keypairOutputIsEmpty, decide_eq_true_iff, Keypair.ext_iff]
  rfl

theorem signatureOutputIsEmpty_iff (signature : Signature) :
    signatureOutputIsEmpty signature = true ↔ signature = Signature.empty := by
  rw [signatureOutputIsEmpty, decide_eq_true_iff, Signature.ext_iff]
  rfl

/-!
## Key pairs
-/

/-- What `bitcoin_pqc_keygen` returns and leaves. -/
structure KeygenResult where
  error : BitcoinPqcError
  keypair : Option Keypair
  heap : Heap
  T : ThreadState

/-- `bitcoin_pqc_keygen` after its checks, with the answers to its two requests for
memory. -/
def bitcoinPqcKeygenAllocated (keypair : Option Keypair) (randomData : Option (List UInt8))
    (randomDataSize : ℕ) (pk sk : Option ℕ) (heap : Heap) (T : ThreadState) :
    KeygenResult :=
  if pk.isNone ∨ sk.isNone then
    let heap := heap.zero pk slhDsaPublicKeySize
    let heap := heap.zero sk slhDsaSecretKeySize
    let heap := heap.free pk
    let heap := heap.free sk
    ⟨.outOfMemory, keypair, heap, T⟩
  else
    let r := (slhDsaKeygen E H A (some (bytesAt 32 (heap.load pk)))
      (some (bytesAt 64 (heap.load sk))) randomData randomDataSize heap T).val
    let heap := r.heap.store pk (r.pk.elim [] Vector.toList)
    let heap := heap.store sk (r.sk.elim [] Vector.toList)
    if r.code ≠ 0 then
      let heap := heap.zero pk slhDsaPublicKeySize
      let heap := heap.zero sk slhDsaSecretKeySize
      let heap := heap.free pk
      let heap := heap.free sk
      if r.code = slhDsaKeygenErrorOutOfMemory then ⟨.outOfMemory, keypair, heap, r.T⟩
      else ⟨.badKey, keypair, heap, r.T⟩
    else ⟨.ok, some ⟨pk, sk, slhDsaPublicKeySize, slhDsaSecretKeySize⟩, heap, r.T⟩

/-- `bitcoin_pqc_keygen`. -/
def bitcoinPqcKeygen (keypair : Option Keypair) (randomData : Option (List UInt8))
    (randomDataSize : ℕ) (heap : Heap) (T : ThreadState) : KeygenResult :=
  if keypair.isNone ∨ randomData.isNone then ⟨.badArg, keypair, heap, T⟩
  else if ¬ keypair.all keypairOutputIsEmpty then ⟨.badArg, keypair, heap, T⟩
  else if randomDataSize < slhDsaKeygenRandomDataMinSize then ⟨.badArg, keypair, heap, T⟩
  else
    let (pk, heap) := heap.malloc A slhDsaPublicKeySize
    let (sk, heap) := heap.malloc A slhDsaSecretKeySize
    bitcoinPqcKeygenAllocated E H A keypair randomData randomDataSize pk sk heap T

/-- `bitcoin_pqc_keypair_free`. -/
def bitcoinPqcKeypairFree (keypair : Option Keypair) (heap : Heap) :
    Option Keypair × Heap :=
  match keypair with
  | none => (none, heap)
  | some keypair =>
      let heap := heap.zero keypair.publicKey keypair.publicKeySize
      let heap := heap.free keypair.publicKey
      let heap := heap.zero keypair.secretKey keypair.secretKeySize
      let heap := heap.free keypair.secretKey
      (some ⟨none, none, 0, 0⟩, heap)

/-- `bitcoin_pqc_secret_key_validate`. -/
def bitcoinPqcSecretKeyValidate (secretKey : Option (List UInt8)) (secretKeySize : ℕ)
    (T : ThreadState) : BitcoinPqcError × ThreadState :=
  if secretKey.isNone then (.badArg, T)
  else
    let r := (slhDsaSecretKeyValidate E H secretKey secretKeySize T).val
    if r.1 ≠ 0 then (.badKey, r.2) else (.ok, r.2)

/-!
## Signatures
-/

/-- What `bitcoin_pqc_sign_impl` returns and leaves. -/
structure SignImplResult where
  error : BitcoinPqcError
  signature : Option Signature
  stats : Option SignStats
  heap : Heap
  T : ThreadState

/-- `bitcoin_pqc_sign_impl` after its checks, with the answer to its request for memory:
sign into the buffer and verify the result. -/
def bitcoinPqcSignAllocated (secretKey : List UInt8) (secretKeySize : ℕ)
    (messagePtr : List UInt8) (messageSize : ℕ) (signature : Option Signature)
    (stats : Option SignStats) (sig : Option ℕ) (heap : Heap) (T : ThreadState) :
    SignImplResult :=
  let derivedPublicKey := secretKey.drop (secretKeySize - slhDsaPublicKeySize)
  if sig.isNone then ⟨.outOfMemory, signature, stats, heap, T⟩
  else
    let r := (slhDsaSignWithStats E H (some (bytesAt 3680 (heap.load sig))) (some 0)
      (some messagePtr) messageSize (some secretKey) stats T).val
    let heap := heap.store sig (r.sig.elim [] Vector.toList)
    let actualSigLen := r.siglen.getD 0
    if r.code ≠ 0 ∨ actualSigLen ≠ slhDsaSignatureSize then
      let heap := heap.zero sig slhDsaSignatureSize
      let heap := heap.free sig
      if r.code = signLimitExceeded then ⟨.signingLimit, signature, r.stats, heap, r.T⟩
      else if r.code = slhDsaSignErrorBadKey then ⟨.badKey, signature, r.stats, heap, r.T⟩
      else ⟨.badSignature, signature, r.stats, heap, r.T⟩
    else
      let v := (slhDsaVerify E H (some (heap.load sig)) actualSigLen (some messagePtr)
        messageSize (some derivedPublicKey) r.T).val
      if v.1 ≠ 0 then
        let heap := heap.zero sig slhDsaSignatureSize
        let heap := heap.free sig
        ⟨.badSignature, signature, r.stats, heap, v.2⟩
      else ⟨.ok, some ⟨sig, actualSigLen⟩, r.stats, heap, v.2⟩

/-- `bitcoin_pqc_sign_impl`. -/
def bitcoinPqcSignImpl (secretKey : Option (List UInt8)) (secretKeySize : ℕ)
    (message : Option (List UInt8)) (messageSize : ℕ) (signature : Option Signature)
    (stats : Option SignStats) (heap : Heap) (T : ThreadState) : SignImplResult :=
  if secretKey.isNone ∨ signature.isNone then ⟨.badArg, signature, stats, heap, T⟩
  else if message.isNone ∧ messageSize ≠ 0 then ⟨.badArg, signature, stats, heap, T⟩
  else if ¬ signature.all signatureOutputIsEmpty then ⟨.badArg, signature, stats, heap, T⟩
  else if secretKeySize ≠ slhDsaSecretKeySize then ⟨.badKey, signature, stats, heap, T⟩
  else
    let (sig, heap) := heap.malloc A slhDsaSignatureSize
    bitcoinPqcSignAllocated E H (secretKey.getD []) secretKeySize
      (message.getD emptyMessage) messageSize signature stats sig heap T

/-- `bitcoin_pqc_sign`. -/
def bitcoinPqcSign (secretKey : Option (List UInt8)) (secretKeySize : ℕ)
    (message : Option (List UInt8)) (messageSize : ℕ) (signature : Option Signature)
    (heap : Heap) (T : ThreadState) : SignImplResult :=
  bitcoinPqcSignImpl E H A secretKey secretKeySize message messageSize signature none heap T

/-- `bitcoin_pqc_sign_with_stats`. -/
def bitcoinPqcSignWithStats (secretKey : Option (List UInt8)) (secretKeySize : ℕ)
    (message : Option (List UInt8)) (messageSize : ℕ) (signature : Option Signature)
    (stats : Option SignStats) (heap : Heap) (T : ThreadState) : SignImplResult :=
  bitcoinPqcSignImpl E H A secretKey secretKeySize message messageSize signature stats heap T

/-- `bitcoin_pqc_signature_free`. -/
def bitcoinPqcSignatureFree (signature : Option Signature) (heap : Heap) :
    Option Signature × Heap :=
  match signature with
  | none => (none, heap)
  | some signature =>
      let heap := heap.zero signature.signature signature.signatureSize
      let heap := heap.free signature.signature
      (some ⟨none, 0⟩, heap)

/-- `bitcoin_pqc_verify`. -/
def bitcoinPqcVerify (publicKey : Option (List UInt8)) (publicKeySize : ℕ)
    (message : Option (List UInt8)) (messageSize : ℕ) (signature : Option (List UInt8))
    (signatureSize : ℕ) (T : ThreadState) : BitcoinPqcError × ThreadState :=
  if publicKey.isNone ∨ signature.isNone then (.badArg, T)
  else if message.isNone ∧ messageSize ≠ 0 then (.badArg, T)
  else if publicKeySize ≠ slhDsaPublicKeySize then (.badKey, T)
  else if signatureSize ≠ slhDsaSignatureSize then (.badSignature, T)
  else
    let r := (slhDsaVerify E H signature signatureSize (some (message.getD emptyMessage))
      messageSize publicKey T).val
    if r.1 ≠ 0 then (.badSignature, r.2) else (.ok, r.2)

end BitcoinPqc
