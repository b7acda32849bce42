import BitcoinPqc.Api.BitcoinPqc

/-!
# Runs of public calls

A `Machine` is what a thread can see: any number of key pair and signature structs, the
heap and its own thread-local variables. A `Call` is a public function with its
arguments; a struct argument is the number of a struct or NULL. `Machine.step` makes
one call, and `Machine.run` makes a sequence of them.
-/

namespace BitcoinPqc

/-- The structs, the heap and the thread-local variables. -/
@[ext] structure Machine where
  keypairs : ℕ → Keypair
  signatures : ℕ → Signature
  heap : Heap
  thread : ThreadState

/-- The public functions with their arguments. -/
inductive Call where
  | keygen (keypair : Option ℕ) (randomData : Option (List UInt8)) (randomDataSize : ℕ)
  | keypairFree (keypair : Option ℕ)
  | secretKeyValidate (secretKey : Option (List UInt8)) (secretKeySize : ℕ)
  | sign (secretKey : Option (List UInt8)) (secretKeySize : ℕ)
      (message : Option (List UInt8)) (messageSize : ℕ) (signature : Option ℕ)
  | signWithStats (secretKey : Option (List UInt8)) (secretKeySize : ℕ)
      (message : Option (List UInt8)) (messageSize : ℕ) (signature : Option ℕ)
      (stats : Option SignStats)
  | signatureFree (signature : Option ℕ)
  | verify (publicKey : Option (List UInt8)) (publicKeySize : ℕ)
      (message : Option (List UInt8)) (messageSize : ℕ) (signature : Option (List UInt8))
      (signatureSize : ℕ)
  | slhKeygen (pk : Option (Vector UInt8 32)) (sk : Option (Vector UInt8 64))
      (randomData : Option (List UInt8)) (randomDataSize : ℕ)
  | slhSecretKeyValidate (sk : Option (List UInt8)) (skSize : ℕ)
  | slhSign (sig : Option (Vector UInt8 3680)) (siglen : Option ℕ)
      (m : Option (List UInt8)) (mlen : ℕ) (sk : Option (List UInt8))
  | slhSignWithStats (sig : Option (Vector UInt8 3680)) (siglen : Option ℕ)
      (m : Option (List UInt8)) (mlen : ℕ) (sk : Option (List UInt8))
      (stats : Option SignStats)
  | slhVerify (sig : Option (List UInt8)) (siglen : ℕ) (m : Option (List UInt8))
      (mlen : ℕ) (pk : Option (List UInt8))
  | slhDerandomize (seed : Option (Vector UInt8 64)) (m : Option (List UInt8)) (mlen : ℕ)
      (sk : Option (List UInt8))

/-- What a call returns and leaves in the caller's output buffers. -/
inductive Outcome where
  | void
  | error (error : BitcoinPqcError) (stats : Option SignStats)
  | code (code : Int)
  | keys (code : Int) (pk : Option (Vector UInt8 32)) (sk : Option (Vector UInt8 64))
  | signature (code : Int) (sig : Option (Vector UInt8 3680)) (siglen : Option ℕ)
      (stats : Option SignStats)
  | seed (seed : Option (Vector UInt8 64))

/-- A table of structs after a call that was given struct `i` and left `r` in it. -/
def storeStruct {α : Type} (table : ℕ → α) (i : Option ℕ) (r : Option α) : ℕ → α :=
  match i, r with
  | some i, some r => Function.update table i r
  | _, _ => table

namespace Machine

variable (E : Build) (H : HashFns) (A : Allocator)

/-- One call. -/
def step (s : Machine) : Call → Outcome × Machine
  | .keygen keypair randomData randomDataSize =>
      let r := bitcoinPqcKeygen E H A (keypair.map s.keypairs) randomData randomDataSize
        s.heap s.thread
      (.error r.error none,
        { s with
          keypairs := storeStruct s.keypairs keypair r.keypair
          heap := r.heap
          thread := r.T })
  | .keypairFree keypair =>
      let r := bitcoinPqcKeypairFree (keypair.map s.keypairs) s.heap
      (.void, { s with keypairs := storeStruct s.keypairs keypair r.1, heap := r.2 })
  | .secretKeyValidate secretKey secretKeySize =>
      let r := bitcoinPqcSecretKeyValidate E H secretKey secretKeySize s.thread
      (.error r.1 none, { s with thread := r.2 })
  | .sign secretKey secretKeySize message messageSize signature =>
      let r := bitcoinPqcSign E H A secretKey secretKeySize message messageSize
        (signature.map s.signatures) s.heap s.thread
      (.error r.error r.stats,
        { s with
          signatures := storeStruct s.signatures signature r.signature
          heap := r.heap
          thread := r.T })
  | .signWithStats secretKey secretKeySize message messageSize signature stats =>
      let r := bitcoinPqcSignWithStats E H A secretKey secretKeySize message messageSize
        (signature.map s.signatures) stats s.heap s.thread
      (.error r.error r.stats,
        { s with
          signatures := storeStruct s.signatures signature r.signature
          heap := r.heap
          thread := r.T })
  | .signatureFree signature =>
      let r := bitcoinPqcSignatureFree (signature.map s.signatures) s.heap
      (.void, { s with signatures := storeStruct s.signatures signature r.1, heap := r.2 })
  | .verify publicKey publicKeySize message messageSize signature signatureSize =>
      let r := bitcoinPqcVerify E H publicKey publicKeySize message messageSize signature
        signatureSize s.thread
      (.error r.1 none, { s with thread := r.2 })
  | .slhKeygen pk sk randomData randomDataSize =>
      let r := (slhDsaKeygen E H A pk sk randomData randomDataSize s.heap s.thread).val
      (.keys r.code r.pk r.sk, { s with heap := r.heap, thread := r.T })
  | .slhSecretKeyValidate sk skSize =>
      let r := (slhDsaSecretKeyValidate E H sk skSize s.thread).val
      (.code r.1, { s with thread := r.2 })
  | .slhSign sig siglen m mlen sk =>
      let r := (slhDsaSign E H sig siglen m mlen sk s.thread).val
      (.signature r.code r.sig r.siglen r.stats, { s with thread := r.T })
  | .slhSignWithStats sig siglen m mlen sk stats =>
      let r := (slhDsaSignWithStats E H sig siglen m mlen sk stats s.thread).val
      (.signature r.code r.sig r.siglen r.stats, { s with thread := r.T })
  | .slhVerify sig siglen m mlen pk =>
      let r := (slhDsaVerify E H sig siglen m mlen pk s.thread).val
      (.code r.1, { s with thread := r.2 })
  | .slhDerandomize seed m mlen sk =>
      let r := slhDsaDerandomize H seed m mlen sk s.thread
      (.seed r.1, { s with thread := r.2 })

/-- A sequence of calls. -/
def run (s : Machine) : List Call → Machine
  | [] => s
  | c :: calls => run (s.step E H A c).2 calls

theorem run_invariant {I : Machine → Prop}
    (hstep : ∀ s c, I s → I (s.step E H A c).2) (calls : List Call) {s : Machine}
    (h : I s) : I (s.run E H A calls) := by
  induction calls generalizing s with
  | nil => exact h
  | cons c calls ih => exact ih (hstep s c h)

end Machine

end BitcoinPqc
