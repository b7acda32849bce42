import BitcoinPqc.Properties.Ownership
import BitcoinPqc.Properties.SignRequests

/-!
# Calls repeated on another machine

A public call that is made after any run of calls is compared with the same call made first
on another thread, in another heap, with another allocator that fills its buffers with other
bytes, and in a build whose uninitialised locals hold other bytes.

`Call.asks` says what a call comes to, as a function of its arguments, of what the caller
finds in the struct that it passes, and of the answers to the requests for memory. Every call
on a clean thread is a run of it. So when the requests of two calls are granted or refused
alike, both return the same and leave the same bytes in the buffers that they return.
-/

namespace BitcoinPqc

variable {E E' : Build} {H : HashFns} {A A' : Allocator} {T T' : ThreadState}

theorem slhDsaSecretKeyValidate_build (E E' : Build) (H : HashFns) (sk : Option (List UInt8))
    (skSize : ℕ) (T T' : ThreadState) :
    (slhDsaSecretKeyValidate E H sk skSize T).val.1 =
      (slhDsaSecretKeyValidate E' H sk skSize T').val.1 := by
  rw [slhDsaSecretKeyValidate, slhDsaSecretKeyValidate]
  cases sk with
  | none => rfl
  | some sk =>
      by_cases hsize : skSize = slhDsaSecretKeySize
      · have hcode (E : Build) (T : ThreadState) :=
          (slhDsaSecretKeyValidate_sat E H sk (callsOk_true E H _) T).2
        rw [hsize, hcode E T, hcode E' T']
      · simp only [slhDsaSecretKeyValidateUnburned]
        rw [if_pos hsize, if_pos hsize]
        rfl

theorem bitcoinPqcSecretKeyValidate_build (E E' : Build) (H : HashFns)
    (secretKey : Option (List UInt8)) (secretKeySize : ℕ) (T T' : ThreadState) :
    (bitcoinPqcSecretKeyValidate E H secretKey secretKeySize T).1 =
      (bitcoinPqcSecretKeyValidate E' H secretKey secretKeySize T').1 := by
  rw [bitcoinPqcSecretKeyValidate, bitcoinPqcSecretKeyValidate]
  dsimp only
  rw [slhDsaSecretKeyValidate_build E E' H _ _ _ T']
  split
  · rfl
  · split
    · rfl
    · rfl

/-- What the caller finds in the struct that it passes, if it passes one. -/
def Machine.read (s : Machine) : Call → Option Reading
  | .keygen keypair _ _ => keypair.map fun i => (s.keypairs i).read s.heap
  | .keypairFree keypair => keypair.map fun i => (s.keypairs i).read s.heap
  | .sign _ _ _ _ signature => signature.map fun i => (s.signatures i).read s.heap
  | .signWithStats _ _ _ _ signature _ => signature.map fun i => (s.signatures i).read s.heap
  | .signatureFree signature => signature.map fun i => (s.signatures i).read s.heap
  | _ => none

namespace Call

/-- A call that reads the entropy finds as many bytes as the caller says. -/
def InBounds : Call → Prop
  | .keygen _ randomData randomDataSize => EntropyInBounds randomData randomDataSize
  | .slhKeygen _ _ randomData randomDataSize => EntropyInBounds randomData randomDataSize
  | _ => True

variable (E : Build) (H : HashFns)

/-- What a call on a clean thread comes to: what it returns, and what the caller finds
afterwards in the struct that it passed. -/
def asks (c : Call) (struct : Option Reading) : Asks (Outcome × Option Reading) :=
  match c with
  | .keygen _ randomData randomDataSize =>
      (bitcoinPqcKeygenAsks H struct randomData randomDataSize).map fun r =>
        (.error r.1 none, r.2)
  | .keypairFree _ => .done (.void, struct.map fun _ => Keypair.emptyReading)
  | .secretKeyValidate secretKey secretKeySize =>
      .done (.error (bitcoinPqcSecretKeyValidate E H secretKey secretKeySize .fresh).1 none,
        none)
  | .sign secretKey secretKeySize message messageSize _ =>
      (bitcoinPqcSignImplAsks E H secretKey secretKeySize message messageSize struct
        none).map fun r => (.error r.1 r.2.1, r.2.2)
  | .signWithStats secretKey secretKeySize message messageSize _ stats =>
      (bitcoinPqcSignImplAsks E H secretKey secretKeySize message messageSize struct
        stats).map fun r => (.error r.1 r.2.1, r.2.2)
  | .signatureFree _ => .done (.void, struct.map fun _ => Signature.emptyReading)
  | .verify publicKey publicKeySize message messageSize signature signatureSize =>
      .done (.error (bitcoinPqcVerify E H publicKey publicKeySize message messageSize signature
        signatureSize .fresh).1 none, none)
  | .slhKeygen pk sk randomData randomDataSize =>
      (slhDsaKeygenAsks H pk sk randomData randomDataSize).map fun outcome => (outcome, none)
  | .slhSecretKeyValidate sk skSize =>
      .done (.code (slhDsaSecretKeyValidate E H sk skSize .fresh).val.1, none)
  | .slhSign sig siglen m mlen sk =>
      let r := (slhDsaSign E H sig siglen m mlen sk .fresh).val
      .done (.signature r.code r.sig r.siglen r.stats, none)
  | .slhSignWithStats sig siglen m mlen sk stats =>
      let r := (slhDsaSignWithStats E H sig siglen m mlen sk stats .fresh).val
      .done (.signature r.code r.sig r.siglen r.stats, none)
  | .slhVerify sig siglen m mlen pk =>
      .done (.code (slhDsaVerify E H sig siglen m mlen pk .fresh).val.1, none)
  | .slhDerandomize seed m mlen sk =>
      .done (.seed (slhDsaDerandomize H seed m mlen sk .fresh).1, none)

end Call

theorem map_storeStruct {α β : Type} (table : ℕ → α) {i : Option ℕ} {r : Option α}
    (h : r.isSome = i.isSome) (f : α → β) :
    (i.map fun j => f (storeStruct table i r j)) = r.map f := by
  cases i with
  | none =>
      cases r with
      | none => rfl
      | some r => cases h
  | some i =>
      cases r with
      | none => cases h
      | some r => simp [storeStruct]

theorem isSome_keypair_bitcoinPqcKeygen (E : Build) (H : HashFns) (A : Allocator)
    (keypair : Option Keypair) (randomData : Option (List UInt8)) (randomDataSize : ℕ)
    (heap : Heap) (T : ThreadState) :
    (bitcoinPqcKeygen E H A keypair randomData randomDataSize heap T).keypair.isSome =
      keypair.isSome := by
  rw [bitcoinPqcKeygen]
  split
  · rfl
  · next hnull =>
      cases keypair with
      | none => exact absurd (Or.inl rfl) hnull
      | some k =>
          split
          · rfl
          · split
            · rfl
            · dsimp only
              rw [bitcoinPqcKeygenAllocated]
              split
              · rfl
              · dsimp only
                split
                · split
                  · rfl
                  · rfl
                · rfl

theorem isSome_signature_bitcoinPqcSignImpl (E : Build) (H : HashFns) (A : Allocator)
    (secretKey : Option (List UInt8)) (secretKeySize : ℕ) (message : Option (List UInt8))
    (messageSize : ℕ) (signature : Option Signature) (stats : Option SignStats) (heap : Heap)
    (T : ThreadState) :
    (bitcoinPqcSignImpl E H A secretKey secretKeySize message messageSize signature stats heap
      T).signature.isSome = signature.isSome := by
  rw [bitcoinPqcSignImpl]
  split
  · rfl
  · next hnull =>
      cases signature with
      | none => exact absurd (Or.inr rfl) hnull
      | some g =>
          split
          · rfl
          · split
            · rfl
            · split
              · rfl
              · dsimp only
                rw [bitcoinPqcSignAllocated]
                dsimp only
                split
                · rfl
                · split
                  · split
                    · rfl
                    · split
                      · rfl
                      · rfl
                  · split
                    · rfl
                    · rfl

theorem SameCaps.refl (E : Build) : SameCaps E E := ⟨rfl, rfl⟩

namespace Machine

/-- The answers to the requests for memory that a call makes. -/
def answers (E : Build) (H : HashFns) (A : Allocator) (s : Machine) (c : Call) : List Bool :=
  s.heap.answersSince (s.step E H A c).2.heap

theorem runs_of_answers {s : Machine} {c : Call} {l : List Bool}
    (hl : (s.step E H A c).2.heap.answers = s.heap.answers ++ l)
    {x : Asks (Outcome × Option Reading)}
    (hruns : x.Runs l ((s.step E H A c).1, (s.step E H A c).2.read c)) :
    x.Runs (s.answers E H A c) ((s.step E H A c).1, (s.step E H A c).2.read c) := by
  rwa [answers, Heap.answersSince_eq hl]

theorem runs_done {s : Machine} {c : Call} {x : Outcome × Option Reading}
    (hheap : (s.step E H A c).2.heap.answers = s.heap.answers)
    (hx : x = ((s.step E H A c).1, (s.step E H A c).2.read c)) :
    (Asks.done x).Runs (s.answers E H A c)
      ((s.step E H A c).1, (s.step E H A c).2.read c) := by
  refine runs_of_answers (hheap.trans (List.append_nil _).symm) ?_
  rw [hx]
  exact Asks.Runs.done _

theorem step_runs_keygen (E E' : Build) (s : Machine) (keypair : Option ℕ)
    {randomData : Option (List UInt8)} {randomDataSize : ℕ}
    (hlen : EntropyInBounds randomData randomDataSize) :
    let c := Call.keygen keypair randomData randomDataSize
    (c.asks E H (s.read c)).Runs (s.answers E' H A c)
      ((s.step E' H A c).1, (s.step E' H A c).2.read c) := by
  obtain ⟨l, hl, hruns⟩ := bitcoinPqcKeygen_runs (H := H) (A := A) E'
    (keypair.map s.keypairs) hlen s.heap s.thread
  have hsome := isSome_keypair_bitcoinPqcKeygen E' H A (keypair.map s.keypairs) randomData
    randomDataSize s.heap s.thread
  rw [Option.isSome_map] at hsome
  rw [Option.map_map, ← map_storeStruct s.keypairs hsome] at hruns
  exact runs_of_answers (s := s) (c := .keygen keypair randomData randomDataSize) hl
    (hruns.map fun r => (Outcome.error r.1 none, r.2))

theorem step_runs_signWithStats (h : SameCaps E E') {s : Machine} (hs : s.thread.Clean)
    (secretKey : Option (List UInt8)) (secretKeySize : ℕ) (message : Option (List UInt8))
    (messageSize : ℕ) (signature : Option ℕ) (stats : Option SignStats) :
    let c := Call.signWithStats secretKey secretKeySize message messageSize signature stats
    (c.asks E H (s.read c)).Runs (s.answers E' H A c)
      ((s.step E' H A c).1, (s.step E' H A c).2.read c) := by
  obtain ⟨l, hl, hruns⟩ := bitcoinPqcSignImpl_runs (H := H) (A := A) h secretKey secretKeySize
    message messageSize (signature.map s.signatures) stats s.heap hs
  have hsome := isSome_signature_bitcoinPqcSignImpl E' H A secretKey secretKeySize message
    messageSize (signature.map s.signatures) stats s.heap s.thread
  rw [Option.isSome_map] at hsome
  rw [Option.map_map, ← map_storeStruct s.signatures hsome] at hruns
  exact runs_of_answers (s := s)
    (c := .signWithStats secretKey secretKeySize message messageSize signature stats) hl
    (hruns.map fun r => (Outcome.error r.1 r.2.1, r.2.2))

theorem step_runs (h : SameCaps E E') {s : Machine} (hs : s.thread.Clean) {c : Call}
    (hc : c.InBounds) :
    (c.asks E H (s.read c)).Runs (s.answers E' H A c)
      ((s.step E' H A c).1, (s.step E' H A c).2.read c) := by
  cases c with
  | keygen keypair randomData randomDataSize => exact step_runs_keygen E E' s keypair hc
  | keypairFree keypair =>
      cases keypair with
      | none => exact runs_done rfl rfl
      | some i =>
          refine runs_done ?_ ?_
          · rw [step]
            simp only [Option.map_some, bitcoinPqcKeypairFree, Heap.answers_free,
              Heap.answers_zero]
          · simp only [step, read, Option.map_some, bitcoinPqcKeypairFree, storeStruct,
              Function.update_self]
            rfl
  | secretKeyValidate secretKey secretKeySize =>
      refine runs_done rfl ?_
      rw [step, bitcoinPqcSecretKeyValidate_build E E' H _ _ _ s.thread]
      rfl
  | sign secretKey secretKeySize message messageSize signature =>
      exact step_runs_signWithStats h hs secretKey secretKeySize message messageSize signature
        none
  | signWithStats secretKey secretKeySize message messageSize signature stats =>
      exact step_runs_signWithStats h hs secretKey secretKeySize message messageSize signature
        stats
  | signatureFree signature =>
      cases signature with
      | none => exact runs_done rfl rfl
      | some i =>
          refine runs_done ?_ ?_
          · rw [step]
            simp only [Option.map_some, bitcoinPqcSignatureFree, Heap.answers_free,
              Heap.answers_zero]
          · simp only [step, read, Option.map_some, bitcoinPqcSignatureFree, storeStruct,
              Function.update_self]
            rfl
  | verify publicKey publicKeySize message messageSize signature signatureSize =>
      refine runs_done rfl ?_
      rw [step, bitcoinPqcVerify_build E E' H _ _ _ _ _ _ ThreadState.clean_fresh hs]
      rfl
  | slhKeygen pk sk randomData randomDataSize =>
      obtain ⟨l, hl, hruns⟩ := slhDsaKeygen_runs (H := H) (A := A) E' pk sk hc s.heap s.thread
      exact runs_of_answers (s := s) (c := .slhKeygen pk sk randomData randomDataSize) hl
        (hruns.map fun outcome => (outcome, none))
  | slhSecretKeyValidate sk skSize =>
      refine runs_done rfl ?_
      rw [step, slhDsaSecretKeyValidate_build E E' H _ _ _ s.thread]
      rfl
  | slhSign sig siglen m mlen sk =>
      obtain ⟨T₁, hsame⟩ := slhDsaSignWithStats_of_sameCaps (H := H) h sig sig rfl siglen
        siglen rfl m mlen sk none ThreadState.fresh s.thread
      refine runs_done rfl ?_
      rw [step, slhDsaSign, slhDsaSign, hsame]
      rfl
  | slhSignWithStats sig siglen m mlen sk stats =>
      obtain ⟨T₁, hsame⟩ := slhDsaSignWithStats_of_sameCaps (H := H) h sig sig rfl siglen
        siglen rfl m mlen sk stats ThreadState.fresh s.thread
      refine runs_done rfl ?_
      rw [step, hsame]
      rfl
  | slhVerify sig siglen m mlen pk =>
      refine runs_done rfl ?_
      rw [step, slhDsaVerify_build E E' H _ _ _ _ _ ThreadState.clean_fresh hs]
      rfl
  | slhDerandomize seed m mlen sk =>
      obtain ⟨T₁, _, hseed⟩ := slhDsaDerandomize_fresh (H := H) seed m mlen sk hs
      refine runs_done rfl ?_
      rw [step, hseed]
      rfl

/-- Two machines with equal caps, whose threads are clean and whose structs the caller
cannot tell apart, do the same when their requests are answered alike. -/
theorem step_eq_of_answeredAlike (h : SameCaps E E') {s s' : Machine} (hs : s.thread.Clean)
    (hs' : s'.thread.Clean) {c : Call} (hc : c.InBounds) (hread : s.read c = s'.read c)
    (hanswers : AnsweredAlike (s.answers E H A c) (s'.answers E' H A' c)) :
    (s.step E H A c).1 = (s'.step E' H A' c).1 ∧
      (s.step E H A c).2.read c = (s'.step E' H A' c).2.read c ∧
      s.answers E H A c = s'.answers E' H A' c := by
  have hruns := step_runs (H := H) (A := A) (SameCaps.refl E) hs hc
  have hruns' := step_runs (H := H) (A := A') h hs' hc
  rw [hread] at hruns
  obtain ⟨hsame, heq⟩ := hruns.unique hruns' hanswers
  exact ⟨(Prod.mk.inj heq).1, (Prod.mk.inj heq).2, hsame⟩

variable (E H A)

/-- After every run of public calls that starts on a fresh thread the thread is clean.
Every next call returns what the same call returns when it is made first on a fresh thread,
with any other heap, allocator and uninitialised bytes, provided that both are given equal
arguments and that their requests for memory are granted or refused alike; it leaves the same
bytes in the buffers of the struct that it was passed. On the same heap it leaves the same
structs and the same heap, and signing with and without a stats object have the same
effect. -/
theorem run_call_independent (s : Machine) (calls : List Call) :
    let t := { s with thread := ThreadState.fresh }.run E H A calls
    t.thread.Clean ∧ wotscBound E t.thread = 0xFFFF ∧
      (∀ (E' : Build) (A' : Allocator) (s' : Machine) (c : Call), SameCaps E E' →
        s'.thread = ThreadState.fresh → c.InBounds → t.read c = s'.read c →
        AnsweredAlike (t.answers E H A c) (s'.answers E' H A' c) →
        (t.step E H A c).1 = (s'.step E' H A' c).1 ∧
          (t.step E H A c).2.read c = (s'.step E' H A' c).2.read c ∧
          t.answers E H A c = s'.answers E' H A' c) ∧
      (∀ c, let r := t.step E H A c
        let r' := { t with thread := ThreadState.fresh }.step E H A c
        r.1 = r'.1 ∧ r.2.keypairs = r'.2.keypairs ∧ r.2.signatures = r'.2.signatures ∧
          r.2.heap = r'.2.heap) ∧
      (∀ secretKey secretKeySize message messageSize signature stats,
        let r := t.step E H A (.sign secretKey secretKeySize message messageSize signature)
        let r' := t.step E H A
          (.signWithStats secretKey secretKeySize message messageSize signature stats)
        r = (r'.1.withoutStats, r'.2)) ∧
      ∀ sig siglen m mlen sk stats,
        let r := t.step E H A (.slhSign sig siglen m mlen sk)
        let r' := t.step E H A (.slhSignWithStats sig siglen m mlen sk stats)
        r = (r'.1.withoutStats, r'.2) := by
  intro t
  have hclean : t.thread.Clean :=
    run_invariant E H A (I := fun s => s.thread.Clean) (step_clean E H A) calls
      ThreadState.clean_fresh
  refine ⟨hclean, hclean.wotscBound_eq E, ?_, ?_, ?_, ?_⟩
  · intro E' A' s' c hcaps hfresh hc hread hanswers
    have hclean' : s'.thread.Clean := by
      rw [hfresh]
      exact ThreadState.clean_fresh
    exact step_eq_of_answeredAlike hcaps hclean hclean' hc hread hanswers
  · intro c
    obtain ⟨T', _, hstep⟩ := step_fresh E H A t hclean c
    simp only [hstep]
    exact ⟨trivial, trivial, trivial, trivial⟩
  · intro secretKey secretKeySize message messageSize signature stats
    simp only [step, bitcoinPqcSign, bitcoinPqcSignWithStats]
    rw [bitcoinPqcSignImpl_none _ _ _ _ _ stats]
    rfl
  · intro sig siglen m mlen sk stats
    simp only [step, slhDsaSign]
    rw [slhDsaSignWithStats_none _ _ _ _ _ stats]
    rfl

variable {E H A}

theorem answers_slhKeygen (s : Machine) {pk : Vector UInt8 32} {sk : Vector UInt8 64}
    {randomData : List UInt8} {randomDataSize : ℕ}
    (hmin : slhDsaKeygenRandomDataMinSize ≤ randomDataSize)
    (hfits : keygenInputSize randomDataSize ≤ sizeMax) :
    s.answers E H A (.slhKeygen (some pk) (some sk) (some randomData) randomDataSize) =
      [(s.heap.malloc A (keygenInputSize randomDataSize)).1.isSome] := by
  have hmalloc := Heap.answers_malloc A (keygenInputSize randomDataSize) s.heap
  refine Heap.answersSince_eq ?_
  rw [step, slhDsaKeygen_val hmin]
  rcases deriveKeygenSeedV1_cases H A randomData randomDataSize s.heap with
    ⟨hlarge, _⟩ | ⟨_, _, hderive⟩ | ⟨_, input, seed, _, _, hderive⟩
  · exact absurd hfits (not_le.mpr hlarge)
  · rw [hderive]
    exact hmalloc
  · rw [hderive, ← hmalloc]
    simp only [Heap.answers_free, Heap.answers_zero, Heap.answers_store]

end Machine

/-- An allocator that fills its buffers with ones. -/
def fillingAllocator : Allocator where
  address := countingAllocator.address
  contents := fun _ size => List.replicate size 0xFF
  fresh := countingAllocator.fresh
  contents_length := fun _ _ => List.length_replicate

/-- A key generation after a signing call, and the same key generation on a machine with
another heap, another allocator and other uninitialised bytes. -/
theorem Machine.run_call_independent_otherHeap :
    let s := Machine.start ThreadState.fresh
    let t := s.run smallestCaps constantHash countingAllocator
      [.slhSign (some (Vector.replicate 3680 0)) (some 0) (some [1]) 1
        (some (List.replicate 64 0))]
    let s' : Machine := { s with heap := ⟨fun _ => none, [false], []⟩ }
    let E' : Build := { smallestCaps with uninit := fun _ => Vector.replicate 16 0xFF }
    let c := Call.slhKeygen (some (Vector.replicate 32 0)) (some (Vector.replicate 64 0))
      (some (List.replicate 128 0)) 128
    (t.step smallestCaps constantHash countingAllocator c).1 =
      (s'.step E' constantHash fillingAllocator c).1 := by
  intro s t s' E' c
  refine ((run_call_independent smallestCaps constantHash countingAllocator s _).2.2.1 E'
    fillingAllocator s' c ⟨rfl, rfl⟩ rfl ?_ rfl ?_).1
  · rintro _ _ e ⟨⟩
    exact List.length_replicate.ge
  · have hgranted (size : ℕ) : (Heap.empty.malloc countingAllocator size).1.isSome =
        (s'.heap.malloc fillingAllocator size).1.isSome := rfl
    rw [answers_slhKeygen _ le_rfl (by decide), answers_slhKeygen _ le_rfl (by decide)]
    exact (answeredAlike_cons _ _ _ _).mpr ⟨hgranted _, fun k b b' hb => by simp at hb⟩

end BitcoinPqc
