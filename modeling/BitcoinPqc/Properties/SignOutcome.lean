import BitcoinPqc.Properties.CallHistory
import BitcoinPqc.Properties.SignVerify

/-!
# The outcome of signing

With its seed installed the random source does not fail, so `crypto_sign_signature`
either returns a signature or the limit code, the latter exactly when the salt loop or
a counter search ends at its cap. The verification that follows accepts what was signed.
The generic failure of `bitcoin_pqc_sign` therefore does not occur.
-/

namespace BitcoinPqc

variable {E : Build} {H : HashFns} {A : Allocator}

/-!
## The failure flag
-/

theorem searchResult_randomSourceFailed (msg : Block) (bound : ℕ) (T : ThreadState) :
    (searchResult H msg bound T).2.randomSourceFailed = T.randomSourceFailed := by
  unfold searchResult
  split
  · rfl
  · rfl

theorem signGrind_randomSourceFailed (E : Build) (H : HashFns) (m : List UInt8)
    (sk : Vector UInt8 64) (T : ThreadState) :
    (signGrind E H m sk T).T.randomSourceFailed =
      T.clearFailure.randombytesBlock.2.randomSourceFailed := by
  unfold signGrind grindOutcome
  split
  · rfl
  · rfl

/-- The thread in which the loop over the layers ends. -/
def exitThread : Except (Int × ThreadState) ThreadState → ThreadState
  | .error d => d.2
  | .ok T => T

/-- What no search changes, the loop over the layers does not change. -/
theorem exitThread_layersThread {α : Type*} (f : ThreadState → α)
    (hf : ∀ msg bound T, f (searchResult H msg bound T).2 = f T) (ctx : SpxCtx)
    (tree leaf : ℕ) (T : ThreadState) (l : ℕ) :
    f (exitThread (layersThread E H ctx tree leaf T l)) = f T := by
  induction l with
  | zero => rfl
  | succ l ih =>
      rw [layersThread]
      cases hbefore : layersThread E H ctx tree leaf T l with
      | error d =>
          rw [hbefore] at ih
          exact ih
      | ok T₁ =>
          rw [hbefore] at ih
          have hsearch := hf (signedValue H ctx tree leaf l) (wotscBound E T₁) T₁
          cases hres : searchResult H (signedValue H ctx tree leaf l) (wotscBound E T₁) T₁ with
          | mk found T₂ =>
            rw [hres] at hsearch
            simp only [hres]
            cases found with
            | error c => exact hsearch.trans ih
            | ok lengths => exact hsearch.trans ih

/-!
## The two outcomes of `crypto_sign_signature`
-/

section Signature

variable {m : List UInt8} {sk : Vector UInt8 64} {T : ThreadState}

/-- No salt within the cap leaves the last FORS tree at index zero. -/
def NoSalt (E : Build) (H : HashFns) (m : List UInt8) (sk : Vector UInt8 64)
    (T : ThreadState) : Prop :=
  ∀ c < E.forscMaxGrindAttempts,
    ¬ SaltHit H
      (H.genMessageRandom (slice sk spxN spxN) T.clearFailure.randombytesBlock.1 m)
      (slice sk (2 * spxN) spxPkBytes) m c

/-- At some layer no counter within the cap has the target checksum. -/
def NoCounter (E : Build) (H : HashFns) (m : List UInt8) (sk : Vector UInt8 64)
    (T : ThreadState) : Prop :=
  ∃ l < spxD, ∀ c ≤ E.wotscMaxCounter,
    ¬ CounterHit H (signedValue H (skCtx H sk) (signGrind E H m sk T).tree
      (signGrind E H m sk T).idxLeaf l) c

theorem signGrind_code (E : Build) (H : HashFns) (m : List UInt8) (sk : Vector UInt8 64)
    (T : ThreadState) :
    (¬ NoSalt E H m sk T ∧ (signGrind E H m sk T).code = 0) ∨
      (NoSalt E H m sk T ∧ (signGrind E H m sk T).code = signLimitExceeded) := by
  have hpos := E.forsc_pos
  unfold signGrind grindOutcome
  split
  · next d hd =>
      obtain ⟨hhit, hle, _⟩ := (firstUpTo_eq_some_iff _ _ _).mp hd
      exact Or.inl ⟨fun hno => hno d (by omega) hhit, rfl⟩
  · next hnone =>
      rw [firstUpTo_eq_none_iff] at hnone
      exact Or.inr ⟨fun c hc => hnone c (by omega), rfl⟩

theorem not_searchable_iff (hstats : T.signStats.isSome) :
    ¬ Searchable H (skCtx H sk) (signGrind E H m sk T).tree
        (signGrind E H m sk T).idxLeaf (wotscBound E T) spxD ↔ NoCounter E H m sk T := by
  rw [wotscBound, if_pos hstats, Searchable, NoCounter]
  push Not
  simp only [← Option.eq_none_iff_forall_ne_some, firstUpTo_eq_none_iff]

variable (m sk) in
/-- With a random source and a stats object installed the call signs or reports the
limit, and the failure flag stays clear. -/
theorem cryptoSignSignature_installed (hdata : T.randomData.isSome)
    (hsize : T.randomDataSize ≠ 0) (hstats : T.signStats.isSome) (sig : Vector UInt8 3680) :
    let r := (cryptoSignSignature E H sig m sk T).val
    r.T.randomSourceFailed = false ∧
      ((r.code = 0 ∧ ¬ (NoSalt E H m sk T ∨ NoCounter E H m sk T) ∧ Signed E H m sk T r) ∨
        (r.code = signLimitExceeded ∧ (NoSalt E H m sk T ∨ NoCounter E H m sk T))) := by
  intro r
  have hflag : T.clearFailure.randombytesBlock.2.randomSourceFailed = false :=
    ThreadState.randomSourceFailed_randombytesBlock hdata hsize
  have hok := cryptoSignSignature_val E H sig m sk T
  have hzero := cryptoSignSignature_eq_zero_iff E H sig m sk T
  rw [SignOk, hflag, if_neg Bool.false_ne_true] at hok
  have hthread : r.T.randomSourceFailed = false := by
    rw [← hflag, ← signGrind_randomSourceFailed E H m sk T]
    split at hok
    · rw [show r.T = _ from hok.2.2]
    · have hlayers := exitThread_layersThread (E := E) (·.randomSourceFailed)
        (searchResult_randomSourceFailed (H := H)) (skCtx H sk)
        (signGrind E H m sk T).tree (signGrind E H m sk T).idxLeaf (signGrind E H m sk T).T
        spxD
      split at hok
      · next d herr =>
          rw [herr] at hlayers
          rw [show r.T = _ from hok.2.2]
          exact hlayers
      · next T' hlayersOk =>
          rw [hlayersOk] at hlayers
          rw [show r.T = _ from hok.2.2.1]
          exact hlayers
  refine ⟨hthread, ?_⟩
  rcases signGrind_code E H m sk T with ⟨hsalt, hcode⟩ | ⟨hsalt, hcode⟩
  · by_cases hsearch : Searchable H (skCtx H sk) (signGrind E H m sk T).tree
        (signGrind E H m sk T).idxLeaf (wotscBound E T) spxD
    · have hr : r.code = 0 := hzero.mpr ⟨hflag, hcode, hsearch⟩
      have hcounter : ¬ NoCounter E H m sk T :=
        fun h => (not_searchable_iff hstats).mpr h hsearch
      exact Or.inl ⟨hr, not_or.mpr ⟨hsalt, hcounter⟩, signed_of_eq_zero hr⟩
    · refine Or.inr ⟨?_, Or.inr ((not_searchable_iff hstats).mp hsearch)⟩
      rw [if_neg (not_not_intro hcode)] at hok
      split at hok
      · next d herr => exact hok.1.trans (layersThread_error herr)
      · next T' hlayersOk => exact absurd (hzero.mp hok.1).2.2 hsearch
  · rw [hcode, if_pos (by decide)] at hok
    exact Or.inr ⟨hok.1, Or.inl hsalt⟩

end Signature

/-!
## The outcomes of `slh_dsa_sign_with_stats`
-/

/-- The thread on which `crypto_sign_signature` runs: the seed of the key and the
message is the random source and a stats object is installed. -/
def signThread (E : Build) (H : HashFns) (message : List UInt8) (mlen : ℕ)
    (sk : List UInt8) : ThreadState :=
  (ThreadState.fresh.initRandomSource
    ((slhDsaDerandomizeUnburned H (some (Vector.replicate 64 0)) (some message) mlen
      (some sk) .fresh).1.map Vector.toList) 64).signStatsBegin E

/-- The salt loop or a counter search ends at its cap. -/
def LimitReached (E : Build) (H : HashFns) (message : List UInt8) (mlen : ℕ)
    (sk : List UInt8) : Prop :=
  NoSalt E H (message.take mlen) (bytesAt 64 sk) (signThread E H message mlen sk) ∨
    NoCounter E H (message.take mlen) (bytesAt 64 sk) (signThread E H message mlen sk)

/-- The key ends in the root of its seeds. -/
def KeyAccepted (H : HashFns) (sk : List UInt8) : Prop :=
  skRoot H (bytesAt 64 sk) = slice (bytesAt 64 sk) (3 * spxN) spxN

/-- The verdict of the validator on a key of the right size. -/
theorem slhDsaSecretKeyValidateUnburned_cases (E : Build) (H : HashFns) (sk : List UInt8)
    (T : ThreadState) :
    (KeyAccepted H sk →
        (slhDsaSecretKeyValidateUnburned E H (some sk) slhDsaSecretKeySize T).val = (0, T)) ∧
      (¬ KeyAccepted H sk →
        (slhDsaSecretKeyValidateUnburned E H (some sk) slhDsaSecretKeySize T).val =
          (-1, T)) := by
  have hvalidate := (slhDsaSecretKeyValidate_sat E H sk (callsOk_true E H _) T).2
  constructor
  · intro hkey
    rw [hvalidate, if_pos (show skRoot H (bytesAt 64 sk) = _ from hkey)]
  · intro hkey
    rw [hvalidate, if_neg (show ¬ skRoot H (bytesAt 64 sk) = _ from hkey)]

/-- What signing a message returns. -/
inductive SignCase (E : Build) (H : HashFns) (message : List UInt8) (mlen : ℕ)
    (sk : List UInt8) (stats : Option SignStats) : SlhDsaSignResult → Prop
  | badKey (hkey : ¬ KeyAccepted H sk) (T : ThreadState) :
      SignCase E H message mlen sk stats
        ⟨slhDsaSignErrorBadKey, some (Vector.replicate 3680 0), some 0, stats, T⟩
  | limit (hkey : KeyAccepted H sk) (hlimit : LimitReached E H message mlen sk)
      (stats' : Option SignStats) (T : ThreadState) :
      SignCase E H message mlen sk stats
        ⟨signLimitExceeded, some (Vector.replicate 3680 0), some 0, stats', T⟩
  | signed (hkey : KeyAccepted H sk) (hlimit : ¬ LimitReached E H message mlen sk)
      (r : SignResult) (T : ThreadState) (hT : T.Clean)
      (hsigned : Signed E H (message.take mlen) (bytesAt 64 sk)
        (signThread E H message mlen sk) r) :
      SignCase E H message mlen sk stats
        ⟨0, some r.sig, some spxBytes, stats.bind fun _ => r.T.signStats, T⟩

/-- After the checks `slh_dsa_sign_with_stats` hands on what `crypto_sign_signature`
returned. -/
theorem slhDsaSignChecked_eq (E : Build) (H : HashFns) (sig : Vector UInt8 3680)
    (message : List UInt8) (mlen : ℕ) (sk : List UInt8) (stats : Option SignStats)
    (T : ThreadState) :
    slhDsaSignChecked E H sig message mlen sk stats T = (do
      let r ← cryptoSignSignature E H sig (message.take mlen) (bytesAt 64 sk)
        (signThread E H message mlen sk)
      if r.T.randomSourceFailed then
        pure ⟨-1, some (Vector.replicate 3680 0), some 0, stats.bind fun _ => r.T.signStats,
          r.T.signStatsEnd.restoreOriginalRandom⟩
      else if r.code ≠ 0 then
        pure ⟨r.code, some (Vector.replicate 3680 0), some 0,
          stats.bind fun _ => r.T.signStats, r.T.signStatsEnd.restoreOriginalRandom⟩
      else
        pure ⟨r.code, some r.sig, some r.siglen, stats.bind fun _ => r.T.signStats,
          r.T.signStatsEnd.restoreOriginalRandom⟩ : Traced Query SlhDsaSignResult) := rfl

theorem signCase_slhDsaSignChecked {sk : List UInt8} (hkey : KeyAccepted H sk)
    (sig : Vector UInt8 3680) (message : List UInt8) (mlen : ℕ) (stats : Option SignStats)
    (T : ThreadState) :
    SignCase E H message mlen sk stats
      (slhDsaSignChecked E H sig message mlen sk stats T).val := by
  obtain ⟨hflag, hcases⟩ := cryptoSignSignature_installed (E := E) (H := H)
    (message.take mlen) (bytesAt 64 sk) (T := signThread E H message mlen sk) rfl
    (show (64 : ℕ) ≠ 0 by decide) rfl sig
  rw [slhDsaSignChecked_eq, Traced.val_bind, hflag, if_neg Bool.false_ne_true]
  rcases hcases with ⟨hcode, hlimit, hsigned⟩ | ⟨hcode, hlimit⟩
  · rw [if_neg (not_not_intro hcode), Traced.val_pure, hcode, hsigned.siglen]
    exact .signed hkey hlimit _ _ (ThreadState.clean_restored _) hsigned
  · rw [hcode, if_pos (by decide), Traced.val_pure]
    exact .limit hkey hlimit _ _

theorem signCase_slhDsaSignWithStats (E : Build) (H : HashFns) (sig : Vector UInt8 3680)
    (siglen : ℕ) {m : Option (List UInt8)} {mlen : ℕ} (hm : ¬ (m.isNone ∧ mlen ≠ 0))
    (sk : List UInt8) (stats : Option SignStats) (T : ThreadState) :
    SignCase E H (m.getD [0]) mlen sk stats
      (slhDsaSignWithStats E H (some sig) (some siglen) m mlen (some sk) stats T).val := by
  obtain ⟨haccept, hreject⟩ := slhDsaSecretKeyValidateUnburned_cases E H sk T
  rw [slhDsaSignWithStats, slhDsaSignWithStatsImpl, if_neg hm, Traced.val_bind]
  by_cases hkey : KeyAccepted H sk
  · rw [haccept hkey]
    dsimp only
    rw [if_neg (by decide)]
    exact signCase_slhDsaSignChecked hkey sig (m.getD [0]) mlen stats T
  · rw [hreject hkey]
    dsimp only
    rw [if_pos (by decide)]
    exact .badKey hkey T

/-!
## The outcome of `bitcoin_pqc_sign`
-/

theorem bitcoinPqcSecretKeyValidate_eq (E : Build) (H : HashFns) (sk : List UInt8)
    (T : ThreadState) :
    ((bitcoinPqcSecretKeyValidate E H (some sk) slhDsaSecretKeySize T).1 = .ok ↔
        KeyAccepted H sk) ∧
      ((bitcoinPqcSecretKeyValidate E H (some sk) slhDsaSecretKeySize T).1 = .badKey ↔
        ¬ KeyAccepted H sk) := by
  obtain ⟨haccept, hreject⟩ := slhDsaSecretKeyValidateUnburned_cases E H sk T
  rw [bitcoinPqcSecretKeyValidate, if_neg (show ¬ (some sk).isNone = true from
    Bool.false_ne_true), slhDsaSecretKeyValidate]
  by_cases hkey : KeyAccepted H sk
  · rw [haccept hkey, if_neg (not_not_intro rfl)]
    exact ⟨⟨fun _ => hkey, fun _ => rfl⟩, ⟨fun h => (by cases h), fun h => absurd hkey h⟩⟩
  · rw [hreject hkey, if_pos (show (-1 : Int) ≠ 0 by decide)]
    exact ⟨⟨fun h => (by cases h), fun h => absurd h hkey⟩, ⟨fun _ => hkey, fun _ => rfl⟩⟩

theorem bytesAt_drop (sk : List UInt8) :
    bytesAt 32 (sk.drop 32) = slice (bytesAt 64 sk) 32 32 := by
  ext i hi
  rw [getElem_slice _ _ _ _ hi (by omega), bytesAt, bytesAt, Vector.getElem_ofFn,
    Vector.getElem_ofFn]
  simp only [List.getD_eq_getElem?_getD, List.getElem?_drop]

/-- The signature that was made is accepted under the last half of its key, by every
build on every clean thread. -/
theorem Signed.slhDsaVerify {message : List UInt8} {mlen : ℕ} {sk : List UInt8}
    {r : SignResult} {T T' : ThreadState} (hkey : KeyAccepted H sk)
    (h : Signed E H (message.take mlen) (bytesAt 64 sk) T r) (E' : Build) (hT' : T'.Clean) :
    (BitcoinPqc.slhDsaVerify E' H (some r.sig.toList) spxBytes (some message) mlen
      (some (sk.drop 32)) T').val.1 = 0 := by
  rw [BitcoinPqc.slhDsaVerify, if_neg (by simp), Option.getD_some, bytesAt_toList,
    bytesAt_drop]
  refine h.verify hkey ?_
  rw [hT'.wotscBound_eq]
  exact wotscBound_le E T

theorem bitcoinPqcVerify_of_accepted {pk sig : List UInt8} {message : Option (List UInt8)}
    {messageSize : ℕ} {T : ThreadState} (hmessage : ¬ (message.isNone ∧ messageSize ≠ 0))
    (h : (slhDsaVerify E H (some sig) slhDsaSignatureSize
      (some (message.getD emptyMessage)) messageSize (some pk) T).val.1 = 0) :
    (bitcoinPqcVerify E H (some pk) slhDsaPublicKeySize message messageSize (some sig)
      slhDsaSignatureSize T).1 = .ok := by
  rw [bitcoinPqcVerify, if_neg (by simp), if_neg hmessage, if_neg (not_not_intro rfl),
    if_neg (not_not_intro rfl)]
  dsimp only
  rw [if_neg (not_not_intro h)]

/-- What a call of `bitcoin_pqc_sign` or `bitcoin_pqc_sign_with_stats` with a key, a
message and an empty struct reports and leaves. -/
structure SignContract (E : Build) (H : HashFns) (A : Allocator) (secretKey : List UInt8)
    (secretKeySize : ℕ) (message : Option (List UInt8)) (messageSize : ℕ) (heap : Heap)
    (r : SignImplResult) : Prop where
  keySize : secretKeySize ≠ slhDsaSecretKeySize → r.error = .badKey
  memory : secretKeySize = slhDsaSecretKeySize →
    (heap.malloc A slhDsaSignatureSize).1 = none → r.error = .outOfMemory
  key : secretKeySize = slhDsaSecretKeySize →
    (heap.malloc A slhDsaSignatureSize).1 ≠ none → ∀ T',
      (r.error = .badKey ↔
        (bitcoinPqcSecretKeyValidate E H (some secretKey) secretKeySize T').1 = .badKey)
  limit : secretKeySize = slhDsaSecretKeySize →
    (heap.malloc A slhDsaSignatureSize).1 ≠ none → ∀ T',
      (bitcoinPqcSecretKeyValidate E H (some secretKey) secretKeySize T').1 = .ok →
        (r.error = .ok ∨ r.error = .signingLimit) ∧
          (r.error = .signingLimit ↔
            LimitReached E H (message.getD emptyMessage) messageSize secretKey)
  never : r.error ≠ .badSignature
  signed : r.error = .ok → ∃ sig bytes,
    r.signature = some ⟨some sig, slhDsaSignatureSize⟩ ∧ r.heap.blocks sig = some bytes ∧
      bytes.length = slhDsaSignatureSize ∧
      ∀ E' T', T'.Clean →
        (bitcoinPqcVerify E' H
          (some (secretKey.drop (secretKeySize - slhDsaPublicKeySize)))
          slhDsaPublicKeySize message messageSize (some bytes) slhDsaSignatureSize T').1 = .ok
  unchanged : r.error ≠ .ok → r.signature = some Signature.empty

/-- With a buffer the validator's verdict decides. -/
theorem signContract_of_malloc {secretKey : List UInt8} {message : Option (List UInt8)}
    {messageSize : ℕ} {heap : Heap} {r : SignImplResult}
    (hmalloc : (heap.malloc A slhDsaSignatureSize).1 ≠ none)
    (hkey : r.error = .badKey ↔ ¬ KeyAccepted H secretKey)
    (hlimit : KeyAccepted H secretKey → (r.error = .ok ∨ r.error = .signingLimit) ∧
      (r.error = .signingLimit ↔
        LimitReached E H (message.getD emptyMessage) messageSize secretKey))
    (hnever : r.error ≠ .badSignature)
    (hsigned : r.error = .ok → ∃ sig bytes,
      r.signature = some ⟨some sig, slhDsaSignatureSize⟩ ∧ r.heap.blocks sig = some bytes ∧
        bytes.length = slhDsaSignatureSize ∧
        ∀ E' T', T'.Clean →
          (bitcoinPqcVerify E' H (some (secretKey.drop 32)) slhDsaPublicKeySize message
            messageSize (some bytes) slhDsaSignatureSize T').1 = .ok)
    (hunchanged : r.error ≠ .ok → r.signature = some Signature.empty) :
    SignContract E H A secretKey slhDsaSecretKeySize message messageSize heap r where
  keySize := fun hsize => absurd rfl hsize
  memory := fun _ hnone => absurd hnone hmalloc
  key := fun _ _ T' => hkey.trans (bitcoinPqcSecretKeyValidate_eq E H secretKey T').2.symm
  limit := fun _ _ T' hok =>
    hlimit ((bitcoinPqcSecretKeyValidate_eq E H secretKey T').1.mp hok)
  never := hnever
  signed := hsigned
  unchanged := hunchanged

theorem signContract_bitcoinPqcSignAllocated {a : ℕ} {c : List UInt8} {heap heap' : Heap}
    {secretKey : List UInt8} {message : Option (List UInt8)} {messageSize : ℕ}
    (hmessage : ¬ (message.isNone ∧ messageSize ≠ 0))
    (hmalloc : (heap.malloc A slhDsaSignatureSize).1 ≠ none)
    (hblock : heap'.blocks a = some c) (hlen : c.length = slhDsaSignatureSize)
    (stats : Option SignStats) (T : ThreadState) :
    SignContract E H A secretKey slhDsaSecretKeySize message messageSize heap
      (bitcoinPqcSignAllocated E H secretKey slhDsaSecretKeySize
        (message.getD emptyMessage) messageSize (some Signature.empty) stats (some a) heap'
        T) := by
  have hcase := signCase_slhDsaSignWithStats E H
    (bytesAt 3680 (heap'.load (some a))) 0
    (show ¬ ((some (message.getD emptyMessage)).isNone ∧ messageSize ≠ 0) by simp)
    secretKey stats T
  rw [Option.getD_some] at hcase
  rw [bitcoinPqcSignAllocated, if_neg (show ¬ (some a).isNone = true from
    Bool.false_ne_true)]
  generalize (slhDsaSignWithStats E H (some (bytesAt 3680 (heap'.load (some a)))) (some 0)
    (some (message.getD emptyMessage)) messageSize (some secretKey) stats T).val = r
    at hcase ⊢
  cases hcase with
  | badKey hkey T' =>
      dsimp only
      rw [if_pos (Or.inl (by decide)), if_neg (by decide), if_pos rfl]
      exact signContract_of_malloc hmalloc ⟨fun _ => hkey, fun _ => rfl⟩
        (fun h => absurd h hkey) (by simp) (fun h => (by cases h)) (fun _ => rfl)
  | limit hkey hlimit stats' T' =>
      dsimp only
      rw [if_pos (Or.inl (by decide)), if_pos rfl]
      exact signContract_of_malloc hmalloc ⟨fun h => (by cases h), fun h => absurd hkey h⟩
        (fun _ => ⟨Or.inr rfl, fun _ => hlimit, fun _ => rfl⟩) (by simp)
        (fun h => (by cases h)) (fun _ => rfl)
  | signed hkey hlimit r₀ T' hT' hsigned =>
      have hload : (heap'.store (some a) r₀.sig.toList).blocks a = some r₀.sig.toList :=
        Heap.blocks_store_self hblock (by rw [hlen, Vector.length_toList])
      have hverify : (slhDsaVerify E H (some r₀.sig.toList) spxBytes
          (some (message.getD emptyMessage)) messageSize
          (some (secretKey.drop (slhDsaSecretKeySize - slhDsaPublicKeySize))) T').val.1 = 0 :=
        hsigned.slhDsaVerify hkey E hT'
      have hstored : (heap'.store (some a) r₀.sig.toList).load (some a) =
          r₀.sig.toList := by
        rw [Heap.load, Option.bind_some, hload, Option.getD_some]
      dsimp only
      rw [if_neg (by decide)]
      simp only [Option.elim_some, Option.getD_some, hstored]
      rw [if_neg (not_not_intro hverify)]
      refine signContract_of_malloc hmalloc ⟨fun h => (by cases h), fun h => absurd hkey h⟩
        (fun _ => ⟨Or.inl rfl, fun h => (by cases h), fun h => absurd h hlimit⟩) (by simp)
        (fun _ => ⟨a, r₀.sig.toList, rfl, hload, Vector.length_toList, ?_⟩)
        (fun h => absurd rfl h)
      intro E' T'' hT''
      exact bitcoinPqcVerify_of_accepted hmessage (hsigned.slhDsaVerify hkey E' hT'')

theorem signContract_bitcoinPqcSignImpl (E : Build) (H : HashFns) (A : Allocator)
    (secretKey : List UInt8) (secretKeySize : ℕ) {message : Option (List UInt8)}
    {messageSize : ℕ} (hmessage : ¬ (message.isNone ∧ messageSize ≠ 0))
    (stats : Option SignStats) (heap : Heap) (T : ThreadState) :
    SignContract E H A secretKey secretKeySize message messageSize heap
      (bitcoinPqcSignImpl E H A (some secretKey) secretKeySize message messageSize
        (some Signature.empty) stats heap T) := by
  rw [bitcoinPqcSignImpl, if_neg (by simp), if_neg hmessage,
    if_neg (not_not_intro (show (some Signature.empty).all signatureOutputIsEmpty = true from
      (signatureOutputIsEmpty_iff _).mpr rfl))]
  by_cases hsize : secretKeySize = slhDsaSecretKeySize
  · subst hsize
    rw [if_neg (not_not_intro rfl)]
    cases hans : heap.malloc A slhDsaSignatureSize with
    | mk sig heap' =>
      cases sig with
      | none =>
          dsimp only
          rw [bitcoinPqcSignAllocated, if_pos (by rfl)]
          have hnone : (heap.malloc A slhDsaSignatureSize).1 = none := congrArg Prod.fst hans
          exact ⟨fun h => absurd rfl h, fun _ _ => rfl, fun _ h => absurd hnone h,
            fun _ h => absurd hnone h, by simp, fun h => (by cases h), fun _ => rfl⟩
      | some a =>
          have hsome : (heap.malloc A slhDsaSignatureSize).1 = some a := congrArg Prod.fst hans
          obtain ⟨c, hblock, hlen⟩ := Heap.blocks_malloc hsome
          rw [hans] at hblock
          exact signContract_bitcoinPqcSignAllocated hmessage (by simp [hsome]) hblock hlen
            stats T
  · rw [if_pos hsize]
    exact ⟨fun _ => rfl, fun h => absurd h hsize, fun h => absurd h hsize,
      fun h => absurd h hsize, by simp, fun h => (by cases h), fun _ => rfl⟩

/-- For every key, every message that is NULL only when it is empty, every heap and
every answer to the request for memory, the two signing functions keep the contract. -/
theorem bitcoinPqcSign_outcome (E : Build) (H : HashFns) (A : Allocator)
    (secretKey : List UInt8) (secretKeySize : ℕ) (message : Option (List UInt8))
    (messageSize : ℕ) (hmessage : message = none → messageSize = 0) (heap : Heap)
    (T : ThreadState) :
    SignContract E H A secretKey secretKeySize message messageSize heap
        (bitcoinPqcSign E H A (some secretKey) secretKeySize message messageSize
          (some Signature.empty) heap T) ∧
      ∀ stats, SignContract E H A secretKey secretKeySize message messageSize heap
        (bitcoinPqcSignWithStats E H A (some secretKey) secretKeySize message messageSize
          (some Signature.empty) stats heap T) := by
  have hnot : ¬ (message.isNone ∧ messageSize ≠ 0) := by
    rintro ⟨hnone, hsize⟩
    exact hsize (hmessage (Option.isNone_iff_eq_none.mp hnone))
  exact ⟨signContract_bitcoinPqcSignImpl E H A secretKey secretKeySize hnot none heap T,
    fun stats =>
      signContract_bitcoinPqcSignImpl E H A secretKey secretKeySize hnot stats heap T⟩

theorem not_limitReached_constantHash (E : Build) (message : List UInt8) (mlen : ℕ)
    (sk : List UInt8) : ¬ LimitReached E constantHash message mlen sk := by
  rintro (hsalt | ⟨l, _, hcounter⟩)
  · exact hsalt 0 E.forsc_pos (forscCompressedIndex_constantHash _ _ _)
  · exact hcounter 0 (Nat.zero_le _) (counterHit_constantHash _ 0)

theorem keyAccepted_constantHash : KeyAccepted constantHash (List.replicate 64 0) := by
  rw [KeyAccepted, skRoot_constantHash]
  decide

theorem slhDsaSignWithStats_constantHash (E : Build) (sig : Vector UInt8 3680) (siglen : ℕ)
    (message : List UInt8) (mlen : ℕ) (stats : Option SignStats) (T : ThreadState) :
    (slhDsaSignWithStats E constantHash (some sig) (some siglen) (some message) mlen
      (some (List.replicate 64 0)) stats T).val.code = 0 := by
  have hcase := signCase_slhDsaSignWithStats E constantHash sig siglen
    (show ¬ ((some message).isNone ∧ mlen ≠ 0) by simp) (List.replicate 64 0) stats T
  generalize (slhDsaSignWithStats E constantHash (some sig) (some siglen) (some message) mlen
    (some (List.replicate 64 0)) stats T).val = r at hcase ⊢
  cases hcase with
  | badKey hkey T' => exact absurd keyAccepted_constantHash hkey
  | limit hkey hlimit stats' T' =>
      exact absurd hlimit (not_limitReached_constantHash E _ _ _)
  | signed hkey hlimit r₀ T' hT' hsigned => rfl

/-- The key of zeros signs a message with the hash functions that ignore their input. -/
theorem bitcoinPqcSign_outcome_constantHash :
    (bitcoinPqcSign smallestCaps constantHash countingAllocator
      (some (List.replicate 64 0)) 64 (some [1]) 1 (some Signature.empty) Heap.empty
      ThreadState.fresh).error = .ok := by
  have hcontract := (bitcoinPqcSign_outcome smallestCaps constantHash countingAllocator
    (List.replicate 64 0) 64 (some [1]) 1 (fun h => by cases h) Heap.empty
    ThreadState.fresh).1
  have hmalloc : (Heap.empty.malloc countingAllocator slhDsaSignatureSize).1 ≠ none := by
    decide
  have hvalid := (bitcoinPqcSecretKeyValidate_eq smallestCaps constantHash
    (List.replicate 64 0) ThreadState.fresh).1.mpr keyAccepted_constantHash
  obtain ⟨hor, hiff⟩ := hcontract.limit rfl hmalloc ThreadState.fresh hvalid
  exact hor.resolve_right fun hlimit =>
    not_limitReached_constantHash _ _ _ _ (hiff.mp hlimit)

end BitcoinPqc
