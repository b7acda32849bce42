import BitcoinPqc.Properties.KeygenRequests
import BitcoinPqc.Properties.Outputs

/-!
# Signing as a function of the answer to its request

What the caller sees of a signing call, the code, the statistics and the bytes behind the
pointer of the struct, depends on the key, the message, the caps and on whether the buffer is
granted.
-/

namespace BitcoinPqc

variable {E E' : Build} {H : HashFns} {A : Allocator} {T T' : ThreadState}

theorem signThread_of_sameCaps (h : SameCaps E E') (message : List UInt8) (mlen : ℕ)
    (sk : List UInt8) : signThread E H message mlen sk = signThread E' H message mlen sk := by
  rw [signThread, signThread, ThreadState.signStatsBegin, ThreadState.signStatsBegin, h.forsc,
    h.wotsc]

/-- After its checks signing is determined by the key, the message and the caps. -/
theorem slhDsaSignChecked_of_sameCaps (h : SameCaps E E') (sig sig' : Vector UInt8 3680)
    (message : List UInt8) (mlen : ℕ) (sk : List UInt8) (stats : Option SignStats)
    (T T' : ThreadState) :
    (slhDsaSignChecked E H sig message mlen sk stats T).val =
      (slhDsaSignChecked E' H sig' message mlen sk stats T').val := by
  have hsame := (cryptoSignSignature_val E H sig (message.take mlen) (bytesAt 64 sk)
    (signThread E' H message mlen sk)).sameResult
      ((signOk_of_sameCaps h sig' _ _ _ _).mpr (cryptoSignSignature_val E' H sig'
        (message.take mlen) (bytesAt 64 sk) (signThread E' H message mlen sk)))
  rw [slhDsaSignChecked_eq, slhDsaSignChecked_eq, signThread_of_sameCaps h, Traced.val_bind,
    Traced.val_bind, hsame.thread, hsame.code, hsame.siglen]
  split
  · rfl
  · split
    · rfl
    · next hcode =>
        rw [hsame.sig (hsame.code.trans (not_not.mp hcode))]

theorem slhDsaSignWithStats_of_sameCaps (h : SameCaps E E')
    (sig sig' : Option (Vector UInt8 3680)) (hsig : sig.isSome = sig'.isSome)
    (siglen siglen' : Option ℕ) (hlen : siglen.isSome = siglen'.isSome)
    (m : Option (List UInt8)) (mlen : ℕ) (sk : Option (List UInt8))
    (stats : Option SignStats) (T T' : ThreadState) :
    ∃ T₁, (slhDsaSignWithStats E H sig siglen m mlen sk stats T).val =
      { (slhDsaSignWithStats E' H sig' siglen' m mlen sk stats T').val with T := T₁ } := by
  by_cases hargs : ArgsRejected sig siglen m mlen sk
  · have hargs' : ArgsRejected sig' siglen' m mlen sk := by
      simp only [ArgsRejected, ← Option.not_isSome_iff_eq_none] at hargs ⊢
      rwa [← hsig, ← hlen]
    refine ⟨T, ?_⟩
    rw [slhDsaSignWithStats_of_argsRejected hargs, slhDsaSignWithStats_of_argsRejected hargs']
    congr 1
    · cases sig with
      | none => cases sig' with
        | none => rfl
        | some v => cases hsig
      | some v => cases sig' with
        | none => cases hsig
        | some v' => rfl
    · cases siglen with
      | none => cases siglen' with
        | none => rfl
        | some l => cases hlen
      | some l => cases siglen' with
        | none => cases hlen
        | some l' => rfl
  · obtain ⟨v, l, k, rfl, rfl, rfl, hm⟩ := exists_of_not_argsRejected hargs
    obtain ⟨v', rfl⟩ := Option.isSome_iff_exists.mp hsig.symm
    obtain ⟨l', rfl⟩ := Option.isSome_iff_exists.mp hlen.symm
    rw [slhDsaSignWithStats, slhDsaSignWithStats, slhDsaSignWithStatsImpl,
      slhDsaSignWithStatsImpl, if_neg hm, if_neg hm, Traced.val_bind, Traced.val_bind]
    by_cases hkey : KeyAccepted H k
    · rw [(slhDsaSecretKeyValidateUnburned_cases E H k T).1 hkey,
        (slhDsaSecretKeyValidateUnburned_cases E' H k T').1 hkey]
      dsimp only
      rw [if_neg (by decide), if_neg (by decide),
        slhDsaSignChecked_of_sameCaps h v v' (m.getD [0]) mlen k stats T T']
      exact ⟨_, rfl⟩
    · rw [(slhDsaSecretKeyValidateUnburned_cases E H k T).2 hkey,
        (slhDsaSecretKeyValidateUnburned_cases E' H k T').2 hkey]
      exact ⟨_, rfl⟩

variable (E H)

/-- What `bitcoin_pqc_sign_impl` returns and leaves, given the result of signing and the
verdict on it. -/
def signatureOfResult (r : SlhDsaSignResult) (verdict : Int) :
    BitcoinPqcError × Option SignStats × Option Reading :=
  if r.code ≠ 0 ∨ r.siglen.getD 0 ≠ slhDsaSignatureSize then
    if r.code = signLimitExceeded then (.signingLimit, r.stats, some Signature.emptyReading)
    else if r.code = slhDsaSignErrorBadKey then
      (.badKey, r.stats, some Signature.emptyReading)
    else (.badSignature, r.stats, some Signature.emptyReading)
  else if verdict ≠ 0 then (.badSignature, r.stats, some Signature.emptyReading)
  else (.ok, r.stats, some [(r.sig.map Vector.toList, r.siglen.getD 0)])

/-- The same when its request is granted. -/
def signatureReading (secretKey : List UInt8) (messagePtr : List UInt8) (messageSize : ℕ)
    (stats : Option SignStats) : BitcoinPqcError × Option SignStats × Option Reading :=
  let r := (slhDsaSignWithStats E H (some (Vector.replicate 3680 0)) (some 0)
    (some messagePtr) messageSize (some secretKey) stats ThreadState.fresh).val
  signatureOfResult r (slhDsaVerify E H (r.sig.map Vector.toList) (r.siglen.getD 0)
    (some messagePtr) messageSize (some (secretKey.drop 32)) ThreadState.fresh).val.1

/-- What `bitcoin_pqc_sign_impl` comes to after its checks. -/
def sigBufferAsks (secretKey : List UInt8) (messagePtr : List UInt8) (messageSize : ℕ)
    (stats : Option SignStats) : Asks (BitcoinPqcError × Option SignStats × Option Reading) :=
  .ask fun sig =>
    if sig then .done (signatureReading E H secretKey messagePtr messageSize stats)
    else .done (.outOfMemory, stats, some Signature.emptyReading)

/-- What `bitcoin_pqc_sign_impl` comes to. -/
def bitcoinPqcSignImplAsks (secretKey : Option (List UInt8)) (secretKeySize : ℕ)
    (message : Option (List UInt8)) (messageSize : ℕ) (signature : Option Reading)
    (stats : Option SignStats) :
    Asks (BitcoinPqcError × Option SignStats × Option Reading) :=
  if secretKey.isNone ∨ signature.isNone then .done (.badArg, stats, signature)
  else if message.isNone ∧ messageSize ≠ 0 then .done (.badArg, stats, signature)
  else if signature ≠ some Signature.emptyReading then .done (.badArg, stats, signature)
  else if secretKeySize ≠ slhDsaSecretKeySize then .done (.badKey, stats, signature)
  else
    sigBufferAsks E H (secretKey.getD []) (message.getD emptyMessage) messageSize stats

variable {E H}

section Allocated

variable {secretKey messagePtr : List UInt8} {messageSize : ℕ} {stats : Option SignStats}

theorem exists_sig_of_slhDsaSignWithStats (E : Build) (H : HashFns) (sig : Vector UInt8 3680)
    (siglen : ℕ) (m : Option (List UInt8)) (mlen : ℕ) (sk : Option (List UInt8))
    (stats : Option SignStats) (T : ThreadState) :
    ∃ v, (slhDsaSignWithStats E H (some sig) (some siglen) m mlen sk stats T).val.sig =
      some v := by
  have houtput := outputDiscipline_slhDsaSignWithStats E H (some sig) (some siglen) m mlen sk
    stats T
  by_cases hcode : (slhDsaSignWithStats E H (some sig) (some siglen) m mlen sk stats
      T).val.code = 0
  · obtain ⟨v, hv, _⟩ := houtput.signed hcode
    exact ⟨v, hv⟩
  · exact ⟨_, (houtput.failed hcode).1⟩

theorem slhDsaSignWithStats_clean (E : Build) (H : HashFns)
    (sig : Option (Vector UInt8 3680)) (siglen : Option ℕ) (m : Option (List UInt8))
    (mlen : ℕ) (sk : Option (List UInt8)) (stats : Option SignStats) (hT : T.Clean) :
    (slhDsaSignWithStats E H sig siglen m mlen sk stats T).val.T.Clean := by
  obtain ⟨T', hT', hsign⟩ := slhDsaSignWithStats_fresh (E := E) (H := H) sig siglen m mlen sk
    stats hT
  rw [hsign]
  exact hT'

/-- With the buffer there, the struct takes it or it is released again. -/
theorem bitcoinPqcSignAllocated_reading (E : Build) {sig : ℕ} {c : List UInt8} {heap : Heap}
    (hsig : heap.blocks sig = some c) (hlen : c.length = slhDsaSignatureSize)
    {r₀ : SlhDsaSignResult} {v : Vector UInt8 3680} (hv : r₀.sig = some v)
    (hsign : (slhDsaSignWithStats E H (some (bytesAt 3680 (heap.load (some sig)))) (some 0)
      (some messagePtr) messageSize (some secretKey) stats T).val = r₀) :
    let r := bitcoinPqcSignAllocated E H secretKey slhDsaSecretKeySize messagePtr messageSize
      (some Signature.empty) stats (some sig) heap T
    r.heap.answers = heap.answers ∧
      (r.error, r.stats, r.signature.map fun g => g.read r.heap) =
        signatureOfResult r₀ (slhDsaVerify E H (r₀.sig.map Vector.toList) (r₀.siglen.getD 0)
          (some messagePtr) messageSize (some (secretKey.drop 32)) r₀.T).val.1 := by
  have hread (h : Heap) : Signature.empty.read h = Signature.emptyReading :=
    Signature.read_eq_emptyReading_iff.mpr rfl
  have hload : (heap.store (some sig) v.toList).load (some sig) = v.toList :=
    Heap.load_store_self hsig (Vector.length_toList.trans hlen.symm)
  have hnone : ¬ ((some sig).isNone = true) := Bool.false_ne_true
  intro r
  have hr : r = bitcoinPqcSignAllocated E H secretKey slhDsaSecretKeySize messagePtr
      messageSize (some Signature.empty) stats (some sig) heap T := rfl
  rw [bitcoinPqcSignAllocated, if_neg hnone, hsign] at hr
  simp only [hv, Option.elim_some, hload] at hr
  rw [signatureOfResult]
  by_cases hfailed : r₀.code ≠ 0 ∨ r₀.siglen.getD 0 ≠ slhDsaSignatureSize
  · replace hr := hr.trans (if_pos hfailed)
    rw [if_pos hfailed]
    by_cases hlimit : r₀.code = signLimitExceeded
    · rw [hr.trans (if_pos hlimit), if_pos hlimit, Option.map_some, hread]
      simp only [Heap.answers_free, Heap.answers_zero, Heap.answers_store, and_self]
    · replace hr := hr.trans (if_neg hlimit)
      rw [if_neg hlimit]
      by_cases hkey : r₀.code = slhDsaSignErrorBadKey
      · rw [hr.trans (if_pos hkey), if_pos hkey, Option.map_some, hread]
        simp only [Heap.answers_free, Heap.answers_zero, Heap.answers_store, and_self]
      · rw [hr.trans (if_neg hkey), if_neg hkey, Option.map_some, hread]
        simp only [Heap.answers_free, Heap.answers_zero, Heap.answers_store, and_self]
  · replace hr := hr.trans (if_neg hfailed)
    rw [if_neg hfailed, hv, Option.map_some]
    by_cases hverdict : (slhDsaVerify E H (some v.toList) (r₀.siglen.getD 0)
        (some messagePtr) messageSize (some (secretKey.drop 32)) r₀.T).val.1 ≠ 0
    · rw [hr.trans (if_pos hverdict), if_pos hverdict, Option.map_some, hread]
      simp only [Heap.answers_free, Heap.answers_zero, Heap.answers_store, and_self]
    · rw [hr.trans (if_neg hverdict), if_neg hverdict, Option.map_some, Signature.read,
        Heap.contents, Option.map_some, hload, Heap.answers_store]
      exact ⟨rfl, rfl⟩

theorem signatureReading_of_sameCaps (h : SameCaps E E') (hT : T.Clean)
    (sig : Vector UInt8 3680) :
    let r := (slhDsaSignWithStats E' H (some sig) (some 0) (some messagePtr) messageSize
      (some secretKey) stats T).val
    signatureReading E H secretKey messagePtr messageSize stats =
      signatureOfResult r (slhDsaVerify E' H (r.sig.map Vector.toList) (r.siglen.getD 0)
        (some messagePtr) messageSize (some (secretKey.drop 32)) r.T).val.1 := by
  obtain ⟨T₁, hsame⟩ := slhDsaSignWithStats_of_sameCaps (H := H) h
    (some (Vector.replicate 3680 0)) (some sig)
    (Option.isSome_some.trans Option.isSome_some.symm) (some 0) (some 0) rfl
    (some messagePtr) messageSize (some secretKey) stats ThreadState.fresh T
  have hclean := slhDsaSignWithStats_clean E' H (some sig) (some 0) (some messagePtr)
    messageSize (some secretKey) stats hT
  intro r
  rw [signatureReading, hsame]
  simp only [signatureOfResult]
  rw [slhDsaVerify_build E E' H _ _ _ _ _ ThreadState.clean_fresh hclean]

end Allocated

theorem bitcoinPqcSignAllocated_runs (h : SameCaps E E') (secretKey messagePtr : List UInt8)
    (messageSize : ℕ) (stats : Option SignStats) (heap : Heap) (hT : T.Clean) :
    let sig := heap.malloc A slhDsaSignatureSize
    let r := bitcoinPqcSignAllocated E' H secretKey slhDsaSecretKeySize messagePtr messageSize
      (some Signature.empty) stats sig.1 sig.2 T
    ∃ l, r.heap.answers = heap.answers ++ l ∧
      (sigBufferAsks E H secretKey messagePtr messageSize stats).Runs l
        (r.error, r.stats, r.signature.map fun g => g.read r.heap) := by
  have hread (h : Heap) : Signature.empty.read h = Signature.emptyReading :=
    Signature.read_eq_emptyReading_iff.mpr rfl
  intro sig r
  have hanswers : sig.2.answers = heap.answers ++ [sig.1.isSome] :=
    Heap.answers_malloc A slhDsaSignatureSize heap
  cases hsig : sig.1 with
  | none =>
      have hr : r = ⟨.outOfMemory, some Signature.empty, stats, sig.2, T⟩ := by
        simp only [r, hsig, bitcoinPqcSignAllocated]
        rfl
      rw [hsig] at hanswers
      refine ⟨[false], ?_, Asks.Runs.ask ?_⟩
      · rw [hr]
        exact hanswers
      · rw [hr, Option.map_some, hread]
        exact Asks.Runs.done _
  | some a =>
      obtain ⟨c, hc, hlen⟩ := Heap.blocks_malloc hsig
      obtain ⟨v, hv⟩ := exists_sig_of_slhDsaSignWithStats E' H
        (bytesAt 3680 (sig.2.load (some a))) 0 (some messagePtr) messageSize (some secretKey)
        stats T
      obtain ⟨hsame, hreading⟩ := bitcoinPqcSignAllocated_reading E' hc hlen hv rfl
      rw [← signatureReading_of_sameCaps h hT] at hreading
      refine ⟨[true], ?_, Asks.Runs.ask ?_⟩
      · simp only [r, hsig]
        rw [hsame, hanswers, hsig]
        rfl
      · simp only [r, hsig]
        rw [hreading]
        exact Asks.Runs.done _

theorem bitcoinPqcSignImpl_runs (h : SameCaps E E') (secretKey : Option (List UInt8))
    (secretKeySize : ℕ) (message : Option (List UInt8)) (messageSize : ℕ)
    (signature : Option Signature) (stats : Option SignStats) (heap : Heap) (hT : T.Clean) :
    let r := bitcoinPqcSignImpl E' H A secretKey secretKeySize message messageSize signature
      stats heap T
    ∃ l, r.heap.answers = heap.answers ++ l ∧
      (bitcoinPqcSignImplAsks E H secretKey secretKeySize message messageSize
        (signature.map fun g => g.read heap) stats).Runs l
          (r.error, r.stats, r.signature.map fun g => g.read r.heap) := by
  rw [bitcoinPqcSignImpl, bitcoinPqcSignImplAsks, Option.isNone_map]
  by_cases hnull : secretKey.isNone ∨ signature.isNone
  · rw [if_pos hnull, if_pos hnull]
    exact ⟨[], (List.append_nil _).symm, Asks.Runs.done _⟩
  obtain ⟨hkey, hsignature⟩ := not_or.mp hnull
  rw [Option.isNone_iff_eq_none] at hkey hsignature
  obtain ⟨sk, rfl⟩ := Option.ne_none_iff_exists'.mp hkey
  obtain ⟨g, rfl⟩ := Option.ne_none_iff_exists'.mp hsignature
  rw [if_neg hnull, if_neg hnull]
  by_cases hm : message.isNone ∧ messageSize ≠ 0
  · rw [if_pos hm, if_pos hm]
    exact ⟨[], (List.append_nil _).symm, Asks.Runs.done _⟩
  have hiff := signatureOutputIsEmpty_iff g
  have hread := Signature.read_eq_emptyReading_iff (g := g) (h := heap)
  rw [if_neg hm, if_neg hm, Option.map_some, Option.all_some]
  by_cases hempty : g = Signature.empty
  · rw [if_neg (not_not_intro (hiff.mpr hempty)),
      if_neg (not_not_intro (congrArg some (hread.mpr hempty)))]
    subst hempty
    by_cases hsize : secretKeySize ≠ slhDsaSecretKeySize
    · rw [if_pos hsize, if_pos hsize]
      exact ⟨[], (List.append_nil _).symm, Asks.Runs.done _⟩
    · rw [if_neg hsize, if_neg hsize, not_not.mp hsize]
      exact bitcoinPqcSignAllocated_runs h sk (message.getD emptyMessage) messageSize stats
        heap hT
  · rw [if_pos fun h => hempty (hiff.mp h),
      if_pos fun h => hempty (hread.mp (Option.some.inj h))]
    exact ⟨[], (List.append_nil _).symm, Asks.Runs.done _⟩

end BitcoinPqc
