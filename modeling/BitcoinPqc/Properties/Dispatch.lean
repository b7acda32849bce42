import BitcoinPqc.Correctness.Layout

/-!
# The vectorised signer and the scalar signer agree

Both versions leave a `SignedSig` of the same salt, digest and position, and a
`SignedSig` is unique. The return code, the length and the thread state are those of
the salt loop and of the searches, which both versions share, so what the dispatch
chooses and what uninitialised lanes hold cannot be seen in the results.
-/

namespace BitcoinPqc

variable {E E' : Build} {H : HashFns}

/-- Two builds with the same caps. -/
structure SameCaps (E E' : Build) : Prop where
  forsc : E.forscMaxGrindAttempts = E'.forscMaxGrindAttempts
  wotsc : E.wotscMaxCounter = E'.wotscMaxCounter

theorem layersThread_of_sameCaps (h : SameCaps E E') (ctx : SpxCtx) (tree leaf : ℕ)
    (T : ThreadState) (l : ℕ) :
    layersThread E H ctx tree leaf T l = layersThread E' H ctx tree leaf T l := by
  have hbound (T : ThreadState) : wotscBound E T = wotscBound E' T := by
    rw [wotscBound, wotscBound, h.wotsc]
  induction l with
  | zero => rfl
  | succ l ih =>
      rw [layersThread, layersThread, ih]
      cases layersThread E' H ctx tree leaf T l with
      | error d => rfl
      | ok T' => simp only [hbound]

theorem signGrind_of_sameCaps (h : SameCaps E E') (m : List UInt8) (sk : Vector UInt8 64)
    (T : ThreadState) : signGrind E H m sk T = signGrind E' H m sk T := by
  rw [signGrind, signGrind, grindOutcome, grindOutcome, h.forsc]

/-- Two results of `crypto_sign_signature` that a caller cannot tell apart. -/
structure SameResult (r r' : SignResult) : Prop where
  code : r.code = r'.code
  siglen : r.siglen = r'.siglen
  thread : r.T = r'.T
  sig : r.code = 0 → r.sig = r'.sig

/-- What `crypto_sign_signature` returns is determined by its arguments. -/
theorem SignOk.sameResult {sig sig' : Vector UInt8 3680} {m : List UInt8}
    {sk : Vector UInt8 64} {T : ThreadState} {r r' : SignResult}
    (h : SignOk E H sig m sk T r) (h' : SignOk E H sig' m sk T r') : SameResult r r' := by
  rw [SignOk] at h h'
  split at h
  · next hfailed =>
      rw [if_pos hfailed] at h'
      subst h h'
      exact ⟨rfl, rfl, rfl, fun hcode => by cases hcode⟩
  · next hfailed =>
      rw [if_neg hfailed] at h'
      split at h
      · next hgrind =>
          rw [if_pos hgrind] at h'
          obtain ⟨hcode, hlen, hT⟩ := h
          obtain ⟨hcode', hlen', hT'⟩ := h'
          refine ⟨hcode.trans hcode'.symm, hlen.trans hlen'.symm, hT.trans hT'.symm, ?_⟩
          intro hzero
          exact absurd (hcode.symm.trans hzero) hgrind
      · next hgrind =>
          rw [if_neg hgrind] at h'
          cases hlayers : layersThread E H (skCtx H sk) (signGrind E H m sk T).tree
              (signGrind E H m sk T).idxLeaf (signGrind E H m sk T).T spxD with
          | error d =>
              rw [hlayers] at h h'
              obtain ⟨hcode, hlen, hT⟩ := h
              obtain ⟨hcode', hlen', hT'⟩ := h'
              refine ⟨hcode.trans hcode'.symm, hlen.trans hlen'.symm, hT.trans hT'.symm, ?_⟩
              intro hzero
              rw [hcode, layersThread_error hlayers] at hzero
              cases hzero
          | ok T' =>
              rw [hlayers] at h h'
              obtain ⟨hcode, hlen, hT, hsig⟩ := h
              obtain ⟨hcode', hlen', hT', hsig'⟩ := h'
              exact ⟨hcode.trans hcode'.symm, hlen.trans hlen'.symm, hT.trans hT'.symm,
                fun _ => hsig.unique hsig'⟩

theorem signOk_of_sameCaps (h : SameCaps E E') (sig : Vector UInt8 3680) (m : List UInt8)
    (sk : Vector UInt8 64) (T : ThreadState) (r : SignResult) :
    SignOk E H sig m sk T r ↔ SignOk E' H sig m sk T r := by
  unfold SignOk
  rw [signGrind_of_sameCaps h, layersThread_of_sameCaps h]

/-- With the same caps the two versions return the same code, length, stats and, on
success, signature, and the same root, whatever the uninitialised buffers and the
output buffers held. -/
theorem avx2_refines_scalar (E : Build) (H : HashFns) (uninit uninit' : ℕ → Block) :
    (∀ (sig sig' : Vector UInt8 3680) (m : List UInt8) (sk : Vector UInt8 64)
        (T : ThreadState),
      SameResult
        (cryptoSignSignature { E with hasAvx2 := true, uninit := uninit } H sig m sk T).val
        (cryptoSignSignature { E with hasAvx2 := false, uninit := uninit' } H sig' m sk
          T).val) ∧
      ∀ (root root' : Block) (ctx : SpxCtx) (T : ThreadState),
        (merkleGenRoot { E with hasAvx2 := true, uninit := uninit } H root ctx T).val =
          (merkleGenRoot { E with hasAvx2 := false, uninit := uninit' } H root' ctx T).val := by
  refine ⟨?_, ?_⟩
  · intro sig sig' m sk T
    have hcaps : SameCaps { E with hasAvx2 := false, uninit := uninit' }
        { E with hasAvx2 := true, uninit := uninit } := ⟨rfl, rfl⟩
    have havx2 := cryptoSignSignature_val { E with hasAvx2 := true, uninit := uninit } H sig
      m sk T
    have hscalar := cryptoSignSignature_val { E with hasAvx2 := false, uninit := uninit' } H
      sig' m sk T
    exact havx2.sameResult ((signOk_of_sameCaps hcaps sig' m sk T _).mp hscalar)
  · intro root root' ctx T
    rw [(merkleGenRoot_sat _ (callsOk_true _ H ctx) root T).2,
      (merkleGenRoot_sat _ (callsOk_true _ H ctx) root' T).2]

end BitcoinPqc
