import BitcoinPqc.Correctness.Verify
import BitcoinPqc.Properties.Keys

/-!
# What is signed is accepted

The verifier recomputes single paths and never sees the counters, the signer builds
whole trees. They agree because every window of an honest signature holds the values
of the hypertree at its position: the chains end where the key's chains end, a path of
the key's own siblings leads to the root of the subtree, and that root is the value
that the next layer signs. The search of the verifier finds the counter of the signer
because the least counter does not depend on the bound that reaches it.
-/

namespace BitcoinPqc

open Merkle

variable {E : Build} {H : HashFns} {ctx : SpxCtx}

/-!
## One layer
-/

section Layer

variable {layer tree leaf sigPtr n : ℕ} {lengths : Vector ℕ 16} {sig : Vector UInt8 n}

/-- The chains of an honest window end where the chains of the key end. -/
theorem chainEnd_of_signed (h : LayerSigned H ctx layer tree leaf lengths sigPtr sig)
    {i : ℕ} (hi : i < spxWotsLen) (hlen : lengths.getD i 0 < spxWotsW) :
    chainEnd H sig ctx.stateSeeded layer tree leaf sigPtr lengths i =
      wotsValue H ctx layer tree leaf i (spxWotsW - 1) := by
  have hsplit : spxWotsW - 1 = lengths.getD i 0 + (spxWotsW - 1 - lengths.getD i 0) := by
    omega
  rw [chainEnd, wotsElement, h.chains i hi, wotsValue, wotsValue, hsplit, chain_add,
    Nat.zero_add, ← hsplit]

theorem recoveredLeaf_of_signed (h : LayerSigned H ctx layer tree leaf lengths sigPtr sig)
    (hlen : ∀ i, lengths.getD i 0 < spxWotsW) :
    recoveredLeaf H sig ctx.stateSeeded layer tree leaf sigPtr lengths =
      wotsPk H ctx layer tree leaf := by
  have hends : chainEnds H sig ctx.stateSeeded layer tree leaf sigPtr lengths =
      (List.range spxWotsLen).map fun i =>
        wotsValue H ctx layer tree leaf i (spxWotsW - 1) :=
    List.map_congr_left fun i hi => chainEnd_of_signed h (List.mem_range.mp hi) (hlen i)
  rw [recoveredLeaf, wotsPk, hends]

theorem recoveredRoot_of_signed (h : LayerSigned H ctx layer tree leaf lengths sigPtr sig)
    (hlen : ∀ i, lengths.getD i 0 < spxWotsW) (hleaf : leaf < 2 ^ spxTreeHeight) :
    recoveredRoot H sig ctx.stateSeeded layer tree leaf sigPtr lengths =
      treeRoot H ctx layer tree := by
  have hclimb := climb_node (wotsPk H ctx layer tree)
    (treeHash H ctx.stateSeeded layer tree) leaf (pathEntry sig (sigPtr + spxWotsBytes))
    spxTreeHeight h.path
  have htop : leaf >>> spxTreeHeight = 0 := Nat.shiftRight_eq_zero leaf spxTreeHeight hleaf
  rw [recoveredRoot, recoveredLeaf_of_signed h hlen]
  rw [htop] at hclimb
  exact hclimb

end Layer

/-!
## The FORS trees
-/

section Fors

variable {tree leaf sigPtr n : ℕ} {mhash : Block} {sig : Vector UInt8 n}

/-- Below the root the sibling of a node stays in its tree. -/
theorem xor_one_add_two_pow (a t : ℕ) {k m : ℕ} (hk : k < m) :
    (a + t * 2 ^ (m - k)) ^^^ 1 = (a ^^^ 1) + t * 2 ^ (m - k) := by
  have heven : t * 2 ^ (m - k) = 2 * (t * 2 ^ (m - (k + 1))) := by
    rw [← Nat.mul_assoc, Nat.mul_comm 2 t, Nat.mul_assoc, ← Nat.pow_succ']
    congr 2
    omega
  rcases Nat.mod_two_eq_zero_or_one a with hmod | hmod
  · rw [xor_one_of_even hmod, xor_one_of_even (by omega)]
    omega
  · rw [xor_one_of_odd hmod, xor_one_of_odd (by omega)]
    omega

theorem recoveredForsRoot_of_signed (h : ForsSigned H ctx tree leaf mhash sigPtr sig)
    {t : ℕ} (ht : t < spxForsSigTrees) :
    recoveredForsRoot H sig ctx.stateSeeded tree leaf sigPtr mhash t =
      forsNode H ctx tree leaf spxForsHeight t := by
  obtain ⟨hsk, hpath⟩ := h t ht
  have hidx := messageToIndices_lt mhash t
  have hleafVal : recoveredForsLeaf H sig ctx.stateSeeded tree leaf sigPtr mhash t =
      forsLeaf H ctx tree leaf (openedIdx mhash t) := by
    rw [recoveredForsLeaf, forsElement, hsk]
    rfl
  have hclimb := climb_node (forsLeaf H ctx tree leaf)
    (forsHash H ctx.stateSeeded tree leaf) (openedIdx mhash t) (forsPath sig sigPtr t)
    spxForsHeight (by
      intro k hk
      rw [forsPath, pathEntry, hpath k hk, forsTreeNode, openedIdx,
        shiftRight_add_mul_two_pow _ _ hk.le, shiftRight_mul_two_pow t hk.le,
        xor_one_add_two_pow _ _ hk]
      rfl)
  have htop : openedIdx mhash t >>> spxForsHeight = t := by
    rw [openedIdx, shiftRight_add_mul_two_pow _ _ le_rfl, shiftRight_mul_two_pow t le_rfl,
      Nat.shiftRight_eq_zero _ _ hidx]
    simp
  rw [recoveredForsRoot, hleafVal]
  rw [htop] at hclimb
  exact hclimb

theorem recoveredForsPk_of_signed (h : ForsSigned H ctx tree leaf mhash sigPtr sig) :
    recoveredForsPk H sig ctx.stateSeeded tree leaf sigPtr mhash =
      forsPk H ctx tree leaf := by
  have hroots : recoveredForsRoots H sig ctx.stateSeeded tree leaf sigPtr mhash =
      (List.range spxForsSigTrees).map fun t => forsNode H ctx tree leaf spxForsHeight t :=
    List.map_congr_left fun t ht => recoveredForsRoot_of_signed h (List.mem_range.mp ht)
  rw [recoveredForsPk, forsPk, hroots]

end Fors

/-!
## A run on an honest signature
-/

section Run

variable {sig : Vector UInt8 3680} {m : List UInt8} {pk : Vector UInt8 32}
  {T : ThreadState} {tree leaf : ℕ} {salt mhash : Block}

/-- Before layer `l` the verifier has the value that is signed there. -/
theorem verifyStateAt_of_signed (hsig : SignedSig H ctx tree leaf salt mhash sig)
    (hdigest : verifyDigest H sig m pk = (mhash, tree, leaf)) (hleaf : leaf < 2 ^ 6)
    (hctx : ctx.stateSeeded = (pkCtx E H pk).stateSeeded)
    (hsearch : Searchable H ctx tree leaf (wotscBound E T) spxD) {l : ℕ} (hl : l ≤ spxD) :
    ∃ s, verifyStateAt E H sig m pk T l = .ok s ∧
      s.root = signedValue H ctx tree leaf l ∧ wotscBound E s.T = wotscBound E T := by
  induction l with
  | zero =>
      obtain ⟨s, hat, _, hroot, hT, _⟩ := verifyStateAt_zero E H sig m pk T
      refine ⟨s, hat, ?_, by rw [hT]⟩
      rw [hroot, runForsPk, hdigest, ← hctx]
      exact recoveredForsPk_of_signed hsig.fors
  | succ l ih =>
      obtain ⟨s, hat, hroot, hbound⟩ := ih (by omega)
      obtain ⟨c, hc⟩ := hsearch l hl
      have hres : searchResult H s.root (wotscBound E s.T) s.T =
          (.ok (counterLengths H s.root c), s.T.recordWotscAttempts (c + 1)) := by
        rw [searchResult_eq_ok_iff, hbound, hroot]
        exact ⟨c, hc, rfl, rfl⟩
      obtain ⟨u, hu, _, huT, hpassed⟩ :=
        verifyStateAt_succ_of_ok hat (runStateOk_of_eq_ok hat) hres
      refine ⟨u, hu, ?_, by rw [huT, wotscBound_recordWotscAttempts, hbound]⟩
      have hlengths : counterLengths H s.root c = signedLengths H ctx tree leaf l := by
        rw [hroot] at hres ⊢
        exact searchResult_signed (wotscBound_le E s.T) hres
      rw [hpassed.root, hlengths, runRoot, layerRoot, hdigest, ← hctx]
      exact recoveredRoot_of_signed (hsig.layers l hl) (signedLengths_lt H ctx tree leaf l)
        (layerPos_snd_lt tree hleaf l)

/-- An honest signature is accepted under the root of its key, by a verifier whose
bound reaches the counters. -/
theorem cryptoSignVerify_of_signed (hsig : SignedSig H ctx tree leaf salt mhash sig)
    (hdigest : hashMessage H salt pk m = (mhash, tree, leaf))
    (hidx : forscCompressedIndex mhash = 0)
    (hctx : ctx.stateSeeded = (pkCtx E H pk).stateSeeded)
    (hroot : slice pk spxN spxN = treeRoot H ctx (spxD - 1) 0)
    (hsearch : Searchable H ctx tree leaf (wotscBound E T) spxD) :
    (cryptoSignVerify E H sig spxBytes m pk T).val.1 = 0 := by
  have hdigest' : verifyDigest H sig m pk = (mhash, tree, leaf) := by
    rw [verifyDigest, hsig.salt, hdigest]
  have hpos := verifyDigest_pos H sig m pk
  rw [hdigest'] at hpos
  obtain ⟨s, hat, hsroot, _⟩ :=
    verifyStateAt_of_signed hsig hdigest' hpos.2 hctx hsearch le_rfl
  have htop : (layerPos tree leaf (spxD - 1)).1 = 0 := layerPos_fst_top leaf hpos.1
  rw [cryptoSignVerify_eq_zero_iff]
  refine ⟨by rw [hdigest', hidx], s, hat, ?_⟩
  rw [hsroot, hroot, ← htop]
  rfl

end Run

/-!
## Signing and verifying
-/

section Keys

variable {sk : Vector UInt8 64} {m : List UInt8} {T : ThreadState}

theorem pkCtx_stateSeeded (E : Build) (H : HashFns) (sk : Vector UInt8 64) :
    (pkCtx E H (slice sk 32 32)).stateSeeded = (skCtx H sk).stateSeeded := by
  have hpub : slice (slice sk 32 32) 0 spxN = slice sk (2 * spxN) spxN :=
    slice_slice sk 32 32 0 spxN (by decide) (by decide)
  simp only [pkCtx, skCtx, initializeHashFunction, hpub]

/-- What a successful call has found: a salt within the cap of the build, with its
digest, a counter for every layer, and an honest signature at that position. -/
structure Signed (E : Build) (H : HashFns) (m : List UInt8) (sk : Vector UInt8 64)
    (T : ThreadState) (r : SignResult) : Prop where
  siglen : r.siglen = spxBytes
  grind : (signGrind E H m sk T).code = 0
  layers : layersThread E H (skCtx H sk) (signGrind E H m sk T).tree
    (signGrind E H m sk T).idxLeaf (signGrind E H m sk T).T spxD = .ok r.T
  sig : SignedSig H (skCtx H sk) (signGrind E H m sk T).tree
    (signGrind E H m sk T).idxLeaf (signGrind E H m sk T).R (signGrind E H m sk T).mhash
    r.sig

/-- A successful salt loop ends with a salt whose digest needs no eighth tree. -/
theorem signGrind_of_eq_zero (h : (signGrind E H m sk T).code = 0) :
    hashMessage H (signGrind E H m sk T).R (slice sk (2 * spxN) spxPkBytes) m =
        ((signGrind E H m sk T).mhash, (signGrind E H m sk T).tree,
          (signGrind E H m sk T).idxLeaf) ∧
      forscCompressedIndex (signGrind E H m sk T).mhash = 0 ∧
      wotscBound E (signGrind E H m sk T).T = wotscBound E T := by
  unfold signGrind grindOutcome at *
  split at h
  · next d hd =>
      refine ⟨rfl, ((firstUpTo_eq_some_iff _ _ _).mp hd).1, ?_⟩
      simp only [grindResult, wotscBound, ThreadState.recordForscAttempts,
        Option.isSome_map, ThreadState.signStats_randombytesBlock]
      rfl
  · cases h

theorem signed_of_eq_zero {sig : Vector UInt8 3680}
    (h : (cryptoSignSignature E H sig m sk T).val.code = 0) :
    Signed E H m sk T (cryptoSignSignature E H sig m sk T).val := by
  have hsat := cryptoSignSignature_val E H sig m sk T
  rw [SignOk] at hsat
  split at hsat
  · rw [hsat] at h
    cases h
  · split at hsat
    · next hcode =>
        rw [hsat.1] at h
        exact absurd h hcode
    · next hcode =>
        rw [Classical.not_not] at hcode
        split at hsat
        · next d herr =>
            have hlimit := layersThread_error herr
            rw [hsat.1, hlimit] at h
            cases h
        · next T' hok =>
            obtain ⟨_, hlen, hT, hsig⟩ := hsat
            exact ⟨hlen, hcode, by rw [hok, hT], hsig⟩

/-- The three things that can go wrong in `crypto_sign_signature`. -/
theorem cryptoSignSignature_eq_zero_iff (E : Build) (H : HashFns)
    (sig : Vector UInt8 3680) (m : List UInt8) (sk : Vector UInt8 64) (T : ThreadState) :
    (cryptoSignSignature E H sig m sk T).val.code = 0 ↔
      T.clearFailure.randombytesBlock.2.randomSourceFailed = false ∧
        (signGrind E H m sk T).code = 0 ∧
        Searchable H (skCtx H sk) (signGrind E H m sk T).tree
          (signGrind E H m sk T).idxLeaf (wotscBound E T) spxD := by
  have hok := cryptoSignSignature_val E H sig m sk T
  rw [SignOk] at hok
  cases hfailed : T.clearFailure.randombytesBlock.2.randomSourceFailed with
  | true =>
      rw [hfailed, if_pos rfl] at hok
      rw [hok]
      simp
  | false =>
      rw [hfailed, if_neg Bool.false_ne_true] at hok
      by_cases hgrind : (signGrind E H m sk T).code = 0
      · rw [if_neg (not_not_intro hgrind)] at hok
        rw [← (signGrind_of_eq_zero hgrind).2.2, ← exists_layersThread_ok_iff]
        split at hok
        · next d herr =>
            have hlimit := layersThread_error herr
            rw [hok.1, hlimit, herr]
            simp [signLimitExceeded]
        · next T' hlayers =>
            rw [hok.1, hlayers]
            simp [hgrind]
      · rw [if_pos hgrind] at hok
        rw [hok.1]
        simp [hgrind]

/-- A signature that was made with a bound is accepted by every build and thread whose
bound is at least that large. -/
theorem Signed.verify {E' : Build} {T' : ThreadState} {r : SignResult}
    (h : Signed E H m sk T r) (hkey : skRoot H sk = slice sk (3 * spxN) spxN)
    (hbound : wotscBound E T ≤ wotscBound E' T') :
    (cryptoSignVerify E' H r.sig spxBytes m (slice sk 32 32) T').val.1 = 0 := by
  obtain ⟨hdigest, hidx, hgrind⟩ := signGrind_of_eq_zero h.grind
  have hsearch := (exists_layersThread_ok_iff spxD).mp ⟨_, h.layers⟩
  refine cryptoSignVerify_of_signed h.sig hdigest hidx (pkCtx_stateSeeded E' H sk).symm ?_ ?_
  · rw [← skRoot, hkey]
    exact slice_slice sk 32 32 spxN spxN (by decide) (by decide)
  · intro l hl
    obtain ⟨c, hc⟩ := hsearch l hl
    rw [hgrind] at hc
    exact ⟨c, firstUpTo_mono _ hbound hc⟩

end Keys

/-- Signing and verifying fit together for every key that is accepted. The verifier may
run on any thread, with a stats object installed only if the signer had one. -/
theorem cryptoSignVerify_cryptoSignSignature (E : Build) (H : HashFns)
    (sig : Vector UInt8 3680) (m : List UInt8) (sk : Vector UInt8 64)
    (T₀ T T' : ThreadState)
    (hkey : (slhDsaSecretKeyValidate E H (some sk.toList) slhDsaSecretKeySize
      T₀).val.1 = 0)
    (hstats : T'.signStats.isSome → T.signStats.isSome)
    (hsign : (cryptoSignSignature E H sig m sk T).val.code = 0) :
    (cryptoSignSignature E H sig m sk T).val.siglen = 3680 ∧
      (cryptoSignVerify E H (cryptoSignSignature E H sig m sk T).val.sig 3680 m
        (slice sk 32 32) T').val.1 = 0 := by
  have hsigned := signed_of_eq_zero hsign
  have hroot := (slhDsaSecretKeyValidate_eq_zero_iff E H sk T₀).mp hkey
  have hbound : wotscBound E T ≤ wotscBound E T' := by
    unfold wotscBound
    split
    · split
      · exact le_rfl
      · exact E.wotsc_le
    · next hnone => rw [if_neg fun hsome => hnone (hstats hsome)]
  exact ⟨hsigned.siglen, hsigned.verify hroot hbound⟩

/-- Hash functions that ignore what they absorb. Every salt and every counter is a hit. -/
def constantHash : HashFns where
  seedState := fun _ => Vector.replicate 40 0
  thash := fun _ _ _ => Vector.replicate 16 0
  prfAddr := fun _ _ _ => Vector.replicate 16 0
  sha256 := fun _ => Vector.ofFn fun i => if i.val % 2 = 0 then 127 else 128
  sha512 := fun _ => Vector.replicate 64 0
  sha256Inc := fun _ _ => Vector.replicate 32 0
  genMessageRandom := fun _ _ _ => Vector.replicate 16 0
  messageDigest := fun _ _ _ => Vector.replicate 20 0
  thashx8 := fun _ _ _ _ => Vector.replicate 16 0
  prfAddrx8 := fun _ _ _ _ => Vector.replicate 16 0
  thashx8_lane := fun _ _ _ _ => rfl
  prfAddrx8_lane := fun _ _ _ _ => rfl

theorem forscCompressedIndex_constantHash (R : Block) (pk : Vector UInt8 32)
    (m : List UInt8) : forscCompressedIndex (hashMessage constantHash R pk m).1 = 0 := by
  have hzero : forscCompressedIndex (Vector.replicate 16 0) = 0 := by decide
  have hslice : slice (Vector.replicate 20 (0 : UInt8)) 0 spxForsMsgBytes =
      Vector.replicate 16 0 := by decide
  rw [hashMessage]
  simp only [constantHash, hslice, hzero]

theorem counterHit_constantHash (msg : Block) (c : ℕ) : CounterHit constantHash msg c := by
  have hhit : wotscChecksum (baseW spxWotsLen1
      (slice (Vector.ofFn fun i : Fin 32 => if i.val % 2 = 0 then (127 : UInt8) else 128)
        0 spxN)) = spxWotscTarget := by decide
  exact hhit

/-- The smallest caps. -/
def smallestCaps : Build where
  forscMaxGrindAttempts := 1
  wotscMaxCounter := 0
  hasAvx2 := false
  uninit := fun _ => Vector.replicate 16 0
  forsc_pos := le_rfl
  forsc_le := by decide
  wotsc_le := by decide

/-- A thread with a random source. -/
def sourceThread : ThreadState :=
  ThreadState.fresh.initRandomSource (some (List.replicate 64 0)) 64

theorem signGrind_constantHash (E : Build) (m : List UInt8) (sk : Vector UInt8 64)
    (T : ThreadState) :
    (signGrind E constantHash m sk T).code = 0 ∧
      (signGrind E constantHash m sk T).tree = 0 ∧
      (signGrind E constantHash m sk T).idxLeaf = 0 := by
  have hfirst (rBase : Block) (pk : Vector UInt8 32) (bound : ℕ) :
      firstUpTo (SaltHit constantHash rBase pk m) bound = some 0 := by
    rw [firstUpTo_eq_some_iff]
    exact ⟨forscCompressedIndex_constantHash _ _ _, Nat.zero_le _, fun e he => by omega⟩
  have hpos (R : Block) (pk : Vector UInt8 32) :
      (hashMessage constantHash R pk m).2 = (0, 0) := by
    simp only [hashMessage, constantHash]
    decide
  rw [signGrind, grindOutcome, hfirst]
  exact ⟨rfl, congrArg Prod.fst (hpos _ _), congrArg Prod.snd (hpos _ _)⟩

theorem cryptoSignSignature_constantHash (E : Build) (sig : Vector UInt8 3680)
    (m : List UInt8) (sk : Vector UInt8 64) :
    (cryptoSignSignature E constantHash sig m sk sourceThread).val.code = 0 := by
  rw [cryptoSignSignature_eq_zero_iff]
  refine ⟨?_, (signGrind_constantHash _ _ _ _).1, ?_⟩
  · exact ThreadState.randomSourceFailed_randombytesBlock rfl (by decide)
  · intro l _
    refine ⟨0, ?_⟩
    rw [firstUpTo_eq_some_iff]
    exact ⟨counterHit_constantHash _ _, Nat.zero_le _, fun e he => by omega⟩

theorem skRoot_constantHash (sk : Vector UInt8 64) :
    skRoot constantHash sk = Vector.replicate 16 0 := rfl

/-- The hypotheses hold of the key of zeros and the hash functions that ignore their
input. -/
theorem cryptoSignVerify_cryptoSignSignature_constantHash :
    (cryptoSignSignature smallestCaps constantHash (Vector.replicate 3680 0) [1]
        (Vector.replicate 64 0) sourceThread).val.siglen = 3680 ∧
      (cryptoSignVerify smallestCaps constantHash
        (cryptoSignSignature smallestCaps constantHash (Vector.replicate 3680 0) [1]
          (Vector.replicate 64 0) sourceThread).val.sig 3680 [1]
        (slice (Vector.replicate 64 0) 32 32) ThreadState.fresh).val.1 = 0 := by
  refine cryptoSignVerify_cryptoSignSignature smallestCaps constantHash _ _ _
    ThreadState.fresh sourceThread ThreadState.fresh ?_ (fun h => by cases h) ?_
  · rw [slhDsaSecretKeyValidate_eq_zero_iff, skRoot_constantHash]
    decide
  · exact cryptoSignSignature_constantHash _ _ _ _

end BitcoinPqc
