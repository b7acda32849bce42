import BitcoinPqc.Correctness.Layout
import BitcoinPqc.Properties.SignVerify

/-!
# A one-time key signs one value

The value that a WOTS keypair signs is a function of its position: the FORS public key
of that position at the bottom and the root of the subtree below at every other layer.
Two runs that use the same keypair at a layer use the same keypairs above it, so their
signatures are equal from that layer's window on.
-/

namespace BitcoinPqc

variable {E : Build} {H : HashFns} {sig : Vector UInt8 3680} {m : List UInt8}
  {sk : Vector UInt8 64} {T : ThreadState}

/-- The variables of the loop over the layers of a signing run before layer `l`. -/
def signStateAt (E : Build) (H : HashFns) (sig : Vector UInt8 3680) (m : List UInt8)
    (sk : Vector UInt8 64) (T : ThreadState) (l : ℕ) :
    Except (Int × Vector UInt8 3680 × ThreadState) SignLayerState :=
  (Traced.forRangeExcept l (signLayer E H (skCtx H sk))
    (signLayersStart E H (skCtx H sk) (write sig 0 (signGrind E H m sk T).R)
      (signGrind E H m sk T)).val).val

/-- What a run returns after its loop. -/
def signResultOf : Except (Int × Vector UInt8 3680 × ThreadState) SignLayerState → SignResult
  | .error d => ⟨d.1, 0, d.2.1, d.2.2⟩
  | .ok s => ⟨0, spxBytes, s.mem, s.T⟩

/-- After a salt was found the loop over the layers decides the result. -/
theorem cryptoSignSignature_eq_signResultOf
    (hfailed : T.clearFailure.randombytesBlock.2.randomSourceFailed = false)
    (hgrind : (signGrind E H m sk T).code = 0) :
    (cryptoSignSignature E H sig m sk T).val =
      signResultOf (signStateAt E H sig m sk T spxD) := by
  rw [cryptoSignSignature]
  simp only [grindLoop_eq_outcome]
  change Traced.val (if T.clearFailure.randombytesBlock.2.randomSourceFailed = true
    then _ else if (signGrind E H m sk T).code ≠ 0 then _ else _) = _
  rw [hfailed, if_neg Bool.false_ne_true, if_neg (not_not_intro hgrind), Traced.val_bind,
    Traced.val_bind, signStateAt, signGrind]
  cases (Traced.forRangeExcept spxD (signLayer E H (skCtx H sk)) _).val with
  | error d => rfl
  | ok s => rfl

theorem exists_signStateAt_of_eq_zero
    (h : (cryptoSignSignature E H sig m sk T).val.code = 0) :
    ∃ s, signStateAt E H sig m sk T spxD = .ok s ∧
      (cryptoSignSignature E H sig m sk T).val.sig = s.mem := by
  obtain ⟨hfailed, hgrind, _⟩ := (cryptoSignSignature_eq_zero_iff E H sig m sk T).mp h
  have hlen := (signed_of_eq_zero h).siglen
  rw [cryptoSignSignature_eq_signResultOf hfailed hgrind] at hlen ⊢
  cases hat : signStateAt E H sig m sk T spxD with
  | error d =>
      rw [hat] at hlen
      cases hlen
  | ok s => exact ⟨s, rfl, rfl⟩

/-- The loop variables of a run: the position, the value that is signed there, and the
windows below. -/
theorem signStateAt_ok {l : ℕ} (hl : l ≤ spxD) {s : SignLayerState}
    (h : signStateAt E H sig m sk T l = .ok s) :
    (s.tree, s.idxLeaf) =
        layerPos (signGrind E H m sk T).tree (signGrind E H m sk T).idxLeaf l ∧
      s.root = signedValue H (skCtx H sk) (signGrind E H m sk T).tree
        (signGrind E H m sk T).idxLeaf l ∧
      ∀ l' < l, LayerOk H (skCtx H sk) (signGrind E H m sk T).tree
        (signGrind E H m sk T).idxLeaf s.mem l' := by
  have hpos : (signGrind E H m sk T).tree < 2 ^ 24 ∧
      (signGrind E H m sk T).idxLeaf < 2 ^ 6 := grindOutcome_pos _ _ _ _ _ _
  have hP := callsOk_true E H (skCtx H sk)
  have hstart := (signLayersStart_sat hP hpos.1 hpos.2
    (write sig 0 (signGrind E H m sk T).R)).2.1
  have hloop := Traced.Sat.forRangeExcept l
    (SignStateOk E H (skCtx H sk) (signGrind E H m sk T).tree
      (signGrind E H m sk T).idxLeaf _ (signGrind E H m sk T).T)
    (fun i (d : Int × Vector UInt8 3680 × ThreadState) =>
      layersThread E H (skCtx H sk) (signGrind E H m sk T).tree
        (signGrind E H m sk T).idxLeaf (signGrind E H m sk T).T (i + 1) =
          .error (d.1, d.2.2))
    hstart fun i hi t ht =>
      signLayer_sat hP (fun _ _ => trivial) hpos.1 hpos.2 (hi.trans_le hl) ht
  have hok := hloop.2
  change Traced.ExceptPost _ _ (signStateAt E H sig m sk T l) at hok
  rw [h] at hok
  exact ⟨hok.pos, hok.root, hok.layers⟩

/-- What a window must hold depends on the position at its layer only. -/
theorem layerOk_iff_of_layerPos_eq {ctx : SpxCtx} {tree leaf tree' leaf' l : ℕ}
    (h : layerPos tree leaf l = layerPos tree' leaf' l) :
    LayerOk H ctx tree leaf sig l ↔ LayerOk H ctx tree' leaf' sig l := by
  have hlengths : signedLengths H ctx tree leaf l = signedLengths H ctx tree' leaf' l := by
    rw [signedLengths, signedLengths, signedValue_eq_of_layerPos_eq H ctx h]
  rw [LayerOk, LayerOk, hlengths, h]

theorem forsSign_root (E : Build) (H : HashFns) (ctx : SpxCtx) {tree leaf : ℕ}
    (htree : tree < 2 ^ 24) (hleaf : leaf < 2 ^ 6) (mem : Vector UInt8 3680)
    (mhash : Block) :
    (forsSign E H spxN mem mhash ctx (setKeypairAddr (setTreeAddr
      (setType zeroAddr addrTypeWots) tree) leaf)).val.1 = forsPk H ctx tree leaf := by
  have haddr : setKeypairAddr (setTreeAddr (setType zeroAddr addrTypeWots) tree) leaf =
      addrOf 0 tree addrTypeWots leaf 0 0 := by
    rw [zeroAddr_eq_addrOf, setType_addrOf, setTreeAddr_addrOf, setKeypairAddr_addrOf]
  exact (forsSign_sat E (callsOk_true E H ctx) htree hleaf (by decide) mem mhash
    ⟨_, _, haddr⟩).2.1

/-- Two runs with one key that use the same keypair at a layer sign the same value
there, and their signatures are equal from the window of that layer on. The value at
the bottom is computed without regard to the digest. -/
theorem oneTimeKey_signs_one_value (E E' : Build) (H : HashFns) (sk : Vector UInt8 64)
    (sig sig' : Vector UInt8 3680) (m m' : List UInt8) (T T' : ThreadState)
    (h : (cryptoSignSignature E H sig m sk T).val.code = 0)
    (h' : (cryptoSignSignature E' H sig' m' sk T').val.code = 0) :
    (∀ l < spxD, ∀ s s',
      signStateAt E H sig m sk T l = .ok s → signStateAt E' H sig' m' sk T' l = .ok s' →
      s.tree = s'.tree → s.idxLeaf = s'.idxLeaf →
        s.root = s'.root ∧
        slice (cryptoSignSignature E H sig m sk T).val.sig (1920 + 352 * l)
            (3680 - (1920 + 352 * l)) =
          slice (cryptoSignSignature E' H sig' m' sk T').val.sig (1920 + 352 * l)
            (3680 - (1920 + 352 * l))) ∧
      ∀ (sk' : Vector UInt8 64) (mem mem' : Vector UInt8 3680) (mhash mhash' : Block),
        ∀ tree < 2 ^ 24, ∀ leaf < 2 ^ 6,
        slice sk 0 16 = slice sk' 0 16 → slice sk 32 16 = slice sk' 32 16 →
          (forsSign E H spxN mem mhash (skCtx H sk) (setKeypairAddr (setTreeAddr
              (setType zeroAddr addrTypeWots) tree) leaf)).val.1 =
            (forsSign E' H spxN mem' mhash' (skCtx H sk') (setKeypairAddr (setTreeAddr
              (setType zeroAddr addrTypeWots) tree) leaf)).val.1 := by
  refine ⟨?_, ?_⟩
  · intro l hl s s' hs hs' htree hleaf
    obtain ⟨hpos, hroot, _⟩ := signStateAt_ok hl.le hs
    obtain ⟨hpos', hroot', _⟩ := signStateAt_ok hl.le hs'
    have hsame := (hpos.symm.trans (Prod.ext htree hleaf)).trans hpos'
    refine ⟨?_, ?_⟩
    · rw [hroot, hroot', signedValue_eq_of_layerPos_eq H _ hsame]
    · obtain ⟨t, ht, hsig⟩ := exists_signStateAt_of_eq_zero h
      obtain ⟨t', ht', hsig'⟩ := exists_signStateAt_of_eq_zero h'
      obtain ⟨_, _, hlayers⟩ := signStateAt_ok le_rfl ht
      obtain ⟨_, _, hlayers'⟩ := signStateAt_ok le_rfl ht'
      rw [hsig, hsig']
      refine slice_eq_of_sameLayer hl.le ?_
      intro l' hle hl'
      refine sameLayer_of_layerOk (hlayers l' hl') ?_
      obtain ⟨k, rfl⟩ := Nat.exists_eq_add_of_le hle
      exact (layerOk_iff_of_layerPos_eq (layerPos_eq_of_le hsame k)).mpr (hlayers' (l + k) hl')
  · intro sk' mem mem' mhash mhash' tree htree leaf hleaf hseed hpub
    have hctx : skCtx H sk = skCtx H sk' := by
      simp only [skCtx, spxN, Nat.reduceMul, hseed, hpub]
    rw [forsSign_root E H _ htree hleaf, forsSign_root E' H _ htree hleaf, hctx]

/-- With the hash functions that ignore their input two messages use one keypair at the
bottom. -/
theorem oneTimeKey_signs_one_value_constantHash :
    ∃ s s', signStateAt smallestCaps constantHash (Vector.replicate 3680 0) [1]
        (Vector.replicate 64 0) sourceThread 0 = .ok s ∧
      signStateAt smallestCaps constantHash (Vector.replicate 3680 7) [2]
        (Vector.replicate 64 0) sourceThread 0 = .ok s' ∧
      s.root = s'.root ∧
      slice (cryptoSignSignature smallestCaps constantHash (Vector.replicate 3680 0) [1]
          (Vector.replicate 64 0) sourceThread).val.sig 1920 1760 =
        slice (cryptoSignSignature smallestCaps constantHash (Vector.replicate 3680 7) [2]
          (Vector.replicate 64 0) sourceThread).val.sig 1920 1760 := by
  have hpos := (signGrind_constantHash smallestCaps [1] (Vector.replicate 64 0)
    sourceThread).2
  have hpos' := (signGrind_constantHash smallestCaps [2] (Vector.replicate 64 0)
    sourceThread).2
  refine ⟨_, _, rfl, rfl, (oneTimeKey_signs_one_value smallestCaps smallestCaps constantHash
    (Vector.replicate 64 0) (Vector.replicate 3680 0) (Vector.replicate 3680 7) [1] [2]
    sourceThread sourceThread (cryptoSignSignature_constantHash _ _ _ _)
    (cryptoSignSignature_constantHash _ _ _ _)).1 0 (by decide) _ _ rfl rfl ?_ ?_⟩
  · exact hpos.1.trans hpos'.1.symm
  · exact hpos.2.trans hpos'.2.symm

end BitcoinPqc
