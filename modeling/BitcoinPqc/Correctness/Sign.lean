import BitcoinPqc.Correctness.Fors
import BitcoinPqc.Sphincs.Sign

/-!
# What a signing run produces

The salt loop is `firstUpTo` of the salts whose digest leaves the last FORS tree at
index zero. The loop over the layers signs `signedValue` with the keypair at
`layerPos`, and ends early exactly when a counter search fails. A signature that is
returned is `SignedSig` of the salt, the digest and the position, so its bytes do
not depend on the build, on the statistics or on the earlier contents of the
buffer.
-/

namespace BitcoinPqc

variable (E : Build) (H : HashFns)

/-!
## The salt
-/

/-- The salt of attempt `c`, counted from zero. -/
def saltAt (rBase : Block) (c : ℕ) : Block := if c = 0 then rBase else xorSalt rBase c

/-- The digest of attempt `c` does not need the last FORS tree. -/
def SaltHit (rBase : Block) (pk : Vector UInt8 32) (m : List UInt8) (c : ℕ) : Prop :=
  forscCompressedIndex (hashMessage H (saltAt rBase c) pk m).1 = 0

instance (rBase : Block) (pk : Vector UInt8 32) (m : List UInt8) :
    DecidablePred (SaltHit H rBase pk m) := fun _ =>
  inferInstanceAs (Decidable (_ = _))

/-- The salt loop when it ends at attempt `c`. -/
def grindResult (rBase : Block) (pk : Vector UInt8 32) (m : List UInt8) (code : Int)
    (c : ℕ) (T : ThreadState) : GrindResult :=
  ⟨code, saltAt rBase c, (hashMessage H (saltAt rBase c) pk m).1,
    (hashMessage H (saltAt rBase c) pk m).2.1,
    (hashMessage H (saltAt rBase c) pk m).2.2, T⟩

/-- The salt loop with `n` attempts left after attempt `c` finds the first hit. The
counter does not wrap within the cap. -/
theorem grindLoop_eq (rBase : Block) (pk : Vector UInt8 32) (m : List UInt8) (n c : ℕ)
    (hn : c + n < 2 ^ 32 - 1) (T : ThreadState) :
    grindLoop H rBase pk m n c c (saltAt rBase c) T =
      match firstFrom (SaltHit H rBase pk m) n c with
      | some d => grindResult H rBase pk m 0 d (T.recordForscAttempts (d + 1))
      | none =>
          grindResult H rBase pk m signLimitExceeded (c + n)
            (T.recordForscAttempts (c + n + 1)).recordForscCap := by
  induction n generalizing c with
  | zero =>
      rw [grindLoop, firstFrom]
      by_cases hhit : SaltHit H rBase pk m c
      · rw [if_pos hhit]
        exact if_pos hhit
      · rw [if_neg hhit]
        exact if_neg hhit
  | succ n ih =>
      rw [grindLoop, firstFrom]
      by_cases hhit : SaltHit H rBase pk m c
      · rw [if_pos hhit]
        exact if_pos hhit
      · rw [if_neg hhit]
        refine (if_neg hhit).trans ?_
        have hmod : (c + 1) % 2 ^ 32 = c + 1 := Nat.mod_eq_of_lt (by omega)
        have hsalt : xorSalt rBase (c + 1) = saltAt rBase (c + 1) :=
          (if_neg (Nat.succ_ne_zero c)).symm
        simp only [hmod, Nat.succ_ne_zero, if_false, hsalt]
        rw [ih (c + 1) (by omega), show c + 1 + n = c + (n + 1) by omega]

/-!
## The layers
-/

section Layers

variable (ctx : SpxCtx) (tree leaf : ℕ)

/-- The chain lengths with which the value of layer `l` is signed. -/
def signedLengths (l : ℕ) : Vector ℕ 16 :=
  match firstUpTo (CounterHit H (signedValue H ctx tree leaf l)) 0xFFFF with
  | some c => counterLengths H (signedValue H ctx tree leaf l) c
  | none => Vector.replicate 16 0

theorem signedLengths_lt (l i : ℕ) :
    (signedLengths H ctx tree leaf l).getD i 0 < spxWotsW := by
  rw [signedLengths]
  split
  · exact baseW_lt _ _ _
  · by_cases hi : i < 16
    · simp [Vector.getD, hi]
    · simp [Vector.getD, hi]

/-- The thread state after the searches of `l` layers, or the failure of the first
search that finds nothing. -/
def layersThread (T : ThreadState) : ℕ → Except (Int × ThreadState) ThreadState
  | 0 => .ok T
  | l + 1 =>
    match layersThread T l with
    | .error d => .error d
    | .ok T =>
      match searchResult H (signedValue H ctx tree leaf l) (wotscBound E T) T with
      | (.error c, T) => .error (c, T)
      | (.ok _, T) => .ok T

/-- Offset of the window of layer `l` in a signature. -/
def layerOffset (l : ℕ) : ℕ := spxN + spxForsBytes + l * layerBytes

/-- The window of layer `l` signs the value of that layer at its position. -/
def LayerOk (sig : Vector UInt8 3680) (l : ℕ) : Prop :=
  LayerSigned H ctx l (layerPos tree leaf l).1 (layerPos tree leaf l).2
    (signedLengths H ctx tree leaf l) (layerOffset l) sig

/-- The bytes of an honest signature. -/
structure SignedSig (salt mhash : Block) (sig : Vector UInt8 3680) : Prop where
  salt : slice sig 0 spxN = salt
  fors : ForsSigned H ctx tree leaf mhash spxN sig
  layers : ∀ l < spxD, LayerOk H ctx tree leaf sig l

/-- The variables of the loop over the layers before layer `l`. -/
structure SignStateOk (mem0 : Vector UInt8 3680) (T : ThreadState) (l : ℕ)
    (s : SignLayerState) : Prop where
  sig : s.sig = layerOffset l
  root : s.root = signedValue H ctx tree leaf l
  pos : (s.tree, s.idxLeaf) = layerPos tree leaf l
  wotsAddr : ∃ layer tree type keypair height index,
    s.wotsAddr = addrOf layer tree type keypair height index
  treeAddr : ∃ layer tree type height index,
    s.treeAddr = addrOf layer tree type 0 height index
  thread : layersThread E H ctx tree leaf T l = .ok s.T
  outside : EqOutside s.mem mem0 (layerOffset 0) (layerOffset l)
  layers : ∀ l' < l, LayerOk H ctx tree leaf s.mem l'

end Layers

variable {E H} {ctx : SpxCtx} {tree leaf : ℕ} {P : Query → Prop}

/-- A successful search returns the chain lengths of the layer, whatever its
bound. -/
theorem searchResult_signed {bound : ℕ} (hbound : bound ≤ 0xFFFF) {l : ℕ}
    {T T' : ThreadState} {lengths : Vector ℕ 16}
    (h : searchResult H (signedValue H ctx tree leaf l) bound T = (.ok lengths, T')) :
    lengths = signedLengths H ctx tree leaf l := by
  obtain ⟨c, hc, rfl, _⟩ := (searchResult_eq_ok_iff H _ _ _ _ _).mp h
  rw [signedLengths, firstUpTo_mono _ hbound hc]

theorem wotscBound_le (E : Build) (T : ThreadState) : wotscBound E T ≤ 0xFFFF := by
  unfold wotscBound
  split
  · exact E.wotsc_le
  · exact le_rfl

theorem LayerOk.of_eqOutside {sig sig' : Vector UInt8 3680} {l lo hi : ℕ}
    (h : LayerOk H ctx tree leaf sig l) (hout : EqOutside sig' sig lo hi)
    (hd : layerOffset (l + 1) ≤ lo ∨ hi ≤ layerOffset l) :
    LayerOk H ctx tree leaf sig' l := by
  simp only [layerOffset, layerBytes, spxN, spxForsBytes, spxForsHeight,
    spxForsSigTrees, spxForsTrees, spxWotsBytes, spxWotsLen, spxWotsLen1, spxWotsLogw,
    spxTreeHeight, spxFullHeight, spxD] at hd
  constructor
  · intro i hi
    rw [← h.chains i hi]
    refine hout.slice_eq _ _ ?_
    simp only [layerOffset, layerBytes, spxN, spxForsBytes, spxForsHeight,
      spxForsSigTrees, spxForsTrees, spxWotsBytes, spxWotsLen, spxWotsLen1, spxWotsLogw,
      spxTreeHeight, spxFullHeight, spxD] at hi ⊢
    omega
  · intro k hk
    rw [← h.path k hk]
    refine hout.slice_eq _ _ ?_
    simp only [layerOffset, layerBytes, spxN, spxForsBytes, spxForsHeight,
      spxForsSigTrees, spxForsTrees, spxWotsBytes, spxWotsLen, spxWotsLen1, spxWotsLogw,
      spxTreeHeight, spxFullHeight, spxD] at hk ⊢
    omega

theorem layerOffset_eq (l : ℕ) : layerOffset l = 1920 + 352 * l := by
  simp only [layerOffset, layerBytes, spxN, spxForsBytes, spxForsHeight,
    spxForsSigTrees, spxForsTrees, spxWotsBytes, spxWotsLen, spxWotsLen1, spxWotsLogw,
    spxTreeHeight, spxFullHeight, spxD]
  omega

theorem layerOffset_mono {l l' : ℕ} (h : l ≤ l') : layerOffset l ≤ layerOffset l' := by
  rw [layerOffset_eq, layerOffset_eq]
  omega

theorem searchResult_error {msg : Block} {bound : ℕ} {T T' : ThreadState} {c : Int}
    (h : searchResult H msg bound T = (.error c, T')) : c = signLimitExceeded := by
  unfold searchResult at h
  split at h
  · cases h
  · cases h
    rfl

theorem signLayer_sat (hP : CallsOk E H ctx P) (hsearch : ∀ msg c, P (.wotscHash msg c))
    (htree : tree < 2 ^ 24) (hleaf : leaf < 2 ^ 6) {mem0 : Vector UInt8 3680}
    {T : ThreadState} {l : ℕ} (hl : l < spxD) {s : SignLayerState}
    (hs : SignStateOk E H ctx tree leaf mem0 T l s) :
    Traced.Sat P
      (Traced.ExceptPost
        (fun d => layersThread E H ctx tree leaf T (l + 1) = .error (d.1, d.2.2))
        (SignStateOk E H ctx tree leaf mem0 T (l + 1)))
      (signLayer E H ctx l s) := by
  obtain ⟨hsig, hroot, hpos, ⟨_, _, type, keypair, height, index, hwots⟩,
    ⟨_, _, type', height', index', htreeAddr⟩, hthread, hout, hlayers⟩ := hs
  obtain ⟨htree', hleaf'⟩ := Prod.mk.inj hpos
  have hltree : (layerPos tree leaf l).1 < 2 ^ 24 := layerPos_fst_lt leaf htree l
  have hlleaf : (layerPos tree leaf l).2 < 2 ^ 6 := layerPos_snd_lt tree hleaf l
  rw [signLayer]
  simp only [hwots, htreeAddr, setLayerAddr_addrOf, setTreeAddr_addrOf,
    copySubtreeAddr_addrOf, setKeypairAddr_addrOf, hsig, hroot, htree', hleaf']
  have haddrs : LayerAddrs l (layerPos tree leaf l).1
      (addrOf l (layerPos tree leaf l).1 type (layerPos tree leaf l).2 height index)
      (addrOf l (layerPos tree leaf l).1 type' 0 height' index') :=
    ⟨⟨_, _, _, _, rfl⟩, ⟨_, _, _, rfl⟩⟩
  have hl5 : l < 5 := hl
  have hbound : layerOffset l + layerBytes ≤ 3680 := by
    rw [layerOffset_eq]
    simp only [layerBytes, spxN, spxWotsBytes, spxWotsLen, spxWotsLen1, spxWotsLogw,
      spxTreeHeight, spxFullHeight, spxD]
    omega
  have hnext : layerOffset l + layerBytes = layerOffset (l + 1) := by
    rw [layerOffset, layerOffset, Nat.succ_mul]
    omega
  refine Traced.Sat.bind (merkleSign_sign_sat E hP hsearch hl hltree hlleaf hbound
    haddrs s.mem (signedValue H ctx tree leaf l) s.T) ?_
  intro r hr
  cases hres : searchResult H (signedValue H ctx tree leaf l) (wotscBound E s.T) s.T with
  | mk found T' =>
    rw [hres] at hr
    cases found with
    | error c =>
        obtain ⟨hcode, _, hT⟩ := hr
        have hc := searchResult_error hres
        have hne : r.code ≠ 0 := by
          rw [hcode, hc]
          decide
        rw [if_pos hne]
        refine Traced.Sat.pure ?_
        simp only [Traced.ExceptPost, layersThread, hthread, hres, hcode, hT]
    | ok lengths =>
        obtain ⟨hcode, hroot, hT, ⟨type'', height'', index'', haddr⟩, hout', hsigned⟩ := hr
        rw [if_neg (not_not_intro hcode)]
        refine Traced.Sat.pure ⟨hnext, hroot, ?_, ⟨_, _, _, _, _, _, rfl⟩,
          ⟨_, _, _, _, _, haddr⟩, ?_, ?_, ?_⟩
        · rfl
        · simp only [layersThread, hthread, hres, hT]
        · refine (hout'.mono ?_ hnext.le).trans (hout.mono le_rfl ?_)
          · exact layerOffset_mono (Nat.zero_le l)
          · exact layerOffset_mono (Nat.le_succ l)
        · intro l' hl'
          rcases Nat.lt_succ_iff_lt_or_eq.mp hl' with hlt | rfl
          · refine (hlayers l' hlt).of_eqOutside hout' (Or.inl ?_)
            exact layerOffset_mono hlt
          · have hval := hsigned hlleaf lengths rfl
            rw [searchResult_signed (wotscBound_le E s.T) hres] at hval
            exact hval

/-- What the salt loop leaves within the cap of the build. -/
def grindOutcome (E : Build) (H : HashFns) (rBase : Block) (pk : Vector UInt8 32)
    (m : List UInt8) (T : ThreadState) : GrindResult :=
  match firstUpTo (SaltHit H rBase pk m) (E.forscMaxGrindAttempts - 1) with
  | some d => grindResult H rBase pk m 0 d (T.recordForscAttempts (d + 1))
  | none =>
      grindResult H rBase pk m signLimitExceeded (E.forscMaxGrindAttempts - 1)
        (T.recordForscAttempts E.forscMaxGrindAttempts).recordForscCap

theorem grindLoop_eq_outcome (E : Build) (H : HashFns) (rBase : Block)
    (pk : Vector UInt8 32) (m : List UInt8) (T : ThreadState) :
    grindLoop H rBase pk m (E.forscMaxGrindAttempts - 1) 0 0 rBase T =
      grindOutcome E H rBase pk m T := by
  have hpos := E.forsc_pos
  have hle := E.forsc_le
  have hloop := grindLoop_eq H rBase pk m (E.forscMaxGrindAttempts - 1) 0 (by omega) T
  rw [show 0 + (E.forscMaxGrindAttempts - 1) + 1 = E.forscMaxGrindAttempts by omega,
    Nat.zero_add] at hloop
  exact hloop

theorem grindOutcome_pos (E : Build) (H : HashFns) (rBase : Block)
    (pk : Vector UInt8 32) (m : List UInt8) (T : ThreadState) :
    (grindOutcome E H rBase pk m T).tree < 2 ^ 24 ∧
      (grindOutcome E H rBase pk m T).idxLeaf < 2 ^ 6 := by
  unfold grindOutcome
  split
  · exact ⟨hashMessage_tree_lt _ _ _ _, hashMessage_leaf_lt _ _ _ _⟩
  · exact ⟨hashMessage_tree_lt _ _ _ _, hashMessage_leaf_lt _ _ _ _⟩

/-- The salt loop of a call of `crypto_sign_signature`. -/
def signGrind (E : Build) (H : HashFns) (m : List UInt8) (sk : Vector UInt8 64)
    (T : ThreadState) : GrindResult :=
  grindOutcome E H
    (H.genMessageRandom (slice sk spxN spxN) T.clearFailure.randombytesBlock.1 m)
    (slice sk (2 * spxN) spxPkBytes) m T.clearFailure.randombytesBlock.2

/-- What a call of `crypto_sign_signature` returns: the failure of the random source,
of the salt loop or of a counter search, or a signature. -/
def SignOk (E : Build) (H : HashFns) (sig : Vector UInt8 3680) (m : List UInt8)
    (sk : Vector UInt8 64) (T : ThreadState) (r : SignResult) : Prop :=
  if T.clearFailure.randombytesBlock.2.randomSourceFailed then
    r = ⟨-1, 0, sig, T.clearFailure.randombytesBlock.2⟩
  else if (signGrind E H m sk T).code ≠ 0 then
    r.code = (signGrind E H m sk T).code ∧ r.siglen = 0 ∧ r.T = (signGrind E H m sk T).T
  else
    match layersThread E H (skCtx H sk) (signGrind E H m sk T).tree
        (signGrind E H m sk T).idxLeaf (signGrind E H m sk T).T spxD with
    | .error d => r.code = d.1 ∧ r.siglen = 0 ∧ r.T = d.2
    | .ok T' =>
        r.code = 0 ∧ r.siglen = spxBytes ∧ r.T = T' ∧
          SignedSig H (skCtx H sk) (signGrind E H m sk T).tree
            (signGrind E H m sk T).idxLeaf (signGrind E H m sk T).R
            (signGrind E H m sk T).mhash r.sig

theorem signLayersStart_sat (hP : CallsOk E H ctx P) {g : GrindResult}
    (htree : g.tree < 2 ^ 24) (hleaf : g.idxLeaf < 2 ^ 6) (mem : Vector UInt8 3680) :
    Traced.Sat P
      (fun s => SignStateOk E H ctx g.tree g.idxLeaf s.mem g.T 0 s ∧
        EqOutside s.mem mem spxN (spxN + spxForsBytes) ∧
        ForsSigned H ctx g.tree g.idxLeaf g.mhash spxN s.mem)
      (signLayersStart E H ctx mem g) := by
  rw [signLayersStart]
  simp only [zeroAddr_eq_addrOf, setType_addrOf, setTreeAddr_addrOf,
    setKeypairAddr_addrOf]
  refine Traced.Sat.bind (forsSign_sat E hP htree hleaf (by decide) mem g.mhash
    ⟨_, _, rfl⟩) ?_
  rintro r ⟨hroot, hout, hsigned⟩
  exact Traced.Sat.pure ⟨⟨rfl, hroot, rfl, ⟨_, _, _, _, _, _, rfl⟩,
    ⟨_, _, _, _, _, rfl⟩, rfl, EqOutside.refl _ _ _, fun l hl => by omega⟩, hout, hsigned⟩

theorem layersThread_error_of_le {T : ThreadState} {d : Int × ThreadState} {l l' : ℕ}
    (hl : l ≤ l') (h : layersThread E H ctx tree leaf T l = .error d) :
    layersThread E H ctx tree leaf T l' = .error d := by
  induction l', hl using Nat.le_induction with
  | base => exact h
  | succ l' _ ih => rw [layersThread, ih]

/-- The loop goes on past a layer whose search finds a counter. -/
theorem layersThread_succ_eq_ok_iff {T T' : ThreadState} {l : ℕ} :
    layersThread E H ctx tree leaf T (l + 1) = .ok T' ↔
      ∃ T₁ c, layersThread E H ctx tree leaf T l = .ok T₁ ∧
        firstUpTo (CounterHit H (signedValue H ctx tree leaf l)) (wotscBound E T₁) = some c ∧
        T' = T₁.recordWotscAttempts (c + 1) := by
  rw [layersThread]
  cases layersThread E H ctx tree leaf T l with
  | error d => simp
  | ok T₁ =>
      simp only [searchResult, Except.ok.injEq, exists_and_left, exists_eq_left']
      cases firstUpTo (CounterHit H (signedValue H ctx tree leaf l)) (wotscBound E T₁) with
      | none => simp
      | some c => simp [eq_comm]

theorem layersThread_error {T : ThreadState} {d : Int × ThreadState} {l : ℕ}
    (h : layersThread E H ctx tree leaf T l = .error d) : d.1 = signLimitExceeded := by
  induction l generalizing d with
  | zero => cases h
  | succ l ih =>
      rw [layersThread] at h
      cases hbefore : layersThread E H ctx tree leaf T l with
      | error d' =>
          rw [hbefore] at h
          cases h
          exact ih hbefore
      | ok T' =>
          rw [hbefore] at h
          cases hres : searchResult H (signedValue H ctx tree leaf l) (wotscBound E T') T' with
          | mk found T'' =>
            simp only [hres] at h
            cases found with
            | error c =>
                cases h
                exact searchResult_error hres
            | ok lengths => cases h

/-- A search that ends does not change whether an object records it. -/
theorem wotscBound_recordWotscAttempts (attempts : ℕ) (T : ThreadState) :
    wotscBound E (T.recordWotscAttempts attempts) = wotscBound E T := by
  rw [wotscBound, wotscBound, ThreadState.recordWotscAttempts, Option.isSome_map]

theorem wotscBound_layersThread {T T' : ThreadState} {l : ℕ}
    (h : layersThread E H ctx tree leaf T l = .ok T') : wotscBound E T' = wotscBound E T := by
  induction l generalizing T' with
  | zero =>
      cases h
      rfl
  | succ l ih =>
      obtain ⟨T₁, c, hbefore, _, rfl⟩ := layersThread_succ_eq_ok_iff.mp h
      rw [wotscBound_recordWotscAttempts, ih hbefore]

/-- Every layer has a counter within the bound. -/
def Searchable (H : HashFns) (ctx : SpxCtx) (tree leaf bound l : ℕ) : Prop :=
  ∀ l' < l, ∃ c, firstUpTo (CounterHit H (signedValue H ctx tree leaf l')) bound = some c

/-- The loop over the layers succeeds when every search finds a counter. -/
theorem exists_layersThread_ok_iff {T : ThreadState} (l : ℕ) :
    (∃ T', layersThread E H ctx tree leaf T l = .ok T') ↔
      Searchable H ctx tree leaf (wotscBound E T) l := by
  induction l with
  | zero => exact ⟨fun _ l' hl' => absurd hl' (Nat.not_lt_zero l'), fun _ => ⟨T, rfl⟩⟩
  | succ l ih =>
      constructor
      · rintro ⟨T', hok⟩ l' hl'
        obtain ⟨T₁, c, hbefore, hc, _⟩ := layersThread_succ_eq_ok_iff.mp hok
        rcases Nat.lt_succ_iff_lt_or_eq.mp hl' with hlt | rfl
        · exact ih.mp ⟨T₁, hbefore⟩ l' hlt
        · rw [wotscBound_layersThread hbefore] at hc
          exact ⟨c, hc⟩
      · intro h
        obtain ⟨T₁, hbefore⟩ := ih.mpr fun l' hl' => h l' (by omega)
        obtain ⟨c, hc⟩ := h l (by omega)
        rw [← wotscBound_layersThread hbefore] at hc
        exact ⟨_, layersThread_succ_eq_ok_iff.mpr ⟨T₁, c, hbefore, hc, rfl⟩⟩

theorem signLayers_sat (hP : CallsOk E H ctx P) (hsearch : ∀ msg c, P (.wotscHash msg c))
    {g : GrindResult} (htree : g.tree < 2 ^ 24) (hleaf : g.idxLeaf < 2 ^ 6)
    (sig : Vector UInt8 3680) :
    Traced.Sat P
      (fun r : SignResult => match layersThread E H ctx g.tree g.idxLeaf g.T spxD with
        | .error d => r.code = d.1 ∧ r.siglen = 0 ∧ r.T = d.2
        | .ok T => r.code = 0 ∧ r.siglen = spxBytes ∧ r.T = T ∧
            SignedSig H ctx g.tree g.idxLeaf g.R g.mhash r.sig)
      (do
        let start ← signLayersStart E H ctx (write sig 0 g.R) g
        match ← Traced.forRangeExcept spxD (signLayer E H ctx) start with
        | .error (code, mem, T) => pure ⟨code, 0, mem, T⟩
        | .ok s => pure ⟨0, spxBytes, s.mem, s.T⟩ : Traced Query SignResult) := by
  refine Traced.Sat.bind (signLayersStart_sat hP htree hleaf _) ?_
  rintro start ⟨hstart, houtFors, hfors⟩
  have hloop := Traced.Sat.forRangeExcept spxD
    (SignStateOk E H ctx g.tree g.idxLeaf start.mem g.T)
    (fun i (d : Int × Vector UInt8 3680 × ThreadState) =>
      layersThread E H ctx g.tree g.idxLeaf g.T (i + 1) = .error (d.1, d.2.2))
    hstart fun i hi t ht => signLayer_sat hP hsearch htree hleaf hi ht
  refine Traced.Sat.bind hloop ?_
  rintro r hr
  cases r with
  | error d =>
      obtain ⟨code, mem, T⟩ := d
      obtain ⟨i, hi, herr⟩ := hr
      have hfail := layersThread_error_of_le (Nat.succ_le_of_lt hi) herr
      simp only [hfail]
      exact Traced.Sat.pure ⟨rfl, rfl, rfl⟩
  | ok s =>
      simp only [hr.thread]
      refine Traced.Sat.pure ⟨rfl, rfl, rfl, ?_, ?_, hr.layers⟩
      · simp only
        rw [hr.outside.slice_eq 0 spxN (Or.inl (by
            rw [layerOffset_eq]
            decide)), houtFors.slice_eq 0 spxN (Or.inl (by decide))]
        exact slice_write_self _ _ _ (by decide)
      · intro t ht
        have ht7 : t < 7 := ht
        refine (hfors t ht).of_eqOutside hr.outside (Or.inl ?_)
        rw [layerOffset_eq]
        simp only [treeBytes, spxForsHeight, spxN]
        omega

theorem cryptoSignSignature_sat (sk : Vector UInt8 64)
    (hP : CallsOk E H (skCtx H sk) P) (hsearch : ∀ msg c, P (.wotscHash msg c))
    (sig : Vector UInt8 3680) (m : List UInt8) (T : ThreadState) :
    Traced.Sat P (SignOk E H sig m sk T) (cryptoSignSignature E H sig m sk T) := by
  have hpos : (signGrind E H m sk T).tree < 2 ^ 24 ∧
      (signGrind E H m sk T).idxLeaf < 2 ^ 6 := grindOutcome_pos _ _ _ _ _ _
  rw [cryptoSignSignature]
  unfold SignOk
  simp only [grindLoop_eq_outcome]
  change Traced.Sat P _ (if _ then _ else if (signGrind E H m sk T).code ≠ 0 then _ else _)
  split
  · exact Traced.Sat.pure rfl
  · split
    · exact Traced.Sat.pure ⟨rfl, rfl, rfl⟩
    · exact signLayers_sat hP hsearch hpos.1 hpos.2 sig

theorem cryptoSignSignature_val (E : Build) (H : HashFns) (sig : Vector UInt8 3680)
    (m : List UInt8) (sk : Vector UInt8 64) (T : ThreadState) :
    SignOk E H sig m sk T (cryptoSignSignature E H sig m sk T).val :=
  (cryptoSignSignature_sat sk (callsOk_true E H _) (fun _ _ => trivial) sig m T).2

end BitcoinPqc
