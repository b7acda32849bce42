import BitcoinPqc.Correctness.TreeHashX8
import BitcoinPqc.Correctness.Wots
import BitcoinPqc.Sphincs.WotsLeaf

/-!
# The leaf generators compute WOTS public keys

For every leaf of a subtree `wotsGenLeafx1Scalar` returns the WOTS public key of
its keypair, and for the leaf that is signed with it leaves the chain values of
the signature in the memory. `wotsGenLeafx8` does so for eight leaves at a time.
Both are leaf generators in the sense of the tree walks, with the invariant
`LeafMem` on the memory.
-/

namespace BitcoinPqc

variable (H : HashFns) (ctx : SpxCtx) (layer tree : ℕ)

/-!
## What a leaf leaves in the memory
-/

/-- After `i` chains of the leaf: the chain values at positions `steps` are in the
signature, or nothing has changed. -/
def ChainsOut {n : ℕ} (doSign : Bool) (leaf sig : ℕ) (steps : ℕ → ℕ) (i : ℕ)
    (mem0 mem : Vector UInt8 n) : Prop :=
  if doSign then
    EqOutside mem mem0 sig (sig + i * spxN) ∧
      ∀ i' < i, slice mem (sig + i' * spxN) spxN =
        wotsValue H ctx layer tree leaf i' (steps i')
  else mem = mem0

section ChainsOut

variable {H ctx layer tree} {n : ℕ} {leaf sig i : ℕ} {steps : ℕ → ℕ}
  {mem0 mem : Vector UInt8 n}

theorem chainsOut_zero (doSign : Bool) :
    ChainsOut H ctx layer tree doSign leaf sig steps 0 mem mem := by
  unfold ChainsOut
  split
  · exact ⟨EqOutside.refl _ _ _, fun i' hi' => by omega⟩
  · rfl

theorem ChainsOut.step {doSign : Bool}
    (h : ChainsOut H ctx layer tree doSign leaf sig steps i mem0 mem)
    (hbound : sig + (i + 1) * spxN ≤ n) :
    ChainsOut H ctx layer tree doSign leaf sig steps (i + 1) mem0
      (if doSign then
        write mem (sig + i * spxN) (wotsValue H ctx layer tree leaf i (steps i))
      else mem) := by
  unfold ChainsOut at h ⊢
  simp only [spxN] at *
  split
  · next hsign =>
      rw [if_pos hsign] at h
      refine ⟨?_, ?_⟩
      · exact ((EqOutside.write mem (sig + i * 16) _).mono (by omega) (by omega)).trans
          (h.1.mono le_rfl (by omega))
      · intro i' hi'
        rcases Nat.lt_succ_iff_lt_or_eq.mp hi' with hlt | rfl
        · rw [slice_write_of_disjoint _ _ _ _ _ (by omega)]
          exact h.2 i' hlt
        · exact slice_write_self _ _ _ (by omega)
  · next hsign =>
      rw [if_neg hsign] at h
      exact h

theorem ChainsOut.eqOutside {doSign : Bool}
    (h : ChainsOut H ctx layer tree doSign leaf sig steps i mem0 mem) :
    EqOutside mem mem0 sig (sig + i * spxN) := by
  unfold ChainsOut at h
  split at h
  · exact h.1
  · rw [h]
    exact EqOutside.refl _ _ _

end ChainsOut

/-!
## One leaf
-/

/-- The memory after the chain positions from `k` to `last` have passed: the value
at `wotsK` is copied if it is one of them. -/
def copied {n : ℕ} (doSign : Bool) (k last wotsK sigPtr : ℕ) (value : ℕ → Block)
    (mem : Vector UInt8 n) : Vector UInt8 n :=
  if doSign ∧ k ≤ wotsK ∧ wotsK ≤ last then write mem sigPtr (value wotsK) else mem

theorem copied_last {n : ℕ} (doSign : Bool) (k wotsK sigPtr : ℕ) (value : ℕ → Block)
    (mem : Vector UInt8 n) :
    copied doSign k k wotsK sigPtr value mem =
      if doSign ∧ k = wotsK then write mem sigPtr (value k) else mem := by
  unfold copied
  by_cases hsign : doSign = true ∧ k = wotsK
  · rw [if_pos hsign, if_pos ⟨hsign.1, by omega, by omega⟩, hsign.2]
  · rw [if_neg hsign, if_neg fun h => hsign ⟨h.1, by omega⟩]

theorem copied_all {n : ℕ} (doSign : Bool) {last step : ℕ} (hstep : step ≤ last)
    (noSign sigPtr : ℕ) (value : ℕ → Block) (mem : Vector UInt8 n) :
    copied doSign 0 last (if doSign then step else noSign) sigPtr value mem =
      if doSign then write mem sigPtr (value step) else mem := by
  cases doSign with
  | false => simp [copied]
  | true => simp [copied, hstep]

theorem copied_succ {n : ℕ} (doSign : Bool) {k last : ℕ} (hk : k ≤ last)
    (wotsK sigPtr : ℕ) (value : ℕ → Block) (mem : Vector UInt8 n) :
    copied doSign (k + 1) last wotsK sigPtr value
        (if doSign ∧ k = wotsK then write mem sigPtr (value k) else mem) =
      copied doSign k last wotsK sigPtr value mem := by
  unfold copied
  by_cases hsign : doSign = true ∧ k = wotsK
  · rw [if_pos hsign, if_neg fun h => absurd hsign.2 (by omega),
      if_pos ⟨hsign.1, by omega, by omega⟩, hsign.2]
  · rw [if_neg hsign]
    by_cases hlater : doSign = true ∧ k + 1 ≤ wotsK ∧ wotsK ≤ last
    · rw [if_pos hlater, if_pos ⟨hlater.1, by omega, hlater.2.2⟩]
    · rw [if_neg hlater, if_neg]
      rintro ⟨hdo, hle, hub⟩
      rcases Nat.eq_or_lt_of_le hle with heq | hlt
      · exact hsign ⟨hdo, heq⟩
      · exact hlater ⟨hdo, hlt, hub⟩

section Scalar

variable {H ctx layer tree} {P : Query → Prop} {n : ℕ} {leaf : ℕ}

theorem prfAddr_wotsValue (leaf i : ℕ) :
    prfAddr H ctx (addrOf layer tree addrTypeWotsPrf leaf i 0) =
      ⟨wotsValue H ctx layer tree leaf i 0,
        [queryAt H ctx (.wotsPrf layer tree leaf i)]⟩ := rfl

theorem wotsValue_succ (leaf i k : ℕ) :
    wotsValue H ctx layer tree leaf i (k + 1) =
      H.thash ctx.stateSeeded (adrs (addrOf layer tree addrTypeWots leaf i k))
        [wotsValue H ctx layer tree leaf i k] := by
  rw [wotsValue, chain_succ, Nat.zero_add]
  rfl

theorem thash_wotsValue (leaf i k : ℕ) :
    thash H [wotsValue H ctx layer tree leaf i k] ctx
        (addrOf layer tree addrTypeWots leaf i k) =
      ⟨wotsValue H ctx layer tree leaf i (k + 1),
        [queryAt H ctx (.wotsStep layer tree leaf i k)]⟩ := by
  rw [queryAt, wotsValue_succ]
  rfl

theorem wotsPk_eq (leaf : ℕ) :
    wotsPk H ctx layer tree leaf =
      H.thash ctx.stateSeeded (adrs (addrOf layer tree addrTypeWotsPk leaf 0 0))
        ((List.range spxWotsLen).map fun i =>
          wotsValue H ctx layer tree leaf i (spxWotsW - 1)) := rfl

theorem thash_wotsPk (leaf : ℕ) :
    thash H ((List.range spxWotsLen).map fun i =>
        wotsValue H ctx layer tree leaf i (spxWotsW - 1)) ctx
        (addrOf layer tree addrTypeWotsPk leaf 0 0) =
      ⟨wotsPk H ctx layer tree leaf, [queryAt H ctx (.wotsPk layer tree leaf)]⟩ := rfl

/-- One chain from position `k` to its end; the value at `wotsK` is copied when it
passes. -/
theorem wotsChainLoop_sat {i : ℕ}
    (hP : ∀ k < spxWotsW - 1, P (queryAt H ctx (.wotsStep layer tree leaf i k)))
    (doSign : Bool) (wotsK sigPtr rest k : ℕ) (hk : k + rest = spxWotsW - 1)
    {index : ℕ} (hindex : index < 256) (mem : Vector UInt8 n) :
    Traced.Sat P
      (fun r => r.1 = wotsValue H ctx layer tree leaf i (spxWotsW - 1) ∧
        (∃ index < 256, r.2.1 = addrOf layer tree addrTypeWots leaf i index) ∧
        r.2.2 = copied doSign k (spxWotsW - 1) wotsK sigPtr
          (wotsValue H ctx layer tree leaf i) mem)
      (wotsChainLoop H ctx doSign wotsK sigPtr rest k
        (wotsValue H ctx layer tree leaf i k)
        (addrOf layer tree addrTypeWots leaf i index) mem) := by
  induction rest generalizing k index mem with
  | zero =>
      rw [wotsChainLoop]
      rw [Nat.add_zero] at hk
      rw [← hk, copied_last]
      exact Traced.Sat.pure ⟨rfl, ⟨index, hindex, rfl⟩, rfl⟩
  | succ rest ih =>
      have hk255 : k < 255 := by
        simp only [spxWotsW] at hk
        omega
      rw [wotsChainLoop]
      simp only [setHashAddr_addrOf _ _ _ _ _ hindex (show k < 256 by omega)]
      refine (Traced.Sat.single (thash_wotsValue leaf i k) (hP k (by omega))).bind ?_
      rintro _ rfl
      refine (ih (k + 1) (by omega) (show k < 256 by omega) _).mono ?_
      rintro r ⟨hbuf, haddr, hmem⟩
      exact ⟨hbuf, haddr, hmem.trans (copied_succ doSign (by omega) wotsK sigPtr _ mem)⟩

end Scalar

/-- A local address buffer of a leaf generator: any field below the subtree may be
stale, and the index is a hash step. -/
def LeafAddr (layer tree : ℕ) (addr : Addr) : Prop :=
  ∃ type keypair height index, index < 256 ∧
    addr = addrOf layer tree type keypair height index

/-- The address buffer of the WOTS public key, up to the keypair. -/
def PkAddr (layer tree : ℕ) (addr : Addr) : Prop :=
  ∃ keypair, addr = addrOf layer tree addrTypeWotsPk keypair 0 0

/-- The state after `i` chains of the leaf `leaf`. -/
def ChainsOk {n : ℕ} (leaf sig : ℕ) (steps : ℕ → ℕ) (doSign : Bool)
    (mem0 : Vector UInt8 n) (i : ℕ) (s : (ℕ → Block) × Addr × Vector UInt8 n) : Prop :=
  (∀ i' < i, s.1 i' = wotsValue H ctx layer tree leaf i' (spxWotsW - 1)) ∧
    (∃ type height index, index < 256 ∧
      s.2.1 = addrOf layer tree type leaf height index) ∧
    ChainsOut H ctx layer tree doSign leaf sig steps i mem0 s.2.2

/-- The calls of one leaf satisfy `P`. -/
structure LeafQueries (P : Query → Prop) (leaf : ℕ) : Prop where
  prf : ∀ i < spxWotsLen, P (queryAt H ctx (.wotsPrf layer tree leaf i))
  step : ∀ i < spxWotsLen, ∀ k < spxWotsW - 1,
    P (queryAt H ctx (.wotsStep layer tree leaf i k))
  pk : P (queryAt H ctx (.wotsPk layer tree leaf))

section Scalar

variable {H ctx layer tree} {P : Query → Prop} {n : ℕ} {leaf : ℕ}

theorem wotsGenLeafChain_sat {i : ℕ} (hi : i < spxWotsLen)
    (hP : LeafQueries H ctx layer tree P leaf) (info : LeafInfoX1) (doSign : Bool)
    (hstep : info.step i < spxWotsW) {mem0 : Vector UInt8 n}
    (hbound : info.wotsSig.getD 0 + (i + 1) * spxN ≤ n)
    {s : (ℕ → Block) × Addr × Vector UInt8 n}
    (hs : ChainsOk H ctx layer tree leaf (info.wotsSig.getD 0) info.step doSign mem0 i
      s) :
    Traced.Sat P
      (ChainsOk H ctx layer tree leaf (info.wotsSig.getD 0) info.step doSign mem0
        (i + 1))
      (wotsGenLeafChain H ctx info doSign i s) := by
  obtain ⟨hbufs, ⟨type, height, index, hindex, haddr⟩, hout⟩ := hs
  have hnext := hout.step hbound
  rw [wotsGenLeafChain]
  simp only [haddr, setChainAddr_addrOf, setHashAddr_addrOf _ _ _ _ _ hindex
    (show 0 < 256 by decide), setType_addrOf]
  refine (Traced.Sat.single (prfAddr_wotsValue leaf i) (hP.prf i hi)).bind ?_
  rintro _ rfl
  refine (wotsChainLoop_sat (hP.step i hi) doSign _ _ _ 0 (Nat.zero_add _)
    (show 0 < 256 by decide) _).bind ?_
  rintro ⟨buffer, addr, mem⟩ ⟨hbuf, ⟨index', hindex', haddr'⟩, hmem⟩
  refine Traced.Sat.pure ⟨?_, ⟨_, _, index', hindex', haddr'⟩, ?_⟩
  · intro i' hi'
    rcases Nat.lt_succ_iff_lt_or_eq.mp hi' with hlt | rfl
    · exact (Function.update_of_ne (by omega) _ _).trans (hbufs i' hlt)
    · exact (Function.update_self _ _ _).trans hbuf
  · dsimp only at hmem ⊢
    rw [hmem, copied_all doSign (Nat.le_sub_one_of_lt hstep)]
    exact hnext

theorem wotsGenLeafx1Scalar_sat (E : Build) (hP : LeafQueries H ctx layer tree P leaf)
    (info : LeafInfoX1) (hstep : ∀ i < spxWotsLen, info.step i < spxWotsW)
    (hbound : info.wotsSig.getD 0 + spxWotsBytes ≤ n) (mem : Vector UInt8 n)
    (hleafAddr : LeafAddr layer tree info.leafAddr)
    (hpkAddr : PkAddr layer tree info.pkAddr) :
    Traced.Sat P
      (fun r => r.1 = wotsPk H ctx layer tree leaf ∧
        (r.2.1.wotsSig = info.wotsSig ∧ r.2.1.wotsSignLeaf = info.wotsSignLeaf ∧
          r.2.1.wotsSteps = info.wotsSteps ∧ LeafAddr layer tree r.2.1.leafAddr ∧
          PkAddr layer tree r.2.1.pkAddr) ∧
        ChainsOut H ctx layer tree (info.doSign leaf) leaf (info.wotsSig.getD 0)
          info.step spxWotsLen mem r.2.2)
      (wotsGenLeafx1Scalar E H ctx leaf info mem) := by
  obtain ⟨type, keypair, height, index, hindex, haddr⟩ := hleafAddr
  obtain ⟨keypair', hpk⟩ := hpkAddr
  rw [wotsGenLeafx1Scalar]
  simp only [haddr, hpk, setKeypairAddr_addrOf]
  have hchains : Traced.Sat P _ (Traced.forRange spxWotsLen
      (wotsGenLeafChain H ctx info (info.doSign leaf))
      (E.uninit, addrOf layer tree type leaf height index, mem)) :=
    Traced.Sat.forRange spxWotsLen (ChainsOk H ctx layer tree leaf (info.wotsSig.getD 0)
      info.step (info.doSign leaf) mem)
    ⟨fun i' hi' => by omega, ⟨type, height, index, hindex, rfl⟩, chainsOut_zero _⟩
    fun i hi t ht => wotsGenLeafChain_sat hi hP info _ (hstep i hi) (by
      simp only [spxWotsBytes, spxWotsLen, spxWotsLen1, spxN, spxWotsLogw] at *
      omega) ht
  refine hchains.bind ?_
  rintro ⟨bufs, addr, mem'⟩ ⟨hbufs, ⟨type', height', index', hindex', haddr'⟩, hout⟩
  have hinput : (List.range spxWotsLen).map bufs = (List.range spxWotsLen).map fun i =>
      wotsValue H ctx layer tree leaf i (spxWotsW - 1) :=
    List.map_congr_left fun i hi => hbufs i (List.mem_range.mp hi)
  rw [hinput]
  refine (Traced.Sat.single (thash_wotsPk leaf) hP.pk).bind ?_
  rintro _ rfl
  exact Traced.Sat.pure ⟨rfl, ⟨rfl, rfl, rfl, ⟨_, _, _, index', hindex', haddr'⟩,
    ⟨leaf, rfl⟩⟩, hout⟩

end Scalar

/-!
## Eight leaves
-/

/-- A predicate that holds of every call of `thash` and of `prf_addr`. -/
structure AnyHash (P : Query → Prop) : Prop where
  thash : ∀ a i o, P (.thash a i o)
  prfAddr : ∀ a s o, P (.prfAddr a s o)

/-- The state after `i` chains of the eight leaves from `leaf` on, of which the one
in lane `signIndex` is signed with. -/
def ChainsOkX8 {n : ℕ} (leaf signIndex sig : ℕ) (steps : ℕ → ℕ) (doSign : Bool)
    (mem0 : Vector UInt8 n) (i : ℕ)
    (s : (ℕ → Lanes Block) × Lanes Addr × Vector UInt8 n) : Prop :=
  (∀ i' < i, ∀ l : Fin 8, s.1 i' l =
      wotsValue H ctx layer tree (leaf + l.val) i' (spxWotsW - 1)) ∧
    (∀ l : Fin 8, ∃ type height index, index < 256 ∧
      s.2.1 l = addrOf layer tree type (leaf + l.val) height index) ∧
    ChainsOut H ctx layer tree doSign (leaf + (laneIdx signIndex).val) sig steps i
      mem0 s.2.2

section Lanes

variable {H ctx layer tree} {P : Query → Prop} {n : ℕ} {leaf : ℕ}

theorem wotsChainLoopX8_sat {i : ℕ} (hP : AnyHash P) (doSign : Bool)
    (signIndex wotsK sigPtr rest k : ℕ) (hk : k + rest = spxWotsW - 1)
    {leafAddr : Lanes Addr} (haddr : ∀ l : Fin 8, ∃ index < 256,
      leafAddr l = addrOf layer tree addrTypeWots (leaf + l.val) i index)
    (mem : Vector UInt8 n) :
    Traced.Sat P
      (fun r => (∀ l : Fin 8, r.1 l =
          wotsValue H ctx layer tree (leaf + l.val) i (spxWotsW - 1)) ∧
        (∀ l : Fin 8, ∃ index < 256,
          r.2.1 l = addrOf layer tree addrTypeWots (leaf + l.val) i index) ∧
        r.2.2 = copied doSign k (spxWotsW - 1) wotsK sigPtr
          (wotsValue H ctx layer tree (leaf + (laneIdx signIndex).val) i) mem)
      (wotsChainLoopX8 H ctx doSign signIndex wotsK sigPtr rest k
        (fun l => wotsValue H ctx layer tree (leaf + l.val) i k) leafAddr mem) := by
  induction rest generalizing k leafAddr mem with
  | zero =>
      rw [wotsChainLoopX8]
      rw [Nat.add_zero] at hk
      rw [← hk, copied_last]
      exact Traced.Sat.pure ⟨fun l => rfl, haddr, rfl⟩
  | succ rest ih =>
      have hk256 : k < 256 := by
        simp only [spxWotsW] at hk
        omega
      have haddr' (l : Fin 8) : setHashAddr (leafAddr l) k =
          addrOf layer tree addrTypeWots (leaf + l.val) i k := by
        obtain ⟨index, hindex, heq⟩ := haddr l
        rw [heq, setHashAddr_addrOf _ _ _ _ _ hindex hk256]
      rw [wotsChainLoopX8]
      refine (thashx8_sat H hP.thash _ ctx _).bind ?_
      intro out hout
      have hval : out = fun l : Fin 8 =>
          wotsValue H ctx layer tree (leaf + l.val) i (k + 1) := by
        funext l
        rw [hout l, haddr' l, wotsValue_succ]
      subst hval
      refine (ih (k + 1) (by omega) (fun l => ⟨k, hk256, haddr' l⟩) _).mono ?_
      rintro r ⟨hbuf, haddr, hmem⟩
      exact ⟨hbuf, haddr, hmem.trans (copied_succ doSign (by omega) wotsK sigPtr _ mem)⟩

theorem wotsGenLeafChainX8_sat {i : ℕ} (hP : AnyHash P) (info : LeafInfoX8)
    (doSign : Bool) (signIndex : ℕ) (hstep : info.step i < spxWotsW)
    {mem0 : Vector UInt8 n} (hbound : info.wotsSig.getD 0 + (i + 1) * spxN ≤ n)
    {s : (ℕ → Lanes Block) × Lanes Addr × Vector UInt8 n}
    (hs : ChainsOkX8 H ctx layer tree leaf signIndex (info.wotsSig.getD 0) info.step
      doSign mem0 i s) :
    Traced.Sat P
      (ChainsOkX8 H ctx layer tree leaf signIndex (info.wotsSig.getD 0) info.step
        doSign mem0 (i + 1))
      (wotsGenLeafChainX8 H ctx info doSign signIndex i s) := by
  obtain ⟨hbufs, haddr, hout⟩ := hs
  have hnext := hout.step hbound
  have haddr' (l : Fin 8) : setType (setHashAddr (setChainAddr (s.2.1 l) i) 0)
      addrTypeWotsPrf = addrOf layer tree addrTypeWotsPrf (leaf + l.val) i 0 := by
    obtain ⟨type, height, index, hindex, heq⟩ := haddr l
    rw [heq, setChainAddr_addrOf, setHashAddr_addrOf _ _ _ _ _ hindex
      (show 0 < 256 by decide), setType_addrOf]
  rw [wotsGenLeafChainX8]
  simp only [haddr', setType_addrOf]
  refine (prfAddrx8_sat H hP.prfAddr ctx _).bind ?_
  intro buffer hbuffer
  have hval : buffer = fun l : Fin 8 =>
      wotsValue H ctx layer tree (leaf + l.val) i 0 := by
    funext l
    rw [hbuffer l]
    rfl
  subst hval
  refine (wotsChainLoopX8_sat hP doSign signIndex _ _ _ 0 (Nat.zero_add _)
    (fun l => ⟨0, by decide, rfl⟩) _).bind ?_
  rintro ⟨buffer, addr, mem⟩ ⟨hbuf, haddr', hmem⟩
  refine Traced.Sat.pure ⟨?_, fun l => ⟨_, _, haddr' l⟩, ?_⟩
  · intro i' hi' l
    rcases Nat.lt_succ_iff_lt_or_eq.mp hi' with hlt | rfl
    · exact (congrFun (Function.update_of_ne (by omega) _ _) l).trans (hbufs i' hlt l)
    · exact (congrFun (Function.update_self _ _ _) l).trans (hbuf l)
  · dsimp only at hmem ⊢
    rw [hmem, copied_all doSign (Nat.le_sub_one_of_lt hstep)]
    exact hnext

/-- `wotsGenLeafx8` returns the WOTS public keys of its eight leaves. -/
theorem wotsGenLeafx8_sat (E : Build) (hP : AnyHash P) (info : LeafInfoX8)
    (hstep : ∀ i < spxWotsLen, info.step i < spxWotsW)
    (hbound : info.wotsSig.getD 0 + spxWotsBytes ≤ n) (mem : Vector UInt8 n)
    (hleafAddr : ∀ l, LeafAddr layer tree (info.leafAddr l))
    (hpkAddr : ∀ l, PkAddr layer tree (info.pkAddr l)) :
    Traced.Sat P
      (fun r => (∀ l : Fin 8, r.1 l = wotsPk H ctx layer tree (leaf + l.val)) ∧
        (r.2.1.wotsSig = info.wotsSig ∧ r.2.1.wotsSignLeaf = info.wotsSignLeaf ∧
          r.2.1.wotsSteps = info.wotsSteps ∧
          (∀ l, LeafAddr layer tree (r.2.1.leafAddr l)) ∧
          ∀ l, PkAddr layer tree (r.2.1.pkAddr l)) ∧
        ChainsOut H ctx layer tree (info.doSign leaf)
          (leaf + (laneIdx
            (if info.doSign leaf then info.wotsSignLeaf &&& 7 else 0)).val)
          (info.wotsSig.getD 0) info.step spxWotsLen mem r.2.2)
      (wotsGenLeafx8 E H ctx leaf info mem) := by
  have haddr (l : Fin 8) : ∃ type height index, index < 256 ∧
      setKeypairAddr (info.leafAddr l) (leaf + l.val) =
        addrOf layer tree type (leaf + l.val) height index := by
    obtain ⟨type, keypair, height, index, hindex, heq⟩ := hleafAddr l
    rw [heq, setKeypairAddr_addrOf]
    exact ⟨type, height, index, hindex, rfl⟩
  have hpk (l : Fin 8) : setKeypairAddr (info.pkAddr l) (leaf + l.val) =
      addrOf layer tree addrTypeWotsPk (leaf + l.val) 0 0 := by
    obtain ⟨keypair, heq⟩ := hpkAddr l
    rw [heq, setKeypairAddr_addrOf]
  rw [wotsGenLeafx8]
  have hchains := Traced.Sat.forRange (P := P)
    spxWotsLen (ChainsOkX8 H ctx layer tree leaf
      (if info.doSign leaf then info.wotsSignLeaf &&& 7 else 0) (info.wotsSig.getD 0)
      info.step (info.doSign leaf) mem)
    (show ChainsOkX8 H ctx layer tree leaf _ _ _ _ mem 0
      (fun i _ => E.uninit i, fun l => setKeypairAddr (info.leafAddr l) (leaf + l.val),
        mem) from ⟨fun i' hi' => by omega, haddr, chainsOut_zero _⟩)
    fun i hi t ht => wotsGenLeafChainX8_sat hP info _ _ (hstep i hi) (by
      simp only [spxWotsBytes, spxWotsLen, spxWotsLen1, spxN, spxWotsLogw] at *
      omega) ht
  refine Traced.Sat.bind hchains ?_
  rintro ⟨bufs, addr, mem'⟩ ⟨hbufs, haddr', hout⟩
  refine Traced.Sat.bind (thashx8_sat H hP.thash _ ctx _) ?_
  intro dest hdest
  refine Traced.Sat.pure ⟨?_, ⟨rfl, rfl, rfl, ?_, fun l => ⟨leaf + l.val, hpk l⟩⟩, hout⟩
  · intro l
    have hinput : ((List.range spxWotsLen).map fun i => bufs i l) =
        (List.range spxWotsLen).map fun i =>
          wotsValue H ctx layer tree (leaf + l.val) i (spxWotsW - 1) :=
      List.map_congr_left fun i hi => hbufs i (List.mem_range.mp hi) l
    rw [wotsPk_eq, ← hinput, ← hpk l]
    exact hdest l
  · intro l
    obtain ⟨type, height, index, hindex, heq⟩ := haddr' l
    exact ⟨type, _, height, index, hindex, heq⟩

end Lanes

/-!
## The generators of the tree walks
-/

/-- The memory of a layer while its tree is walked: it differs from `mem0` in the
layer's window only, and once the signing leaf has passed it holds the WOTS
signature. -/
def LeafMem {n : ℕ} (sig signLeaf : ℕ) (steps : Option (Vector ℕ 16))
    (mem0 : Vector UInt8 n) (idx : ℕ) (mem : Vector UInt8 n) : Prop :=
  EqOutside mem mem0 sig (sig + (spxWotsBytes + spxTreeHeight * spxN)) ∧
    ∀ v, steps = some v → signLeaf < idx → ∀ i < spxWotsLen,
      slice mem (sig + i * spxN) spxN =
        wotsValue H ctx layer tree signLeaf i (v.getD i 0)

section Generators

variable {H ctx layer tree} {P : Query → Prop} {n : ℕ} {sig signLeaf : ℕ}
  {steps : Option (Vector ℕ 16)} {mem0 : Vector UInt8 n}

theorem LeafMem.write {idx k : ℕ} {mem : Vector UInt8 n}
    (h : LeafMem H ctx layer tree sig signLeaf steps mem0 idx mem)
    (hk : k < spxTreeHeight) (b : Block) :
    LeafMem H ctx layer tree sig signLeaf steps mem0 idx
      (BitcoinPqc.write mem (sig + spxWotsBytes + k * spxN) b) := by
  obtain ⟨houtside, hchains⟩ := h
  simp only [spxTreeHeight, spxFullHeight, spxD] at hk
  refine ⟨?_, ?_⟩
  · refine ((EqOutside.write mem _ b).mono ?_ ?_).trans houtside
    · omega
    · simp only [spxWotsBytes, spxWotsLen, spxWotsLen1, spxN, spxWotsLogw,
        spxTreeHeight, spxFullHeight, spxD]
      omega
  · intro v hv hlt i hi
    rw [slice_write_of_disjoint _ _ _ _ _ ?_]
    · exact hchains v hv hlt i hi
    · simp only [spxWotsBytes, spxWotsLen, spxWotsLen1, spxN, spxWotsLogw] at hi ⊢
      omega

/-- A leaf, or a group of leaves, up to `idx'` keeps the invariant when it signs
exactly if the signing leaf is among its leaves. -/
theorem LeafMem.next {idx idx' leaf : ℕ} {mem mem' : Vector UInt8 n}
    (h : LeafMem H ctx layer tree sig signLeaf steps mem0 idx mem) (doSign : Bool)
    (hdo : ∀ v, steps = some v → idx ≤ signLeaf → signLeaf < idx' →
      doSign = true ∧ leaf = signLeaf)
    (hnot : doSign = true → steps.isSome ∧ idx ≤ signLeaf)
    (hout : ChainsOut H ctx layer tree doSign leaf ((steps.map fun _ => sig).getD 0)
      (fun i => (steps.getD (Vector.replicate 16 0)).getD i 0) spxWotsLen mem mem') :
    LeafMem H ctx layer tree sig signLeaf steps mem0 idx' mem' := by
  obtain ⟨houtside, hchains⟩ := h
  cases hsign : doSign with
  | false =>
      rw [ChainsOut, hsign, if_neg Bool.false_ne_true] at hout
      subst hout
      refine ⟨houtside, fun v hv hlt => ?_⟩
      rcases Nat.lt_or_ge signLeaf idx with hbefore | hge
      · exact hchains v hv hbefore
      · have htrue := (hdo v hv hge hlt).1
        rw [hsign] at htrue
        exact absurd htrue Bool.false_ne_true
  | true =>
      obtain ⟨hsome, hge⟩ := hnot hsign
      obtain ⟨v, rfl⟩ := Option.isSome_iff_exists.mp hsome
      rw [ChainsOut, hsign, if_pos rfl] at hout
      obtain ⟨hwin, hvals⟩ := hout
      refine ⟨(hwin.mono le_rfl ?_).trans houtside, ?_⟩
      · simp only [Option.map_some, Option.getD_some, spxWotsBytes]
        omega
      · intro w hw hlt i hi
        cases Option.some.inj hw
        obtain ⟨_, rfl⟩ := hdo v rfl hge hlt
        exact hvals i hi

/-- The invariant of `wotsGenLeafx1Scalar`. -/
def LeafInv {n : ℕ} (H : HashFns) (ctx : SpxCtx) (layer tree sig signLeaf : ℕ)
    (steps : Option (Vector ℕ 16)) (mem0 : Vector UInt8 n) (idx : ℕ)
    (info : LeafInfoX1) (mem : Vector UInt8 n) : Prop :=
  (info.wotsSig = steps.map (fun _ => sig) ∧ info.wotsSignLeaf = signLeaf ∧
    info.wotsSteps = steps ∧ LeafAddr layer tree info.leafAddr ∧
    PkAddr layer tree info.pkAddr) ∧
  LeafMem H ctx layer tree sig signLeaf steps mem0 idx mem

/-- The invariant of `wotsGenLeafx8`. -/
def LeafInvX8 {n : ℕ} (H : HashFns) (ctx : SpxCtx) (layer tree sig signLeaf : ℕ)
    (steps : Option (Vector ℕ 16)) (mem0 : Vector UInt8 n) (idx : ℕ)
    (info : LeafInfoX8) (mem : Vector UInt8 n) : Prop :=
  (info.wotsSig = steps.map (fun _ => sig) ∧ info.wotsSignLeaf = signLeaf ∧
    info.wotsSteps = steps ∧ (∀ l, LeafAddr layer tree (info.leafAddr l)) ∧
    ∀ l, PkAddr layer tree (info.pkAddr l)) ∧
  LeafMem H ctx layer tree sig signLeaf steps mem0 idx mem

theorem step_lt (hsteps : ∀ v, steps = some v → ∀ i, v.getD i 0 < spxWotsW) (i : ℕ) :
    (steps.getD (Vector.replicate 16 0)).getD i 0 < spxWotsW := by
  cases steps with
  | none =>
      by_cases hi : i < 16
      · simp [Vector.getD, hi]
      · simp [Vector.getD, hi]
  | some v => exact hsteps v rfl i

/-- The window of a leaf starts at the signature, or at zero where nothing is signed. -/
theorem windowStart_le (steps : Option (Vector ℕ 16)) (sig : ℕ) :
    (steps.map fun _ => sig).getD 0 ≤ sig := by
  cases steps with
  | none => exact Nat.zero_le _
  | some v => exact le_rfl

theorem ChainsOut.path_eq {doSign : Bool} {leaf k : ℕ} {next : ℕ → ℕ}
    {mem mem' : Vector UInt8 n}
    (h : ChainsOut H ctx layer tree doSign leaf ((steps.map fun _ => sig).getD 0) next
      spxWotsLen mem mem') :
    slice mem' (sig + spxWotsBytes + k * spxN) spxN =
      slice mem (sig + spxWotsBytes + k * spxN) spxN := by
  have hle := windowStart_le steps sig
  refine h.eqOutside.slice_eq _ _ (Or.inr ?_)
  simp only [spxWotsBytes]
  omega

theorem leafGen_wots (E : Build)
    (hP : ∀ leaf < 2 ^ spxTreeHeight, LeafQueries H ctx layer tree P leaf)
    (hsteps : ∀ v, steps = some v → ∀ i, v.getD i 0 < spxWotsW)
    (hbound : sig + spxWotsBytes + spxTreeHeight * spxN ≤ n) :
    LeafGen (treeNode H ctx layer tree) P spxTreeHeight 0 (sig + spxWotsBytes)
      (wotsGenLeafx1Scalar E H ctx)
      (LeafInv H ctx layer tree sig signLeaf steps mem0) where
  gen := by
    rintro idx hidx ⟨wotsSig, wotsSignLeaf, wotsSteps, leafAddr, pkAddr⟩ mem
      ⟨⟨hsig, hleaf, hst, hla, hpa⟩, hmem⟩
    simp only at hsig hleaf hst hla hpa
    subst hsig hleaf hst
    have hsigle : (wotsSteps.map fun _ => sig).getD 0 + spxWotsBytes ≤ n := by
      have hstart := windowStart_le wotsSteps sig
      omega
    change Traced.Sat P _ (wotsGenLeafx1Scalar E H ctx idx _ mem)
    refine (wotsGenLeafx1Scalar_sat E (hP idx hidx)
      ⟨wotsSteps.map fun _ => sig, wotsSignLeaf, wotsSteps, leafAddr, pkAddr⟩
      (fun i _ => step_lt hsteps i) hsigle mem hla hpa).mono ?_
    rintro ⟨leaf, info, mem'⟩ ⟨hval, hinfo, hout⟩
    refine ⟨hval, ⟨hinfo, hmem.next _ ?_ ?_ hout⟩, fun k _ => hout.path_eq⟩
    · intro v hv hge hlt
      have hidx64 : idx < 64 := hidx
      have heq : idx = wotsSignLeaf := by omega
      subst heq hv
      refine ⟨?_, rfl⟩
      simp only [LeafInfoX1.doSign, Option.isSome_some, Option.map_some, Bool.and_self,
        Bool.true_and, beq_self_eq_true, Bool.and_true, bne_iff_ne, ne_eq]
      simp only [spxNoSignLeaf]
      omega
    · intro hdo
      simp only [LeafInfoX1.doSign, Bool.and_eq_true, beq_iff_eq] at hdo
      exact ⟨hdo.1.1.1, hdo.2.le⟩
  write := by
    intro idx info mem k b hk hinv
    exact ⟨hinv.1, hinv.2.write hk b⟩

theorem leafGenX8_wots (E : Build) (hP : AnyHash P)
    (hsteps : ∀ v, steps = some v → ∀ i, v.getD i 0 < spxWotsW)
    (hbound : sig + spxWotsBytes + spxTreeHeight * spxN ≤ n)
    (hsign : signLeaf < 2 ^ 32) :
    LeafGenX8 (treeNode H ctx layer tree) P spxTreeHeight 0 (sig + spxWotsBytes)
      (wotsGenLeafx8 E H ctx)
      (LeafInvX8 H ctx layer tree sig signLeaf steps mem0) where
  gen := by
    rintro idx hidx ⟨wotsSig, wotsSignLeaf, wotsSteps, leafAddr, pkAddr⟩ mem
      ⟨⟨hsig, hleaf, hst, hla, hpa⟩, hmem⟩
    simp only at hsig hleaf hst hla hpa
    subst hsig hleaf hst
    have hidx8 : idx < 8 := hidx
    have hsigle : (wotsSteps.map fun _ => sig).getD 0 + spxWotsBytes ≤ n := by
      have hstart := windowStart_le wotsSteps sig
      omega
    change Traced.Sat P _ (wotsGenLeafx8 E H ctx (8 * idx) _ mem)
    refine (wotsGenLeafx8_sat E hP
      ⟨wotsSteps.map fun _ => sig, wotsSignLeaf, wotsSteps, leafAddr, pkAddr⟩
      (fun i _ => step_lt hsteps i) hsigle mem hla hpa).mono ?_
    rintro ⟨leaves, info, mem'⟩ ⟨hval, hinfo, hout⟩
    have htest := group_test_iff (a := idx) (by omega) hsign
    refine ⟨funext hval, ⟨hinfo, hmem.next _ ?_ ?_ hout⟩, fun k _ => hout.path_eq⟩
    · intro v hv hge hlt
      subst hv
      have hdo : LeafInfoX8.doSign
          ⟨Option.map (fun _ => sig) (some v), wotsSignLeaf, some v, leafAddr, pkAddr⟩
          (8 * idx) = true := by
        simp only [LeafInfoX8.doSign, Option.isSome_some, Option.map_some, Bool.and_self,
          Bool.true_and, Bool.and_eq_true, bne_iff_ne, ne_eq, beq_iff_eq]
        refine ⟨?_, htest.mpr (by omega)⟩
        simp only [spxNoSignLeaf]
        omega
      have hand : wotsSignLeaf &&& 7 = wotsSignLeaf % 8 :=
        Nat.and_two_pow_sub_one_eq_mod wotsSignLeaf 3
      refine ⟨hdo, ?_⟩
      rw [hdo, if_pos rfl, Fin.val_ofNat, hand]
      omega
    · intro hdo
      simp only [LeafInfoX8.doSign, Bool.and_eq_true, beq_iff_eq] at hdo
      have hgroup := htest.mp hdo.2
      exact ⟨hdo.1.1.1, by omega⟩
  write := by
    intro idx info mem k b hk hinv
    exact ⟨hinv.1, hinv.2.write hk b⟩

end Generators

end BitcoinPqc
