import BitcoinPqc.Foundation.HashChain
import BitcoinPqc.Foundation.Reordering
import BitcoinPqc.Sphincs.TreeHash
import BitcoinPqc.Sphincs.WotsLeaf

/-!
# Eight chains of a leaf at a time

`wots_gen_leafx1_avx2` runs the loop over the chains inside the loop over the chain
positions, and keeps eight address buffers where `wots_gen_leafx1_scalar` reuses one. Both
make the same calls in another order, and copy the same chain values to the same places.
They leave different bytes in the address buffer of the leaf, in the three fields that the
next leaf sets before it reads them, so a tree walk may run either of them.
-/

namespace BitcoinPqc

variable {E E' : Build} {H : HashFns} {ctx : SpxCtx} {n : ℕ}

/-!
## The calls of a chain
-/

section Chains

/-- The buffer with the three fields set that differ between the calls of a leaf. -/
def chainAddr (a : Addr) (type chain hash : ℕ) : Addr :=
  setType (setHashAddr (setChainAddr a chain) hash) type

@[simp] theorem setHashAddr_chainAddr (a : Addr) (type chain hash hash' : ℕ) :
    setHashAddr (chainAddr a type chain hash) hash' = chainAddr a type chain hash' := by
  simp only [chainAddr, setType, setHashAddr]
  rw [write_comm _ 9 21 _ _ (by decide), write_write_self]

@[simp] theorem setType_chainAddr (a : Addr) (type chain hash type' : ℕ) :
    setType (chainAddr a type chain hash) type' = chainAddr a type' chain hash :=
  write_write_self _ _ _ _

@[simp] theorem chainAddr_chainAddr (a : Addr) (type chain hash type' chain' hash' : ℕ) :
    chainAddr (chainAddr a type chain hash) type' chain' hash' =
      chainAddr a type' chain' hash' := by
  simp only [chainAddr, setType, setHashAddr, setChainAddr]
  rw [write_comm _ 9 17 _ _ (by decide), write_comm _ 21 17 _ _ (by decide), write_write_self,
    write_comm _ 9 21 _ _ (by decide), write_write_self, write_write_self]

theorem chainAddr_setKeypairAddr (a : Addr) (keypair type chain hash : ℕ) :
    chainAddr (setKeypairAddr a keypair) type chain hash =
      setKeypairAddr (chainAddr a type chain hash) keypair := by
  simp only [chainAddr, setType, setHashAddr, setChainAddr, setKeypairAddr]
  rw [write_comm _ 10 17 _ _ (by decide), write_comm _ 10 21 _ _ (by decide),
    write_comm _ 10 9 _ _ (by decide)]

/-- Two buffers that differ in the fields of a chain only. -/
def SameLeafAddr (a b : Addr) : Prop :=
  ∀ type chain hash, chainAddr a type chain hash = chainAddr b type chain hash

theorem SameLeafAddr.setKeypairAddr {a b : Addr} (h : SameLeafAddr a b) (keypair : ℕ) :
    SameLeafAddr (setKeypairAddr a keypair) (setKeypairAddr b keypair) := by
  intro type chain hash
  rw [chainAddr_setKeypairAddr, h, chainAddr_setKeypairAddr]

/-- The value of chain `i` at position `k`. -/
def chainValue (H : HashFns) (ctx : SpxCtx) (a : Addr) (i k : ℕ) : Block :=
  chain (fun k x => H.thash ctx.stateSeeded (adrs (chainAddr a addrTypeWots i k)) [x]) 0 k
    (H.prfAddr ctx.stateSeeded (adrs (chainAddr a addrTypeWotsPrf i 0)) ctx.skSeed)

theorem chainValue_succ (a : Addr) (i k : ℕ) :
    chainValue H ctx a i (k + 1) =
      H.thash ctx.stateSeeded (adrs (chainAddr a addrTypeWots i k))
        [chainValue H ctx a i k] := by
  rw [chainValue, chain_succ, Nat.zero_add, chainValue]

/-- The call for the secret value of chain `i`. -/
def secretQuery (H : HashFns) (ctx : SpxCtx) (a : Addr) (i : ℕ) : Query :=
  .prfAddr (adrs (chainAddr a addrTypeWotsPrf i 0)) ctx.skSeed (chainValue H ctx a i 0)

/-- The call for the step of chain `i` from position `k`. -/
def stepQuery (H : HashFns) (ctx : SpxCtx) (a : Addr) (i k : ℕ) : Query :=
  .thash (adrs (chainAddr a addrTypeWots i k)) [chainValue H ctx a i k]
    (chainValue H ctx a i (k + 1))

/-- The memory after chain `p.1` has passed position `p.2`. -/
def copyValue (H : HashFns) (ctx : SpxCtx) (a : Addr) (info : LeafInfoX1) (doSign : Bool)
    (mem : Vector UInt8 n) (p : ℕ × ℕ) : Vector UInt8 n :=
  if doSign ∧ p.2 = info.wotsK doSign p.1 then
    write mem (info.wotsSig.getD 0 + p.1 * spxN) (chainValue H ctx a p.1 p.2)
  else mem

theorem copyValue_comm (a : Addr) (info : LeafInfoX1) (doSign : Bool) (mem : Vector UInt8 n)
    (p q : ℕ × ℕ) :
    copyValue H ctx a info doSign (copyValue H ctx a info doSign mem p) q =
      copyValue H ctx a info doSign (copyValue H ctx a info doSign mem q) p := by
  obtain ⟨i, k⟩ := p
  obtain ⟨j, l⟩ := q
  by_cases hp : doSign ∧ k = info.wotsK doSign i
  · by_cases hq : doSign ∧ l = info.wotsK doSign j
    · rcases Nat.lt_trichotomy i j with hlt | rfl | hlt
      · simp only [copyValue, if_pos hp, if_pos hq]
        exact write_comm _ _ _ _ _ (Or.inl (by simp only [spxN]; omega))
      · rw [hp.2, hq.2]
      · simp only [copyValue, if_pos hp, if_pos hq]
        exact write_comm _ _ _ _ _ (Or.inr (by simp only [spxN]; omega))
    · simp only [copyValue, if_neg hq]
  · simp only [copyValue, if_neg hp]

end Chains

/-!
## One chain after the other
-/

section Scalar

variable {a : Addr} (info : LeafInfoX1) (doSign : Bool)

theorem wotsChainLoop_eq (i rest k k₀ : ℕ) (mem : Vector UInt8 n) :
    ∃ k₁, wotsChainLoop H ctx doSign (info.wotsK doSign i) (info.wotsSig.getD 0 + i * spxN)
        rest k (chainValue H ctx a i k) (chainAddr a addrTypeWots i k₀) mem =
      ⟨(chainValue H ctx a i (k + rest), chainAddr a addrTypeWots i k₁,
        ((List.range' k (rest + 1)).map (Prod.mk i)).foldl (copyValue H ctx a info doSign) mem),
        (List.range' k rest).map (stepQuery H ctx a i)⟩ := by
  induction rest generalizing k k₀ mem with
  | zero => exact ⟨k₀, rfl⟩
  | succ rest ih =>
      obtain ⟨k₁, hrest⟩ := ih (k + 1) k (copyValue H ctx a info doSign mem (i, k))
      refine ⟨k₁, ?_⟩
      have hthash : thash H [chainValue H ctx a i k] ctx (chainAddr a addrTypeWots i k) =
          ⟨chainValue H ctx a i (k + 1), [stepQuery H ctx a i k]⟩ := by
        rw [stepQuery, chainValue_succ]
        rfl
      rw [wotsChainLoop]
      simp only [setHashAddr_chainAddr, hthash]
      rw [show k + (rest + 1) = k + 1 + rest by omega, List.range'_succ (s := k),
        List.range'_succ (s := k)]
      refine Traced.ext ?_ ?_
      · have hval := congrArg Traced.val hrest
        exact hval
      · have hlog := congrArg Traced.log hrest
        exact congrArg (stepQuery H ctx a i k :: ·) hlog

theorem wotsGenLeafChain_eq (i : ℕ) (s : (ℕ → Block) × Addr × Vector UInt8 n)
    (haddr : SameLeafAddr s.2.1 a) :
    ∃ k, wotsGenLeafChain H ctx info doSign i s =
      ⟨(Function.update s.1 i (chainValue H ctx a i (spxWotsW - 1)),
        chainAddr a addrTypeWots i k,
        ((List.range spxWotsW).map (Prod.mk i)).foldl (copyValue H ctx a info doSign) s.2.2),
        secretQuery H ctx a i :: (List.range (spxWotsW - 1)).map (stepQuery H ctx a i)⟩ := by
  have hsecret : setType (setHashAddr (setChainAddr s.2.1 i) 0) addrTypeWotsPrf =
      chainAddr a addrTypeWotsPrf i 0 := haddr addrTypeWotsPrf i 0
  have hprf : prfAddr H ctx (chainAddr a addrTypeWotsPrf i 0) =
      ⟨chainValue H ctx a i 0, [secretQuery H ctx a i]⟩ := rfl
  obtain ⟨k, hloop⟩ := @wotsChainLoop_eq H ctx n a info doSign i (spxWotsW - 1) 0 0 s.2.2
  rw [Nat.zero_add, ← List.range_eq_range', ← List.range_eq_range', LeafInfoX1.wotsK] at hloop
  refine ⟨k, ?_⟩
  rw [wotsGenLeafChain]
  simp only [hsecret, setType_chainAddr, hprf]
  refine Traced.ext ?_ ?_
  · simp only [Traced.val_bind, Traced.val_pure, hloop]
    rfl
  · simp only [Traced.log_bind, Traced.log_pure, hloop, List.append_nil]
    rfl

theorem wotsGenLeafChains_eq {b : Addr} (hb : SameLeafAddr b a) (m : ℕ) (u : ℕ → Block)
    (mem : Vector UInt8 n) :
    ∃ bufs a', (∀ i < m, bufs i = chainValue H ctx a i (spxWotsW - 1)) ∧ SameLeafAddr a' a ∧
      Traced.forRange m (wotsGenLeafChain H ctx info doSign) (u, b, mem) =
        ⟨(bufs, a', ((List.range m).flatMap fun i =>
            (List.range spxWotsW).map (Prod.mk i)).foldl (copyValue H ctx a info doSign) mem),
          (List.range m).flatMap fun i => secretQuery H ctx a i ::
            (List.range (spxWotsW - 1)).map (stepQuery H ctx a i)⟩ := by
  induction m with
  | zero => exact ⟨u, b, fun i hi => by omega, hb, rfl⟩
  | succ m ih =>
      obtain ⟨bufs, a', hbufs, ha', hrun⟩ := ih
      obtain ⟨k, hchain⟩ := @wotsGenLeafChain_eq H ctx n a info doSign m (bufs, a', _) ha'
      refine ⟨Function.update bufs m (chainValue H ctx a m (spxWotsW - 1)),
        chainAddr a addrTypeWots m k, ?_, fun _ _ _ => chainAddr_chainAddr _ _ _ _ _ _ _, ?_⟩
      · intro i hi
        rcases Nat.lt_succ_iff_lt_or_eq.mp hi with hlt | rfl
        · rw [Function.update_of_ne (by omega), hbufs i hlt]
        · rw [Function.update_self]
      · rw [Traced.forRange_succ, hrun]
        refine Traced.ext ?_ ?_
        · rw [Traced.val_bind, hchain, List.range_succ (n := m), List.flatMap_append,
            List.foldl_append, List.flatMap_singleton]
        · simp only [Traced.log_bind, hchain]
          rw [List.range_succ (n := m), List.flatMap_append, List.flatMap_singleton]

end Scalar

/-!
## Eight chains in the lanes
-/

section Lanes

variable {a : Addr} (info : LeafInfoX1) (doSign : Bool)

theorem ofFn_eq_map_range {α : Type} (f : ℕ → α) :
    (List.ofFn fun j : Fin 8 => f j.val) = (List.range 8).map f := rfl

theorem copyLanes_eq (i k : ℕ) (mem : Vector UInt8 n) :
    copyLanes info doSign i 8 k (fun j => chainValue H ctx a (i + j.val) k) mem =
      ((List.range 8).map fun j => (i + j, k)).foldl (copyValue H ctx a info doSign) mem := by
  rw [copyLanes, List.foldl_map]
  refine List.foldl_ext _ _ _ fun mem j hj => ?_
  have hlane : (laneIdx j).val = j := Nat.mod_eq_of_lt (List.mem_range.mp hj)
  simp only [copyValue, hlane]

theorem thashx8_chains (i k : ℕ) :
    thashx8 H (fun j => [chainValue H ctx a (i + j.val) k]) ctx
        (fun j => chainAddr a addrTypeWots (i + j.val) k) =
      ⟨fun j => chainValue H ctx a (i + j.val) (k + 1),
        (List.range 8).map fun j => stepQuery H ctx a (i + j) k⟩ := by
  have hval : H.thashx8 ctx.stateSeeded
      (fun j => adrs (chainAddr a addrTypeWots (i + j.val) k))
      (fun j => [chainValue H ctx a (i + j.val) k]) =
        fun j => chainValue H ctx a (i + j.val) (k + 1) := by
    funext j
    rw [H.thashx8_lane, chainValue_succ]
  rw [thashx8, hval, ← ofFn_eq_map_range]
  rfl

theorem prfAddrx8_chains (i : ℕ) :
    prfAddrx8 H ctx (fun j => chainAddr a addrTypeWotsPrf (i + j.val) 0) =
      ⟨fun j => chainValue H ctx a (i + j.val) 0,
        (List.range 8).map fun j => secretQuery H ctx a (i + j)⟩ := by
  have hval : H.prfAddrx8 ctx.stateSeeded
      (fun j => adrs (chainAddr a addrTypeWotsPrf (i + j.val) 0)) ctx.skSeed =
        fun j => chainValue H ctx a (i + j.val) 0 := by
    funext j
    rw [H.prfAddrx8_lane]
    rfl
  rw [prfAddrx8, hval, ← ofFn_eq_map_range]
  rfl

/-- The inner loop of `wots_gen_leafx1_avx2` from position `k` on. -/
theorem wotsChainLoopAvx2_eq (i rest k k₀ : ℕ) (mem : Vector UInt8 n) :
    wotsChainLoopAvx2 H ctx info doSign i 8 rest k
        (fun j => chainValue H ctx a (i + j.val) k)
        (fun j => chainAddr a addrTypeWots (i + j.val) k₀) mem =
      ⟨(fun j => chainValue H ctx a (i + j.val) (k + rest),
        ((List.range' k (rest + 1)).flatMap fun k => (List.range 8).map fun j =>
          (i + j, k)).foldl (copyValue H ctx a info doSign) mem),
        (List.range' k rest).flatMap fun k => (List.range 8).map fun j =>
          stepQuery H ctx a (i + j) k⟩ := by
  induction rest generalizing k k₀ mem with
  | zero =>
      rw [wotsChainLoopAvx2, copyLanes_eq]
      rfl
  | succ rest ih =>
      have haddrs : (fun j : Fin 8 => if j.val < 8 then
          setHashAddr (chainAddr a addrTypeWots (i + j.val) k₀) k
          else chainAddr a addrTypeWots (i + j.val) k₀) =
          fun j => chainAddr a addrTypeWots (i + j.val) k := by
        funext j
        rw [if_pos j.isLt, setHashAddr_chainAddr]
      rw [wotsChainLoopAvx2, copyLanes_eq]
      simp only [haddrs, thashx8_chains]
      rw [show k + (rest + 1) = k + 1 + rest by omega, List.range'_succ (s := k),
        List.range'_succ (s := k), List.flatMap_cons, List.flatMap_cons, List.foldl_append]
      refine Traced.ext ?_ ?_
      · rw [Traced.val_bind, ih]
      · rw [Traced.log_bind, ih]

theorem wotsGenLeafGroup_eq {g : ℕ} (hg : g < 2) (s : (ℕ → Block) × Vector UInt8 n) :
    wotsGenLeafGroup H ctx info doSign a g s =
      ⟨(fun l => if 8 * g ≤ l ∧ l < 8 * g + 8 then chainValue H ctx a l (spxWotsW - 1)
          else s.1 l,
        ((List.range spxWotsW).flatMap fun k => (List.range 8).map fun j =>
          (8 * g + j, k)).foldl (copyValue H ctx a info doSign) s.2),
        ((List.range 8).map fun j => secretQuery H ctx a (8 * g + j)) ++
          (List.range (spxWotsW - 1)).flatMap fun k => (List.range 8).map fun j =>
            stepQuery H ctx a (8 * g + j) k⟩ := by
  have hlanes : (if spxWotsLen - 8 * g > 8 then 8 else spxWotsLen - 8 * g) = 8 := by
    simp only [spxWotsLen, spxWotsLen1, spxN, spxWotsLogw]
    split <;> omega
  have haddrs : (fun j : Fin 8 => setType (setHashAddr (setChainAddr a
      (if j.val < 8 then 8 * g + j.val else 0)) 0) addrTypeWotsPrf) =
      fun j => chainAddr a addrTypeWotsPrf (8 * g + j.val) 0 := by
    funext j
    rw [if_pos j.isLt, chainAddr]
  have htypes : (fun j : Fin 8 => if j.val < 8 then
      setType (setType (setHashAddr (setChainAddr a
        (if j.val < 8 then 8 * g + j.val else 0)) 0) addrTypeWotsPrf) addrTypeWots
      else setType (setHashAddr (setChainAddr a
        (if j.val < 8 then 8 * g + j.val else 0)) 0) addrTypeWotsPrf) =
      fun j => chainAddr a addrTypeWots (8 * g + j.val) 0 := by
    funext j
    rw [if_pos j.isLt, if_pos j.isLt, ← chainAddr, setType_chainAddr]
  have hloop := @wotsChainLoopAvx2_eq H ctx n a info doSign (8 * g) (spxWotsW - 1) 0 0 s.2
  rw [Nat.zero_add, ← List.range_eq_range', ← List.range_eq_range',
    show spxWotsW - 1 + 1 = spxWotsW from rfl] at hloop
  rw [wotsGenLeafGroup]
  simp only [hlanes, htypes, haddrs, prfAddrx8_chains]
  refine Traced.ext ?_ ?_
  · simp only [Traced.val_bind, Traced.val_pure, hloop]
    refine Prod.ext ?_ rfl
    funext l
    by_cases hl : 8 * g ≤ l ∧ l < 8 * g + 8
    · have hlane : 8 * g + (laneIdx (l - 8 * g)).val = l := by
        rw [Fin.val_ofNat, Nat.mod_eq_of_lt (by omega)]
        omega
      simp only [if_pos hl, hlane]
    · simp only [if_neg hl]
  · simp only [Traced.log_bind, Traced.log_pure, hloop, List.append_nil]

theorem wotsGenLeafGroups_eq {m : ℕ} (hm : m ≤ 2) (u : ℕ → Block) (mem : Vector UInt8 n) :
    ∃ bufs, (∀ i < 8 * m, bufs i = chainValue H ctx a i (spxWotsW - 1)) ∧
      Traced.forRange m (wotsGenLeafGroup H ctx info doSign a) (u, mem) =
        ⟨(bufs, ((List.range m).flatMap fun g => (List.range spxWotsW).flatMap fun k =>
            (List.range 8).map fun j => (8 * g + j, k)).foldl
              (copyValue H ctx a info doSign) mem),
          (List.range m).flatMap fun g =>
            ((List.range 8).map fun j => secretQuery H ctx a (8 * g + j)) ++
              (List.range (spxWotsW - 1)).flatMap fun k => (List.range 8).map fun j =>
                stepQuery H ctx a (8 * g + j) k⟩ := by
  induction m with
  | zero => exact ⟨u, fun i hi => by omega, rfl⟩
  | succ m ih =>
      obtain ⟨bufs, hbufs, hrun⟩ := ih (by omega)
      refine ⟨fun l => if 8 * m ≤ l ∧ l < 8 * m + 8 then
        chainValue H ctx a l (spxWotsW - 1) else bufs l, ?_, ?_⟩
      · intro i hi
        by_cases hl : 8 * m ≤ i ∧ i < 8 * m + 8
        · exact if_pos hl
        · exact (if_neg hl).trans (hbufs i (by omega))
      · rw [Traced.forRange_succ, hrun]
        refine Traced.ext ?_ ?_
        · rw [Traced.val_bind, wotsGenLeafGroup_eq info doSign (by omega),
            List.range_succ (n := m), List.flatMap_append, List.foldl_append,
            List.flatMap_singleton]
        · simp only [Traced.log_bind, wotsGenLeafGroup_eq info doSign (show m < 2 by omega)]
          rw [List.range_succ (n := m), List.flatMap_append, List.flatMap_singleton]

end Lanes

/-!
## One leaf
-/

section Leaf

/-- Leaf generators in the same state: the address buffers of their leaves may differ in the
fields that every leaf sets. -/
structure SameLeafInfo (info info' : LeafInfoX1) : Prop where
  wotsSig : info.wotsSig = info'.wotsSig
  wotsSignLeaf : info.wotsSignLeaf = info'.wotsSignLeaf
  wotsSteps : info.wotsSteps = info'.wotsSteps
  leafAddr : SameLeafAddr info.leafAddr info'.leafAddr
  pkAddr : info.pkAddr = info'.pkAddr

theorem SameLeafInfo.refl (info : LeafInfoX1) : SameLeafInfo info info :=
  ⟨rfl, rfl, rfl, fun _ _ _ => rfl, rfl⟩

/-- The same leaf and the same memory. -/
def SameLeaf (r r' : Block × LeafInfoX1 × Vector UInt8 n) : Prop :=
  r.1 = r'.1 ∧ SameLeafInfo r.2.1 r'.2.1 ∧ r.2.2 = r'.2.2

theorem range_spxWotsLen {α : Type} (f : ℕ → List α) :
    (List.range spxWotsLen).flatMap f =
      (List.range 2).flatMap fun g => (List.range 8).flatMap fun j => f (8 * g + j) := by
  rw [show List.range spxWotsLen =
    (List.range 2).flatMap fun g => (List.range 8).map (8 * g + ·) from rfl, List.flatMap_assoc]
  exact congrArg (List.flatMap · _) (funext fun g => List.flatMap_map ..)

/-- The copies of a leaf do not depend on the order of the chains. -/
theorem copies_perm :
    ((List.range 2).flatMap fun g => (List.range spxWotsW).flatMap fun k =>
      (List.range 8).map fun j => (8 * g + j, k)).Perm
    ((List.range spxWotsLen).flatMap fun i => (List.range spxWotsW).map (Prod.mk i)) := by
  rw [range_spxWotsLen]
  exact List.Perm.flatMap_left _ fun g _ =>
    (flatMap_map_comm (List.range 8) (List.range spxWotsW) fun j k => (8 * g + j, k)).symm

theorem SameLeafInfo.doSign {info info' : LeafInfoX1} (h : SameLeafInfo info info')
    (leafIdx : ℕ) : info.doSign leafIdx = info'.doSign leafIdx := by
  rw [LeafInfoX1.doSign, LeafInfoX1.doSign, h.wotsSteps, h.wotsSig, h.wotsSignLeaf]

theorem SameLeafInfo.copyValue {info info' : LeafInfoX1} (h : SameLeafInfo info info')
    (a : Addr) (doSign : Bool) :
    (copyValue H ctx a info doSign : Vector UInt8 n → ℕ × ℕ → Vector UInt8 n) =
      copyValue H ctx a info' doSign := by
  funext mem p
  have hk : info.wotsK doSign p.1 = info'.wotsK doSign p.1 := by
    rw [LeafInfoX1.wotsK, LeafInfoX1.wotsK, LeafInfoX1.step, LeafInfoX1.step, h.wotsSteps]
  rw [BitcoinPqc.copyValue, BitcoinPqc.copyValue, hk, h.wotsSig]

theorem wotsGenLeafChains_shuffled {info info' : LeafInfoX1} (h : SameLeafInfo info info')
    (doSign : Bool) {a b : Addr} (hab : SameLeafAddr a b) (u u' : ℕ → Block)
    (mem : Vector UInt8 n) :
    Traced.Shuffled
      (fun r r' => (∀ i < spxWotsLen, r.1 i = r'.1 i) ∧ SameLeafAddr a r'.2.1 ∧ r.2 = r'.2.2)
      (Traced.forRange ((spxWotsLen + 7) / 8) (wotsGenLeafGroup H ctx info doSign a) (u, mem))
      (Traced.forRange spxWotsLen (wotsGenLeafChain H ctx info' doSign) (u', b, mem)) := by
  obtain ⟨bufs, hbufs, hgroups⟩ :=
    @wotsGenLeafGroups_eq H ctx n a info doSign 2 le_rfl u mem
  obtain ⟨bufs', addr, hbufs', haddr, hchains⟩ := @wotsGenLeafChains_eq H ctx n a info' doSign b
    (fun type chain hash => (hab type chain hash).symm) spxWotsLen u' mem
  rw [show (spxWotsLen + 7) / 8 = 2 from rfl, hgroups, hchains]
  refine ⟨?_, ?_, ?_, ?_⟩
  · simp only [range_spxWotsLen]
    exact List.Perm.flatMap_left _ fun g _ => flatMap_cons_map_perm (List.range 8)
      (List.range (spxWotsW - 1)) (fun j => secretQuery H ctx a (8 * g + j))
      fun j k => stepQuery H ctx a (8 * g + j) k
  · intro i hi
    exact (hbufs i hi).trans (hbufs' i hi).symm
  · intro type chain hash
    exact (haddr type chain hash).symm
  · dsimp only
    rw [h.copyValue]
    exact copies_perm.foldl_eq' (fun p _ q _ mem => copyValue_comm a info' doSign mem p q) mem

/-- `wots_gen_leafx1_avx2` agrees with `wots_gen_leafx1_scalar`. -/
theorem wotsGenLeafx1Avx2_shuffled {info info' : LeafInfoX1} (h : SameLeafInfo info info')
    (leafIdx : ℕ) (mem : Vector UInt8 n) :
    Traced.Shuffled SameLeaf (wotsGenLeafx1Avx2 E H ctx leafIdx info mem)
      (wotsGenLeafx1Scalar E' H ctx leafIdx info' mem) := by
  rw [wotsGenLeafx1Avx2, wotsGenLeafx1Scalar, h.doSign, h.pkAddr]
  refine (wotsGenLeafChains_shuffled h _ (h.leafAddr.setKeypairAddr leafIdx) _ _ mem).bind ?_
  rintro ⟨bufs, mem₁⟩ ⟨bufs', addr, mem₂⟩ ⟨hbufs, haddr, hmem⟩
  have hinput : (List.range spxWotsLen).map bufs = (List.range spxWotsLen).map bufs' :=
    List.map_congr_left fun i hi => hbufs i (List.mem_range.mp hi)
  dsimp only at hmem ⊢
  rw [hinput, hmem]
  refine (Traced.Shuffled.refl (fun _ => rfl) _).bind ?_
  rintro dest _ rfl
  exact Traced.Shuffled.pure
    ⟨rfl, ⟨h.wotsSig, h.wotsSignLeaf, h.wotsSteps, haddr, rfl⟩, rfl⟩

theorem wotsGenLeafx1_shuffled {info info' : LeafInfoX1} (h : SameLeafInfo info info')
    (leafIdx : ℕ) (mem : Vector UInt8 n) :
    Traced.Shuffled SameLeaf (wotsGenLeafx1 E H ctx leafIdx info mem)
      (wotsGenLeafx1Scalar E' H ctx leafIdx info' mem) := by
  rw [wotsGenLeafx1]
  split
  · exact wotsGenLeafx1Avx2_shuffled h leafIdx mem
  · refine (@wotsGenLeafx1Avx2_shuffled E E H ctx n _ _ (SameLeafInfo.refl info) leafIdx
      mem).of_left (wotsGenLeafx1Avx2_shuffled h leafIdx mem) ?_
    rintro a b c ⟨hleaf, hinfo, hmem⟩ ⟨hleaf', hinfo', hmem'⟩
    refine ⟨hleaf.symm.trans hleaf', ⟨hinfo.wotsSig.symm.trans hinfo'.wotsSig,
      hinfo.wotsSignLeaf.symm.trans hinfo'.wotsSignLeaf,
      hinfo.wotsSteps.symm.trans hinfo'.wotsSteps, ?_,
      hinfo.pkAddr.symm.trans hinfo'.pkAddr⟩, hmem.symm.trans hmem'⟩
    intro type chain hash
    exact (hinfo.leafAddr type chain hash).symm.trans (hinfo'.leafAddr type chain hash)

end Leaf

/-!
## The tree walk
-/

section Walk

variable {ι κ : Type} {R : ι → κ → Prop}
  {genLeaf : ℕ → ι → Vector UInt8 n → Traced Query (Block × ι × Vector UInt8 n)}
  {genLeaf' : ℕ → κ → Vector UInt8 n → Traced Query (Block × κ × Vector UInt8 n)}

/-- The same root, address buffer and memory, with the generators in related states. -/
def SameRoot (R : ι → κ → Prop) (r : Block × Addr × ι × Vector UInt8 n)
    (r' : Block × Addr × κ × Vector UInt8 n) : Prop :=
  r.1 = r'.1 ∧ r.2.1 = r'.2.1 ∧ R r.2.2.1 r'.2.2.1 ∧ r.2.2.2 = r'.2.2.2

/-- The walks from leaf `idx` on, with generators that agree on every leaf. -/
theorem treehashx1Loop_shuffled
    (hgen : ∀ i info info' mem, R info info' → Traced.Shuffled
      (fun r r' => r.1 = r'.1 ∧ R r.2.1 r'.2.1 ∧ r.2.2 = r'.2.2)
      (genLeaf i info mem) (genLeaf' i info' mem))
    (leafIdx idxOffset treeHeight authPath maxIdx rest idx : ℕ) (stack : ℕ → Block)
    (treeAddr : Addr) {info : ι} {info' : κ} (h : R info info') (mem : Vector UInt8 n) :
    Traced.Shuffled (SameRoot R)
      (treehashx1Loop H ctx genLeaf leafIdx idxOffset treeHeight authPath maxIdx rest idx
        stack treeAddr info mem)
      (treehashx1Loop H ctx genLeaf' leafIdx idxOffset treeHeight authPath maxIdx rest idx
        stack treeAddr info' mem) := by
  induction rest generalizing idx stack treeAddr info info' mem with
  | zero =>
      rw [treehashx1Loop, treehashx1Loop]
      refine (hgen _ _ _ mem h).bind ?_
      rintro ⟨leaf, info, mem⟩ ⟨_, info', _⟩ ⟨rfl, hinfo, rfl⟩
      refine (Traced.Shuffled.refl (fun _ => rfl) _).bind ?_
      rintro ⟨stop, s⟩ _ rfl
      exact Traced.Shuffled.pure ⟨rfl, rfl, hinfo, rfl⟩
  | succ rest ih =>
      rw [treehashx1Loop, treehashx1Loop]
      refine (hgen _ _ _ mem h).bind ?_
      rintro ⟨leaf, info, mem⟩ ⟨_, info', _⟩ ⟨rfl, hinfo, rfl⟩
      refine (Traced.Shuffled.refl (fun _ => rfl) _).bind ?_
      rintro ⟨stop, s⟩ _ rfl
      cases stop with
      | none => exact Traced.Shuffled.pure ⟨rfl, rfl, hinfo, rfl⟩
      | some h => exact ih (idx + 1) _ s.treeAddr hinfo s.mem

end Walk

/-- The walk that `merkle_sign_scalar` makes over its leaves is the same whether
`wots_gen_leafx1` runs the chains of each leaf one by one or eight at a time: the same
calls up to their order, the same root and address buffer, and the same bytes of the
signature and the authentication path. -/
theorem treehashx1_wotsGenLeafx1 (E E' : Build) (H : HashFns) (ctx : SpxCtx)
    (leafIdx idxOffset treeHeight authPath : ℕ) (stack : ℕ → Block) (treeAddr : Addr)
    (info : LeafInfoX1) (mem : Vector UInt8 n) :
    Traced.Shuffled (SameRoot SameLeafInfo)
      (treehashx1 H ctx (wotsGenLeafx1 E H ctx) leafIdx idxOffset treeHeight authPath stack
        treeAddr info mem)
      (treehashx1 H ctx (wotsGenLeafx1Scalar E' H ctx) leafIdx idxOffset treeHeight authPath
        stack treeAddr info mem) := by
  have hgen (i : ℕ) (info info' : LeafInfoX1) (mem : Vector UInt8 n)
      (h : SameLeafInfo info info') :
      Traced.Shuffled SameLeaf (wotsGenLeafx1 E H ctx i info mem)
        (wotsGenLeafx1Scalar E' H ctx i info' mem) := wotsGenLeafx1_shuffled h i mem
  exact treehashx1Loop_shuffled hgen leafIdx idxOffset treeHeight authPath _ _ 0 stack treeAddr
    (SameLeafInfo.refl info) mem

end BitcoinPqc
