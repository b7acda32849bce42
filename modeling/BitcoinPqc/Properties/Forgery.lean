import BitcoinPqc.Properties.Encoding
import BitcoinPqc.Properties.Extraction
import BitcoinPqc.Properties.Keys

/-!
# What a forgery gives away

An accepted signature is compared with the trees of the key. From the public root down,
the values of the verifier are those of the key, or a call of the verifier is a second
preimage of a call that the key makes at the same address. Where the values of a layer
are those of the key but the value that is signed there is not, the signature opens the
chains of the key for another value. Its chain lengths have the sum of the signer's, so
they are the signer's lengths or one of them is smaller.
-/

namespace BitcoinPqc

open Merkle

/-!
## Second preimages
-/

/-- A call of the log has the address and the output of a call of the key, on another
input of the same length. -/
def SecondPreimage (H : HashFns) (ctx : SpxCtx) (log : List Query) : Prop :=
  ∃ addr input input' out, .thash addr input out ∈ log ∧
    HonestQuery H ctx (.thash addr input' out) ∧ input.length = input'.length ∧
    input ≠ input'

section Steps

variable {H : HashFns} {ctx : SpxCtx} {log log' : List Query} {layer tree leaf i : ℕ}

theorem Collision.secondPreimage (h : Collision log log')
    (hlog : ∀ q ∈ log', HonestQuery H ctx q) : SecondPreimage H ctx log := by
  obtain ⟨addr, input, input', out, hmem, hmem', hlen, hne⟩ := h
  exact ⟨addr, input, input', out, hmem, hlog _ hmem', hlen, hne⟩

theorem input_eq_or_secondPreimage {addr : AddrBytes} {input input' : List Block} {out : Block}
    (hmem : .thash addr input out ∈ log) (hhonest : HonestQuery H ctx (.thash addr input' out))
    (hlen : input.length = input'.length) : input = input' ∨ SecondPreimage H ctx log := by
  by_cases heq : input = input'
  · exact Or.inl heq
  · exact Or.inr ⟨addr, input, input', out, hmem, hhonest, hlen, heq⟩

theorem wotsStepQuery_wotsValue (a k : ℕ) :
    wotsStepQuery H ctx.stateSeeded layer tree leaf i a (wotsValue H ctx layer tree leaf i a) k =
      queryAt H ctx (.wotsStep layer tree leaf i (a + k)) := by
  have hvalue (j : ℕ) : chain (wotsStep H ctx.stateSeeded layer tree leaf i) a j
      (wotsValue H ctx layer tree leaf i a) = wotsValue H ctx layer tree leaf i (a + j) := by
    rw [wotsValue, wotsValue, chain_add, Nat.zero_add]
  rw [wotsStepQuery, hvalue, hvalue]
  rfl

/-- A chain that ends where the chain of the key ends starts in the value of the key. -/
theorem wotsValue_or_secondPreimage {a : ℕ} {x : Block} (ha : a < spxWotsW)
    (hvalid : layer < spxD ∧ tree < 2 ^ 24 ∧ leaf < 2 ^ spxTreeHeight ∧ i < spxWotsLen)
    (hmem : ∀ k < spxWotsW - 1 - a,
      wotsStepQuery H ctx.stateSeeded layer tree leaf i a x k ∈ log)
    (h : chain (wotsStep H ctx.stateSeeded layer tree leaf i) a (spxWotsW - 1 - a) x =
      wotsValue H ctx layer tree leaf i (spxWotsW - 1)) :
    x = wotsValue H ctx layer tree leaf i a ∨ SecondPreimage H ctx log := by
  have hend : wotsValue H ctx layer tree leaf i (spxWotsW - 1) =
      chain (wotsStep H ctx.stateSeeded layer tree leaf i) a (spxWotsW - 1 - a)
        (wotsValue H ctx layer tree leaf i a) := by
    rw [wotsValue, wotsValue, show spxWotsW - 1 = a + (spxWotsW - 1 - a) by omega, chain_add,
      Nat.zero_add, ← show spxWotsW - 1 = a + (spxWotsW - 1 - a) by omega]
  have hsteps := chain_eq_or_collision le_rfl ha hmem
    (fun k hk => List.mem_map_of_mem (List.mem_range.mpr hk)) (h.trans hend)
  rcases hsteps with heq | hcoll
  · rw [Nat.sub_self, chain_zero] at heq
    exact Or.inl heq.symm
  · refine Or.inr (hcoll.secondPreimage ?_)
    intro q hq
    obtain ⟨k, hk, rfl⟩ := List.mem_map.mp hq
    rw [List.mem_range] at hk
    rw [wotsStepQuery_wotsValue]
    exact ⟨.wotsStep layer tree leaf i (a + k),
      ⟨hvalid.1, hvalid.2.1, hvalid.2.2.1, hvalid.2.2.2, by omega⟩, rfl⟩

theorem climbQuery_node {st : Vector UInt8 40} {type keypair g n k : ℕ} (row : ℕ → Block)
    {path : ℕ → Block} (hk : k < n)
    (hpath : ∀ k < n, path k =
      node row (nodeHash H st layer tree type keypair) k ((g >>> k) ^^^ 1)) :
    climbQuery H st layer tree type keypair g path (row g) k =
      .thash (adrs (addrOf layer tree type keypair (k + 1) (g >>> (k + 1))))
        [node row (nodeHash H st layer tree type keypair) k (2 * (g >>> (k + 1))),
          node row (nodeHash H st layer tree type keypair) k (2 * (g >>> (k + 1)) + 1)]
        (node row (nodeHash H st layer tree type keypair) (k + 1) (g >>> (k + 1))) := by
  have hbelow := climb_node row (nodeHash H st layer tree type keypair) g path k
    fun k' hk' => hpath k' (by omega)
  have habove := climb_node row (nodeHash H st layer tree type keypair) g path (k + 1)
    fun k' hk' => hpath k' (by omega)
  have hhalf : g >>> (k + 1) = (g >>> k) / 2 := Nat.shiftRight_succ g k
  rw [climbQuery, climbChildren, hbelow, habove, hpath k hk, children_node, hhalf]

/-- A path that ends in the root of a tree of the key is the path of that tree. -/
theorem path_or_secondPreimage {type keypair g n : ℕ} (row : ℕ → Block) {path : ℕ → Block}
    {x : Block}
    (hmem : ∀ k < n, climbQuery H ctx.stateSeeded layer tree type keypair g path x k ∈ log)
    (hhonest : ∀ k < n, HonestQuery H ctx
      (.thash (adrs (addrOf layer tree type keypair (k + 1) (g >>> (k + 1))))
        [node row (nodeHash H ctx.stateSeeded layer tree type keypair) k (2 * (g >>> (k + 1))),
          node row (nodeHash H ctx.stateSeeded layer tree type keypair) k
            (2 * (g >>> (k + 1)) + 1)]
        (node row (nodeHash H ctx.stateSeeded layer tree type keypair) (k + 1)
          (g >>> (k + 1)))))
    (h : climb (nodeHash H ctx.stateSeeded layer tree type keypair) g path n x =
      node row (nodeHash H ctx.stateSeeded layer tree type keypair) n (g >>> n)) :
    (x = row g ∧ ∀ k < n, path k =
      node row (nodeHash H ctx.stateSeeded layer tree type keypair) k ((g >>> k) ^^^ 1)) ∨
      SecondPreimage H ctx log := by
  have hclimb := climb_node row (nodeHash H ctx.stateSeeded layer tree type keypair) g
    (fun k => node row (nodeHash H ctx.stateSeeded layer tree type keypair) k ((g >>> k) ^^^ 1)) n
    fun _ _ => rfl
  have hsteps := path_eq_or_collision hmem
    (fun k hk => List.mem_map_of_mem (List.mem_range.mpr hk)) (h.trans hclimb.symm)
  refine hsteps.imp_right fun hcoll => hcoll.secondPreimage ?_
  intro q hq
  obtain ⟨k, hk, rfl⟩ := List.mem_map.mp hq
  rw [List.mem_range] at hk
  rw [climbQuery_node row hk fun _ _ => rfl]
  exact hhonest k hk

end Steps

/-!
## One layer and the FORS trees
-/

section Windows

variable {H : HashFns} {ctx : SpxCtx} {log : List Query} {layer tree leaf sigPtr : ℕ}
  {sig : Vector UInt8 3680}

theorem shiftRight_lt_two_pow {a m k : ℕ} (h : a < 2 ^ m) (hk : k ≤ m) :
    a >>> k < 2 ^ (m - k) := by
  rw [Nat.shiftRight_eq_div_pow]
  refine Nat.div_lt_of_lt_mul ?_
  rwa [← Nat.pow_add, Nat.add_sub_cancel' hk]

/-- A window that gives the root of the subtree is the window of the key, for the chain
lengths that it was read with. -/
theorem layerSigned_or_secondPreimage {lengths : Vector ℕ 16}
    (hvalid : layer < spxD ∧ tree < 2 ^ 24 ∧ leaf < 2 ^ spxTreeHeight)
    (hlt : ∀ i, lengths.getD i 0 < spxWotsW)
    (hmem : ∀ q, LayerCall H sig ctx.stateSeeded layer tree leaf sigPtr lengths q → q ∈ log)
    (h : recoveredRoot H sig ctx.stateSeeded layer tree leaf sigPtr lengths =
      treeRoot H ctx layer tree) :
    LayerSigned H ctx layer tree leaf lengths sigPtr sig ∨ SecondPreimage H ctx log := by
  by_cases hpre : SecondPreimage H ctx log
  · exact Or.inr hpre
  refine Or.inl ?_
  have htop : leaf >>> spxTreeHeight = 0 := Nat.shiftRight_eq_zero leaf spxTreeHeight hvalid.2.2
  have hroot := h
  rw [treeRoot, ← htop] at hroot
  have hnode (k : ℕ) (hk : k < spxTreeHeight) :
      HonestQuery H ctx (queryAt H ctx (.treeNode layer tree (k + 1) (leaf >>> (k + 1)))) :=
    ⟨.treeNode layer tree (k + 1) (leaf >>> (k + 1)),
      ⟨hvalid.1, hvalid.2.1, Nat.le_add_left 1 k, hk, shiftRight_lt_two_pow hvalid.2.2 hk⟩, rfl⟩
  obtain ⟨hleaf, hpath⟩ := (path_or_secondPreimage (wotsPk H ctx layer tree)
    (fun k hk => hmem _ (.node k hk)) hnode hroot).resolve_right hpre
  have hpk := hmem _ .pk
  rw [hleaf] at hpk
  have hends := (input_eq_or_secondPreimage hpk
    ⟨.wotsPk layer tree leaf, hvalid, rfl⟩ (by simp [chainEnds])).resolve_right hpre
  refine ⟨fun i hi => ?_, hpath⟩
  have hend := List.map_inj_left.mp hends i (List.mem_range.mpr hi)
  exact (wotsValue_or_secondPreimage (hlt i) ⟨hvalid.1, hvalid.2.1, hvalid.2.2, hi⟩
    (fun k hk => hmem _ (.step i k hi hk)) hend).resolve_right hpre

theorem openedIdx_shiftRight_lt {mhash : Block} {t k : ℕ} (ht : t < spxForsSigTrees)
    (hk : k ≤ spxForsHeight) :
    openedIdx mhash t >>> k < spxForsSigTrees * 2 ^ (spxForsHeight - k) := by
  have hidx := messageToIndices_lt mhash t
  have hsplit : 2 ^ k * (spxForsSigTrees * 2 ^ (spxForsHeight - k)) =
      spxForsSigTrees * 2 ^ spxForsHeight := by
    rw [Nat.mul_left_comm, ← Nat.pow_add, Nat.add_sub_cancel' hk]
  have hle : (t + 1) * 2 ^ spxForsHeight ≤ spxForsSigTrees * 2 ^ spxForsHeight :=
    Nat.mul_le_mul_right _ ht
  rw [Nat.succ_mul] at hle
  rw [Nat.shiftRight_eq_div_pow, openedIdx]
  refine Nat.div_lt_of_lt_mul ?_
  rw [hsplit]
  omega

theorem forsNode_eq_node (h j : ℕ) :
    forsNode H ctx tree leaf h j = node (forsLeaf H ctx tree leaf)
      (nodeHash H ctx.stateSeeded 0 tree addrTypeForsTree leaf) h j := rfl

theorem honestQuery_forsLeaf (hvalid : tree < 2 ^ 24 ∧ leaf < 2 ^ spxTreeHeight) {j : ℕ}
    (hj : j < spxForsSigTrees * 2 ^ (spxForsHeight - 0)) :
    HonestQuery H ctx (.thash (adrs (Role.forsNode tree leaf 0 j).addr)
      [forsSk H ctx tree leaf j] (forsLeaf H ctx tree leaf j)) :=
  ⟨.forsNode tree leaf 0 j, ⟨hvalid.1, hvalid.2, Nat.zero_le _, hj⟩, rfl⟩

theorem honestQuery_forsNode (hvalid : tree < 2 ^ 24 ∧ leaf < 2 ^ spxTreeHeight) {h j : ℕ}
    (hh : h < spxForsHeight) (hj : j < spxForsSigTrees * 2 ^ (spxForsHeight - (h + 1))) :
    HonestQuery H ctx (.thash (adrs (addrOf 0 tree addrTypeForsTree leaf (h + 1) j))
      [node (forsLeaf H ctx tree leaf)
          (nodeHash H ctx.stateSeeded 0 tree addrTypeForsTree leaf) h (2 * j),
        node (forsLeaf H ctx tree leaf)
          (nodeHash H ctx.stateSeeded 0 tree addrTypeForsTree leaf) h (2 * j + 1)]
      (node (forsLeaf H ctx tree leaf)
        (nodeHash H ctx.stateSeeded 0 tree addrTypeForsTree leaf) (h + 1) j)) :=
  ⟨.forsNode tree leaf (h + 1) j, ⟨hvalid.1, hvalid.2, hh, hj⟩, rfl⟩

theorem forsSigned_or_secondPreimage {mhash : Block}
    (hvalid : tree < 2 ^ 24 ∧ leaf < 2 ^ spxTreeHeight)
    (hmem : ∀ q, ForsCall H sig ctx.stateSeeded tree leaf sigPtr mhash q → q ∈ log)
    (h : recoveredForsPk H sig ctx.stateSeeded tree leaf sigPtr mhash =
      forsPk H ctx tree leaf) :
    ForsSigned H ctx tree leaf mhash sigPtr sig ∨ SecondPreimage H ctx log := by
  by_cases hpre : SecondPreimage H ctx log
  · exact Or.inr hpre
  refine Or.inl ?_
  have hpk := hmem _ .pk
  rw [h] at hpk
  have hroots := (input_eq_or_secondPreimage hpk ⟨.forsPk tree leaf, hvalid, rfl⟩
    (by simp [recoveredForsRoots])).resolve_right hpre
  intro t ht
  have htop : openedIdx mhash t >>> spxForsHeight = t := by
    rw [openedIdx, shiftRight_add_mul_two_pow _ _ le_rfl, shiftRight_mul_two_pow t le_rfl,
      Nat.shiftRight_eq_zero _ _ (messageToIndices_lt mhash t)]
    simp
  have hroot := List.map_inj_left.mp hroots t (List.mem_range.mpr ht)
  rw [recoveredForsRoot, forsNode_eq_node] at hroot
  obtain ⟨hleaf, hpath⟩ := (path_or_secondPreimage (forsLeaf H ctx tree leaf)
    (fun k hk => hmem _ (.node t k ht hk))
    (fun k hk => honestQuery_forsNode hvalid hk (openedIdx_shiftRight_lt ht hk))
    (by rw [htop]; exact hroot)).resolve_right hpre
  have hsk := hmem _ (.leaf t ht)
  rw [hleaf] at hsk
  have hopened := @openedIdx_shiftRight_lt mhash t 0 ht (Nat.zero_le _)
  rw [Nat.shiftRight_zero] at hopened
  have hinput := (input_eq_or_secondPreimage hsk (honestQuery_forsLeaf hvalid hopened)
    (by simp only [List.length_singleton])).resolve_right hpre
  have hsecret : forsElement sig sigPtr t = forsSk H ctx tree leaf (openedIdx mhash t) :=
    (List.cons.inj hinput).1
  rw [openedIdx] at hsecret
  refine ⟨hsecret, fun k hk => ?_⟩
  have hsibling : (openedIdx mhash t >>> k) ^^^ 1 =
      siblingIdx (messageToIndices mhash t) k + t * 2 ^ (spxForsHeight - k) := by
    rw [openedIdx, shiftRight_add_mul_two_pow _ _ hk.le, shiftRight_mul_two_pow t hk.le,
      xor_one_add_two_pow _ _ hk]
  have hentry := hpath k hk
  rw [hsibling] at hentry
  exact hentry

end Windows

/-!
## A run against a key
-/

section Run

/-- The signer has a counter for the value of layer `l`. -/
def HasCounter (H : HashFns) (ctx : SpxCtx) (tree leaf l : ℕ) : Prop :=
  ∃ c, firstUpTo (CounterHit H (signedValue H ctx tree leaf l)) 0xFFFF = some c

/-- At some layer the run has another value than the signer, with the chain lengths of the
signer's value. -/
def SharedLengths (E : Build) (H : HashFns) (ctx : SpxCtx) (m : List UInt8)
    (pk : Vector UInt8 32) (sig : Vector UInt8 3680) (T : ThreadState) (tree leaf : ℕ) : Prop :=
  ∃ l < spxD, ∃ s, verifyStateAt E H sig m pk T l = .ok s ∧
    s.root ≠ signedValue H ctx tree leaf l ∧ HasCounter H ctx tree leaf l ∧
    (chainLengths E H s.root s.T).val.1 = .ok (signedLengths H ctx tree leaf l)

/-- At some layer an element of the signature is the value of the key at a step of a chain
that no signature of the signer goes back to. -/
def UnpublishedValue (E : Build) (H : HashFns) (ctx : SpxCtx) (m : List UInt8)
    (pk : Vector UInt8 32) (sig : Vector UInt8 3680) (T : ThreadState) (tree leaf : ℕ) : Prop :=
  ∃ l < spxD, ∃ s, verifyStateAt E H sig m pk T l = .ok s ∧
    ∃ i < spxWotsLen, ∃ a < spxWotsW,
      slice sig (s.sig + i * spxN) spxN = wotsValue H ctx l s.tree s.idxLeaf i a ∧
      (HasCounter H ctx tree leaf l → a < (signedLengths H ctx tree leaf l).getD i 0)

variable {E : Build} {H : HashFns} {ctx : SpxCtx} {m : List UInt8} {pk : Vector UInt8 32}
  {sig : Vector UInt8 3680} {T : ThreadState} {l tree leaf : ℕ} {mhash : Block}
  {s u : VerifyLayerState} {lengths : Vector ℕ 16}

theorem chainLengths_signedValue (h : HasCounter H ctx tree leaf l) :
    (chainLengths E H (signedValue H ctx tree leaf l) ThreadState.fresh).val.1 =
      .ok (signedLengths H ctx tree leaf l) := by
  obtain ⟨c, hc⟩ := h
  have hres : searchResult H (signedValue H ctx tree leaf l)
      (wotscBound E ThreadState.fresh) ThreadState.fresh =
        (.ok (signedLengths H ctx tree leaf l), ThreadState.fresh.recordWotscAttempts (c + 1)) := by
    rw [searchResult_eq_ok_iff]
    refine ⟨c, hc, ?_, rfl⟩
    rw [signedLengths, hc]
  rw [chainLengths_val, hres]

theorem exists_getD_lt {E' : Build} {msg msg' : Block} {T' : ThreadState}
    {lengths' : Vector ℕ 16} (h : (chainLengths E H msg T).val.1 = .ok lengths)
    (h' : (chainLengths E' H msg' T').val.1 = .ok lengths') (hne : lengths ≠ lengths') :
    ∃ i < spxWotsLen, lengths.getD i 0 < lengths'.getD i 0 := by
  have hsum : ∑ i : Fin 16, lengths[i] = ∑ i : Fin 16, lengths'[i] :=
    (sum_chainLengths h).trans (sum_chainLengths h').symm
  rcases eq_or_incomparable_of_sum_eq hsum with hsame | ⟨i, _, hlt, _⟩
  · refine absurd ?_ hne
    ext i hi
    exact congrFun hsame ⟨i, hi⟩
  · exact ⟨i.val, i.isLt, by simpa [Vector.getD] using hlt⟩

/-- What a signature exhibits that the signer has not made. -/
def Forged (E : Build) (H : HashFns) (ctx : SpxCtx) (m : List UInt8) (pk : Vector UInt8 32)
    (sig : Vector UInt8 3680) (T : ThreadState) (tree leaf : ℕ) : Prop :=
  SecondPreimage H ctx (verifyLog E H m pk sig T) ∨
    SharedLengths E H ctx m pk sig T tree leaf ∨ UnpublishedValue E H ctx m pk sig T tree leaf

/-- A window of the key for another value than the one that the signer signs there. -/
theorem forged_of_layerSigned (hl : l < spxD)
    (hdigest : verifyDigest H sig m pk = (mhash, tree, leaf))
    (hp : LayerPassed E H sig m pk T l s u lengths)
    (hsigned : LayerSigned H ctx l (layerPos tree leaf l).1 (layerPos tree leaf l).2 lengths
      (layerOffset l) sig)
    (hne : s.root ≠ signedValue H ctx tree leaf l) : Forged E H ctx m pk sig T tree leaf := by
  have hpos := hp.state.pos
  rw [hdigest] at hpos
  obtain ⟨htree, hleaf⟩ := Prod.mk.inj hpos
  have hchain (i : ℕ) (hi : i < spxWotsLen) : slice sig (s.sig + i * spxN) spxN =
      wotsValue H ctx l s.tree s.idxLeaf i (lengths.getD i 0) := by
    rw [hp.state.sig, htree, hleaf]
    exact hsigned.chains i hi
  by_cases hcounter : HasCounter H ctx tree leaf l
  · by_cases hlengths : lengths = signedLengths H ctx tree leaf l
    · refine Or.inr (Or.inl ⟨l, hl, s, hp.before, hne, hcounter, ?_⟩)
      rw [← hlengths]
      exact hp.chainLengths_eq
    · have hsigner : (chainLengths E H _ _).val.1 = _ := chainLengths_signedValue hcounter
      obtain ⟨i, hi, hlt⟩ := exists_getD_lt hp.chainLengths_eq hsigner hlengths
      exact Or.inr (Or.inr ⟨l, hl, s, hp.before, i, hi, _, hp.lengths_lt i, hchain i hi,
        fun _ => hlt⟩)
  · have hzero : 0 < spxWotsLen := by decide
    exact Or.inr (Or.inr ⟨l, hl, s, hp.before, 0, hzero, _, hp.lengths_lt 0, hchain 0 hzero,
      fun h => absurd h hcounter⟩)

theorem layerOk_or_forged (hl : l < spxD)
    (hctx : ctx.stateSeeded = (pkCtx E H pk).stateSeeded)
    (hidx : forscCompressedIndex (verifyDigest H sig m pk).1 = 0)
    (hdigest : verifyDigest H sig m pk = (mhash, tree, leaf))
    (hp : LayerPassed E H sig m pk T l s u lengths)
    (h : u.root = signedValue H ctx tree leaf (l + 1)) :
    (s.root = signedValue H ctx tree leaf l ∧ LayerOk H ctx tree leaf sig l) ∨
      Forged E H ctx m pk sig T tree leaf := by
  have hpos := verifyDigest_pos H sig m pk
  have hmem (q : Query) (hq : RunLayerCall E H sig m pk l lengths q) :
      q ∈ verifyLog E H m pk sig T := hp.mem_log hl hidx hq
  have hroot := hp.root.symm.trans h
  rw [RunLayerCall, hdigest, LayerCallAt, ← hctx] at hmem
  rw [runRoot, hdigest, layerRoot, ← hctx, signedValue] at hroot
  rw [hdigest] at hpos
  rcases layerSigned_or_secondPreimage
    ⟨hl, layerPos_fst_lt leaf hpos.1 l, layerPos_snd_lt tree hpos.2 l⟩ hp.lengths_lt hmem hroot
    with hsigned | hpre
  · by_cases hvalue : s.root = signedValue H ctx tree leaf l
    · have hsearch := hp.search
      rw [hvalue] at hsearch
      have hlengths := searchResult_signed (wotscBound_le E s.T) hsearch
      rw [hlengths] at hsigned
      exact Or.inl ⟨hvalue, hsigned⟩
    · exact Or.inr (forged_of_layerSigned hl hdigest hp hsigned hvalue)
  · exact Or.inr (Or.inl hpre)

/-- Below a value of the signer there are the layers of the signer, down to the FORS public
key. -/
theorem layersOk_or_forged (hl : l ≤ spxD)
    (hctx : ctx.stateSeeded = (pkCtx E H pk).stateSeeded)
    (hidx : forscCompressedIndex (verifyDigest H sig m pk).1 = 0)
    (hdigest : verifyDigest H sig m pk = (mhash, tree, leaf))
    (hat : verifyStateAt E H sig m pk T l = .ok u)
    (h : u.root = signedValue H ctx tree leaf l) :
    (runForsPk E H sig m pk = forsPk H ctx tree leaf ∧
        ∀ l' < l, LayerOk H ctx tree leaf sig l') ∨ Forged E H ctx m pk sig T tree leaf := by
  induction l generalizing u with
  | zero =>
      obtain ⟨t, ht, _, hroot, _⟩ := verifyStateAt_zero E H sig m pk T
      rw [hat] at ht
      cases ht
      exact Or.inl ⟨hroot.symm.trans h, fun l' hl' => absurd hl' (Nat.not_lt_zero l')⟩
  | succ l ih =>
      obtain ⟨s, lengths, hp⟩ := layerPassed_of_succ_eq_ok hat
      rcases layerOk_or_forged hl hctx hidx hdigest hp h with ⟨hvalue, hlayer⟩ | hforged
      · rcases ih (Nat.le_of_succ_le hl) hp.before hvalue with ⟨hpk, hbelow⟩ | hforged
        · refine Or.inl ⟨hpk, fun l' hl' => ?_⟩
          rcases Nat.lt_succ_iff_lt_or_eq.mp hl' with hlt | rfl
          · exact hbelow l' hlt
          · exact hlayer
        · exact Or.inr hforged
      · exact Or.inr hforged

end Run

section Key

variable {E : Build} {H : HashFns} {sk : Vector UInt8 64} {sig : Vector UInt8 3680}
  {m : List UInt8} {T : ThreadState}

theorem signedSig_or_forged (hkey : skRoot H sk = slice sk (3 * spxN) spxN)
    (h : (cryptoSignVerify E H sig spxBytes m (slice sk 32 32) T).val.1 = 0) :
    SignedSig H (skCtx H sk) (verifyDigest H sig m (slice sk 32 32)).2.1
        (verifyDigest H sig m (slice sk 32 32)).2.2 (slice sig 0 spxN)
        (verifyDigest H sig m (slice sk 32 32)).1 sig ∨
      Forged E H (skCtx H sk) m (slice sk 32 32) sig T
        (verifyDigest H sig m (slice sk 32 32)).2.1
        (verifyDigest H sig m (slice sk 32 32)).2.2 := by
  obtain ⟨hidx, u, hat, hroot⟩ := (cryptoSignVerify_eq_zero_iff E H sig m _ T).mp h
  have hctx : (skCtx H sk).stateSeeded = (pkCtx E H (slice sk 32 32)).stateSeeded :=
    (pkCtx_stateSeeded E H sk).symm
  have hpos := verifyDigest_pos H sig m (slice sk 32 32)
  have htop : u.root = signedValue H (skCtx H sk) (verifyDigest H sig m (slice sk 32 32)).2.1
      (verifyDigest H sig m (slice sk 32 32)).2.2 spxD := by
    rw [hroot, slice_slice sk 32 32 spxN spxN (by decide) (by decide)]
    refine hkey.symm.trans ?_
    rw [skRoot, ← layerPos_fst_top (verifyDigest H sig m (slice sk 32 32)).2.2 hpos.1]
    rfl
  rcases layersOk_or_forged le_rfl hctx hidx rfl hat htop with ⟨hpk, hlayers⟩ | hforged
  · have hmem (q : Query) (hq : RunForsCall E H sig m (slice sk 32 32) q) :
        q ∈ verifyLog E H m (slice sk 32 32) sig T := mem_log_of_forsCall hidx hq
    rw [RunForsCall, ← hctx] at hmem
    rw [runForsPk, ← hctx] at hpk
    rcases forsSigned_or_secondPreimage hpos hmem hpk with hfors | hpre
    · exact Or.inl ⟨rfl, hfors, hlayers⟩
    · exact Or.inr (Or.inl hpre)
  · exact Or.inr hforged

end Key

/-- A signature that is accepted under the public key of a secret key is the one that the
signer makes for its digest, byte for byte: it opens the FORS secrets that the digest selects
and it signs what the signer signs. Otherwise the run calls a tweakable hash on a second
preimage of a value of the key, or it signs another value with the chain lengths of the
signer's value, or the signature contains a chain value that the signer never publishes. -/
theorem accepted_signature_is_signed_or_forged (E : Build) (H : HashFns)
    (sk : Vector UInt8 64) (sig : Vector UInt8 3680) (m : List UInt8) (T₀ T : ThreadState)
    (hkey : (slhDsaSecretKeyValidate E H (some sk.toList) slhDsaSecretKeySize T₀).val.1 = 0)
    (h : (cryptoSignVerify E H sig 3680 m (slice sk 32 32) T).val.1 = 0) :
    let digest := verifyDigest H sig m (slice sk 32 32)
    SignedSig H (skCtx H sk) digest.2.1 digest.2.2 (slice sig 0 16) digest.1 sig ∨
      SecondPreimage H (skCtx H sk) (verifyLog E H m (slice sk 32 32) sig T) ∨
      SharedLengths E H (skCtx H sk) m (slice sk 32 32) sig T digest.2.1 digest.2.2 ∨
      UnpublishedValue E H (skCtx H sk) m (slice sk 32 32) sig T digest.2.1 digest.2.2 :=
  signedSig_or_forged ((slhDsaSecretKeyValidate_eq_zero_iff E H sk T₀).mp hkey) h

/-- The hypotheses hold of the key of zeros and the hash functions that ignore their
input. -/
theorem accepted_signature_is_signed_or_forged_constantHash :
    let sk : Vector UInt8 64 := Vector.replicate 64 0
    let sig : Vector UInt8 3680 := Vector.replicate 3680 0
    let digest := verifyDigest constantHash sig [1] (slice sk 32 32)
    SignedSig constantHash (skCtx constantHash sk) digest.2.1 digest.2.2 (slice sig 0 16)
        digest.1 sig ∨
      SecondPreimage constantHash (skCtx constantHash sk)
        (verifyLog smallestCaps constantHash [1] (slice sk 32 32) sig ThreadState.fresh) ∨
      SharedLengths smallestCaps constantHash (skCtx constantHash sk) [1] (slice sk 32 32) sig
        ThreadState.fresh digest.2.1 digest.2.2 ∨
      UnpublishedValue smallestCaps constantHash (skCtx constantHash sk) [1] (slice sk 32 32)
        sig ThreadState.fresh digest.2.1 digest.2.2 :=
  accepted_signature_is_signed_or_forged smallestCaps constantHash _ _ [1] ThreadState.fresh
    ThreadState.fresh
    (by rw [slhDsaSecretKeyValidate_eq_zero_iff, skRoot_constantHash]; decide)
    (cryptoSignVerify_constantHash smallestCaps _ [1] ThreadState.fresh (by decide))

/-!
## A forgery after some signatures
-/

/-- A call of `crypto_sign_signature`: its build, its output buffer, its message and its
thread. -/
structure SigningCall where
  build : Build
  buffer : Vector UInt8 3680
  message : List UInt8
  thread : ThreadState

namespace SigningCall

/-- The run of the call with a key. -/
def run (r : SigningCall) (H : HashFns) (sk : Vector UInt8 64) : Traced Query SignResult :=
  cryptoSignSignature r.build H r.buffer r.message sk r.thread

/-- The signature that the call returns. -/
def signature (r : SigningCall) (H : HashFns) (sk : Vector UInt8 64) : Vector UInt8 3680 :=
  (r.run H sk).val.sig

/-- The digest of its message under its salt, with its position. -/
def digest (r : SigningCall) (H : HashFns) (sk : Vector UInt8 64) : Block × ℕ × ℕ :=
  verifyDigest H (r.signature H sk) r.message (slice sk 32 32)

end SigningCall

section Transcript

variable {H : HashFns} {sk : Vector UInt8 64} {r : SigningCall}

theorem SigningCall.digest_eq (h : (r.run H sk).val.code = 0) :
    r.digest H sk = ((signGrind r.build H r.message sk r.thread).mhash,
      (signGrind r.build H r.message sk r.thread).tree,
      (signGrind r.build H r.message sk r.thread).idxLeaf) := by
  have hsigned := signed_of_eq_zero h
  rw [digest, verifyDigest, signature, run, hsigned.sig.salt]
  exact (signGrind_of_eq_zero hsigned.grind).1

theorem SigningCall.layerOk (h : (r.run H sk).val.code = 0) {l : ℕ} (hl : l < spxD) :
    LayerOk H (skCtx H sk) (r.digest H sk).2.1 (r.digest H sk).2.2 (r.signature H sk) l := by
  rw [r.digest_eq h]
  exact (signed_of_eq_zero h).sig.layers l hl

theorem SigningCall.hasCounter (h : (r.run H sk).val.code = 0) {l : ℕ} (hl : l < spxD) :
    HasCounter H (skCtx H sk) (r.digest H sk).2.1 (r.digest H sk).2.2 l := by
  obtain ⟨c, hc⟩ := (exists_layersThread_ok_iff spxD).mp ⟨_, (signed_of_eq_zero h).layers⟩ l hl
  rw [r.digest_eq h]
  exact ⟨c, firstUpTo_mono _ (wotscBound_le _ _) hc⟩

theorem signedLengths_eq_of_layerPos_eq {ctx : SpxCtx} {tree leaf tree' leaf' l : ℕ}
    (h : layerPos tree leaf l = layerPos tree' leaf' l) :
    signedLengths H ctx tree leaf l = signedLengths H ctx tree' leaf' l := by
  rw [signedLengths, signedLengths, signedValue_eq_of_layerPos_eq H ctx h]

theorem hasCounter_of_layerPos_eq {ctx : SpxCtx} {tree leaf tree' leaf' l : ℕ}
    (h : layerPos tree leaf l = layerPos tree' leaf' l) (hcounter : HasCounter H ctx tree leaf l) :
    HasCounter H ctx tree' leaf' l := by
  rwa [HasCounter, ← signedValue_eq_of_layerPos_eq H ctx h]

/-- Every FORS leaf that the digest selects was opened by a call at the same position. -/
def Covered (H : HashFns) (sk : Vector UInt8 64) (calls : List SigningCall)
    (digest : Block × ℕ × ℕ) : Prop :=
  ∀ t < spxForsSigTrees, ∃ r ∈ calls, (r.digest H sk).2 = digest.2 ∧
    messageToIndices (r.digest H sk).1 t = messageToIndices digest.1 t

/-- The signature contains a FORS secret that no call has published. -/
def NewForsSecret (H : HashFns) (sk : Vector UInt8 64) (calls : List SigningCall)
    (digest : Block × ℕ × ℕ) (sig : Vector UInt8 3680) : Prop :=
  ∃ t < spxForsSigTrees,
    slice sig (spxN + t * treeBytes) spxN =
      forsSk H (skCtx H sk) digest.2.1 digest.2.2 (openedIdx digest.1 t) ∧
    ∀ r ∈ calls, (r.digest H sk).2 = digest.2 →
      messageToIndices (r.digest H sk).1 t ≠ messageToIndices digest.1 t

/-- The signature contains a value of a chain of the key before the values of that chain that
the calls have published. -/
def NewChainValue (E : Build) (H : HashFns) (sk : Vector UInt8 64) (calls : List SigningCall)
    (m : List UInt8) (sig : Vector UInt8 3680) (T : ThreadState) : Prop :=
  ∃ l < spxD, ∃ s, verifyStateAt E H sig m (slice sk 32 32) T l = .ok s ∧
    ∃ i < spxWotsLen, ∃ a < spxWotsW,
      slice sig (s.sig + i * spxN) spxN = wotsValue H (skCtx H sk) l s.tree s.idxLeaf i a ∧
      ∀ r ∈ calls,
        layerPos (r.digest H sk).2.1 (r.digest H sk).2.2 l = (s.tree, s.idxLeaf) →
          ∃ b < spxWotsW, a < b ∧ slice (r.signature H sk) (layerOffset l + i * spxN) spxN =
            wotsValue H (skCtx H sk) l s.tree s.idxLeaf i b

/-- A value that the signer never publishes lies before what the calls have published. -/
theorem UnpublishedValue.newChainValue {E : Build} {calls : List SigningCall}
    {m : List UInt8} {sig : Vector UInt8 3680} {T : ThreadState}
    (hcalls : ∀ r ∈ calls, (r.run H sk).val.code = 0)
    (h : UnpublishedValue E H (skCtx H sk) m (slice sk 32 32) sig T
      (verifyDigest H sig m (slice sk 32 32)).2.1 (verifyDigest H sig m (slice sk 32 32)).2.2) :
    NewChainValue E H sk calls m sig T := by
  obtain ⟨l, hl, s, hat, i, hi, a, ha, helement, hlt⟩ := h
  refine ⟨l, hl, s, hat, i, hi, a, ha, helement, ?_⟩
  intro r hr hpos
  have hsame : layerPos (r.digest H sk).2.1 (r.digest H sk).2.2 l =
      layerPos (verifyDigest H sig m (slice sk 32 32)).2.1
        (verifyDigest H sig m (slice sk 32 32)).2.2 l :=
    hpos.trans (runStateOk_of_eq_ok hat).pos
  have hcounter := hasCounter_of_layerPos_eq hsame (r.hasCounter (hcalls r hr) hl)
  have hlayer := (r.layerOk (hcalls r hr) hl).chains i hi
  rw [hpos, signedLengths_eq_of_layerPos_eq hsame] at hlayer
  exact ⟨_, signedLengths_lt H (skCtx H sk) _ _ l i, hlt hcounter, hlayer⟩

end Transcript

/-- What a forgery needs. After any calls of `crypto_sign_signature` that have succeeded with a
key, an accepted signature has a digest all of whose FORS leaves were opened by these calls,
or it contains a secret of the key that they have not published: a FORS secret, or a chain
value before the published ones. Otherwise its verification shows a second preimage or a value
with the chain lengths of another one. -/
theorem forgery_after_signatures (E : Build) (H : HashFns) (sk : Vector UInt8 64)
    (calls : List SigningCall) (sig : Vector UInt8 3680) (m : List UInt8) (T₀ T : ThreadState)
    (hkey : (slhDsaSecretKeyValidate E H (some sk.toList) slhDsaSecretKeySize T₀).val.1 = 0)
    (hcalls : ∀ r ∈ calls, (r.run H sk).val.code = 0)
    (h : (cryptoSignVerify E H sig 3680 m (slice sk 32 32) T).val.1 = 0) :
    let digest := verifyDigest H sig m (slice sk 32 32)
    Covered H sk calls digest ∨ NewForsSecret H sk calls digest sig ∨
      NewChainValue E H sk calls m sig T ∨
      SharedLengths E H (skCtx H sk) m (slice sk 32 32) sig T digest.2.1 digest.2.2 ∨
      SecondPreimage H (skCtx H sk) (verifyLog E H m (slice sk 32 32) sig T) := by
  intro digest
  have hroot := (slhDsaSecretKeyValidate_eq_zero_iff E H sk T₀).mp hkey
  rcases signedSig_or_forged hroot h with hsigned | hpre | hshared | hvalue
  · by_cases hcovered : Covered H sk calls digest
    · exact Or.inl hcovered
    · simp only [Covered, not_forall, not_exists, not_and, exists_prop] at hcovered
      obtain ⟨t, ht, hnew⟩ := hcovered
      exact Or.inr (Or.inl ⟨t, ht, (hsigned.fors t ht).sk, hnew⟩)
  · exact Or.inr (Or.inr (Or.inr (Or.inr hpre)))
  · exact Or.inr (Or.inr (Or.inr (Or.inl hshared)))
  · exact Or.inr (Or.inr (Or.inl (hvalue.newChainValue hcalls)))

theorem SigningCall.run_constantHash {r : SigningCall} (h : r.thread = sourceThread)
    (sk : Vector UInt8 64) : (r.run constantHash sk).val.code = 0 := by
  rw [SigningCall.run, h]
  exact cryptoSignSignature_constantHash _ _ _ _

theorem forgery_after_signatures_constantHash :
    let sk : Vector UInt8 64 := Vector.replicate 64 0
    let calls : List SigningCall := [⟨smallestCaps, Vector.replicate 3680 0, [2], sourceThread⟩]
    let sig : Vector UInt8 3680 := Vector.replicate 3680 0
    let digest := verifyDigest constantHash sig [1] (slice sk 32 32)
    Covered constantHash sk calls digest ∨ NewForsSecret constantHash sk calls digest sig ∨
      NewChainValue smallestCaps constantHash sk calls [1] sig ThreadState.fresh ∨
      SharedLengths smallestCaps constantHash (skCtx constantHash sk) [1] (slice sk 32 32) sig
        ThreadState.fresh digest.2.1 digest.2.2 ∨
      SecondPreimage constantHash (skCtx constantHash sk)
        (verifyLog smallestCaps constantHash [1] (slice sk 32 32) sig ThreadState.fresh) := by
  refine forgery_after_signatures smallestCaps constantHash _ _ _ [1] ThreadState.fresh
    ThreadState.fresh ?_ ?_ ?_
  · rw [slhDsaSecretKeyValidate_eq_zero_iff, skRoot_constantHash]
    decide
  · intro r hr
    exact SigningCall.run_constantHash (congrArg SigningCall.thread (List.mem_singleton.mp hr)) _
  · exact cryptoSignVerify_constantHash _ _ _ _ (by decide)

end BitcoinPqc
