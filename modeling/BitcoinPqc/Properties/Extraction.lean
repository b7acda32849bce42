import BitcoinPqc.Correctness.Layout
import BitcoinPqc.Properties.SignVerify

/-!
# What two accepted signatures of one message give away

Two accepting runs with the same salt end in the same root. From the top layer down,
equal outputs of a hash either come from equal inputs or are a collision that the two
runs exhibit. Where the values that a layer signs differ, either their chain lengths
are the same or one chain is opened at an earlier step in one of the signatures. When
nothing of this happens all pieces of the two signatures are equal.
-/

namespace BitcoinPqc

open Merkle

/-!
## Collisions between two logs
-/

/-- Two calls of `thash`, one in each log, with the same address, the same number of
blocks and the same output, on different inputs. -/
def Collision (log log' : List Query) : Prop :=
  ∃ addr input input' out, .thash addr input out ∈ log ∧ .thash addr input' out ∈ log' ∧
    input.length = input'.length ∧ input ≠ input'

theorem Collision.symm {log log' : List Query} (h : Collision log log') :
    Collision log' log := by
  obtain ⟨addr, input, input', out, hmem, hmem', hlen, hne⟩ := h
  exact ⟨addr, input', input, out, hmem', hmem, hlen.symm, hne.symm⟩

section Steps

variable {H : HashFns} {log log' : List Query} {st : Vector UInt8 40}
  {layer tree leaf i : ℕ}

theorem input_eq_or_collision {addr : AddrBytes} {input input' : List Block} {out : Block}
    (hmem : .thash addr input out ∈ log) (hmem' : .thash addr input' out ∈ log')
    (hlen : input.length = input'.length) : input = input' ∨ Collision log log' := by
  by_cases heq : input = input'
  · exact Or.inl heq
  · exact Or.inr ⟨addr, input, input', out, hmem, hmem', hlen, heq⟩

theorem path_eq_or_collision {type keypair g n : ℕ} {path path' : ℕ → Block} {x y : Block}
    (hmem : ∀ k < n, climbQuery H st layer tree type keypair g path x k ∈ log)
    (hmem' : ∀ k < n, climbQuery H st layer tree type keypair g path' y k ∈ log')
    (h : climb (nodeHash H st layer tree type keypair) g path n x =
      climb (nodeHash H st layer tree type keypair) g path' n y) :
    (x = y ∧ ∀ k < n, path k = path' k) ∨ Collision log log' := by
  rcases eq_or_collision_of_climb_eq _ g path path' n x y h with heq | ⟨k, hk, hne, hout⟩
  · exact Or.inl heq
  · have hcall := hmem' k hk
    rw [climbQuery, ← hout] at hcall
    refine Or.inr ⟨_, _, _, _, hmem k hk, hcall, rfl, ?_⟩
    intro hsame
    obtain ⟨hleft, hrest⟩ := List.cons.inj hsame
    exact hne (Prod.ext hleft (List.cons.inj hrest).1)

/-- Two chains to one end, opened at steps `a' ≤ a`, collide or lie on each other. -/
theorem chain_eq_or_collision {a a' : ℕ} {x x' : Block} (ha : a' ≤ a)
    (hlt : a < spxWotsW)
    (hmem : ∀ k < spxWotsW - 1 - a, wotsStepQuery H st layer tree leaf i a x k ∈ log)
    (hmem' : ∀ k < spxWotsW - 1 - a', wotsStepQuery H st layer tree leaf i a' x' k ∈ log')
    (h : chain (wotsStep H st layer tree leaf i) a (spxWotsW - 1 - a) x =
      chain (wotsStep H st layer tree leaf i) a' (spxWotsW - 1 - a') x') :
    chain (wotsStep H st layer tree leaf i) a' (a - a') x' = x ∨ Collision log log' := by
  have hchain (k : ℕ) : chain (wotsStep H st layer tree leaf i) a' (a - a' + k) x' =
      chain (wotsStep H st layer tree leaf i) a k
        (chain (wotsStep H st layer tree leaf i) a' (a - a') x') := by
    rw [chain_add, Nat.add_sub_cancel' ha]
  have hend : spxWotsW - 1 - a' = a - a' + (spxWotsW - 1 - a) := by omega
  rw [hend, hchain] at h
  rcases eq_or_collision_of_chain_eq _ a _ _ _ h with heq | ⟨k, hk, hne, hout⟩
  · exact Or.inl heq.symm
  · have hstep := hmem' (a - a' + k) (by omega)
    rw [wotsStepQuery, hchain, Nat.add_assoc (a - a') k 1, hchain, ← hout,
      show a' + (a - a' + k) = a + k by omega] at hstep
    refine Or.inr ⟨_, _, _, _, hmem k hk, hstep, rfl, ?_⟩
    intro hsame
    exact hne (List.cons.inj hsame).1

end Steps

/-!
## One layer
-/

section Layer

variable {H : HashFns} {log log' : List Query} {st : Vector UInt8 40}
  {layer tree leaf sigPtr : ℕ} {sig sig' : Vector UInt8 3680} {lengths lengths' : Vector ℕ 16}

theorem chainEnd_eq_or_collision
    (hmem : ∀ q, LayerCall H sig st layer tree leaf sigPtr lengths q → q ∈ log)
    (hmem' : ∀ q, LayerCall H sig' st layer tree leaf sigPtr lengths' q → q ∈ log')
    (h : recoveredRoot H sig st layer tree leaf sigPtr lengths =
      recoveredRoot H sig' st layer tree leaf sigPtr lengths') :
    ((∀ i < spxWotsLen, chainEnd H sig st layer tree leaf sigPtr lengths i =
        chainEnd H sig' st layer tree leaf sigPtr lengths' i) ∧
      ∀ k < spxTreeHeight, slice sig (sigPtr + spxWotsBytes + k * spxN) spxN =
        slice sig' (sigPtr + spxWotsBytes + k * spxN) spxN) ∨ Collision log log' := by
  rcases path_eq_or_collision (fun k hk => hmem _ (.node k hk))
    (fun k hk => hmem' _ (.node k hk)) h with ⟨hleaf, hpath⟩ | hcoll
  · have hpk := hmem' _ .pk
    rw [← hleaf] at hpk
    rcases input_eq_or_collision (hmem _ .pk) hpk (by simp [chainEnds]) with hends | hcoll
    · refine Or.inl ⟨fun i hi => ?_, hpath⟩
      exact List.map_inj_left.mp hends i (List.mem_range.mpr hi)
    · exact Or.inr hcoll
  · exact Or.inr hcoll

theorem element_eq_or_collision {i : ℕ} (hi : i < spxWotsLen)
    (hlt : ∀ i, lengths.getD i 0 < spxWotsW)
    (hmem : ∀ q, LayerCall H sig st layer tree leaf sigPtr lengths q → q ∈ log)
    (hmem' : ∀ q, LayerCall H sig' st layer tree leaf sigPtr lengths' q → q ∈ log')
    (hle : lengths'.getD i 0 ≤ lengths.getD i 0)
    (h : chainEnd H sig st layer tree leaf sigPtr lengths i =
      chainEnd H sig' st layer tree leaf sigPtr lengths' i) :
    chain (wotsStep H st layer tree leaf i) (lengths'.getD i 0)
        (lengths.getD i 0 - lengths'.getD i 0) (wotsElement sig' sigPtr i) =
      wotsElement sig sigPtr i ∨ Collision log log' :=
  chain_eq_or_collision hle (hlt i) (fun k hk => hmem _ (.step i k hi hk))
    (fun k hk => hmem' _ (.step i k hi hk)) h

end Layer

/-!
## The FORS trees
-/

section Fors

variable {H : HashFns} {log log' : List Query} {st : Vector UInt8 40} {tree leaf : ℕ}
  {sig sig' : Vector UInt8 3680} {mhash : Block}

theorem sameTree_or_collision
    (hmem : ∀ q, ForsCall H sig st tree leaf spxN mhash q → q ∈ log)
    (hmem' : ∀ q, ForsCall H sig' st tree leaf spxN mhash q → q ∈ log')
    (h : recoveredForsPk H sig st tree leaf spxN mhash =
      recoveredForsPk H sig' st tree leaf spxN mhash) :
    (∀ t < spxForsSigTrees, SameTree sig sig' t) ∨ Collision log log' := by
  by_cases hcoll : Collision log log'
  · exact Or.inr hcoll
  · refine Or.inl ?_
    have hpk := hmem' _ .pk
    rw [← h] at hpk
    have hroots := (input_eq_or_collision (hmem _ .pk) hpk
      (by simp [recoveredForsRoots])).resolve_right hcoll
    intro t ht
    have hroot := List.map_inj_left.mp hroots t (List.mem_range.mpr ht)
    obtain ⟨hleaf, hpath⟩ := (path_eq_or_collision (fun k hk => hmem _ (.node t k ht hk))
      (fun k hk => hmem' _ (.node t k ht hk)) hroot).resolve_right hcoll
    have hsk := hmem' _ (.leaf t ht)
    rw [← hleaf] at hsk
    have hinput := (input_eq_or_collision (hmem _ (.leaf t ht)) hsk
      (by simp only [List.length_singleton])).resolve_right hcoll
    exact ⟨(List.cons.inj hinput).1, hpath⟩

end Fors

/-!
## Two accepting runs
-/

section Runs

/-- The calls of a verification run. -/
abbrev verifyLog (E : Build) (H : HashFns) (m : List UInt8) (pk : Vector UInt8 32)
    (sig : Vector UInt8 3680) (T : ThreadState) : List Query :=
  (cryptoSignVerify E H sig spxBytes m pk T).log

/-- At some layer the runs sign different values for which `chain_lengths` yields the
same lengths. -/
def SameLengths (E : Build) (H : HashFns) (m : List UInt8) (pk : Vector UInt8 32)
    (sig sig' : Vector UInt8 3680) (T T' : ThreadState) : Prop :=
  ∃ l < spxD, ∃ s s' lengths,
    verifyStateAt E H sig m pk T l = .ok s ∧ verifyStateAt E H sig' m pk T' l = .ok s' ∧
    s.root ≠ s'.root ∧ (chainLengths E H s.root s.T).val.1 = .ok lengths ∧
    (chainLengths E H s'.root s'.T).val.1 = .ok lengths

/-- At some layer some chain is opened at an earlier step in `sig'`, and the element of
`sig` is computed from that of `sig'`. -/
def EarlierValue (E : Build) (H : HashFns) (m : List UInt8) (pk : Vector UInt8 32)
    (sig sig' : Vector UInt8 3680) (T T' : ThreadState) : Prop :=
  ∃ l < spxD, ∃ i < spxWotsLen, ∃ s s' lengths lengths',
    verifyStateAt E H sig m pk T l = .ok s ∧ verifyStateAt E H sig' m pk T' l = .ok s' ∧
    (chainLengths E H s.root s.T).val.1 = .ok lengths ∧
    (chainLengths E H s'.root s'.T).val.1 = .ok lengths' ∧
    lengths'.getD i 0 < lengths.getD i 0 ∧
    (genChain H (slice sig' (s'.sig + i * spxN) spxN) (lengths'.getD i 0)
      (lengths.getD i 0 - lengths'.getD i 0) (pkCtx E H pk)
      (addrOf l s'.tree addrTypeWots s'.idxLeaf i 0)).val.1 =
        slice sig (s.sig + i * spxN) spxN

/-- What two runs exhibit when the signatures differ. -/
def Extracted (E : Build) (H : HashFns) (m : List UInt8) (pk : Vector UInt8 32)
    (sig sig' : Vector UInt8 3680) (T T' : ThreadState) : Prop :=
  Collision (verifyLog E H m pk sig T) (verifyLog E H m pk sig' T') ∨
    SameLengths E H m pk sig sig' T T' ∨ EarlierValue E H m pk sig sig' T T' ∨
    EarlierValue E H m pk sig' sig T' T

variable {E : Build} {H : HashFns} {m : List UInt8} {pk : Vector UInt8 32}
  {sig sig' : Vector UInt8 3680} {T T' : ThreadState} {l : ℕ} {s u s' u' : VerifyLayerState}
  {lengths lengths' : Vector ℕ 16}

theorem LayerPassed.chainLengths_eq (h : LayerPassed E H sig m pk T l s u lengths) :
    (chainLengths E H s.root s.T).val.1 = .ok lengths := by
  rw [chainLengths_val, h.search]

theorem LayerPassed.lengths_lt (h : LayerPassed E H sig m pk T l s u lengths) (i : ℕ) :
    lengths.getD i 0 < spxWotsW :=
  searchResult_lt (congrArg Prod.fst h.search) i

theorem earlierValue_or_collision (hl : l < spxD)
    (hp : LayerPassed E H sig m pk T l s u lengths)
    (hp' : LayerPassed E H sig' m pk T' l s' u' lengths')
    (hidx : forscCompressedIndex (verifyDigest H sig m pk).1 = 0)
    (hdigest : verifyDigest H sig' m pk = verifyDigest H sig m pk) {i : ℕ}
    (hi : i < spxWotsLen) (hlt : lengths'.getD i 0 < lengths.getD i 0)
    (h : chainEnd H sig (pkCtx E H pk).stateSeeded l
        (layerPos (verifyDigest H sig m pk).2.1 (verifyDigest H sig m pk).2.2 l).1
        (layerPos (verifyDigest H sig m pk).2.1 (verifyDigest H sig m pk).2.2 l).2
        (layerOffset l) lengths i =
      chainEnd H sig' (pkCtx E H pk).stateSeeded l
        (layerPos (verifyDigest H sig m pk).2.1 (verifyDigest H sig m pk).2.2 l).1
        (layerPos (verifyDigest H sig m pk).2.1 (verifyDigest H sig m pk).2.2 l).2
        (layerOffset l) lengths' i) :
    EarlierValue E H m pk sig sig' T T' ∨
      Collision (verifyLog E H m pk sig T) (verifyLog E H m pk sig' T') := by
  have hidx' : forscCompressedIndex (verifyDigest H sig' m pk).1 = 0 := by rw [hdigest, hidx]
  have hcall (q : Query) : LayerCall H sig' (pkCtx E H pk).stateSeeded l
      (layerPos (verifyDigest H sig m pk).2.1 (verifyDigest H sig m pk).2.2 l).1
      (layerPos (verifyDigest H sig m pk).2.1 (verifyDigest H sig m pk).2.2 l).2
      (layerOffset l) lengths' q → RunLayerCall E H sig' m pk l lengths' q := by
    rw [RunLayerCall, hdigest]
    exact id
  rcases element_eq_or_collision hi hp.lengths_lt (fun q hq => hp.mem_log hl hidx hq)
    (fun q hq => hp'.mem_log hl hidx' (hcall q hq)) hlt.le h with heq | hcoll
  · refine Or.inl ⟨l, hl, i, hi, s, s', lengths, lengths', hp.before, hp'.before,
      hp.chainLengths_eq, hp'.chainLengths_eq, hlt, ?_⟩
    have hpos' := hp'.state.pos
    rw [hdigest] at hpos'
    obtain ⟨htree, hleaf⟩ := Prod.mk.inj hpos'
    have hw := hp.lengths_lt i
    obtain ⟨_, _, hchain⟩ := genChain_eq H l s'.tree s'.idxLeaf i (pkCtx E H pk)
      (show 0 < 256 by decide) (lengths'.getD i 0)
      (lengths.getD i 0 - lengths'.getD i 0) (by omega)
      (slice sig' (s'.sig + i * spxN) spxN)
    rw [hchain, htree, hleaf, hp'.state.sig, hp.state.sig]
    exact heq
  · exact Or.inr hcoll

/-- Equal values are opened at the same steps, whatever the bounds of the runs. -/
theorem lengths_eq_of_root_eq (hp : LayerPassed E H sig m pk T l s u lengths)
    (hp' : LayerPassed E H sig' m pk T' l s' u' lengths') (h : s.root = s'.root) :
    lengths = lengths' := by
  obtain ⟨c, hc, rfl, _⟩ := (searchResult_eq_ok_iff H _ _ _ _ _).mp hp.search
  obtain ⟨c', hc', rfl, _⟩ := (searchResult_eq_ok_iff H _ _ _ _ _).mp hp'.search
  rw [← h] at hc' ⊢
  rw [firstUpTo_unique _ hc hc']

theorem exists_getD_ne {v w : Vector ℕ 16} (h : v ≠ w) :
    ∃ i < spxWotsLen, v.getD i 0 ≠ w.getD i 0 := by
  by_contra hall
  apply h
  apply ext_getD (d := 0)
  intro i hi
  by_contra hne
  exact hall ⟨i, hi, hne⟩

/-- Two runs that reach the same root above a layer sign the same value there with the
same window, or they exhibit something. -/
theorem sameLayer_or_extracted (hl : l < spxD)
    (hp : LayerPassed E H sig m pk T l s u lengths)
    (hp' : LayerPassed E H sig' m pk T' l s' u' lengths')
    (hidx : forscCompressedIndex (verifyDigest H sig m pk).1 = 0)
    (hdigest : verifyDigest H sig' m pk = verifyDigest H sig m pk) (h : u.root = u'.root) :
    (s.root = s'.root ∧ SameLayer sig sig' l) ∨ Extracted E H m pk sig sig' T T' := by
  by_cases hcoll : Collision (verifyLog E H m pk sig T) (verifyLog E H m pk sig' T')
  · exact Or.inr (Or.inl hcoll)
  have hidx' : forscCompressedIndex (verifyDigest H sig' m pk).1 = 0 := by rw [hdigest, hidx]
  have hmem (q : Query) (hq : RunLayerCall E H sig m pk l lengths q) :=
    hp.mem_log hl hidx hq
  have hmem' (q : Query) (hq : RunLayerCall E H sig' m pk l lengths' q) :=
    hp'.mem_log hl hidx' hq
  rw [hp.root, hp'.root] at h
  rw [RunLayerCall, hdigest] at hmem'
  rw [runRoot, runRoot, hdigest] at h
  obtain ⟨hends, hpath⟩ := (chainEnd_eq_or_collision hmem hmem' h).resolve_right hcoll
  have hearlier (i : ℕ) (hi : i < spxWotsLen) (hne : lengths.getD i 0 ≠ lengths'.getD i 0) :
      Extracted E H m pk sig sig' T T' := by
    rcases Nat.lt_or_gt_of_ne hne with hlt | hgt
    · have hearlier := earlierValue_or_collision hl hp' hp hidx' hdigest.symm hi hlt
        (by rw [hdigest]; exact (hends i hi).symm)
      exact Or.inr (Or.inr (Or.inr (hearlier.resolve_right fun h => hcoll h.symm)))
    · have hearlier := earlierValue_or_collision hl hp hp' hidx hdigest hi hgt (hends i hi)
      exact Or.inr (Or.inr (Or.inl (hearlier.resolve_right hcoll)))
  by_cases hroot : s.root = s'.root
  · have hlengths := lengths_eq_of_root_eq hp hp' hroot
    refine Or.inl ⟨hroot, fun i hi => ?_, hpath⟩
    have helement := (element_eq_or_collision hi hp.lengths_lt hmem hmem'
      (by rw [hlengths]) (hends i hi)).resolve_right hcoll
    rw [hlengths, Nat.sub_self, chain_zero] at helement
    exact helement.symm
  · by_cases hlengths : lengths = lengths'
    · refine Or.inr (Or.inr (Or.inl ⟨l, hl, s, s', lengths, hp.before, hp'.before, hroot,
        hp.chainLengths_eq, ?_⟩))
      rw [hlengths]
      exact hp'.chainLengths_eq
    · obtain ⟨i, hi, hne⟩ := exists_getD_ne hlengths
      exact Or.inr (hearlier i hi hne)

/-- Two runs that reach the same root before a layer have the same FORS public key and
the same windows below it, or they exhibit something. -/
theorem sameLayers_or_extracted (hl : l ≤ spxD)
    (hidx : forscCompressedIndex (verifyDigest H sig m pk).1 = 0)
    (hdigest : verifyDigest H sig' m pk = verifyDigest H sig m pk)
    (hat : verifyStateAt E H sig m pk T l = .ok u)
    (hat' : verifyStateAt E H sig' m pk T' l = .ok u') (h : u.root = u'.root) :
    (runForsPk E H sig m pk = runForsPk E H sig' m pk ∧
        ∀ l' < l, SameLayer sig sig' l') ∨ Extracted E H m pk sig sig' T T' := by
  induction l generalizing u u' with
  | zero =>
      obtain ⟨t, ht, _, hroot, _⟩ := verifyStateAt_zero E H sig m pk T
      obtain ⟨t', ht', _, hroot', _⟩ := verifyStateAt_zero E H sig' m pk T'
      rw [hat] at ht
      rw [hat'] at ht'
      cases ht
      cases ht'
      exact Or.inl ⟨hroot.symm.trans (h.trans hroot'), fun l' hl' =>
        absurd hl' (Nat.not_lt_zero l')⟩
  | succ l ih =>
      obtain ⟨s, lengths, hp⟩ := layerPassed_of_succ_eq_ok hat
      obtain ⟨s', lengths', hp'⟩ := layerPassed_of_succ_eq_ok hat'
      rcases sameLayer_or_extracted hl hp hp' hidx hdigest h with ⟨hroot, hlayer⟩ | hext
      · rcases ih (by omega) hp.before hp'.before hroot with ⟨hpk, hbelow⟩ | hext
        · refine Or.inl ⟨hpk, fun l' hl' => ?_⟩
          rcases Nat.lt_succ_iff_lt_or_eq.mp hl' with hlt | rfl
          · exact hbelow l' hlt
          · exact hlayer
        · exact Or.inr hext
      · exact Or.inr hext

/-- Two accepted signatures of one message under one key with the same salt are equal,
or the two verification runs exhibit a collision, two values with the same chain
lengths, or an earlier value of a chain. -/
theorem accepted_signatures_eq_or_extracted (E : Build) (H : HashFns) (m : List UInt8)
    (pk : Vector UInt8 32) (sig sig' : Vector UInt8 3680) (T T' : ThreadState)
    (hsalt : slice sig 0 16 = slice sig' 0 16)
    (h : (cryptoSignVerify E H sig 3680 m pk T).val.1 = 0)
    (h' : (cryptoSignVerify E H sig' 3680 m pk T').val.1 = 0) :
    sig = sig' ∨ Collision (verifyLog E H m pk sig T) (verifyLog E H m pk sig' T') ∨
      SameLengths E H m pk sig sig' T T' ∨ EarlierValue E H m pk sig sig' T T' ∨
      EarlierValue E H m pk sig' sig T' T := by
  obtain ⟨hidx, u, hat, hroot⟩ := (cryptoSignVerify_eq_zero_iff E H sig m pk T).mp h
  obtain ⟨_, u', hat', hroot'⟩ := (cryptoSignVerify_eq_zero_iff E H sig' m pk T').mp h'
  have hdigest : verifyDigest H sig' m pk = verifyDigest H sig m pk := by
    rw [verifyDigest, verifyDigest, hsalt]
  rcases sameLayers_or_extracted le_rfl hidx hdigest hat hat' (hroot.trans hroot'.symm) with
    ⟨hpk, hlayers⟩ | hext
  · have hmem (q : Query) (hq : RunForsCall E H sig m pk q) :
        q ∈ verifyLog E H m pk sig T := mem_log_of_forsCall hidx hq
    have hmem' (q : Query) (hq : RunForsCall E H sig' m pk q) :
        q ∈ verifyLog E H m pk sig' T' := mem_log_of_forsCall (by rw [hdigest, hidx]) hq
    rw [RunForsCall, hdigest] at hmem'
    rw [runForsPk, runForsPk, hdigest] at hpk
    rcases sameTree_or_collision hmem hmem' hpk with htrees | hcoll
    · exact Or.inl (eq_of_same hsalt htrees hlayers)
    · exact Or.inr (Or.inl hcoll)
  · exact Or.inr hext

/-- The hash functions that ignore their input accept every signature under a root of
zeros. -/
theorem cryptoSignVerify_constantHash (E : Build) (sig : Vector UInt8 3680)
    (m : List UInt8) {pk : Vector UInt8 32} (T : ThreadState)
    (hpk : slice pk spxN spxN = Vector.replicate 16 0) :
    (cryptoSignVerify E constantHash sig spxBytes m pk T).val.1 = 0 := by
  have hstep {l : ℕ} {s : VerifyLayerState}
      (hat : verifyStateAt E constantHash sig m pk T l = .ok s) :
      ∃ u, verifyStateAt E constantHash sig m pk T (l + 1) = .ok u ∧
        u.root = Vector.replicate 16 0 := by
    have hfirst : firstUpTo (CounterHit constantHash s.root) (wotscBound E s.T) = some 0 := by
      rw [firstUpTo_eq_some_iff]
      exact ⟨counterHit_constantHash _ _, Nat.zero_le _, fun e he => by omega⟩
    obtain ⟨u, hu, _, _, hp⟩ := verifyStateAt_succ_of_ok hat (runStateOk_of_eq_ok hat)
      ((searchResult_eq_ok_iff _ _ _ _ _ _).mpr ⟨0, hfirst, rfl, rfl⟩)
    exact ⟨u, hu, hp.root⟩
  obtain ⟨s₀, hat₀, _⟩ := verifyStateAt_zero E constantHash sig m pk T
  obtain ⟨s₁, hat₁, _⟩ := hstep hat₀
  obtain ⟨s₂, hat₂, _⟩ := hstep hat₁
  obtain ⟨s₃, hat₃, _⟩ := hstep hat₂
  obtain ⟨s₄, hat₄, _⟩ := hstep hat₃
  obtain ⟨s₅, hat₅, hroot⟩ := hstep hat₄
  rw [cryptoSignVerify_eq_zero_iff]
  exact ⟨forscCompressedIndex_constantHash _ _ _, s₅, hat₅, hroot.trans hpk.symm⟩

/-- Two different signatures that the hash functions that ignore their input accept. -/
theorem accepted_signatures_eq_or_extracted_constantHash :
    (Vector.replicate 3680 0 : Vector UInt8 3680) =
        write (Vector.replicate 3680 0) 16 (#v[1] : Vector UInt8 1) ∨
      Extracted smallestCaps constantHash [] (Vector.replicate 32 0)
        (Vector.replicate 3680 0)
        (write (Vector.replicate 3680 0) 16 (#v[1] : Vector UInt8 1)) ThreadState.fresh
        ThreadState.fresh :=
  accepted_signatures_eq_or_extracted _ _ _ _ _ _ _ _
    (slice_write_of_disjoint _ _ _ _ _ (by decide)).symm
    (cryptoSignVerify_constantHash _ _ _ _ (by decide))
    (cryptoSignVerify_constantHash _ _ _ _ (by decide))

end Runs

end BitcoinPqc
