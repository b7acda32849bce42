import BitcoinPqc.Correctness.Sign

/-!
# The pieces of a signature

A signature is the salt, seven FORS parts of a secret value and a path each, and five
windows of sixteen chain values and a path each. Every piece is a block, the pieces lie
side by side, and there is nothing else: two signatures with the same pieces are equal.
-/

namespace BitcoinPqc

/-- Two signatures agree in the window of layer `l`. -/
structure SameLayer (sig sig' : Vector UInt8 3680) (l : ℕ) : Prop where
  chains : ∀ i < spxWotsLen, slice sig (layerOffset l + i * spxN) spxN =
    slice sig' (layerOffset l + i * spxN) spxN
  path : ∀ k < spxTreeHeight, slice sig (layerOffset l + spxWotsBytes + k * spxN) spxN =
    slice sig' (layerOffset l + spxWotsBytes + k * spxN) spxN

/-- Two signatures agree in the part of FORS tree `t`. -/
structure SameTree (sig sig' : Vector UInt8 3680) (t : ℕ) : Prop where
  sk : slice sig (spxN + t * treeBytes) spxN = slice sig' (spxN + t * treeBytes) spxN
  path : ∀ k < spxForsHeight, slice sig (spxN + t * treeBytes + spxN + k * spxN) spxN =
    slice sig' (spxN + t * treeBytes + spxN + k * spxN) spxN

variable {sig sig' : Vector UInt8 3680}

theorem SameLayer.block {l : ℕ} (h : SameLayer sig sig' l) {j : ℕ} (hj : j < 22) :
    slice sig (1920 + 352 * l + 16 * j) 16 = slice sig' (1920 + 352 * l + 16 * j) 16 := by
  rcases Nat.lt_or_ge j 16 with hlt | hge
  · have hchain := h.chains j hlt
    rwa [layerOffset_eq, Nat.mul_comm j spxN] at hchain
  · have hpath := h.path (j - 16) (show j - 16 < 6 by omega)
    rwa [layerOffset_eq, show 1920 + 352 * l + spxWotsBytes + (j - 16) * spxN =
      1920 + 352 * l + 16 * j by
        simp only [spxWotsBytes, spxWotsLen, spxWotsLen1, spxN, spxWotsLogw]
        omega] at hpath

theorem SameTree.block {t : ℕ} (h : SameTree sig sig' t) {j : ℕ} (hj : j < 17) :
    slice sig (16 + 272 * t + 16 * j) 16 = slice sig' (16 + 272 * t + 16 * j) 16 := by
  have hstart : spxN + t * treeBytes = 16 + 272 * t := by
    simp only [treeBytes, spxN, spxForsHeight]
    omega
  rcases Nat.eq_zero_or_pos j with rfl | hpos
  · have hsk := h.sk
    rwa [hstart] at hsk
  · have hpath := h.path (j - 1) (show j - 1 < 16 by omega)
    rwa [hstart, show 16 + 272 * t + spxN + (j - 1) * spxN = 16 + 272 * t + 16 * j by
      simp only [spxN]
      omega] at hpath

/-- The windows from layer `l` on are the rest of the signature. -/
theorem slice_eq_of_sameLayer {l : ℕ} (hl : l ≤ spxD)
    (h : ∀ l', l ≤ l' → l' < spxD → SameLayer sig sig' l') :
    slice sig (1920 + 352 * l) (3680 - (1920 + 352 * l)) =
      slice sig' (1920 + 352 * l) (3680 - (1920 + 352 * l)) := by
  have hl5 : l ≤ 5 := hl
  refine ext_of_blocks 16 (22 * (5 - l)) (by decide) (by omega) ?_
  intro j hj
  have hlayer : l + j / 22 < 5 := by omega
  have hblock := (h (l + j / 22) (Nat.le_add_right l _) hlayer).block
    (show j % 22 < 22 from Nat.mod_lt _ (by decide))
  rw [slice_slice _ _ _ _ _ (by omega) (by omega),
    slice_slice _ _ _ _ _ (by omega) (by omega)]
  rwa [show 1920 + 352 * (l + j / 22) + 16 * (j % 22) = 1920 + 352 * l + 16 * j by omega]
    at hblock

theorem eq_of_same (hsalt : slice sig 0 spxN = slice sig' 0 spxN)
    (hfors : ∀ t < spxForsSigTrees, SameTree sig sig' t)
    (hlayers : ∀ l < spxD, SameLayer sig sig' l) : sig = sig' := by
  refine ext_of_blocks 16 230 (by decide) (by decide) ?_
  intro j hj
  rcases Nat.eq_zero_or_pos j with rfl | hpos
  · exact hsalt
  · rcases Nat.lt_or_ge j 120 with hlt | hge
    · have hblock := (hfors ((j - 1) / 17) (show (j - 1) / 17 < 7 by omega)).block
        (show (j - 1) % 17 < 17 from Nat.mod_lt _ (by decide))
      rwa [show 16 + 272 * ((j - 1) / 17) + 16 * ((j - 1) % 17) = 16 * j by omega] at hblock
    · have hblock := (hlayers ((j - 120) / 22) (show (j - 120) / 22 < 5 by omega)).block
        (show (j - 120) % 22 < 22 from Nat.mod_lt _ (by decide))
      rwa [show 1920 + 352 * ((j - 120) / 22) + 16 * ((j - 120) % 22) = 16 * j by omega]
        at hblock

variable {H : HashFns} {ctx : SpxCtx} {tree leaf : ℕ}

theorem sameLayer_of_layerOk {l : ℕ} (h : LayerOk H ctx tree leaf sig l)
    (h' : LayerOk H ctx tree leaf sig' l) : SameLayer sig sig' l :=
  ⟨fun i hi => (h.chains i hi).trans (h'.chains i hi).symm,
    fun k hk => (h.path k hk).trans (h'.path k hk).symm⟩

/-- The salt, the digest and the position determine an honest signature. -/
theorem SignedSig.unique {salt mhash : Block}
    (h : SignedSig H ctx tree leaf salt mhash sig)
    (h' : SignedSig H ctx tree leaf salt mhash sig') : sig = sig' := by
  refine eq_of_same (h.salt.trans h'.salt.symm) ?_ ?_
  · intro t ht
    obtain ⟨hsk, hpath⟩ := h.fors t ht
    obtain ⟨hsk', hpath'⟩ := h'.fors t ht
    exact ⟨hsk.trans hsk'.symm, fun k hk => (hpath k hk).trans (hpath' k hk).symm⟩
  · intro l hl
    exact sameLayer_of_layerOk (h.layers l hl) (h'.layers l hl)

end BitcoinPqc
