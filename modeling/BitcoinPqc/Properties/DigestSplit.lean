import BitcoinPqc.Properties.Extraction

/-!
# The digest and the indices of the FORS trees

The seven indices that are signed and the eighth that has to be zero are the eight fields
of 16 bits of the digest. No two fields share a bit and no bit is left over, so the seven
signed indices determine the digest of every run that goes on to use them.
-/

namespace BitcoinPqc

/-!
## The two loops
-/

variable {n : ℕ}

theorem forscCompressedIndex_eq (m : Vector UInt8 n) :
    forscCompressedIndex m = bitField spxForsHeight m spxForsSigTrees :=
  messageToIndices_eq m spxForsSigTrees

theorem bitField_slice {k w i : ℕ} (mem : Vector UInt8 n) (hi : (i + 1) * w ≤ 8 * k) :
    bitField w (slice mem 0 k) i = bitField w mem i := by
  rw [Nat.succ_mul] at hi
  rw [bitField, bitField]
  congr 1
  funext j
  have hbyte : (i * w + j) / 8 < k := by omega
  have hget : (slice mem 0 k).getD ((i * w + j) / 8) 0 = mem.getD ((i * w + j) / 8) 0 := by
    simp [slice, Vector.getD, hbyte, show (default : UInt8) = 0 from rfl]
  rw [bitAt, bitAt, hget]

/-- The indices of the eight trees, of which the last one is not signed. -/
def forsIndex (m : Block) (i : ℕ) : ℕ :=
  if i < spxForsSigTrees then messageToIndices m i else forscCompressedIndex m

theorem forsIndex_eq (m : Block) {i : ℕ} (hi : i < 8) :
    forsIndex m i = bitField spxForsHeight m i := by
  rw [forsIndex]
  split
  · exact messageToIndices_eq m i
  · next hnot =>
      have hlast : i = spxForsSigTrees := Nat.le_antisymm (Nat.le_of_lt_succ hi) (not_lt.mp hnot)
      rw [hlast]
      exact forscCompressedIndex_eq m

theorem forsIndex_fits {i : ℕ} (hi : i < 8) : (i + 1) * spxForsHeight ≤ 8 * 16 := by
  change (i + 1) * 16 ≤ 8 * 16
  omega

theorem ofBitFields_of_forsIndex {f : ℕ → ℕ} {m : Block} (h : ∀ i < 8, forsIndex m i = f i) :
    ofBitFields spxForsHeight f = m := by
  have hpacked : ofBitFields spxForsHeight (bitField spxForsHeight m) = m :=
    ofBitFields_bitField (by decide) m
  rw [← hpacked]
  apply ofBitFields_congr
  intro i hi
  have hlt : i < 8 := by
    change i * 16 < 8 * 16 at hi
    omega
  rw [← forsIndex_eq m hlt, h i hlt]

theorem usesBit_forsIndex_iff {i : ℕ} (hi : i < 8) (o : ℕ) :
    UsesBit (fun m : Block => forsIndex m i) o ↔ i * 16 ≤ o ∧ o < (i + 1) * 16 := by
  simp only [forsIndex_eq _ hi]
  exact usesBit_bitField_iff (forsIndex_fits hi)

/-!
## Runs
-/

/-- A digest whose indices a run uses: the salt loop of a signing run ends with it, or a
verification run that accepts computes it from the signature. -/
inductive RunDigest : Block → Prop where
  | signed {H : HashFns} {rBase R : Block} {pk : Vector UInt8 32} {m : List UInt8}
      {n attempts ctr : ℕ} {T : ThreadState}
      (found : (grindLoop H rBase pk m n attempts ctr R T).code = 0) :
      RunDigest (grindLoop H rBase pk m n attempts ctr R T).mhash
  | verified {E : Build} {H : HashFns} {sig : Vector UInt8 3680} {siglen : ℕ}
      {m : List UInt8} {pk : Vector UInt8 32} {T : ThreadState}
      (accepted : (cryptoSignVerify E H sig siglen m pk T).val.1 = 0) :
      RunDigest (hashMessage H (slice sig 0 spxN) pk m).1

/-- The salt loop ends with code zero only where the last index is zero. -/
theorem forscCompressedIndex_grindLoop {H : HashFns} {rBase : Block} {pk : Vector UInt8 32}
    {m : List UInt8} {n attempts ctr : ℕ} {R : Block} {T : ThreadState}
    (h : (grindLoop H rBase pk m n attempts ctr R T).code = 0) :
    forscCompressedIndex (grindLoop H rBase pk m n attempts ctr R T).mhash = 0 := by
  induction n generalizing attempts ctr R with
  | zero =>
      rw [grindLoop] at *
      dsimp only at *
      split at h
      · next hidx =>
          rw [if_pos hidx]
          exact hidx
      · cases h
  | succ n ih =>
      rw [grindLoop] at *
      dsimp only at *
      split at h
      · next hidx =>
          rw [if_pos hidx]
          exact hidx
      · next hidx =>
          rw [if_neg hidx]
          split at h
          · cases h
          · next hctr =>
              rw [if_neg hctr]
              exact ih h

theorem RunDigest.forscCompressedIndex_eq_zero {d : Block} (h : RunDigest d) :
    forscCompressedIndex d = 0 := by
  cases h with
  | signed found => exact forscCompressedIndex_grindLoop found
  | verified accepted =>
      next E H sig siglen m pk T =>
        by_cases hlen : siglen = spxBytes
        · subst hlen
          exact ((cryptoSignVerify_eq_zero_iff E H sig m pk T).mp accepted).1
        · rw [cryptoSignVerify, if_pos hlen] at accepted
          cases accepted

/-- The seven signed indices determine the digest of a run. -/
theorem RunDigest.eq_of_messageToIndices_eq {d d' : Block} (hd : RunDigest d)
    (hd' : RunDigest d')
    (hsame : ∀ i < spxForsSigTrees, messageToIndices d i = messageToIndices d' i) :
    d = d' := by
  have hindices (i : ℕ) : forsIndex d i = forsIndex d' i := by
    rw [forsIndex, forsIndex]
    split
    · next hlt => exact hsame i hlt
    · rw [hd.forscCompressedIndex_eq_zero, hd'.forscCompressedIndex_eq_zero]
  calc d = ofBitFields spxForsHeight (forsIndex d') :=
        (ofBitFields_of_forsIndex fun i _ => hindices i).symm
    _ = d' := ofBitFields_of_forsIndex fun _ _ => rfl

/-- The eight indices are below `2 ^ 16`, they are read from the 16 bytes of the digest,
they determine it and are arbitrary, and each bit of the digest is used by exactly one of
them. Runs that use the same seven signed indices use the same digest. -/
theorem digest_split :
    (∀ m : Block, (∀ i < spxForsSigTrees, messageToIndices m i < 2 ^ spxForsHeight) ∧
        forscCompressedIndex m < 2 ^ spxForsHeight) ∧
      (∀ (n : ℕ) (mem : Vector UInt8 (16 + n)),
        (∀ i < spxForsSigTrees, messageToIndices mem i = messageToIndices (slice mem 0 16) i) ∧
          forscCompressedIndex mem = forscCompressedIndex (slice mem 0 16)) ∧
      (∀ m : Block, ofBitFields spxForsHeight (forsIndex m) = m) ∧
      (∀ f : ℕ → ℕ, (∀ i < 8, f i < 2 ^ spxForsHeight) →
        ∃! m : Block, ∀ i < 8, forsIndex m i = f i) ∧
      (∀ o < 128, ∃! i, i < 8 ∧ UsesBit (fun m : Block => forsIndex m i) o) ∧
      ∀ d d' : Block, RunDigest d → RunDigest d' →
        (∀ i < spxForsSigTrees, messageToIndices d i = messageToIndices d' i) → d = d' := by
  refine ⟨?_, ?_, ?_, ?_, ?_, ?_⟩
  · intro m
    constructor
    · intro i _
      exact messageToIndices_lt m i
    · rw [forscCompressedIndex_eq]
      exact bitField_lt _ m _
  · intro n mem
    constructor
    · intro i hi
      rw [messageToIndices_eq, messageToIndices_eq]
      exact (bitField_slice mem (forsIndex_fits (Nat.lt_succ_of_lt hi))).symm
    · rw [forscCompressedIndex_eq, forscCompressedIndex_eq]
      exact (bitField_slice mem (forsIndex_fits (Nat.lt_succ_self _))).symm
  · intro m
    exact ofBitFields_of_forsIndex fun _ _ => rfl
  · intro f hf
    refine ⟨ofBitFields spxForsHeight f, ?_, ?_⟩
    · intro i hi
      rw [forsIndex_eq _ hi]
      exact bitField_ofBitFields (forsIndex_fits hi) (hf i hi)
    · intro m hm
      exact (ofBitFields_of_forsIndex hm).symm
  · intro o ho
    refine ⟨o / 16, ⟨by omega, (usesBit_forsIndex_iff (by omega) o).mpr (by omega)⟩, ?_⟩
    rintro i ⟨hi, h⟩
    have hbounds := (usesBit_forsIndex_iff hi o).mp h
    omega
  · intro d d' hd hd' hsame
    exact hd.eq_of_messageToIndices_eq hd' hsame

/-- A salt loop and a verification run with the hash functions that ignore their input. -/
theorem digest_split_constantHash :
    (grindLoop constantHash (Vector.replicate 16 0) (Vector.replicate 32 0) [1] 0 0 0
        (Vector.replicate 16 0) ThreadState.fresh).mhash =
      (hashMessage constantHash (slice (Vector.replicate 3680 0) 0 spxN) (Vector.replicate 32 0)
        [1]).1 := by
  have hfound : (grindLoop constantHash (Vector.replicate 16 0) (Vector.replicate 32 0) [1]
      0 0 0 (Vector.replicate 16 0) ThreadState.fresh).code = 0 := by
    rw [grindLoop]
    dsimp only
    rw [if_pos (forscCompressedIndex_constantHash _ _ _)]
  have hroot : slice (Vector.replicate 32 0) spxN spxN = Vector.replicate 16 (0 : UInt8) := by
    decide
  have haccepted := cryptoSignVerify_constantHash smallestCaps (Vector.replicate 3680 0) [1]
    ThreadState.fresh hroot
  refine digest_split.2.2.2.2.2 _ _ (.signed hfound) (.verified haccepted) fun i _ => ?_
  rw [grindLoop]
  dsimp only
  rw [if_pos (forscCompressedIndex_constantHash _ _ _)]
  rfl

end BitcoinPqc
