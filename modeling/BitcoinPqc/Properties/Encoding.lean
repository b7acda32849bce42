import BitcoinPqc.Foundation.FixedSum
import BitcoinPqc.Properties.SignVerify

/-!
# The WOTS+C message encoding

The digits whose checksum the counter search tests are the chain lengths that signer and
verifier use afterwards, and both are the bytes of the compressed message. All lengths
have one sum, so the lengths of two messages are equal or incomparable, and a chain value
that a signature reveals is never enough for all chains of another message.
-/

namespace BitcoinPqc

variable (H : HashFns)

/-!
## The digits of a counter
-/

/-- The first 16 bytes of SHA-256 on the message and the counter in two big-endian
bytes. -/
def counterBytes (msg : Block) (c : ℕ) : Block :=
  slice (H.sha256 (msg.toList ++ (ullToBytes 2 c).toList)) 0 16

/-- The bytes of a block as numbers. -/
def blockDigits (v : Block) (i : Fin 16) : ℕ := v[i].toNat

/-- The digits of the counter have checksum 2040. -/
def TargetReached (msg : Block) (c : ℕ) : Prop :=
  ∑ i, (255 - blockDigits (counterBytes H msg c) i) = 2040

variable {H}

theorem blockDigits_le (v : Block) (i : Fin 16) : blockDigits v i ≤ 255 :=
  Nat.le_of_lt_succ v[i].toNat_lt

theorem toList_ullToBytes_two (c : ℕ) :
    (ullToBytes 2 c).toList = [UInt8.ofNat (c >>> 8), UInt8.ofNat c] := by
  rw [toList_ullToBytes_succ, toList_ullToBytes_succ]
  rfl

theorem wotscCompressed_eq (msg : Block) (c : ℕ) :
    wotscCompressed H msg c = counterBytes H msg c := by
  rw [wotscCompressed, counterBytes, toList_ullToBytes_two]

/-- In base 256 `base_w` reads one byte for each digit. -/
theorem baseWLoop_eq (input : Block) (n inp : ℕ) (total : UInt8) :
    baseWLoop input n inp 0 total =
      (List.range n).map fun k => (input.getD (inp + k) 0).toNat := by
  induction n generalizing inp total with
  | zero => rfl
  | succ n ih =>
      have hdigit : ((input.getD inp 0).toNat >>> 0) &&& (spxWotsW - 1) =
          (input.getD inp 0).toNat := by
        rw [Nat.shiftRight_zero, show spxWotsW - 1 = 2 ^ 8 - 1 from rfl,
          Nat.and_two_pow_sub_one_eq_mod]
        exact Nat.mod_eq_of_lt (UInt8.toNat_lt _)
      rw [List.range_succ_eq_map, List.map_cons, List.map_map, baseWLoop]
      apply List.cons_eq_cons.mpr
      constructor
      · exact hdigit
      · have hrest := ih (inp + 1) (input.getD inp 0)
        refine hrest.trans (List.map_congr_left fun k _ => ?_)
        rw [Function.comp_apply, Nat.add_assoc, Nat.add_comm 1 k]

theorem getElem_baseW (input : Block) (i : Fin 16) :
    (baseW spxWotsLen1 input)[i] = blockDigits input i := by
  have hget : (baseW spxWotsLen1 input)[i] = (baseWLoop input 16 0 0 0).getD i.val 0 := by
    rw [baseW]
    exact Vector.getElem_ofFn _
  rw [hget, baseWLoop_eq, List.getD_eq_getElem?_getD, List.getElem?_map,
    List.getElem?_range i.isLt, Option.map_some, Option.getD_some, Nat.zero_add, blockDigits]
  simp [Vector.getD]

/-- The checksum that the code folds is the sum over the chains. -/
theorem wotscChecksum_eq (lengths : Vector ℕ 16) :
    wotscChecksum lengths = ∑ i : Fin 16, (255 - lengths[i]) := by
  have hfold (l : List ℕ) : l.foldl (fun checksum d => checksum + (spxWotsW - 1 - d)) 0 =
      (l.map fun d => 255 - d).sum := by
    rw [List.sum_eq_foldl, List.foldl_map]
    rfl
  have hlist : lengths.toList = List.ofFn fun i : Fin 16 => lengths[i] := by
    rw [← Vector.toList_ofFn]
    exact congrArg Vector.toList (Vector.ofFn_getElem : Vector.ofFn _ = lengths).symm
  rw [wotscChecksum, hfold, hlist, List.map_ofFn, List.sum_ofFn]
  rfl

theorem counterHit_iff (msg : Block) (c : ℕ) :
    CounterHit H msg c ↔ TargetReached H msg c := by
  have hsum : wotscChecksum (counterLengths H msg c) =
      ∑ i, (255 - blockDigits (counterBytes H msg c) i) := by
    rw [wotscChecksum_eq, counterLengths, wotscCompressed_eq]
    exact Finset.sum_congr rfl fun i _ => by rw [getElem_baseW]
  rw [CounterHit, hsum]
  exact Iff.rfl

theorem sum_blockDigits_of_targetReached {msg : Block} {c : ℕ}
    (h : TargetReached H msg c) : ∑ i, blockDigits (counterBytes H msg c) i = 2040 := by
  have hall : ∑ i : Fin 16, (255 - blockDigits (counterBytes H msg c) i) +
      ∑ i, blockDigits (counterBytes H msg c) i = 4080 := by
    rw [← Finset.sum_add_distrib]
    have hconst (i : Fin 16) : 255 - blockDigits (counterBytes H msg c) i +
        blockDigits (counterBytes H msg c) i = 255 :=
      Nat.sub_add_cancel (blockDigits_le _ i)
    simp only [hconst, Finset.sum_const, Finset.card_univ, Fintype.card_fin, smul_eq_mul]
  rw [TargetReached] at h
  omega

/-!
## The search
-/

/-- `c` is the least counter up to `bound` that reaches the target, and `compressed` are
its bytes. -/
structure Encodes (H : HashFns) (msg : Block) (bound : ℕ) (compressed : Block) (c : ℕ) :
    Prop where
  le : c ≤ bound
  hit : TargetReached H msg c
  least : ∀ e < c, ¬ TargetReached H msg e
  compressed_eq : compressed = counterBytes H msg c

theorem firstUpTo_counterHit_iff (msg : Block) (bound c : ℕ) :
    firstUpTo (CounterHit H msg) bound = some c ↔
      Encodes H msg bound (counterBytes H msg c) c := by
  rw [firstUpTo_eq_some_iff]
  simp only [counterHit_iff]
  exact ⟨fun h => ⟨h.2.1, h.1, h.2.2, rfl⟩, fun h => ⟨h.hit, h.le, h.least⟩⟩

theorem firstUpTo_counterHit_eq_none_iff (msg : Block) (bound : ℕ) :
    firstUpTo (CounterHit H msg) bound = none ↔ ¬ ∃ c ≤ bound, TargetReached H msg c := by
  rw [firstUpTo_eq_none_iff]
  simp only [counterHit_iff]
  push Not
  rfl

theorem wotscCompressMessageCheckedBounded_val (msg : Block) (bound : ℕ) (T : ThreadState) :
    (wotscCompressMessageCheckedBounded H msg bound T).val.1 =
      (firstUpTo (CounterHit H msg) bound).elim (.error signLimitExceeded)
        fun c => .ok (counterBytes H msg c, c, 2040) := by
  rw [wotscCompressMessageCheckedBounded, wotscSearchLoop_val, firstUpTo]
  cases firstFrom (CounterHit H msg) bound 0 with
  | none => rfl
  | some c =>
      rw [Option.elim_some, ← wotscCompressed_eq]
      rfl

theorem wotscCompressMessageCheckedBounded_eq_ok_iff (msg : Block) (bound : ℕ)
    (T : ThreadState) (compressed : Block) (c checksum : ℕ) :
    (wotscCompressMessageCheckedBounded H msg bound T).val.1 =
        .ok (compressed, c, checksum) ↔
      Encodes H msg bound compressed c ∧ checksum = 2040 := by
  rw [wotscCompressMessageCheckedBounded_val]
  constructor
  · intro h
    cases hfirst : firstUpTo (CounterHit H msg) bound with
    | none =>
        rw [hfirst] at h
        cases h
    | some d =>
        rw [hfirst, Option.elim_some, Except.ok.injEq, Prod.mk.injEq, Prod.mk.injEq] at h
        obtain ⟨rfl, rfl, hsum⟩ := h
        exact ⟨(firstUpTo_counterHit_iff msg bound _).mp hfirst, hsum.symm⟩
  · rintro ⟨henc, rfl⟩
    obtain ⟨hle, hhit, hleast, rfl⟩ := henc
    rw [(firstUpTo_counterHit_iff msg bound c).mpr ⟨hle, hhit, hleast, rfl⟩,
      Option.elim_some]

theorem wotscCompressMessageCheckedBounded_eq_error_iff (msg : Block) (bound : ℕ)
    (T : ThreadState) :
    (wotscCompressMessageCheckedBounded H msg bound T).val.1 = .error signLimitExceeded ↔
      ¬ ∃ c ≤ bound, TargetReached H msg c := by
  rw [wotscCompressMessageCheckedBounded_val, ← firstUpTo_counterHit_eq_none_iff]
  cases firstUpTo (CounterHit H msg) bound with
  | none => exact ⟨fun _ => rfl, fun _ => rfl⟩
  | some c => exact ⟨fun h => (by cases h), fun h => (by cases h)⟩

/-!
## The chain lengths
-/

/-- The lengths are the bytes of the compressed message, and their sum is fixed. -/
structure LengthsOf (compressed : Block) (lengths : Vector ℕ 16) : Prop where
  byte : ∀ i : Fin 16, lengths[i] = compressed[i].toNat
  le : ∀ i : Fin 16, lengths[i] ≤ 255
  sum : ∑ i : Fin 16, lengths[i] = 2040

theorem Encodes.lengthsOf {msg compressed : Block} {bound c : ℕ}
    (h : Encodes H msg bound compressed c) :
    LengthsOf compressed (baseW spxWotsLen1 compressed) := by
  obtain ⟨_, hhit, _, rfl⟩ := h
  refine ⟨getElem_baseW _, fun i => ?_, ?_⟩
  · rw [getElem_baseW]
    exact blockDigits_le _ i
  · rw [← sum_blockDigits_of_targetReached hhit]
    exact Finset.sum_congr rfl fun i _ => getElem_baseW _ i

theorem chainLengths_eq_ok_iff (E : Build) (msg : Block) (T : ThreadState)
    (lengths : Vector ℕ 16) :
    (chainLengths E H msg T).val.1 = .ok lengths ↔
      ∃ compressed c, Encodes H msg (wotscBound E T) compressed c ∧
        lengths = baseW spxWotsLen1 compressed := by
  have hcall : (chainLengths E H msg T).val.1 =
      (wotscCompressMessageCheckedBounded H msg (wotscBound E T) T).val.1.map
        fun r => baseW spxWotsLen1 r.1 := by
    rw [chainLengths, Traced.val_bind, wotscCompressMessageChecked]
    generalize (wotscCompressMessageCheckedBounded H msg (wotscBound E T) T).val = r
    obtain ⟨r, T'⟩ := r
    cases r with
    | error d => rfl
    | ok r => rfl
  rw [hcall]
  cases hres : (wotscCompressMessageCheckedBounded H msg (wotscBound E T) T).val.1 with
  | error d =>
      refine ⟨fun h => (by cases h), ?_⟩
      rintro ⟨compressed, c, henc, _⟩
      rw [(wotscCompressMessageCheckedBounded_eq_ok_iff msg _ T compressed c 2040).mpr
        ⟨henc, rfl⟩] at hres
      cases hres
  | ok r =>
      obtain ⟨compressed, c, checksum⟩ := r
      obtain ⟨henc, _⟩ :=
        (wotscCompressMessageCheckedBounded_eq_ok_iff msg _ T compressed c checksum).mp hres
      constructor
      · intro h
        cases h
        exact ⟨compressed, c, henc, rfl⟩
      · rintro ⟨compressed', c', henc', rfl⟩
        rw [(wotscCompressMessageCheckedBounded_eq_ok_iff msg _ T compressed' c' 2040).mpr
          ⟨henc', rfl⟩, Except.ok.injEq, Prod.mk.injEq] at hres
        rw [← hres.1]
        rfl

/-- The lengths that `chain_lengths` returns have sum 2040. -/
theorem sum_chainLengths {E : Build} {msg : Block} {T : ThreadState} {lengths : Vector ℕ 16}
    (h : (chainLengths E H msg T).val.1 = .ok lengths) :
    ∑ i : Fin 16, lengths[i] = 2040 := by
  obtain ⟨compressed, c, henc, rfl⟩ := (chainLengths_eq_ok_iff E msg T lengths).mp h
  exact henc.lengthsOf.sum

/-- The search selects the least counter within the bound whose digits reach the target,
or reports the limit when there is none. `chain_lengths` returns the bytes of the message
compressed with that counter, at most 255 each and of sum 2040. Two vectors of lengths
are equal, or each is smaller than the other at some chain. -/
theorem wotscEncoding (E E' : Build) (H : HashFns) (msg : Block) (T : ThreadState) :
    (∀ maxCounter,
      ((∃ r, (wotscCompressMessageCheckedBounded H msg maxCounter T).val.1 = .ok r) ↔
        ∃ c ≤ maxCounter, TargetReached H msg c) ∧
      (∀ compressed c checksum,
        (wotscCompressMessageCheckedBounded H msg maxCounter T).val.1 =
            .ok (compressed, c, checksum) →
          Encodes H msg maxCounter compressed c ∧ checksum = 2040 ∧
            LengthsOf compressed (baseW spxWotsLen1 compressed)) ∧
      ((¬ ∃ c ≤ maxCounter, TargetReached H msg c) →
        (wotscCompressMessageCheckedBounded H msg maxCounter T).val.1 =
          .error signLimitExceeded)) ∧
    (∀ lengths, (chainLengths E H msg T).val.1 = .ok lengths →
      ∃ compressed c, Encodes H msg (wotscBound E T) compressed c ∧
        LengthsOf compressed lengths) ∧
    ∀ msg' T' lengths lengths', (chainLengths E H msg T).val.1 = .ok lengths →
      (chainLengths E' H msg' T').val.1 = .ok lengths' →
        lengths = lengths' ∨
          ∃ i j : Fin 16, lengths[i] < lengths'[i] ∧ lengths'[j] < lengths[j] := by
  refine ⟨fun maxCounter => ⟨?_, ?_, ?_⟩, ?_, ?_⟩
  · constructor
    · rintro ⟨⟨compressed, c, checksum⟩, hok⟩
      obtain ⟨henc, _⟩ :=
        (wotscCompressMessageCheckedBounded_eq_ok_iff msg _ T compressed c checksum).mp hok
      exact ⟨c, henc.le, henc.hit⟩
    · intro hex
      by_contra hno
      have herr := mt (wotscCompressMessageCheckedBounded_eq_error_iff msg maxCounter T).mp
        (not_not_intro hex)
      rw [wotscCompressMessageCheckedBounded_val] at hno herr
      cases hfirst : firstUpTo (CounterHit H msg) maxCounter with
      | none => exact herr (by rw [hfirst, Option.elim_none])
      | some c => exact hno ⟨_, by rw [hfirst, Option.elim_some]⟩
  · intro compressed c checksum hok
    obtain ⟨henc, hsum⟩ :=
      (wotscCompressMessageCheckedBounded_eq_ok_iff msg _ T compressed c checksum).mp hok
    exact ⟨henc, hsum, henc.lengthsOf⟩
  · exact (wotscCompressMessageCheckedBounded_eq_error_iff msg maxCounter T).mpr
  · intro lengths hok
    obtain ⟨compressed, c, henc, rfl⟩ := (chainLengths_eq_ok_iff E msg T lengths).mp hok
    exact ⟨compressed, c, henc, henc.lengthsOf⟩
  · intro msg' T' lengths lengths' hok hok'
    have hsum : ∑ i : Fin 16, lengths[i] = ∑ i : Fin 16, lengths'[i] :=
      (sum_chainLengths hok).trans (sum_chainLengths hok').symm
    apply (eq_or_incomparable_of_sum_eq hsum).imp_left
    intro hsame
    ext i hi
    exact congrFun hsame ⟨i, hi⟩

/-- With the hash functions that ignore their input every message has chain lengths. -/
theorem wotscEncoding_constantHash :
    ∃ lengths compressed, (chainLengths smallestCaps constantHash (Vector.replicate 16 1)
        ThreadState.fresh).val.1 = .ok lengths ∧ LengthsOf compressed lengths := by
  have hsearch : ∃ r, (wotscCompressMessageCheckedBounded constantHash
      (Vector.replicate 16 1) (wotscBound smallestCaps .fresh) .fresh).val.1 = .ok r :=
    ((wotscEncoding smallestCaps smallestCaps constantHash (Vector.replicate 16 1)
      .fresh).1 _).1.mpr ⟨0, Nat.zero_le _, (counterHit_iff _ 0).mp
        (counterHit_constantHash _ 0)⟩
  obtain ⟨⟨compressed, c, checksum⟩, hok⟩ := hsearch
  obtain ⟨henc, _⟩ := (wotscCompressMessageCheckedBounded_eq_ok_iff _ _ _ _ _ _).mp hok
  exact ⟨_, compressed, (chainLengths_eq_ok_iff _ _ _ _).mpr ⟨compressed, c, henc, rfl⟩,
    henc.lengthsOf⟩

end BitcoinPqc
