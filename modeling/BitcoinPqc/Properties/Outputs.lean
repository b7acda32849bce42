import BitcoinPqc.Properties.Caps
import BitcoinPqc.Properties.Dispatch

/-!
# The output buffers of signing

A call that fails clears the buffers that it was given, and a call that succeeds
overwrites the signature buffer completely: what it held before cannot be seen in what it
holds afterwards.
-/

namespace BitcoinPqc

variable {E : Build} {H : HashFns}

/-- An argument that has to be there is NULL. -/
def ArgsRejected (sig : Option (Vector UInt8 3680)) (siglen : Option ℕ)
    (m : Option (List UInt8)) (mlen : ℕ) (sk : Option (List UInt8)) : Prop :=
  sig = none ∨ siglen = none ∨ sk = none ∨ m = none ∧ mlen ≠ 0

theorem slhDsaSignWithStats_of_argsRejected {sig : Option (Vector UInt8 3680)}
    {siglen : Option ℕ} {m : Option (List UInt8)} {mlen : ℕ} {sk : Option (List UInt8)}
    (h : ArgsRejected sig siglen m mlen sk) (stats : Option SignStats) (T : ThreadState) :
    (slhDsaSignWithStats E H sig siglen m mlen sk stats T).val =
      ⟨-1, sig.map fun _ => Vector.replicate 3680 0, siglen.map fun _ => 0, stats, T⟩ := by
  rw [slhDsaSignWithStats, slhDsaSignWithStatsImpl.eq_def]
  split
  · obtain h | h | h | ⟨hnone, hsize⟩ := h
    · cases h
    · cases h
    · cases h
    · rw [if_pos ⟨Option.isNone_iff_eq_none.mpr hnone, hsize⟩]
      rfl
  · rfl

theorem exists_of_not_argsRejected {sig : Option (Vector UInt8 3680)} {siglen : Option ℕ}
    {m : Option (List UInt8)} {mlen : ℕ} {sk : Option (List UInt8)}
    (h : ¬ ArgsRejected sig siglen m mlen sk) :
    ∃ v l k, sig = some v ∧ siglen = some l ∧ sk = some k ∧ ¬ (m.isNone ∧ mlen ≠ 0) := by
  obtain ⟨hsig, hlen, hsk, hm⟩ : sig ≠ none ∧ siglen ≠ none ∧ sk ≠ none ∧
      ¬ (m = none ∧ mlen ≠ 0) := by
    simpa [ArgsRejected, not_or] using h
  obtain ⟨v, hv⟩ := Option.ne_none_iff_exists'.mp hsig
  obtain ⟨l, hl⟩ := Option.ne_none_iff_exists'.mp hlen
  obtain ⟨k, hk⟩ := Option.ne_none_iff_exists'.mp hsk
  exact ⟨v, l, k, hv, hl, hk, fun hnone =>
    hm ⟨Option.isNone_iff_eq_none.mp hnone.1, hnone.2⟩⟩

/-- What a call does with its outputs. -/
structure OutputDiscipline (E : Build) (H : HashFns) (sig : Option (Vector UInt8 3680))
    (siglen : Option ℕ) (m : Option (List UInt8)) (mlen : ℕ) (sk : Option (List UInt8))
    (stats : Option SignStats) (r : SlhDsaSignResult) : Prop where
  failed : r.code ≠ 0 → r.sig = (sig.map fun _ => Vector.replicate 3680 0) ∧
    r.siglen = siglen.map fun _ => 0
  signed : r.code = 0 → ∃ v, r.sig = some v ∧ r.siglen = some 3680 ∧
    ∀ (v₀ : Vector UInt8 3680) (l₀ : ℕ) (stats' : Option SignStats) (T' : ThreadState),
      (slhDsaSignWithStats E H (some v₀) (some l₀) m mlen sk stats' T').val.code = 0 ∧
        (slhDsaSignWithStats E H (some v₀) (some l₀) m mlen sk stats' T').val.sig = some v
  rejected : ArgsRejected sig siglen m mlen sk ∨ r.code = slhDsaSignErrorBadKey →
    r.stats = stats

/-- Two calls for the same key and message agree, whatever their buffers held. -/
theorem signed_unique {sig : Vector UInt8 3680} {siglen : ℕ} {m : Option (List UInt8)}
    {mlen : ℕ} {sk : List UInt8} {stats : Option SignStats} {T : ThreadState}
    (sig' : Vector UInt8 3680) (siglen' : ℕ) (stats' : Option SignStats) (T' : ThreadState)
    (h : (slhDsaSignWithStats E H (some sig) (some siglen) m mlen (some sk) stats
      T).val.code = 0) :
    (slhDsaSignWithStats E H (some sig') (some siglen') m mlen (some sk) stats'
        T').val.code = 0 ∧
      (slhDsaSignWithStats E H (some sig') (some siglen') m mlen (some sk) stats'
          T').val.sig =
        (slhDsaSignWithStats E H (some sig) (some siglen) m mlen (some sk) stats
          T).val.sig := by
  obtain ⟨hm, hkey⟩ := accepted_of_signed h
  obtain ⟨hcode, _⟩ := slhDsaSignWithStats_of_accepted E sig siglen hm hkey stats T
  obtain ⟨hcode', _⟩ := slhDsaSignWithStats_of_accepted E sig' siglen' hm hkey stats' T'
  have hsame : SameResult
      (cryptoSignSignature E H sig ((m.getD [0]).take mlen) (bytesAt 64 sk)
        (signThread E H (m.getD [0]) mlen sk)).val
      (cryptoSignSignature E H sig' ((m.getD [0]).take mlen) (bytesAt 64 sk)
        (signThread E H (m.getD [0]) mlen sk)).val :=
    (cryptoSignSignature_val E H sig _ _ _).sameResult
      (cryptoSignSignature_val E H sig' _ _ _)
  rw [← hsame.code, ← hcode, h] at hcode'
  obtain ⟨r₀, hsigned, hsig, _⟩ := signed_of_code_eq_zero h
  obtain ⟨r₀', hsigned', hsig', _⟩ := signed_of_code_eq_zero hcode'
  refine ⟨hcode', ?_⟩
  rw [hsig, hsig', hsigned.sig_eq_of_le le_rfl rfl hsigned']

/-- A call that fails after its arguments were accepted clears its outputs. -/
theorem outputDiscipline_of_code_ne_zero {sig : Vector UInt8 3680} {siglen : ℕ}
    {m : Option (List UInt8)} {mlen : ℕ} {sk : List UInt8} {stats : Option SignStats}
    {r : SlhDsaSignResult}
    (hargs : ¬ ArgsRejected (some sig) (some siglen) m mlen (some sk))
    (hcase : SignCase E H (m.getD [0]) mlen sk stats r) (hcode : r.code ≠ 0) :
    OutputDiscipline E H (some sig) (some siglen) m mlen (some sk) stats r := by
  cases hcase with
  | badKey hkey T' =>
      exact ⟨fun _ => ⟨rfl, rfl⟩, fun h => absurd h hcode, fun _ => rfl⟩
  | limit hkey hlimit stats' T' =>
      refine ⟨fun _ => ⟨rfl, rfl⟩, fun h => absurd h hcode, fun h => ?_⟩
      rcases h with h | h
      · exact absurd h hargs
      · cases h
  | signed hkey hlimit r₀ T' hT' hsigned => exact absurd rfl hcode

theorem outputDiscipline_slhDsaSignWithStats (E : Build) (H : HashFns)
    (sig : Option (Vector UInt8 3680)) (siglen : Option ℕ) (m : Option (List UInt8))
    (mlen : ℕ) (sk : Option (List UInt8)) (stats : Option SignStats) (T : ThreadState) :
    OutputDiscipline E H sig siglen m mlen sk stats
      (slhDsaSignWithStats E H sig siglen m mlen sk stats T).val := by
  by_cases hargs : ArgsRejected sig siglen m mlen sk
  · rw [slhDsaSignWithStats_of_argsRejected hargs]
    exact ⟨fun _ => ⟨rfl, rfl⟩, fun h => (by cases h), fun _ => rfl⟩
  · obtain ⟨v, l, k, rfl, rfl, rfl, hm⟩ := exists_of_not_argsRejected hargs
    by_cases hcode : (slhDsaSignWithStats E H (some v) (some l) m mlen (some k) stats
        T).val.code = 0
    · obtain ⟨r₀, _, hsig, hlen⟩ := signed_of_code_eq_zero hcode
      refine ⟨fun h => absurd hcode h, fun _ => ⟨r₀.sig, hsig, hlen, ?_⟩, fun h => ?_⟩
      · intro v₀ l₀ stats' T'
        obtain ⟨hcode', hsame⟩ := signed_unique v₀ l₀ stats' T' hcode
        exact ⟨hcode', hsame.trans hsig⟩
      · rcases h with h | h
        · exact absurd h hargs
        · rw [hcode] at h
          cases h
    · exact outputDiscipline_of_code_ne_zero hargs
        (signCase_slhDsaSignWithStats E H v l hm k stats T) hcode

/-- Whatever their arguments, the previous contents of the buffers and the caps, the two
signing functions clear both outputs when they fail, write all bytes of the signature
when they sign, and leave the statistics alone when they reject an argument or the
key. -/
theorem slhDsaSign_outputDiscipline (E : Build) (H : HashFns)
    (sig : Option (Vector UInt8 3680)) (siglen : Option ℕ) (m : Option (List UInt8))
    (mlen : ℕ) (sk : Option (List UInt8)) (stats : Option SignStats) (T : ThreadState) :
    OutputDiscipline E H sig siglen m mlen sk stats
        (slhDsaSignWithStats E H sig siglen m mlen sk stats T).val ∧
      OutputDiscipline E H sig siglen m mlen sk none
        (slhDsaSign E H sig siglen m mlen sk T).val :=
  ⟨outputDiscipline_slhDsaSignWithStats E H sig siglen m mlen sk stats T,
    outputDiscipline_slhDsaSignWithStats E H sig siglen m mlen sk none T⟩

end BitcoinPqc
