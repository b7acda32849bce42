import BitcoinPqc.Foundation.CyclicStream
import BitcoinPqc.Sphincs.Sign

/-!
# The deterministic random source

An installed source is read as a cyclic stream. The read offset stays below the size, so
every pass of the copy loop copies at least one byte and none reads past the end. Without a
source a request sets the failure flag, and the functions that ask for random bytes look at
the flag before they use them.
-/

namespace BitcoinPqc

/-!
## An installed source
-/

section Installed

variable {data : List UInt8} {size : ℕ}

theorem randomCopyLoop_sat (hsize : size ≤ data.length) {outlen position offset : ℕ}
    (h : offset < size) :
    Traced.Sat (fun read => 0 < read.2 ∧ read.1 + read.2 ≤ size)
      (fun r => r.1 = cycleSlice data size offset (outlen - position) ∧
        r.2.val = (offset + (outlen - position)) % size)
      (ThreadState.randomCopyLoop data size outlen position offset h) := by
  fun_induction ThreadState.randomCopyLoop data size outlen position offset h with
  | case1 position offset h hpos toCopy ih =>
      have hpositive : 0 < toCopy := by omega
      have hend : offset + toCopy ≤ size := by omega
      have hrest : outlen - position = toCopy + (outlen - (position + toCopy)) := by omega
      refine Traced.Sat.bind (Traced.Sat.ask (Q := fun copied => copied =
        cycleSlice data size offset toCopy) ⟨hpositive, hend⟩
          (cycleSlice_of_le hend hsize).symm) ?_
      rintro _ rfl
      refine Traced.Sat.bind ih ?_
      rintro rest ⟨hbytes, hoffset⟩
      refine Traced.Sat.pure ⟨?_, ?_⟩
      · rw [hbytes, cycleSlice_mod, hrest, cycleSlice_add]
      · rw [hoffset, Nat.mod_add_mod, hrest, Nat.add_assoc]
  | case2 position offset h hpos =>
      have hdone : outlen - position = 0 := Nat.sub_eq_zero_of_le (not_lt.mp hpos)
      rw [hdone]
      exact Traced.Sat.pure ⟨rfl, (Nat.mod_eq_of_lt h).symm⟩

/-- A source of `size` bytes is installed. -/
structure SourceInstalled (data : List UInt8) (size : ℕ) (T : ThreadState) : Prop where
  data_eq : T.randomData = some data
  size_eq : T.randomDataSize = size
  size_pos : 0 < size
  size_le : size ≤ data.length

/-- A request delivers the next bytes of the stream and keeps the failure flag. -/
theorem customSlhRandombytesImpl_sat {T : ThreadState} (hT : SourceInstalled data size T)
    {out : Option (List UInt8)} {outlen : ℕ} (hout : outlen ≠ 0 → out ≠ none) :
    Traced.Sat (fun read => 0 < read.2 ∧ read.1 + read.2 ≤ size)
      (fun r => r.1 = (out.map fun o =>
          cycleSlice data size T.randomDataOffset outlen ++ o.drop outlen) ∧
        SourceInstalled data size r.2 ∧
        r.2.randomDataOffset % size = (T.randomDataOffset + outlen) % size ∧
        r.2.randomSourceFailed = T.randomSourceFailed)
      (T.customSlhRandombytesImpl out outlen) := by
  obtain ⟨hdata, rfl, hpos, hle⟩ := hT
  have hsource : SourceInstalled data T.randomDataSize T := ⟨hdata, rfl, hpos, hle⟩
  rw [ThreadState.customSlhRandombytesImpl.eq_def]
  by_cases hzero : outlen = 0
  · subst hzero
    rw [if_pos rfl]
    exact Traced.Sat.pure ⟨by simp [cycleSlice_zero], hsource, rfl, rfl⟩
  · rw [if_neg hzero]
    obtain ⟨o, rfl⟩ := Option.ne_none_iff_exists'.mp (hout hzero)
    dsimp only
    split
    · next hnone =>
        rw [hdata] at hnone
        cases hnone
    · next data' hsome =>
        rw [hdata] at hsome
        cases hsome
        rw [dif_neg hpos.ne']
        refine Traced.Sat.bind (randomCopyLoop_sat hle _) ?_
        rintro r ⟨hbytes, hoffset⟩
        rw [Nat.sub_zero] at hbytes hoffset
        refine Traced.Sat.pure ⟨?_, ⟨hdata, rfl, hpos, hle⟩, ?_, rfl⟩
        · rw [hbytes, Option.map_some]
        · exact (congrArg (· % T.randomDataSize) hoffset).trans (Nat.mod_mod _ _)

end Installed

/-!
## Runs of requests
-/

/-- A request for random bytes. Only a request for no bytes may come without a buffer. -/
structure RandomRequest where
  out : Option (List UInt8)
  outlen : ℕ
  out_ne_none : outlen ≠ 0 → out ≠ none

/-- The bytes that a run of requests delivers. -/
def serveRequests : List RandomRequest → ThreadState →
    Traced (ℕ × ℕ) (List UInt8 × ThreadState)
  | [], T => pure ([], T)
  | r :: rs, T => do
      let (out, T) ← T.customSlhRandombytesImpl r.out r.outlen
      let (rest, T) ← serveRequests rs T
      pure ((out.getD []).take r.outlen ++ rest, T)

/-- The number of bytes that a run asks for. -/
def requestedBytes (requests : List RandomRequest) : ℕ :=
  (requests.map RandomRequest.outlen).sum

theorem serveRequests_sat {data : List UInt8} {size : ℕ} (requests : List RandomRequest)
    {T : ThreadState} (hT : SourceInstalled data size T) :
    Traced.Sat (fun read => 0 < read.2 ∧ read.1 + read.2 ≤ size)
      (fun r => r.1 = cycleSlice data size T.randomDataOffset (requestedBytes requests) ∧
        r.2.randomSourceFailed = T.randomSourceFailed)
      (serveRequests requests T) := by
  induction requests generalizing T with
  | nil => exact Traced.Sat.pure ⟨rfl, rfl⟩
  | cons r rs ih =>
      refine Traced.Sat.bind (customSlhRandombytesImpl_sat hT r.out_ne_none) ?_
      rintro ⟨out, T'⟩ ⟨hout, hT', hoffset, hflag⟩
      refine Traced.Sat.bind (ih hT') ?_
      rintro ⟨rest, T''⟩ ⟨hrest, hflag'⟩
      refine Traced.Sat.pure ⟨?_, hflag'.trans hflag⟩
      dsimp only at *
      have hpiece : (out.getD []).take r.outlen =
          cycleSlice data size T.randomDataOffset r.outlen := by
        rw [hout]
        cases hbuffer : r.out with
        | none =>
            have hzero : r.outlen = 0 := by
              by_contra hne
              exact r.out_ne_none hne hbuffer
            rw [hzero]
            rfl
        | some o => exact List.take_left' (length_cycleSlice _ _ _ _)
      have hnext : cycleSlice data size T'.randomDataOffset (requestedBytes rs) =
          cycleSlice data size (T.randomDataOffset + r.outlen) (requestedBytes rs) := by
        rw [← cycleSlice_mod, hoffset, cycleSlice_mod]
      rw [hpiece, hrest, hnext, ← cycleSlice_add]
      rfl

/-- After the installation a run delivers the repetition of the source from its start. -/
theorem serveRequests_initRandomSource {data : List UInt8} {size : ℕ} (hpos : 0 < size)
    (hle : size ≤ data.length) (requests : List RandomRequest) (T : ThreadState) :
    (serveRequests requests (T.initRandomSource (some data) size)).val.1 =
      (List.range (requestedBytes requests)).map fun i => data.getD (i % size) 0 := by
  have hsource : SourceInstalled data size (T.initRandomSource (some data) size) :=
    ⟨rfl, rfl, hpos, hle⟩
  rw [(serveRequests_sat requests hsource).2.1, cycleSlice]
  apply List.map_congr_left
  intro i _
  have hstart : (T.initRandomSource (some data) size).randomDataOffset + i = i :=
    Nat.zero_add i
  rw [cycleAt, hstart]
  rfl

/-!
## No source
-/

/-- No source is installed. -/
def NoSource (T : ThreadState) : Prop := T.randomData = none ∨ T.randomDataSize = 0

section NoSource

variable {T : ThreadState} (hT : NoSource T)

include hT

/-- A request without a source zero-fills its buffer and sets the flag. -/
theorem customSlhRandombytesImpl_of_noSource {outlen : ℕ} (hlen : outlen ≠ 0)
    (out : List UInt8) :
    T.customSlhRandombytesImpl (some out) outlen =
      pure (some (List.replicate outlen 0 ++ out.drop outlen), T.markRandomSourceFailed) := by
  simp only [ThreadState.customSlhRandombytesImpl, if_neg hlen]
  split
  · rfl
  · next data hdata =>
      rcases hT with hnone | hsize
      · rw [hdata] at hnone
        cases hnone
      · rw [dif_pos hsize]

theorem randomSourceFailed_randombytes_of_noSource {n : ℕ} (hn : n ≠ 0) :
    (T.clearFailure.randombytes n).2.randomSourceFailed = true := by
  have hclear : NoSource T.clearFailure := hT
  rw [ThreadState.randombytes, customSlhRandombytesImpl_of_noSource hclear hn]
  rfl

variable (E : Build) (H : HashFns)

theorem cryptoSignKeypair_of_noSource (pk : Vector UInt8 32) (sk : Vector UInt8 64) :
    ∃ T', cryptoSignKeypair E H pk sk T = pure ⟨-1, pk, sk, T'⟩ := by
  refine ⟨(T.clearFailure.randombytes cryptoSeedBytes).2, ?_⟩
  have hfailed := randomSourceFailed_randombytes_of_noSource hT (show cryptoSeedBytes ≠ 0 by decide)
  rw [cryptoSignKeypair]
  exact if_pos hfailed

theorem cryptoSignSignature_of_noSource (sig : Vector UInt8 3680) (m : List UInt8)
    (sk : Vector UInt8 64) :
    ∃ T', cryptoSignSignature E H sig m sk T = pure ⟨-1, 0, sig, T'⟩ := by
  refine ⟨T.clearFailure.randombytesBlock.2, ?_⟩
  have hfailed := randomSourceFailed_randombytes_of_noSource hT (show spxN ≠ 0 by decide)
  rw [cryptoSignSignature]
  exact if_pos hfailed

theorem cryptoSign_of_noSource (sm m : List UInt8) (mlen : ℕ) (sk : Vector UInt8 64) :
    ∃ T', cryptoSign E H sm m mlen sk T =
      pure ⟨-1, 0, List.replicate spxBytes 0 ++ sm.drop spxBytes, T'⟩ := by
  obtain ⟨T', hsign⟩ := cryptoSignSignature_of_noSource hT E H (bytesAt 3680 sm)
    (m.take mlen) sk
  refine ⟨T', ?_⟩
  rw [cryptoSign, hsign, pure_bind]
  exact if_pos (show (-1 : Int) ≠ 0 by decide)

end NoSource

/-- An installed source delivers its infinite repetition to every run of requests, and no
pass of the copy loop is empty or reads outside it. Without a source a request fails, and
key generation and signing fail with it before anything is hashed. -/
theorem randomSource_fails_closed :
    (∀ (T : ThreadState) (data : List UInt8) (size : ℕ), 0 < size → size ≤ data.length →
      ∀ requests : List RandomRequest,
        let source := T.initRandomSource (some data) size
        let run := serveRequests requests source
        (∀ read ∈ run.log, 0 < read.2 ∧ read.1 + read.2 ≤ size) ∧
          run.val.1 =
            (List.range (requestedBytes requests)).map (fun i => data.getD (i % size) 0) ∧
          run.val.2.randomSourceFailed = source.randomSourceFailed) ∧
      ∀ T : ThreadState, NoSource T →
        (∀ (out : List UInt8) (outlen : ℕ), outlen ≠ 0 →
          let r := (T.customSlhRandombytesImpl (some out) outlen).val
          r.1 = some (List.replicate outlen 0 ++ out.drop outlen) ∧
            r.2.randomSourceFailed = true) ∧
        (∀ outlen, outlen ≠ 0 →
          (T.customSlhRandombytesImpl none outlen).val.2.randomSourceFailed = true) ∧
        ∀ (E : Build) (H : HashFns),
          (∀ (pk : Vector UInt8 32) (sk : Vector UInt8 64),
            let r := cryptoSignKeypair E H pk sk T
            r.val.code ≠ 0 ∧ r.val.pk = pk ∧ r.val.sk = sk ∧ r.log = []) ∧
          (∀ (sig : Vector UInt8 3680) (m : List UInt8) (sk : Vector UInt8 64),
            let r := cryptoSignSignature E H sig m sk T
            r.val.code ≠ 0 ∧ r.val.siglen = 0 ∧ r.val.sig = sig ∧ r.log = []) ∧
          ∀ (sm m : List UInt8) (mlen : ℕ) (sk : Vector UInt8 64),
            let r := cryptoSign E H sm m mlen sk T
            r.val.code ≠ 0 ∧ r.val.smlen = 0 ∧
              r.val.sm.take spxBytes = List.replicate spxBytes 0 ∧ r.log = [] := by
  have hfailed : (-1 : Int) ≠ 0 := by decide
  refine ⟨?_, ?_⟩
  · intro T data size hpos hle requests source run
    have hsource : SourceInstalled data size source := ⟨rfl, rfl, hpos, hle⟩
    obtain ⟨hreads, _, hflag⟩ := serveRequests_sat requests hsource
    exact ⟨hreads, serveRequests_initRandomSource hpos hle requests T, hflag⟩
  · intro T hT
    refine ⟨?_, ?_, ?_⟩
    · intro out outlen hlen
      rw [customSlhRandombytesImpl_of_noSource hT hlen]
      exact ⟨rfl, rfl⟩
    · intro outlen hlen
      rw [ThreadState.customSlhRandombytesImpl, if_neg hlen]
      rfl
    · intro E H
      refine ⟨?_, ?_, ?_⟩
      · intro pk sk
        obtain ⟨T', h⟩ := cryptoSignKeypair_of_noSource hT E H pk sk
        rw [h]
        exact ⟨hfailed, rfl, rfl, rfl⟩
      · intro sig m sk
        obtain ⟨T', h⟩ := cryptoSignSignature_of_noSource hT E H sig m sk
        rw [h]
        exact ⟨hfailed, rfl, rfl, rfl⟩
      · intro sm m mlen sk
        obtain ⟨T', h⟩ := cryptoSign_of_noSource hT E H sm m mlen sk
        rw [h]
        exact ⟨hfailed, rfl, List.take_left' List.length_replicate, rfl⟩

/-- Two requests for two bytes each from a source of three bytes. -/
theorem randomSource_fails_closed_three :
    (serveRequests
      [⟨some [], 2, fun _ => Option.some_ne_none _⟩, ⟨some [], 2, fun _ => Option.some_ne_none _⟩]
      (ThreadState.fresh.initRandomSource (some [1, 2, 3]) 3)).val.1 = [1, 2, 3, 1] :=
  (randomSource_fails_closed.1 ThreadState.fresh [1, 2, 3] 3 (by decide) (by decide) _).2.1.trans
    (by decide)

end BitcoinPqc
