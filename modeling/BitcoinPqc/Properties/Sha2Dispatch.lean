import BitcoinPqc.Properties.CommonCrypto
import BitcoinPqc.Properties.Sha2X86
import BitcoinPqc.Sphincs.Sha2Dispatch

/-!
# Threads and the choice of a backend

Nothing but the atomic variables synchronises the threads, so two of them may both choose a
backend, and with another environment not the same one. What every pointer that is stored
points to is a backend that the platform supports, and these return what the scalar code
does, so no call sees the difference.

Where the environment stays as it is there is one choice only, the one that a single thread
makes.
-/

namespace BitcoinPqc

namespace ShaDispatch

variable {B : ShaBuild} {P : ShaPlatform} {J : String → Option String → Prop}

/-!
## What the variables hold
-/

/-- What a `hashblocks_impl` pointer may be. -/
structure Supported (B : ShaBuild) (P : ShaPlatform) (w : ShaWidth) (impl : Option ShaImpl) :
    Prop where
  not_arm : impl ≠ some .arm
  x86 : impl = some .x86 → intrinsics B w ∧ detect P w
  commonCrypto : impl = some .commonCrypto → B.commonCrypto

/-- What the x86 support check returns. -/
def available (B : ShaBuild) (P : ShaPlatform) (w : ShaWidth) : ℤ :=
  if intrinsics B w ∧ detect P w then 1 else 0

/-- What every variable holds at any time. -/
def Holding (B : ShaBuild) (P : ShaPlatform) : ∀ x : ShaVar, x.Value → Prop
  | .flag (.niAvailable w), v => v = (-1 : ℤ) ∨ v = if detect P w then (1 : ℤ) else 0
  | .flag _, _ => True
  | .hashblocksImpl w, p => Supported B P w p

theorem holding_first (x : ShaVar) : Holding B P x x.first := by
  rcases x with (_ | _ | w) | w
  · trivial
  · trivial
  · exact Or.inl rfl
  · exact ⟨nofun, nofun, nofun⟩

theorem supported_ref (w : ShaWidth) : Supported B P w (some .ref) :=
  ⟨by simp, by simp, by simp⟩

theorem supported_commonCrypto (w : ShaWidth) (h : B.commonCrypto) :
    Supported B P w (some .commonCrypto) :=
  ⟨by simp, by simp, fun _ => h⟩

theorem supported_x86 {w : ShaWidth} (h : available B P w ≠ 0) :
    Supported B P w (some .x86) := by
  refine ⟨by simp, fun _ => ?_, by simp⟩
  by_contra hnot
  rw [available, if_neg hnot] at h
  exact h rfl

/-!
## One call at a time
-/

theorem holds_spxEnvFlag (name : String) :
    (spxEnvFlag B name).Holds (Holding B P) J fun _ => True := by
  unfold spxEnvFlag getenv
  split
  · simp [Prog.holds_bind]
  · trivial

theorem holds_spxOptProfileIs (profile : String) :
    (spxOptProfileIs B profile).Holds (Holding B P) J fun _ => True := by
  unfold spxOptProfileIs getenv
  split
  · simp [Prog.holds_bind]
  · trivial

theorem holds_spxOptDisableShaAccel :
    (spxOptDisableShaAccel B).Holds (Holding B P) J fun _ => True := by
  refine Prog.holds_cached (fun _ _ _ => trivial) ?_
  refine Prog.holds_bind.mpr ((holds_spxEnvFlag _).mono fun flag _ => ?_)
  split
  · exact ⟨trivial, trivial⟩
  · exact Prog.holds_bind.mpr ((holds_spxOptProfileIs _).mono fun _ _ => ⟨trivial, trivial⟩)

theorem holds_spxOptShaBackendMode :
    (spxOptShaBackendMode B).Holds (Holding B P) J fun _ => True := by
  unfold spxOptShaBackendMode getenv
  split
  · trivial
  · split
    · refine Prog.holds_cached (fun _ _ _ => trivial) ?_
      exact Prog.holds_bind.mpr fun _ _ => ⟨trivial, trivial⟩
    · trivial

theorem holds_spxSha2X86CanUse (w : ShaWidth) :
    (spxSha2X86CanUse B P w).Holds (Holding B P) J fun v => v = available B P w := by
  unfold spxSha2X86CanUse available
  by_cases h : intrinsics B w
  · simp only [h, if_true, true_and]
    refine Prog.holds_cached ?_ ⟨Or.inr rfl, rfl⟩
    rintro v (rfl | rfl) hset
    · cases hset
    · rfl
  · simp [h]

theorem holds_spxSelectHashblocksImpl (w : ShaWidth) :
    (spxSelectHashblocksImpl B P w).Holds (Holding B P) J fun p =>
      Supported B P w p ∧ p ≠ none := by
  have harm : ¬(B.armSha ∧ spxSha2ArmCanUse w ≠ 0) := by
    cases w <;> exact fun h => h.2 rfl
  refine Prog.holds_bind.mpr (holds_spxOptShaBackendMode.mono fun mode _ => ?_)
  refine Prog.holds_bind.mpr (holds_spxOptDisableShaAccel.mono fun disabled _ => ?_)
  simp only [harm, if_false]
  split
  · exact ⟨supported_ref w, by simp⟩
  split
  · exact ⟨supported_ref w, by simp⟩
  split
  · refine Prog.holds_bind.mpr ((holds_spxSha2X86CanUse w).mono fun v hv => ?_)
    subst hv
    refine ⟨?_, Option.some_ne_none _⟩
    split
    · next h => exact supported_x86 h
    · exact supported_ref w
  split
  · refine ⟨?_, Option.some_ne_none _⟩
    split
    · next h => exact supported_commonCrypto w h
    · exact supported_ref w
  · refine Prog.holds_bind.mpr ((holds_spxSha2X86CanUse w).mono fun v hv => ?_)
    subst hv
    refine ⟨?_, Option.some_ne_none _⟩
    split
    · next h => exact supported_x86 h
    split
    · next h => exact supported_commonCrypto w h
    · exact supported_ref w

theorem holds_spxGetHashblocksImpl (w : ShaWidth) :
    (spxGetHashblocksImpl B P w).Holds (Holding B P) J fun p =>
      Supported B P w p ∧ p ≠ none := by
  refine Prog.holds_cached ?_ ?_
  · rintro (_ | p) hp hset
    · cases hset
    · exact ⟨hp, Option.some_ne_none p⟩
  · exact (holds_spxSelectHashblocksImpl w).mono fun p hp => ⟨hp.1, hp⟩

/-- The lengths for which every backend does what the scalar code does. -/
def Short (B : ShaBuild) (inp : List UInt8) : Prop :=
  inp.length < 2 ^ 64 ∧ (B.commonCrypto → inp.length < 2 ^ 32)

/-- CommonCrypto, where there is one, does what it documents. -/
structure CcDocumented (B : ShaBuild) (P : ShaPlatform) : Prop where
  sha256 : B.commonCrypto → CcUpdates sha256Compress P.ccSha256Update
  sha512 : B.commonCrypto → CcUpdates sha512Compress P.ccSha512Update

variable {inp : List UInt8}

theorem holds_spxSha2X86HashblocksSha256 (statebytes : Vector UInt8 32)
    (h : intrinsics B .sha256 ∧ detect P .sha256) :
    (spxSha2X86HashblocksSha256 B P statebytes inp).Holds (Holding B P) J fun r =>
      inp.length < 2 ^ 64 → r = (cryptoHashblocksSha256Ref statebytes inp).val := by
  have hcpu : spxSha2X86CanUseSha256Ni P.cpu 1 ≠ 0 := one_ne_zero
  have heq (hlen : inp.length < 2 ^ 64) :=
    spxSha2X86HashblocksSha256_eq hcpu hlen statebytes
  by_cases hfull : inp.length &&& (2 ^ 64 - 64) = 0
  · rw [spxSha2X86HashblocksSha256, if_neg fun h => h.2 hfull]
    intro hlen
    rw [← heq hlen, BitcoinPqc.spxSha2X86HashblocksSha256]
    simp only [hfull, true_or, if_true]
  · rw [spxSha2X86HashblocksSha256, if_pos ⟨h.1, hfull⟩]
    refine Prog.holds_bind.mpr ((holds_spxSha2X86CanUse .sha256).mono fun v hv => ?_)
    rw [hv, available, if_pos h]
    exact heq

theorem holds_spxSha2X86HashblocksSha512 (statebytes : Vector UInt8 64)
    (h : intrinsics B .sha512 ∧ detect P .sha512) :
    (spxSha2X86HashblocksSha512 B P statebytes inp).Holds (Holding B P) J fun r =>
      inp.length < 2 ^ 64 → r = ((cryptoHashblocksSha512Ref statebytes inp).val.1,
        ((cryptoHashblocksSha512Ref statebytes inp).val.2 : ℤ)) := by
  have hcpu : spxSha2X86CanUseSha512Ni P.cpu 1 ≠ 0 := one_ne_zero
  have heq (hlen : inp.length < 2 ^ 64) :=
    spxSha2X86HashblocksSha512_eq hcpu hlen statebytes
  by_cases hfull : inp.length &&& (2 ^ 64 - 128) = 0
  · rw [spxSha2X86HashblocksSha512, if_neg fun h => h.2 hfull]
    intro hlen
    rw [← heq hlen, BitcoinPqc.spxSha2X86HashblocksSha512]
    simp only [hfull, true_or, if_true]
  · rw [spxSha2X86HashblocksSha512, if_pos ⟨h.1, hfull⟩]
    refine Prog.holds_bind.mpr ((holds_spxSha2X86CanUse .sha512).mono fun v hv => ?_)
    rw [hv, available, if_pos h]
    exact heq

theorem holds_callSha256Impl (hcc : CcDocumented B P) (statebytes : Vector UInt8 32)
    {impl : Option ShaImpl} (h : Supported B P .sha256 impl) (hne : impl ≠ none) :
    (callSha256Impl B P statebytes inp impl).Holds (Holding B P) J fun r =>
      r ≠ none ∧ (Short B inp → r = some (cryptoHashblocksSha256Ref statebytes inp).val) := by
  rcases impl with _ | _ | _ | _ | _
  · exact absurd rfl hne
  · exact ⟨Option.some_ne_none _, fun _ => rfl⟩
  · refine Prog.holds_bind.mpr ?_
    exact (holds_spxSha2X86HashblocksSha256 statebytes (h.x86 rfl)).mono
      fun r hr => ⟨Option.some_ne_none _, fun hlen => congrArg some (hr hlen.1)⟩
  · exact absurd rfl h.not_arm
  · refine ⟨Option.some_ne_none _, fun hlen => ?_⟩
    have hagree := (ccHashblocks_agree_iff (by decide) (by decide) storeWords32_loadWords32
      (hcc.sha256 (h.commonCrypto rfl)) (and_two_pow_sub _ 6 hlen.1 (by decide))
      statebytes).mpr (hlen.2 (h.commonCrypto rfl))
    exact congrArg some (Prod.ext hagree.state hagree.remainder)

/-- The `int` that the functions return holds the number of bytes left over. -/
theorem cryptoHashblocksSha512Ref_bmod (statebytes : Vector UInt8 64) (inp : List UInt8) :
    ((cryptoHashblocksSha512Ref statebytes inp).val.2 : ℤ).bmod (2 ^ 32) =
      (cryptoHashblocksSha512Ref statebytes inp).val.2 := by
  have hrest : (cryptoHashblocksSha512Ref statebytes inp).val.2 < 128 := by
    rw [cryptoHashblocksSha512Ref, BitcoinPqc.cryptoHashblocksSha512, hashblocks_eq]
    exact Nat.mod_lt _ sha512BlockBytes_pos
  exact Int.bmod_eq_of_le (by omega) (by omega)

theorem holds_callSha512Impl (hcc : CcDocumented B P) (statebytes : Vector UInt8 64)
    {impl : Option ShaImpl} (h : Supported B P .sha512 impl) (hne : impl ≠ none) :
    (callSha512Impl B P statebytes inp impl).Holds (Holding B P) J fun r =>
      r ≠ none ∧ (Short B inp → r = some ((cryptoHashblocksSha512Ref statebytes inp).val.1,
        ((cryptoHashblocksSha512Ref statebytes inp).val.2 : ℤ))) := by
  rcases impl with _ | _ | _ | _ | _
  · exact absurd rfl hne
  · refine ⟨Option.some_ne_none _, fun _ => ?_⟩
    exact congrArg (fun n => some (_, n)) (cryptoHashblocksSha512Ref_bmod statebytes inp)
  · refine Prog.holds_bind.mpr ?_
    exact (holds_spxSha2X86HashblocksSha512 statebytes (h.x86 rfl)).mono
      fun r hr => ⟨Option.some_ne_none _, fun hlen => congrArg some (hr hlen.1)⟩
  · exact absurd rfl h.not_arm
  · refine ⟨Option.some_ne_none _, fun hlen => ?_⟩
    have hagree : HashblocksAgree inp
        (spxCcSha512Hashblocks P.ccSha512Update statebytes inp)
        (cryptoHashblocksSha512Ref statebytes inp) :=
      (ccHashblocks_agree_iff (by decide) (by decide) storeWords64_loadWords64
        (hcc.sha512 (h.commonCrypto rfl)) (and_two_pow_sub _ 7 hlen.1 (by decide))
        statebytes).mpr (hlen.2 (h.commonCrypto rfl))
    rw [← cryptoHashblocksSha512Ref_bmod, ← hagree.state, ← hagree.remainder]

end ShaDispatch

open ShaDispatch

variable {B : ShaBuild} {P : ShaPlatform} {J : String → Option String → Prop}

/-!
## Every interleaving
-/

/-- What a call is to return: on an input that is not too long for any backend, what the
scalar code returns. No call goes through a null pointer. A query reports no backend, the
scalar one, or a supported one, which is never the one for ARM. -/
def ShaCall.Correct (B : ShaBuild) (P : ShaPlatform) : ∀ c : ShaCall, c.Result → Prop
  | cryptoHashblocksSha256 statebytes inp, r =>
      r ≠ none ∧ (Short B inp → r = some (cryptoHashblocksSha256Ref statebytes inp).val)
  | cryptoHashblocksSha512 statebytes inp, r =>
      r ≠ none ∧ (Short B inp → r = some ((cryptoHashblocksSha512Ref statebytes inp).val.1,
        ((cryptoHashblocksSha512Ref statebytes inp).val.2 : ℤ)))
  | spxSha2TestImpl w, id =>
      id = (0 : ℕ) ∨ id = (1 : ℕ) ∨ (id = (2 : ℕ) ∧ intrinsics B w ∧ detect P w) ∨
        (id = (4 : ℕ) ∧ B.commonCrypto)

/-- The most actions that a call takes. -/
def ShaCall.bound : ShaCall → ℕ
  | spxSha2TestImpl _ => 1
  | _ => 13

theorem holds_body (hcc : CcDocumented B P) (c : ShaCall) :
    (c.body B P).Holds (Holding B P) J (c.Correct B P) := by
  cases c with
  | cryptoHashblocksSha256 statebytes inp =>
      exact Prog.holds_bind.mpr ((holds_spxGetHashblocksImpl .sha256).mono fun impl h =>
        holds_callSha256Impl hcc statebytes h.1 h.2)
  | cryptoHashblocksSha512 statebytes inp =>
      exact Prog.holds_bind.mpr ((holds_spxGetHashblocksImpl .sha512).mono fun impl h =>
        holds_callSha512Impl hcc statebytes h.1 h.2)
  | spxSha2TestImpl w =>
      rintro (_ | _ | _ | _ | _) h
      · exact Or.inl rfl
      · exact Or.inr (Or.inl rfl)
      · exact Or.inr (Or.inr (Or.inl ⟨rfl, h.x86 rfl⟩))
      · exact absurd rfl h.not_arm
      · have hid : spxSha2ImplId B (some .commonCrypto) = 4 := by
          simp [spxSha2ImplId, h.commonCrypto rfl]
        exact Or.inr (Or.inr (Or.inr ⟨hid, h.commonCrypto rfl⟩))

/-!
## Bounds
-/

namespace ShaDispatch

theorem within_cachedFlag (f : ShaFlag) {compute : ShaProg ℤ} {n : ℕ}
    (h : compute.Within n) : (cachedFlag f compute).Within (n + 2) :=
  h.cached

theorem within_spxEnvFlag (name : String) : (spxEnvFlag B name).Within 1 := by
  unfold spxEnvFlag
  split
  · exact (Prog.within_query name).bind (n := 0) fun _ => Prog.within_pure _
  · exact Prog.within_pure _

theorem within_spxOptProfileIs (profile : String) : (spxOptProfileIs B profile).Within 1 := by
  unfold spxOptProfileIs
  split
  · exact (Prog.within_query "SPX_OPT_PROFILE").bind (n := 0) fun _ => Prog.within_pure _
  · exact Prog.within_pure _

theorem within_spxOptDisableShaAccel : (spxOptDisableShaAccel B).Within 4 := by
  refine within_cachedFlag _ ((within_spxEnvFlag _).bind (n := 1) fun flag => ?_)
  split
  · exact Prog.within_pure _
  · exact (within_spxOptProfileIs _).bind (n := 0) fun _ => Prog.within_pure _

theorem within_spxOptShaBackendMode : (spxOptShaBackendMode B).Within 3 := by
  unfold spxOptShaBackendMode
  split
  · exact Prog.within_pure _
  split
  · exact within_cachedFlag _ ((Prog.within_query "SPX_SHA_BACKEND").bind (n := 0)
      fun _ => Prog.within_pure _)
  · exact Prog.within_pure _

theorem within_spxSha2X86CanUse (w : ShaWidth) : (spxSha2X86CanUse B P w).Within 2 := by
  unfold spxSha2X86CanUse
  split
  · exact within_cachedFlag _ (Prog.within_pure (n := 0) _)
  · exact Prog.within_pure _

theorem within_spxSelectHashblocksImpl (w : ShaWidth) :
    (spxSelectHashblocksImpl B P w).Within 9 := by
  refine within_spxOptShaBackendMode.bind (n := 6) fun mode => ?_
  refine within_spxOptDisableShaAccel.bind (n := 2) fun disabled => ?_
  split
  · exact Prog.within_pure _
  split
  · exact Prog.within_pure _
  split
  · exact (within_spxSha2X86CanUse w).bind (n := 0) fun _ => Prog.within_pure _
  split
  · exact Prog.within_pure _
  · exact (within_spxSha2X86CanUse w).bind (n := 0) fun _ => Prog.within_pure _

theorem within_spxGetHashblocksImpl (w : ShaWidth) :
    (spxGetHashblocksImpl B P w).Within 11 :=
  (within_spxSelectHashblocksImpl w).cached

theorem within_callSha256Impl (statebytes : Vector UInt8 32) (inp : List UInt8)
    (impl : Option ShaImpl) : (callSha256Impl B P statebytes inp impl).Within 2 := by
  rcases impl with _ | _ | _ | _ | _
  case some.x86 =>
    refine Prog.Within.bind (m := 2) (n := 0) ?_ fun _ => Prog.within_pure _
    unfold spxSha2X86HashblocksSha256
    split
    · exact (within_spxSha2X86CanUse _).bind (n := 0) fun _ => Prog.within_pure _
    · exact Prog.within_pure _
  all_goals exact Prog.within_pure _

theorem within_callSha512Impl (statebytes : Vector UInt8 64) (inp : List UInt8)
    (impl : Option ShaImpl) : (callSha512Impl B P statebytes inp impl).Within 2 := by
  rcases impl with _ | _ | _ | _ | _
  case some.x86 =>
    refine Prog.Within.bind (m := 2) (n := 0) ?_ fun _ => Prog.within_pure _
    unfold spxSha2X86HashblocksSha512
    split
    · exact (within_spxSha2X86CanUse _).bind (n := 0) fun _ => Prog.within_pure _
    · exact Prog.within_pure _
  all_goals exact Prog.within_pure _

end ShaDispatch

theorem within_body (c : ShaCall) : (c.body B P).Within c.bound := by
  cases c with
  | cryptoHashblocksSha256 statebytes inp =>
      exact (within_spxGetHashblocksImpl .sha256).bind
        (within_callSha256Impl statebytes inp)
  | cryptoHashblocksSha512 statebytes inp =>
      exact (within_spxGetHashblocksImpl .sha512).bind
        (within_callSha512Impl statebytes inp)
  | spxSha2TestImpl w =>
      exact (Prog.within_read _).bind (n := 0) fun _ => Prog.within_pure _

variable (B P) in
theorem exists_shaThreads_returned {T : Type} [DecidableEq T] (env : String → Option String)
    (henv : ∀ q, J q (env q)) {t u : T} (htu : t ≠ u) (c d : ShaCall) :
    ∃ (s : ShaThreads T) (r : c.Result) (r' : d.Result), ShaThreads.Reachable B P J s ∧
      s.returned = [(u, ⟨d, r'⟩), (t, ⟨c, r⟩)] := by
  have hboth : ∃ s : ShaThreads T, ShaThreads.Reachable B P J s ∧
      s.returned = [(u, ⟨d, (d.body B P).eval ShaVar.first env⟩),
        (t, ⟨c, (c.body B P).eval ShaVar.first env⟩)] :=
    Threads.exists_reachable_returned henv htu c d
  obtain ⟨s, hs, hreturned⟩ := hboth
  exact ⟨s, _, _, hs, hreturned⟩

/-- In every interleaving of any number of threads, under an environment that may change at
any time, every hash call that has returned has returned what the scalar code does, unless
CommonCrypto is compiled in and the input is too long for it, and every pointer that was
stored is null or to a backend that the platform supports. No call waits for another thread,
and none takes more than 13 actions. -/
theorem shaThreads_sound (hcc : CcDocumented B P) (T : Type) [DecidableEq T]
    {s : ShaThreads T} (hs : ShaThreads.Reachable B P (fun _ _ => True) s) :
    (∀ e ∈ s.returned, e.2.1.Correct B P e.2.2) ∧
      (∀ w, ∀ impl ∈ s.written (.hashblocksImpl w), Supported B P w impl) ∧
      ∀ t r, s.running t = some r →
        r.taken ≤ r.call.bound ∧
          ∃ s', Threads.Step (ShaCall.body B P) (fun _ _ => True) s s' ∧
            s'.running t ≠ some r := by
  have hsound := hs.sound holding_first (holds_body hcc) within_body
  refine ⟨hsound.returned, fun w => hsound.written (.hashblocksImpl w), ?_⟩
  intro t r ht
  obtain ⟨_, left, hleft, _⟩ := hsound.running t r ht
  exact ⟨Nat.le_of_add_right_le hleft.le, hsound.exists_step (fun _ => ⟨none, trivial⟩) ht⟩

/-- A build with the x86 backend and the knobs, on a processor with every feature. -/
def knobsBuild : ShaBuild where
  productionBuild := false
  envKnobs := true
  armSha := false
  commonCrypto := false
  sha256Intrinsics := true
  sha512Intrinsics := true
  no_knobs := nofun
  no_intrinsics := nofun

/-- A processor with every feature and a CommonCrypto that is not used. -/
def fullPlatform : ShaPlatform where
  cpu := fullCpu
  ccSha256Update := ccUpdate sha256Compress
  ccSha512Update := ccUpdate sha512Compress

/-- Two threads hash a block each, the first calls of the process. -/
theorem shaThreads_sound_twoThreads :
    ∃ (s : ShaThreads Bool) (r r' : Option (Vector UInt8 32 × ℕ)),
      s.returned =
        [(true, ⟨.cryptoHashblocksSha256 iv256 ((List.range 100).map UInt8.ofNat), r'⟩),
          (false, ⟨.cryptoHashblocksSha256 iv256 (List.replicate 64 0x61), r⟩)] ∧
      r = some (cryptoHashblocksSha256Ref iv256 (List.replicate 64 0x61)).val ∧
      r' = some (cryptoHashblocksSha256Ref iv256
        ((List.range 100).map UInt8.ofNat)).val := by
  obtain ⟨s, r, r', hs, hreturned⟩ := exists_shaThreads_returned knobsBuild fullPlatform
    (T := Bool) (J := fun _ _ => True) (fun _ => none) (fun _ => trivial) Bool.false_ne_true
    (.cryptoHashblocksSha256 iv256 (List.replicate 64 0x61))
    (.cryptoHashblocksSha256 iv256 ((List.range 100).map UInt8.ofNat))
  have hcorrect := (shaThreads_sound ⟨Bool.noConfusion, Bool.noConfusion⟩ Bool hs).1
  rw [hreturned] at hcorrect
  have hshort (inp : List UInt8) (h : inp.length < 2 ^ 64) : Short knobsBuild inp :=
    ⟨h, Bool.noConfusion⟩
  refine ⟨s, r, r', hreturned, ?_, ?_⟩
  · exact (hcorrect _ (List.mem_cons_of_mem _ (List.mem_singleton_self _))).2
      (hshort _ (by rw [List.length_replicate]; decide))
  · exact (hcorrect _ List.mem_cons_self).2
      (hshort _ (by rw [List.length_map, List.length_range]; decide))

/-!
## One choice
-/

/-- Whether a flag of the environment is set. -/
def flagSet (value : Option String) : Bool :=
  value.any fun v => v ≠ "" && v ∈ ["1", "true", "TRUE", "yes", "YES", "on", "ON"]

/-- The backend mode in the environment `env`. -/
def modeIn (B : ShaBuild) (env : String → Option String) : ℤ :=
  if B.productionBuild then spxShaBackendScalar
  else if B.envKnobs then configuredMode (env "SPX_SHA_BACKEND")
  else spxShaBackendAuto

/-- Whether the environment `env` turns acceleration off. -/
def disabledIn (B : ShaBuild) (env : String → Option String) : Bool :=
  B.envKnobs && (flagSet (env "SPX_DISABLE_SHA_ACCEL") || env "SPX_OPT_PROFILE" = some "scalar")

/-- The backend for the environment `env`. -/
def shaChoice (B : ShaBuild) (P : ShaPlatform) (env : String → Option String)
    (w : ShaWidth) : ShaImpl :=
  let mode := modeIn B env
  if disabledIn B env ∨ mode = spxShaBackendScalar ∨ mode = spxShaBackendArm then .ref
  else if mode ≠ spxShaBackendCommonCrypto ∧ intrinsics B w ∧ detect P w then .x86
  else if mode ≠ spxShaBackendX86 ∧ B.commonCrypto then .commonCrypto
  else .ref

/-- The values that the variables come to hold in the environment `env`. -/
def finalIn (B : ShaBuild) (P : ShaPlatform) (env : String → Option String) :
    ∀ x : ShaVar, x.Value
  | .flag .disableShaAccel => (if disabledIn B env then 1 else 0 : ℤ)
  | .flag .shaBackendMode => modeIn B env
  | .flag (.niAvailable w) => (if detect P w then 1 else 0 : ℤ)
  | .hashblocksImpl w => some (shaChoice B P env w)

namespace ShaDispatch

variable {env : String → Option String}

theorem eval_cachedFlag (f : ShaFlag) (compute : ShaProg ℤ) :
    (cachedFlag f compute).eval ShaVar.first env = compute.eval ShaVar.first env := by
  unfold cachedFlag
  rw [Prog.eval_cached rfl]

theorem eval_spxEnvFlag (name : String) :
    (spxEnvFlag B name).eval ShaVar.first env = (B.envKnobs && flagSet (env name)) := by
  unfold spxEnvFlag getenv flagSet
  cases B.envKnobs
  · rfl
  · simp

theorem eval_spxOptProfileIs (profile : String) (hne : profile ≠ "") :
    (spxOptProfileIs B profile).eval ShaVar.first env =
      (B.envKnobs && env "SPX_OPT_PROFILE" = some profile) := by
  unfold spxOptProfileIs getenv
  cases B.envKnobs
  · rfl
  · cases henv : env "SPX_OPT_PROFILE" with
    | none => simp [henv]
    | some v =>
        by_cases hv : v = profile
        · simp [henv, hv, hne]
        · simp [henv, hv]

theorem eval_spxOptDisableShaAccel :
    (spxOptDisableShaAccel B).eval ShaVar.first env = if disabledIn B env then 1 else 0 := by
  unfold spxOptDisableShaAccel disabledIn
  rw [eval_cachedFlag, Prog.eval_bind, eval_spxEnvFlag]
  cases hflag : B.envKnobs && flagSet (env "SPX_DISABLE_SHA_ACCEL") with
  | true =>
      simp at hflag
      simp [hflag]
  | false =>
      rw [if_neg Bool.false_ne_true, Prog.eval_bind, eval_spxOptProfileIs _ (by decide),
        Bool.and_or_distrib_left, hflag, Bool.false_or]
      rfl

theorem eval_spxOptShaBackendMode :
    (spxOptShaBackendMode B).eval ShaVar.first env = modeIn B env := by
  unfold spxOptShaBackendMode modeIn
  split
  · rfl
  split
  · rw [eval_cachedFlag]
    rfl
  · rfl

theorem eval_spxSha2X86CanUse (w : ShaWidth) :
    (spxSha2X86CanUse B P w).eval ShaVar.first env = available B P w := by
  unfold spxSha2X86CanUse available
  by_cases h : intrinsics B w
  · simp only [h, if_true, true_and]
    rw [eval_cachedFlag]
    rfl
  · simp [h]

theorem eval_spxSelectHashblocksImpl (w : ShaWidth) :
    (spxSelectHashblocksImpl B P w).eval ShaVar.first env = some (shaChoice B P env w) := by
  have harm : ¬(B.armSha ∧ spxSha2ArmCanUse w ≠ 0) := by
    cases w <;> exact fun h => h.2 rfl
  have havailable : available B P w ≠ 0 ↔ intrinsics B w ∧ detect P w := by
    rw [available]
    split <;> simp [*]
  unfold spxSelectHashblocksImpl shaChoice
  simp only [Prog.eval_bind, eval_spxOptShaBackendMode, eval_spxOptDisableShaAccel, harm,
    if_false]
  generalize modeIn B env = mode
  generalize disabledIn B env = disabled
  have hdisabled : (if disabled then (1 : ℤ) else 0) ≠ 0 ↔ disabled := by
    cases disabled <;> simp
  simp only [hdisabled]
  by_cases hscalar : disabled ∨ mode = spxShaBackendScalar
  · rw [if_pos hscalar, if_pos (by tauto)]
    rfl
  rw [if_neg hscalar]
  by_cases hmodeArm : mode = spxShaBackendArm
  · rw [if_pos hmodeArm, if_pos (by tauto)]
    rfl
  have hspec : ¬(disabled ∨ mode = spxShaBackendScalar ∨ mode = spxShaBackendArm) := by
    tauto
  rw [if_neg hmodeArm]
  simp only [hspec, if_false]
  by_cases hmodeX86 : mode = spxShaBackendX86
  · subst hmodeX86
    simp only [if_true, Prog.eval_bind, eval_spxSha2X86CanUse, Prog.eval_pure, havailable]
    simp [spxShaBackendX86, spxShaBackendCommonCrypto]
  rw [if_neg hmodeX86]
  by_cases hmodeCc : mode = spxShaBackendCommonCrypto
  · subst hmodeCc
    simp [spxShaBackendX86, spxShaBackendCommonCrypto]
  · rw [if_neg hmodeCc]
    simp only [Prog.eval_bind, eval_spxSha2X86CanUse, Prog.eval_pure, havailable]
    simp [hmodeX86, hmodeCc]

/-- A program that returns what it returns on its own in the environment `env`. -/
abbrev Settled (B : ShaBuild) (P : ShaPlatform) (env : String → Option String)
    (J : String → Option String → Prop) {α : Type} (p : ShaProg α) : Prop :=
  p.Transparent ShaVar.first (finalIn B P env) J env

theorem settled_cachedFlag {f : ShaFlag} {compute : ShaProg ℤ}
    (h : Settled B P env J compute)
    (hfinal : (cachedFlag f compute).eval ShaVar.first env = finalIn B P env (.flag f)) :
    Settled B P env J (cachedFlag f compute) :=
  h.cached rfl (hfinal.symm.trans (eval_cachedFlag f compute))

theorem settled_spxSha2X86CanUse (w : ShaWidth) :
    Settled B P env J (spxSha2X86CanUse B P w) := by
  unfold spxSha2X86CanUse
  split
  · exact settled_cachedFlag (Prog.transparent_pure _) (Prog.eval_cached rfl _)
  · exact Prog.transparent_pure _

section Environment

variable (henv : B.envKnobs → ∀ q r, J q r → r = env q)
include henv

theorem settled_spxEnvFlag (name : String) : Settled B P env J (spxEnvFlag B name) := by
  unfold spxEnvFlag
  split
  · next h =>
      exact (Prog.transparent_query (henv h name)).bind (Prog.transparent_pure _)
  · exact Prog.transparent_pure _

theorem settled_spxOptProfileIs (profile : String) :
    Settled B P env J (spxOptProfileIs B profile) := by
  unfold spxOptProfileIs
  split
  · next h =>
      exact (Prog.transparent_query (henv h "SPX_OPT_PROFILE")).bind
        (Prog.transparent_pure _)
  · exact Prog.transparent_pure _

theorem settled_spxOptDisableShaAccel : Settled B P env J (spxOptDisableShaAccel B) := by
  refine settled_cachedFlag ?_ eval_spxOptDisableShaAccel
  refine (settled_spxEnvFlag henv _).bind ?_
  split
  · exact Prog.transparent_pure _
  · exact (settled_spxOptProfileIs henv _).bind (Prog.transparent_pure _)

theorem settled_spxOptShaBackendMode : Settled B P env J (spxOptShaBackendMode B) := by
  have heval : (spxOptShaBackendMode B).eval ShaVar.first env = modeIn B env :=
    eval_spxOptShaBackendMode
  unfold spxOptShaBackendMode at heval ⊢
  split
  · exact Prog.transparent_pure _
  · next hproduction =>
      split
      · next hknobs =>
          rw [if_neg hproduction, if_pos hknobs] at heval
          exact settled_cachedFlag ((Prog.transparent_query (henv hknobs _)).bind
            (Prog.transparent_pure _)) heval
      · exact Prog.transparent_pure _

theorem settled_spxSelectHashblocksImpl (w : ShaWidth) :
    Settled B P env J (spxSelectHashblocksImpl B P w) := by
  refine (settled_spxOptShaBackendMode henv).bind ?_
  refine (settled_spxOptDisableShaAccel henv).bind ?_
  split
  · exact Prog.transparent_pure _
  split
  · exact Prog.transparent_pure _
  split
  · exact (settled_spxSha2X86CanUse w).bind (Prog.transparent_pure _)
  split
  · exact Prog.transparent_pure _
  · exact (settled_spxSha2X86CanUse w).bind (Prog.transparent_pure _)

theorem settled_spxGetHashblocksImpl (w : ShaWidth) :
    Settled B P env J (spxGetHashblocksImpl B P w) :=
  (settled_spxSelectHashblocksImpl henv w).cached rfl
    (eval_spxSelectHashblocksImpl w).symm

end Environment

theorem settled_callSha256Impl (statebytes : Vector UInt8 32) (inp : List UInt8)
    (impl : Option ShaImpl) :
    Settled B P env J (callSha256Impl B P statebytes inp impl) := by
  rcases impl with _ | _ | _ | _ | _
  case some.x86 =>
    refine Prog.Transparent.bind ?_ (Prog.transparent_pure _)
    unfold spxSha2X86HashblocksSha256
    split
    · exact (settled_spxSha2X86CanUse _).bind (Prog.transparent_pure _)
    · exact Prog.transparent_pure _
  all_goals exact Prog.transparent_pure _

theorem settled_callSha512Impl (statebytes : Vector UInt8 64) (inp : List UInt8)
    (impl : Option ShaImpl) :
    Settled B P env J (callSha512Impl B P statebytes inp impl) := by
  rcases impl with _ | _ | _ | _ | _
  case some.x86 =>
    refine Prog.Transparent.bind ?_ (Prog.transparent_pure _)
    unfold spxSha2X86HashblocksSha512
    split
    · exact (settled_spxSha2X86CanUse _).bind (Prog.transparent_pure _)
    · exact Prog.transparent_pure _
  all_goals exact Prog.transparent_pure _

end ShaDispatch

/-- What a call reports of the choice of a backend. -/
def ShaCall.Reports (choice : ShaWidth → ℕ) : ∀ c : ShaCall, c.Result → Prop
  | spxSha2TestImpl w, id => id = (0 : ℕ) ∨ id = choice w
  | _, _ => True

theorem reports_body {env : String → Option String}
    (henv : B.envKnobs → ∀ q r, J q r → r = env q) (c : ShaCall) :
    (c.body B P).Holds (fun x v => v = x.first ∨ v = finalIn B P env x) J
      (c.Reports fun w => spxSha2ImplId B (some (shaChoice B P env w))) := by
  cases c with
  | cryptoHashblocksSha256 statebytes inp =>
      exact ((settled_spxGetHashblocksImpl henv .sha256).bind
        (settled_callSha256Impl statebytes inp _)).mono fun _ _ => trivial
  | cryptoHashblocksSha512 statebytes inp =>
      exact ((settled_spxGetHashblocksImpl henv .sha512).bind
        (settled_callSha512Impl statebytes inp _)).mono fun _ _ => trivial
  | spxSha2TestImpl w =>
      rintro v (rfl | rfl)
      · exact Or.inl rfl
      · exact Or.inr rfl

/-- Where the environment does not change, and in every build that does not read it, all
threads use one backend for each function, which is `shaChoice`, in every interleaving. The
queries report no other, and no flag changes once it is set. -/
theorem shaThreads_one_choice (env : String → Option String)
    (henv : B.envKnobs → ∀ q r, J q r → r = env q) (T : Type) [DecidableEq T]
    {s : ShaThreads T} (hs : ShaThreads.Reachable B P J s) :
    (∀ w, ∀ impl ∈ s.written (.hashblocksImpl w),
        impl = none ∨ impl = some (shaChoice B P env w)) ∧
      (∀ e ∈ s.returned, e.2.1.Reports
        (fun w => spxSha2ImplId B (some (shaChoice B P env w))) e.2.2) ∧
      ∀ f : ShaFlag, ∀ v ∈ s.written (.flag f), v = -1 ∨ v = finalIn B P env (.flag f) := by
  have hsound := hs.sound (I := fun x v => v = x.first ∨ v = finalIn B P env x)
    (fun _ => Or.inl rfl) (reports_body henv) within_body
  exact ⟨fun w => hsound.written (.hashblocksImpl w), hsound.returned,
    fun f => hsound.written (.flag f)⟩

/-- Two threads hash a block each where the scalar code is asked for. -/
theorem shaThreads_one_choice_scalar :
    ∃ s : ShaThreads Bool, s.returned.length = 2 ∧
      ∀ w, ∀ impl ∈ s.written (.hashblocksImpl w), impl = none ∨
        impl = some (shaChoice knobsBuild fullPlatform (fun _ => some "scalar") w) := by
  obtain ⟨s, r, r', hs, hreturned⟩ := exists_shaThreads_returned knobsBuild fullPlatform
    (T := Bool) (J := fun _ r => r = some "scalar") (fun _ => some "scalar") (fun _ => rfl)
    Bool.false_ne_true (.cryptoHashblocksSha256 iv256 (List.replicate 64 0x61))
    (.cryptoHashblocksSha256 iv256 ((List.range 100).map UInt8.ofNat))
  exact ⟨s, congrArg List.length hreturned,
    (shaThreads_one_choice (fun _ => some "scalar") (fun _ _ _ hr => hr) Bool hs).1⟩

/-- Production builds use the scalar code. -/
example (env : String → Option String) (w : ShaWidth) (h : B.productionBuild) :
    shaChoice B P env w = .ref := by
  simp [shaChoice, modeIn, h]

end BitcoinPqc
