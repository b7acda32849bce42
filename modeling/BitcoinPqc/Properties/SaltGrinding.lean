import BitcoinPqc.Properties.SignOutcome

/-!
# The salt loop

`grindPass` is one pass through the body of the salt loop, with the counters of the code.
The heads that the loop reaches are the attempts before which no salt hit, in order, each
with its own salt, and no pass at such a head wraps the counter. `crypto_sign_signature`
goes on with the least salt that hits and with the digest and position of that salt.
-/

namespace BitcoinPqc

variable {E : Build} {H : HashFns}

/-!
## Salts
-/

@[simp] theorem xorSalt_zero (rBase : Block) : xorSalt rBase 0 = rBase := by
  apply Vector.ext
  intro i hi
  rw [xorSalt, getElem_write]
  split
  · next hmem =>
      obtain rfl | rfl | rfl | rfl : i = 0 ∨ i = 1 ∨ i = 2 ∨ i = 3 := by omega
      · exact UInt8.xor_zero
      · exact UInt8.xor_zero
      · exact UInt8.xor_zero
      · exact UInt8.xor_zero
  · rfl

theorem xorSalt_injective (rBase : Block) {j k : ℕ} (hj : j < 2 ^ 32) (hk : k < 2 ^ 32)
    (h : xorSalt rBase j = xorSalt rBase k) : j = k := by
  have hslice (c : ℕ) : slice (xorSalt rBase c) 0 4 =
      #v[rBase[0] ^^^ UInt8.ofNat c, rBase[1] ^^^ UInt8.ofNat (c >>> 8),
        rBase[2] ^^^ UInt8.ofNat (c >>> 16), rBase[3] ^^^ UInt8.ofNat (c >>> 24)] :=
    slice_write_self _ _ _ (by decide)
  have hbytes : slice (xorSalt rBase j) 0 4 = slice (xorSalt rBase k) 0 4 := by rw [h]
  simp only [hslice, Vector.mk.injEq, Array.mk.injEq, List.cons.injEq,
    UInt8.xor_right_inj, and_true] at hbytes
  apply u32ToBytes_injective j k hj hk
  obtain ⟨h0, h1, h2, h3⟩ := hbytes
  simp only [u32ToBytes, h0, h1, h2, h3]

/-!
## Passes
-/

/-- The variables at the head of the salt loop. -/
structure GrindHead where
  attempts : ℕ
  ctr : ℕ
  R : Block

/-- The ways in which the salt loop is left. -/
inductive GrindExit where
  | hit
  | limit
  | wrap

section Loop

variable (H) (rBase : Block) (pk : Vector UInt8 32) (m : List UInt8) (cap : ℕ)

/-- The digest under the salt leaves the last FORS tree at index zero. -/
def IndexZero (salt : Block) : Prop :=
  forscCompressedIndex (hashMessage H salt pk m).1 = 0

instance : DecidablePred (IndexZero H pk m) := fun _ => inferInstanceAs (Decidable (_ = _))

/-- One pass of the loop on 32-bit counters: the exit with the attempts made, or the next
head. -/
def grindPass (s : GrindHead) : Except (GrindExit × ℕ) GrindHead :=
  let attempts := (s.attempts + 1) % 2 ^ 32
  if IndexZero H pk m s.R then .error (.hit, attempts)
  else if attempts ≥ cap then .error (.limit, attempts)
  else
    let ctr := (s.ctr + 1) % 2 ^ 32
    if ctr = 0 then .error (.wrap, attempts)
    else .ok ⟨attempts, ctr, xorSalt rBase ctr⟩

/-- The heads that the loop reaches. -/
inductive GrindReached : GrindHead → Prop
  | start : GrindReached ⟨0, 0, rBase⟩
  | next {s s' : GrindHead} (hs : GrindReached s)
      (hpass : grindPass H rBase pk m cap s = .ok s') : GrindReached s'

/-- What the loop leaves at an exit. -/
def grindExitResult (T : ThreadState) (s : GrindHead) : GrindExit × ℕ → GrindResult
  | (.hit, attempts) =>
      ⟨0, s.R, (hashMessage H s.R pk m).1, (hashMessage H s.R pk m).2.1,
        (hashMessage H s.R pk m).2.2, T.recordForscAttempts attempts⟩
  | (.limit, attempts) =>
      ⟨signLimitExceeded, s.R, (hashMessage H s.R pk m).1, (hashMessage H s.R pk m).2.1,
        (hashMessage H s.R pk m).2.2, (T.recordForscAttempts attempts).recordForscCap⟩
  | (.wrap, _) =>
      ⟨-1, s.R, (hashMessage H s.R pk m).1, (hashMessage H s.R pk m).2.1,
        (hashMessage H s.R pk m).2.2, T⟩

/-- The loop from a head on. -/
def grindFrom (T : ThreadState) (s : GrindHead) : GrindResult :=
  grindLoop H rBase pk m (cap - 1 - s.attempts) s.attempts s.ctr s.R T

/-- The loop after a pass. -/
def grindAfter (T : ThreadState) (s : GrindHead) :
    Except (GrindExit × ℕ) GrindHead → GrindResult
  | .error exit => grindExitResult H pk m T s exit
  | .ok next => grindFrom H rBase pk m cap T next

variable {H rBase pk m cap}

theorem grindFrom_eq_grindAfter (hcap : cap < 2 ^ 32) {s : GrindHead}
    (hs : s.attempts < cap) (T : ThreadState) :
    grindFrom H rBase pk m cap T s =
      grindAfter H rBase pk m cap T s (grindPass H rBase pk m cap s) := by
  have hattempts : (s.attempts + 1) % 2 ^ 32 = s.attempts + 1 :=
    Nat.mod_eq_of_lt (by omega)
  rw [grindPass, hattempts, grindFrom, grindLoop.eq_def]
  dsimp only
  by_cases hhit : IndexZero H pk m s.R
  · rw [if_pos hhit]
    exact if_pos hhit
  · rw [if_neg hhit]
    refine (if_neg hhit).trans ?_
    by_cases hlast : s.attempts + 1 ≥ cap
    · rw [if_pos hlast, show cap - 1 - s.attempts = 0 by omega]
      rfl
    · rw [if_neg hlast, show cap - 1 - s.attempts = cap - 1 - (s.attempts + 1) + 1 by omega]
      dsimp only
      split
      · rfl
      · rfl

variable (H rBase pk m) in
theorem grindPass_at (hcap : cap < 2 ^ 32) {k : ℕ} (hk : k < cap) :
    (IndexZero H pk m (xorSalt rBase k) ∧
        grindPass H rBase pk m cap ⟨k, k, xorSalt rBase k⟩ = .error (.hit, k + 1)) ∨
      (¬ IndexZero H pk m (xorSalt rBase k) ∧ k + 1 = cap ∧
        grindPass H rBase pk m cap ⟨k, k, xorSalt rBase k⟩ = .error (.limit, cap)) ∨
      (¬ IndexZero H pk m (xorSalt rBase k) ∧ k + 1 < cap ∧
        grindPass H rBase pk m cap ⟨k, k, xorSalt rBase k⟩ =
          .ok ⟨k + 1, k + 1, xorSalt rBase (k + 1)⟩) := by
  have hmod : (k + 1) % 2 ^ 32 = k + 1 := Nat.mod_eq_of_lt (by omega)
  rw [grindPass]
  dsimp only
  rw [hmod]
  by_cases hhit : IndexZero H pk m (xorSalt rBase k)
  · exact Or.inl ⟨hhit, if_pos hhit⟩
  · rw [if_neg hhit]
    by_cases hlast : k + 1 ≥ cap
    · have heq : k + 1 = cap := by omega
      exact Or.inr (Or.inl ⟨hhit, heq, by rw [if_pos hlast, heq]⟩)
    · rw [if_neg hlast, if_neg (Nat.succ_ne_zero k)]
      exact Or.inr (Or.inr ⟨hhit, by omega, rfl⟩)

/-- The heads are the attempts before which no salt hit. -/
theorem grindReached_iff (hcap : cap < 2 ^ 32) (hpos : 0 < cap) (s : GrindHead) :
    GrindReached H rBase pk m cap s ↔
      ∃ k < cap, (∀ j < k, ¬ IndexZero H pk m (xorSalt rBase j)) ∧
        s = ⟨k, k, xorSalt rBase k⟩ := by
  constructor
  · intro h
    induction h with
    | start => exact ⟨0, hpos, fun j hj => absurd hj (Nat.not_lt_zero j), by rw [xorSalt_zero]⟩
    | next hs hpass ih =>
        obtain ⟨k, hk, hmiss, rfl⟩ := ih
        rcases grindPass_at H rBase pk m hcap hk with ⟨_, heq⟩ | ⟨_, _, heq⟩ | ⟨hno, hlt, heq⟩
        · rw [heq] at hpass
          cases hpass
        · rw [heq] at hpass
          cases hpass
        · rw [heq] at hpass
          cases hpass
          refine ⟨k + 1, hlt, fun j hj => ?_, rfl⟩
          rcases Nat.lt_succ_iff_lt_or_eq.mp hj with hj | rfl
          · exact hmiss j hj
          · exact hno
  · rintro ⟨k, hk, hmiss, rfl⟩
    induction k with
    | zero =>
        rw [xorSalt_zero]
        exact .start
    | succ k ih =>
        have hbefore := ih (by omega) fun j hj => hmiss j (by omega)
        rcases grindPass_at H rBase pk m hcap (show k < cap by omega) with
          ⟨hhit, _⟩ | ⟨_, hend, _⟩ | ⟨_, _, heq⟩
        · exact absurd hhit (hmiss k (Nat.lt_succ_self k))
        · omega
        · exact .next hbefore heq

/-- No head of the loop wraps the counter. -/
theorem grindPass_ne_wrap (hcap : cap < 2 ^ 32) (hpos : 0 < cap) {s : GrindHead}
    (hs : GrindReached H rBase pk m cap s) (attempts : ℕ) :
    grindPass H rBase pk m cap s ≠ .error (.wrap, attempts) := by
  obtain ⟨k, hk, _, rfl⟩ := (grindReached_iff hcap hpos s).mp hs
  intro hwrap
  rcases grindPass_at H rBase pk m hcap hk with ⟨_, heq⟩ | ⟨_, _, heq⟩ | ⟨_, _, heq⟩
  · rw [heq] at hwrap
    cases hwrap
  · rw [heq] at hwrap
    cases hwrap
  · rw [heq] at hwrap
    cases hwrap

theorem grindFrom_start (hcap : cap < 2 ^ 32) {k : ℕ} (hk : k < cap)
    (hmiss : ∀ j < k, ¬ IndexZero H pk m (xorSalt rBase j)) (T : ThreadState) :
    grindFrom H rBase pk m cap T ⟨0, 0, rBase⟩ =
      grindFrom H rBase pk m cap T ⟨k, k, xorSalt rBase k⟩ := by
  induction k with
  | zero => rw [xorSalt_zero]
  | succ k ih =>
      have hlt : k < cap := by omega
      rw [ih hlt fun j hj => hmiss j (by omega), grindFrom_eq_grindAfter hcap hlt]
      rcases grindPass_at H rBase pk m hcap hlt with
        ⟨hhit, _⟩ | ⟨_, hend, _⟩ | ⟨_, _, heq⟩
      · exact absurd hhit (hmiss k (Nat.lt_succ_self k))
      · omega
      · rw [heq]
        rfl

theorem grindFrom_of_hit (hcap : cap < 2 ^ 32) {k : ℕ} (hk : k < cap)
    (hhit : IndexZero H pk m (xorSalt rBase k))
    (hmiss : ∀ j < k, ¬ IndexZero H pk m (xorSalt rBase j)) (T : ThreadState) :
    grindFrom H rBase pk m cap T ⟨0, 0, rBase⟩ =
      grindExitResult H pk m T ⟨k, k, xorSalt rBase k⟩ (.hit, k + 1) := by
  rw [grindFrom_start hcap hk hmiss, grindFrom_eq_grindAfter hcap hk]
  rcases grindPass_at H rBase pk m hcap hk with
    ⟨_, heq⟩ | ⟨hno, _⟩ | ⟨hno, _⟩
  · rw [heq]
    rfl
  · exact absurd hhit hno
  · exact absurd hhit hno

theorem grindFrom_of_miss (hcap : cap < 2 ^ 32) (hpos : 0 < cap)
    (hmiss : ∀ k < cap, ¬ IndexZero H pk m (xorSalt rBase k)) (T : ThreadState) :
    grindFrom H rBase pk m cap T ⟨0, 0, rBase⟩ =
      grindExitResult H pk m T ⟨cap - 1, cap - 1, xorSalt rBase (cap - 1)⟩
        (.limit, cap) := by
  have hlt : cap - 1 < cap := by omega
  rw [grindFrom_start hcap hlt fun j hj => hmiss j (by omega),
    grindFrom_eq_grindAfter hcap hlt]
  rcases grindPass_at H rBase pk m hcap hlt with
    ⟨hhit, _⟩ | ⟨_, _, heq⟩ | ⟨_, hgo, _⟩
  · exact absurd hhit (hmiss _ hlt)
  · rw [heq]
    rfl
  · omega

end Loop

/-!
## The loop in a signing run
-/

/-- `crypto_sign_signature` behind the salt loop, with the digest and the position in
`g`. -/
def signRest (E : Build) (H : HashFns) (ctx : SpxCtx) (mem : Vector UInt8 3680)
    (g : GrindResult) : Traced Query SignResult := do
  let start ← signLayersStart E H ctx mem g
  match ← Traced.forRangeExcept spxD (signLayer E H ctx) start with
  | .error (code, mem, T) => pure ⟨code, 0, mem, T⟩
  | .ok s => pure ⟨0, spxBytes, s.mem, s.T⟩

/-- `crypto_sign_verify` behind the checks of the length and of the compressed index, with
the digest and the position in `d`. -/
def verifyRest (E : Build) (H : HashFns) (sig : Vector UInt8 3680) (pk : Vector UInt8 32)
    (d : Block × ℕ × ℕ) (T : ThreadState) : Traced Query (Int × ThreadState) := do
  let start ← verifyLayersStart E H sig d.1 d.2.1 d.2.2 (pkCtx E H pk) T
  match ← Traced.forRangeExcept spxD (verifyLayer E H sig (pkCtx E H pk)) start with
  | .error T => pure (-1, T)
  | .ok s => if s.root ≠ slice pk spxN spxN then pure (-1, s.T) else pure (0, s.T)

/-- A signature whose salt hits is verified with the digest and the position of that
salt. -/
theorem cryptoSignVerify_of_hit (E : Build) {sig : Vector UInt8 3680} {salt : Block}
    {pk : Vector UInt8 32} {m : List UInt8} (hsalt : slice sig 0 spxN = salt)
    (hhit : IndexZero H pk m salt) (T : ThreadState) :
    cryptoSignVerify E H sig spxBytes m pk T =
      verifyRest E H sig pk (hashMessage H salt pk m) T := by
  rw [cryptoSignVerify, if_neg (not_not_intro rfl), hsalt]
  exact if_neg (not_not_intro hhit)

/-- The attempts that the active stats object has on record. -/
def forscRecord (T : ThreadState) : Option ℕ := T.signStats.map (·.forscAttempts)

section Run

variable {m : List UInt8} {sk : Vector UInt8 64} {T T₁ : ThreadState} {optrand : Block}

/-- The first salt of a run. -/
abbrev baseSalt (H : HashFns) (sk : Vector UInt8 64) (optrand : Block)
    (m : List UInt8) : Block :=
  H.genMessageRandom (slice sk spxN spxN) optrand m

/-- The public part of a secret key. -/
abbrev skPk (sk : Vector UInt8 64) : Vector UInt8 32 := slice sk (2 * spxN) spxPkBytes

variable (E H m sk) in
/-- With random bytes the call runs the salt loop and goes on where that succeeded. -/
theorem cryptoSignSignature_grind (hsource : T.clearFailure.randombytesBlock = (optrand, T₁))
    (hok : T₁.randomSourceFailed = false) (sig : Vector UInt8 3680) :
    let g := grindFrom H (baseSalt H sk optrand m) (skPk sk) m E.forscMaxGrindAttempts T₁
      ⟨0, 0, baseSalt H sk optrand m⟩
    cryptoSignSignature E H sig m sk T =
      if g.code ≠ 0 then pure ⟨g.code, 0, write sig 0 g.R, g.T⟩
      else signRest E H (skCtx H sk) (write sig 0 g.R) g := by
  rw [cryptoSignSignature, hsource]
  dsimp only
  rw [hok, if_neg Bool.false_ne_true]
  rfl

theorem signGrind_eq_grindFrom (hsource : T.clearFailure.randombytesBlock = (optrand, T₁)) :
    signGrind E H m sk T =
      grindFrom H (baseSalt H sk optrand m) (skPk sk) m E.forscMaxGrindAttempts T₁
        ⟨0, 0, baseSalt H sk optrand m⟩ := by
  rw [signGrind, hsource]
  exact (grindLoop_eq_outcome E H _ _ m T₁).symm

theorem forscRecord_searchResult (msg : Block) (bound : ℕ) (T : ThreadState) :
    forscRecord (searchResult H msg bound T).2 = forscRecord T := by
  unfold searchResult
  split
  · simp only [forscRecord, ThreadState.recordWotscAttempts, Option.map_map]
    rfl
  · simp only [forscRecord, ThreadState.recordWotscCap, ThreadState.recordWotscAttempts,
      Option.map_map]
    rfl

variable (E H m sk) in
theorem forscRecord_cryptoSignSignature
    (hok : T.clearFailure.randombytesBlock.2.randomSourceFailed = false)
    (sig : Vector UInt8 3680) :
    forscRecord (cryptoSignSignature E H sig m sk T).val.T =
      forscRecord (signGrind E H m sk T).T := by
  have hrun := cryptoSignSignature_val E H sig m sk T
  rw [SignOk, hok, if_neg Bool.false_ne_true] at hrun
  split at hrun
  · rw [hrun.2.2]
  · have hlayers := exitThread_layersThread (E := E) forscRecord
      (forscRecord_searchResult (H := H)) (skCtx H sk) (signGrind E H m sk T).tree
      (signGrind E H m sk T).idxLeaf (signGrind E H m sk T).T spxD
    split at hrun
    · next d herr =>
        rw [herr] at hlayers
        rw [hrun.2.2]
        exact hlayers
    · next T' hlayersOk =>
        rw [hlayersOk] at hlayers
        rw [hrun.2.2.1]
        exact hlayers

/-- What a run does with the salts `R` of attempts `0, 1, …` under a cap. -/
structure GrindContract (E : Build) (H : HashFns) (sig : Vector UInt8 3680)
    (m : List UInt8) (sk : Vector UInt8 64) (T T₁ : ThreadState) (rBase : Block) (R : ℕ → Block)
    (cap : ℕ) : Prop where
  base : R 0 = rBase
  distinct : ∀ j < 2 ^ 32, ∀ k < 2 ^ 32, R j = R k → j = k
  order : ∀ s, GrindReached H rBase (skPk sk) m cap s ↔
    ∃ k < cap, (∀ j < k, ¬ IndexZero H (skPk sk) m (R j)) ∧ s = ⟨k, k, R k⟩
  loop : ∀ s, GrindReached H rBase (skPk sk) m cap s →
    grindFrom H rBase (skPk sk) m cap T₁ s =
      grindAfter H rBase (skPk sk) m cap T₁ s (grindPass H rBase (skPk sk) m cap s)
  noWrap : ∀ s, GrindReached H rBase (skPk sk) m cap s → ∀ attempts,
    grindPass H rBase (skPk sk) m cap s ≠ .error (.wrap, attempts)
  found : ∀ k < cap, IndexZero H (skPk sk) m (R k) →
    (∀ j < k, ¬ IndexZero H (skPk sk) m (R j)) →
      cryptoSignSignature E H sig m sk T =
          signRest E H (skCtx H sk) (write sig 0 (R k))
            ⟨0, R k, (hashMessage H (R k) (skPk sk) m).1,
              (hashMessage H (R k) (skPk sk) m).2.1, (hashMessage H (R k) (skPk sk) m).2.2,
              T₁.recordForscAttempts (k + 1)⟩ ∧
        forscRecord (cryptoSignSignature E H sig m sk T).val.T =
          T₁.signStats.map (fun _ => k + 1) ∧
        ((cryptoSignSignature E H sig m sk T).val.code = 0 →
          slice (cryptoSignSignature E H sig m sk T).val.sig 0 spxN = R k ∧
            ∀ E' T', cryptoSignVerify E' H (cryptoSignSignature E H sig m sk T).val.sig
                spxBytes m (skPk sk) T' =
              verifyRest E' H (cryptoSignSignature E H sig m sk T).val.sig (skPk sk)
                (hashMessage H (R k) (skPk sk) m) T')
  limit : (∀ k < cap, ¬ IndexZero H (skPk sk) m (R k)) →
    cryptoSignSignature E H sig m sk T =
        pure ⟨signLimitExceeded, 0, write sig 0 (R (cap - 1)),
          (T₁.recordForscAttempts cap).recordForscCap⟩ ∧
      forscRecord (cryptoSignSignature E H sig m sk T).val.T =
        T₁.signStats.map (fun _ => cap)

/-- For every key, message, random block and cap the run tries the salts in order and goes
on with the least one that hits, or reports the limit after as many attempts as the cap
permits. -/
theorem saltGrinding (E : Build) (H : HashFns) (sig : Vector UInt8 3680) (m : List UInt8)
    (sk : Vector UInt8 64) (optrand : Block) (T T₁ : ThreadState)
    (hsource : T.clearFailure.randombytesBlock = (optrand, T₁))
    (hok : T₁.randomSourceFailed = false) :
    GrindContract E H sig m sk T T₁ (baseSalt H sk optrand m)
      (xorSalt (baseSalt H sk optrand m)) E.forscMaxGrindAttempts := by
  have hcap : E.forscMaxGrindAttempts < 2 ^ 32 := Nat.lt_succ_of_le E.forsc_le
  have hpos : 0 < E.forscMaxGrindAttempts := E.forsc_pos
  have hflag : T.clearFailure.randombytesBlock.2.randomSourceFailed = false := by
    rw [hsource]
    exact hok
  have hcall := cryptoSignSignature_grind E H m sk hsource hok sig
  have hrecord := forscRecord_cryptoSignSignature E H m sk hflag sig
  rw [signGrind_eq_grindFrom hsource] at hrecord
  refine ⟨xorSalt_zero _, fun j hj k hk h => xorSalt_injective _ hj hk h,
    grindReached_iff hcap hpos, fun s hs => ?_, fun s hs => grindPass_ne_wrap hcap hpos hs,
    fun k hk hhit hmiss => ?_, fun hmiss => ?_⟩
  · obtain ⟨k, hk, _, rfl⟩ := (grindReached_iff hcap hpos s).mp hs
    exact grindFrom_eq_grindAfter hcap hk T₁
  · have hg := grindFrom_of_hit hcap hk hhit hmiss T₁
    rw [hg] at hcall hrecord
    refine ⟨hcall, hrecord.trans ?_, fun hzero => ?_⟩
    · simp only [forscRecord, grindExitResult, ThreadState.recordForscAttempts,
        Option.map_map]
      rfl
    · have hsigned := (signed_of_eq_zero hzero).sig.salt
      rw [signGrind_eq_grindFrom hsource, hg] at hsigned
      exact ⟨hsigned, fun E' T' => cryptoSignVerify_of_hit E' hsigned hhit T'⟩
  · have hg := grindFrom_of_miss hcap hpos hmiss T₁
    rw [hg] at hcall hrecord
    refine ⟨hcall, hrecord.trans ?_⟩
    simp only [forscRecord, grindExitResult, ThreadState.recordForscAttempts,
      ThreadState.recordForscCap, Option.map_map]
    rfl

/-- One attempt is enough for the hash functions that ignore their input. -/
theorem saltGrinding_constantHash :
    forscRecord (cryptoSignSignature smallestCaps constantHash (Vector.replicate 3680 0) [1]
      (Vector.replicate 64 0) (sourceThread.signStatsBegin smallestCaps)).val.T =
        some 1 := by
  have hflag : (sourceThread.signStatsBegin
      smallestCaps).clearFailure.randombytesBlock.2.randomSourceFailed = false :=
    ThreadState.randomSourceFailed_randombytesBlock rfl (show (64 : ℕ) ≠ 0 by decide)
  have hcontract := saltGrinding smallestCaps constantHash (Vector.replicate 3680 0) [1]
    (Vector.replicate 64 0)
    (sourceThread.signStatsBegin smallestCaps).clearFailure.randombytesBlock.1
    (sourceThread.signStatsBegin smallestCaps)
    (sourceThread.signStatsBegin smallestCaps).clearFailure.randombytesBlock.2 rfl hflag
  obtain ⟨_, hrecord, _⟩ := hcontract.found 0 Nat.one_pos
    (forscCompressedIndex_constantHash _ _ _) fun j hj => absurd hj (Nat.not_lt_zero j)
  rw [hrecord, ThreadState.signStats_randombytesBlock]
  rfl

end Run

end BitcoinPqc
