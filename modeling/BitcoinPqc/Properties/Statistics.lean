import BitcoinPqc.Properties.SignOutcome

/-!
# The signing statistics

A run records the attempts of the salt loop and then, from layer `0` up, the attempts of
each counter search. `statsOf` is the object after such records; the lists of records are
a function of the searches, so the object tells what the run did.
-/

namespace BitcoinPqc

variable {E : Build} {H : HashFns}

/-- The stats object of a build after the salt loop made `forsc` attempts and the searches
made the attempts in `entries`. -/
def statsOf (E : Build) (forsc : ℕ) (entries : List ℕ) (cap : ℕ) : SignStats where
  forscAttempts := forsc
  forscMaxAttempts := E.forscMaxGrindAttempts
  wotscAttempts := Vector.ofFn fun i => entries.getD i.val 0
  wotscLayerCount := entries.length
  wotscMaxAttempts := E.wotscMaxCounter + 1
  wotscMaxObservedAttempts := entries.foldl max 0
  capExceeded := cap

theorem signStats_signStatsBegin (E : Build) (T : ThreadState) :
    (T.signStatsBegin E).signStats = some (statsOf E 0 [] limitNone) := by
  have hzero : Vector.replicate 5 0 = Vector.ofFn fun i : Fin 5 => ([] : List ℕ).getD i.val 0 := by
    decide
  simp only [ThreadState.signStatsBegin, hzero]
  rfl

theorem ofFn_getD_append (entries : List ℕ) (attempts : ℕ) (h : entries.length < 5) :
    (Vector.ofFn fun i : Fin 5 => entries.getD i.val 0).set entries.length attempts =
      Vector.ofFn fun i : Fin 5 => (entries ++ [attempts]).getD i.val 0 := by
  ext i hi
  rw [Vector.getElem_set, Vector.getElem_ofFn, Vector.getElem_ofFn]
  dsimp only
  by_cases hlt : i < entries.length
  · rw [if_neg (by omega), List.getD_append _ _ _ _ hlt]
  · rw [List.getD_append_right _ _ _ _ (by omega)]
    by_cases heq : entries.length = i
    · rw [if_pos heq, heq, Nat.sub_self]
      rfl
    · rw [if_neg heq, List.getD_eq_default _ _ (by omega),
        List.getD_eq_default _ _ (by simp only [List.length_singleton]; omega)]

theorem signStats_recordWotscAttempts {T : ThreadState} {forsc cap : ℕ} {entries : List ℕ}
    (hstats : T.signStats = some (statsOf E forsc entries cap)) (h : entries.length < 5)
    (attempts : ℕ) :
    (T.recordWotscAttempts attempts).signStats =
      some (statsOf E forsc (entries ++ [attempts]) cap) := by
  have hmax : (if attempts > entries.foldl max 0 then attempts else entries.foldl max 0) =
      (entries ++ [attempts]).foldl max 0 := by
    rw [List.foldl_append, List.foldl_cons, List.foldl_nil]
    split
    · omega
    · omega
  simp only [ThreadState.recordWotscAttempts, hstats, Option.map_some, statsOf, h,
    dite_true, hmax, ofFn_getD_append entries attempts h, List.length_append,
    List.length_singleton]

theorem signStats_recordWotscCap {T : ThreadState} {forsc : ℕ} {entries : List ℕ}
    (hstats : T.signStats = some (statsOf E forsc entries limitNone)) :
    T.recordWotscCap.signStats = some (statsOf E forsc entries limitWotsc) := by
  have hcap : limitNone ||| limitWotsc = limitWotsc := by decide
  simp only [ThreadState.recordWotscCap, hstats, Option.map_some, statsOf, hcap]

/-!
## The loop over the layers
-/

section Layers

variable (E H) (ctx : SpxCtx) (tree leaf : ℕ)

/-- The attempts that the search of layer `l` makes. -/
def attemptsAt (l : ℕ) : ℕ :=
  (firstUpTo (CounterHit H (signedValue H ctx tree leaf l)) E.wotscMaxCounter).elim
    (E.wotscMaxCounter + 1) (· + 1)

/-- The attempts of the searches below layer `l`. -/
def attemptsBelow (l : ℕ) : List ℕ := (List.range l).map (attemptsAt E H ctx tree leaf)

variable {E H ctx tree leaf}

theorem length_attemptsBelow (l : ℕ) : (attemptsBelow E H ctx tree leaf l).length = l := by
  rw [attemptsBelow, List.length_map, List.length_range]

theorem attemptsBelow_succ (l : ℕ) :
    attemptsBelow E H ctx tree leaf (l + 1) =
      attemptsBelow E H ctx tree leaf l ++ [attemptsAt E H ctx tree leaf l] := by
  rw [attemptsBelow, List.range_succ, List.map_append]
  rfl

theorem wotscBound_of_signStats {T : ThreadState} {s : SignStats}
    (hstats : T.signStats = some s) : wotscBound E T = E.wotscMaxCounter := by
  rw [wotscBound, hstats]
  rfl

theorem signStats_layersThread {T T' : ThreadState} {forsc l : ℕ} (hl : l ≤ 5)
    (hstats : T.signStats = some (statsOf E forsc [] limitNone))
    (hok : layersThread E H ctx tree leaf T l = .ok T') :
    T'.signStats =
      some (statsOf E forsc (attemptsBelow E H ctx tree leaf l) limitNone) := by
  induction l generalizing T' with
  | zero =>
      cases hok
      exact hstats
  | succ l ih =>
      obtain ⟨T₁, c, hbefore, hc, rfl⟩ := layersThread_succ_eq_ok_iff.mp hok
      have hT₁ := ih (by omega) hbefore
      have hattempts : attemptsAt E H ctx tree leaf l = c + 1 := by
        rw [wotscBound_of_signStats hT₁] at hc
        rw [attemptsAt, hc, Option.elim_some]
      rw [attemptsBelow_succ, hattempts]
      exact signStats_recordWotscAttempts hT₁ (by rw [length_attemptsBelow]; omega) _

/-- When a search is exhausted it is the last one that is recorded. -/
theorem signStats_layersThread_error {T : ThreadState} {d : Int × ThreadState}
    {forsc l : ℕ} (hl : l ≤ 5)
    (hstats : T.signStats = some (statsOf E forsc [] limitNone))
    (herror : layersThread E H ctx tree leaf T l = .error d) :
    ∃ l' < l,
      firstUpTo (CounterHit H (signedValue H ctx tree leaf l')) E.wotscMaxCounter = none ∧
        d.2.signStats =
          some (statsOf E forsc (attemptsBelow E H ctx tree leaf (l' + 1)) limitWotsc) := by
  induction l generalizing d with
  | zero => cases herror
  | succ l ih =>
      rw [layersThread] at herror
      cases hbefore : layersThread E H ctx tree leaf T l with
      | error d' =>
          rw [hbefore] at herror
          cases herror
          obtain ⟨l', hlt, hnone, hd⟩ := ih (by omega) hbefore
          exact ⟨l', by omega, hnone, hd⟩
      | ok T₁ =>
          have hT₁ := signStats_layersThread (by omega) hstats hbefore
          rw [hbefore] at herror
          simp only [searchResult, wotscBound_of_signStats hT₁] at herror
          cases hfirst : firstUpTo (CounterHit H (signedValue H ctx tree leaf l))
              E.wotscMaxCounter with
          | some c =>
              rw [hfirst] at herror
              cases herror
          | none =>
              rw [hfirst] at herror
              cases herror
              have hattempts : attemptsAt E H ctx tree leaf l = E.wotscMaxCounter + 1 := by
                rw [attemptsAt, hfirst, Option.elim_none]
              refine ⟨l, Nat.lt_succ_self l, hfirst, ?_⟩
              rw [attemptsBelow_succ, hattempts]
              exact signStats_recordWotscCap (signStats_recordWotscAttempts hT₁
                (by rw [length_attemptsBelow]; omega) _)

end Layers

/-!
## A signing run
-/

section Signature

variable {m : List UInt8} {sk : Vector UInt8 64} {T : ThreadState}

/-- The salts of a run. -/
abbrev RunSaltHit (H : HashFns) (m : List UInt8) (sk : Vector UInt8 64) (T : ThreadState) :
    ℕ → Prop :=
  SaltHit H (H.genMessageRandom (slice sk spxN spxN) T.clearFailure.randombytesBlock.1 m)
    (slice sk (2 * spxN) spxPkBytes) m

/-- The attempts of the searches below layer `l` in a run. -/
abbrev runAttempts (E : Build) (H : HashFns) (m : List UInt8) (sk : Vector UInt8 64)
    (T : ThreadState) (l : ℕ) : List ℕ :=
  attemptsBelow E H (skCtx H sk) (signGrind E H m sk T).tree (signGrind E H m sk T).idxLeaf l

/-- The counter that the search of layer `l` selects in a run. -/
abbrev runCounter (E : Build) (H : HashFns) (m : List UInt8) (sk : Vector UInt8 64)
    (T : ThreadState) (l : ℕ) : Option ℕ :=
  firstUpTo (CounterHit H (signedValue H (skCtx H sk) (signGrind E H m sk T).tree
    (signGrind E H m sk T).idxLeaf l)) E.wotscMaxCounter

/-- What `crypto_sign_signature` returns together with the statistics it leaves. -/
inductive StatsCase (E : Build) (H : HashFns) (m : List UInt8) (sk : Vector UInt8 64)
    (T : ThreadState) : Int → Option SignStats → Prop
  | signed (k : ℕ) (hk : firstUpTo (RunSaltHit H m sk T) (E.forscMaxGrindAttempts - 1) = some k)
      (hcounters : ∀ l < spxD, ∃ c, runCounter E H m sk T l = some c) :
      StatsCase E H m sk T 0
        (some (statsOf E (k + 1) (runAttempts E H m sk T spxD) limitNone))
  | noSalt (hk : firstUpTo (RunSaltHit H m sk T) (E.forscMaxGrindAttempts - 1) = none) :
      StatsCase E H m sk T signLimitExceeded
        (some (statsOf E E.forscMaxGrindAttempts [] limitForsc))
  | noCounter (k : ℕ)
      (hk : firstUpTo (RunSaltHit H m sk T) (E.forscMaxGrindAttempts - 1) = some k) (l : ℕ)
      (hl : l < spxD) (hcounter : runCounter E H m sk T l = none) :
      StatsCase E H m sk T signLimitExceeded
        (some (statsOf E (k + 1) (runAttempts E H m sk T (l + 1)) limitWotsc))

theorem StatsCase.exists_stats {code : Int} {stats : Option SignStats}
    (h : StatsCase E H m sk T code stats) : ∃ s, stats = some s := by
  cases h with
  | signed k hk hcounters => exact ⟨_, rfl⟩
  | noSalt hk => exact ⟨_, rfl⟩
  | noCounter k hk l hl hcounter => exact ⟨_, rfl⟩

variable (m sk) in
theorem signStats_signGrind (hstats : T.signStats = some (statsOf E 0 [] limitNone)) :
    (∃ k, firstUpTo (RunSaltHit H m sk T) (E.forscMaxGrindAttempts - 1) = some k ∧
        (signGrind E H m sk T).code = 0 ∧
        (signGrind E H m sk T).T.signStats = some (statsOf E (k + 1) [] limitNone)) ∨
      (firstUpTo (RunSaltHit H m sk T) (E.forscMaxGrindAttempts - 1) = none ∧
        (signGrind E H m sk T).code = signLimitExceeded ∧
        (signGrind E H m sk T).T.signStats =
          some (statsOf E E.forscMaxGrindAttempts [] limitForsc)) := by
  have hcap : limitNone ||| limitForsc = limitForsc := by decide
  have hT : T.clearFailure.randombytesBlock.2.signStats =
      some (statsOf E 0 [] limitNone) := by
    rw [ThreadState.signStats_randombytesBlock]
    exact hstats
  unfold signGrind grindOutcome
  cases hfirst : firstUpTo (RunSaltHit H m sk T) (E.forscMaxGrindAttempts - 1) with
  | some k =>
      refine Or.inl ⟨k, rfl, rfl, ?_⟩
      simp only [grindResult, ThreadState.recordForscAttempts, hT, Option.map_some, statsOf]
  | none =>
      refine Or.inr ⟨rfl, rfl, ?_⟩
      simp only [grindResult, ThreadState.recordForscAttempts, ThreadState.recordForscCap, hT,
        Option.map_some, statsOf, hcap]

variable (m sk) in
/-- The statistics of a run that starts with a fresh object and a random source. -/
theorem statsCase_cryptoSignSignature (hdata : T.randomData.isSome)
    (hsize : T.randomDataSize ≠ 0)
    (hstats : T.signStats = some (statsOf E 0 [] limitNone)) (sig : Vector UInt8 3680) :
    StatsCase E H m sk T (cryptoSignSignature E H sig m sk T).val.code
      (cryptoSignSignature E H sig m sk T).val.T.signStats := by
  have hflag : T.clearFailure.randombytesBlock.2.randomSourceFailed = false :=
    ThreadState.randomSourceFailed_randombytesBlock hdata hsize
  have hok := cryptoSignSignature_val E H sig m sk T
  rw [SignOk, hflag, if_neg Bool.false_ne_true] at hok
  rcases signStats_signGrind (H := H) m sk hstats with
    ⟨k, hk, hcode, hT⟩ | ⟨hk, hcode, hT⟩
  · rw [if_neg (not_not_intro hcode)] at hok
    cases hlayers : layersThread E H (skCtx H sk) (signGrind E H m sk T).tree
        (signGrind E H m sk T).idxLeaf (signGrind E H m sk T).T spxD with
    | error d =>
        rw [hlayers] at hok
        obtain ⟨l, hl, hnone, hd⟩ := signStats_layersThread_error (by decide) hT hlayers
        rw [hok.1, layersThread_error hlayers, hok.2.2, hd]
        exact .noCounter k hk l hl hnone
    | ok T' =>
        rw [hlayers] at hok
        have hsearch := (exists_layersThread_ok_iff spxD).mp ⟨T', hlayers⟩
        rw [wotscBound_of_signStats hT] at hsearch
        rw [hok.1, hok.2.2.1, signStats_layersThread (by decide) hT hlayers]
        exact .signed k hk hsearch
  · rw [hcode, if_pos (by decide)] at hok
    rw [hok.1, hok.2.2, hT]
    exact .noSalt hk

end Signature

/-!
## What the object says
-/

/-- A stats object that tells the truth about a run with return code `code`. -/
structure StatsTrue (E : Build) (H : HashFns) (m : List UInt8) (sk : Vector UInt8 64)
    (T : ThreadState) (code : Int) (s : SignStats) : Prop where
  forscMax : s.forscMaxAttempts = E.forscMaxGrindAttempts
  wotscMax : s.wotscMaxAttempts = E.wotscMaxCounter + 1
  count : s.wotscLayerCount ≤ 5
  unrecorded : ∀ l (hl : l < 5), s.wotscLayerCount ≤ l → s.wotscAttempts[l] = 0
  observed : s.wotscMaxObservedAttempts =
    (s.wotscAttempts.toList.take s.wotscLayerCount).foldl max 0
  outcome : code = 0 ∨ code = signLimitExceeded
  signed : code = 0 → 1 ≤ s.forscAttempts ∧ s.forscAttempts ≤ E.forscMaxGrindAttempts ∧
    s.wotscLayerCount = 5 ∧ s.capExceeded = limitNone ∧
    ∀ l (hl : l < 5), ∃ c, runCounter E H m sk T l = some c ∧ s.wotscAttempts[l] = c + 1
  limit : code = signLimitExceeded →
    (s.capExceeded = limitForsc ∧ s.forscAttempts = E.forscMaxGrindAttempts ∧
        s.wotscLayerCount = 0) ∨
      (s.capExceeded = limitWotsc ∧ ∃ l, ∃ hl : l < 5, s.wotscLayerCount = l + 1 ∧
        s.wotscAttempts[l] = E.wotscMaxCounter + 1)

section Report

variable {m : List UInt8} {sk : Vector UInt8 64} {T : ThreadState}

/-- The entries of the object are the list of records followed by zeros. -/
theorem wotscAttempts_statsOf (forsc cap : ℕ) (entries : List ℕ) {l : ℕ} (hl : l < 5) :
    (statsOf E forsc entries cap).wotscAttempts[l] = entries.getD l 0 := by
  simp only [statsOf, Vector.getElem_ofFn]

theorem take_wotscAttempts_statsOf (forsc cap : ℕ) {entries : List ℕ}
    (h : entries.length ≤ 5) :
    (statsOf E forsc entries cap).wotscAttempts.toList.take entries.length = entries := by
  apply List.ext_getElem
  · rw [List.length_take, Vector.length_toList]
    omega
  · intro i hi hi'
    rw [List.getElem_take, Vector.getElem_toList,
      wotscAttempts_statsOf forsc cap entries (by omega), List.getD_eq_getElem _ _ hi']

theorem getD_attemptsBelow {ctx : SpxCtx} {tree leaf l n : ℕ} (h : l < n) :
    (attemptsBelow E H ctx tree leaf n).getD l 0 = attemptsAt E H ctx tree leaf l := by
  rw [attemptsBelow, List.getD_eq_getElem _ _ (by simpa using h), List.getElem_map,
    List.getElem_range]

theorem getD_runAttempts {l n : ℕ} (h : l < n) :
    (runAttempts E H m sk T n).getD l 0 =
      (runCounter E H m sk T l).elim (E.wotscMaxCounter + 1) (· + 1) :=
  getD_attemptsBelow h

theorem statsTrue_of_statsCase {code : Int} {s : SignStats}
    (h : StatsCase E H m sk T code (some s)) : StatsTrue E H m sk T code s := by
  have hpos := E.forsc_pos
  cases h with
  | signed k hk hcounters =>
      have hcount : (runAttempts E H m sk T spxD).length = 5 := length_attemptsBelow spxD
      obtain ⟨_, hle, _⟩ := (firstUpTo_eq_some_iff _ _ _).mp hk
      refine ⟨rfl, rfl, hcount.le, ?_, ?_, Or.inl rfl, fun _ => ⟨?_, ?_, hcount, rfl, ?_⟩,
        fun h => (by cases h)⟩
      · intro l hl hge
        rw [show (statsOf E (k + 1) (runAttempts E H m sk T spxD) limitNone).wotscLayerCount =
          5 from hcount] at hge
        omega
      · exact (congrArg (fun l => l.foldl max 0)
          (take_wotscAttempts_statsOf (k + 1) limitNone hcount.le)).symm
      · exact Nat.succ_pos k
      · simp only [statsOf]
        omega
      · intro l hl
        obtain ⟨c, hc⟩ := hcounters l hl
        refine ⟨c, hc, ?_⟩
        rw [wotscAttempts_statsOf _ _ _ hl, getD_runAttempts hl, hc, Option.elim_some]
  | noSalt hk =>
      refine ⟨rfl, rfl, Nat.zero_le 5, ?_, rfl, Or.inr rfl, fun h => (by cases h),
        fun _ => Or.inl ⟨rfl, rfl, rfl⟩⟩
      intro l hl _
      rw [wotscAttempts_statsOf _ _ _ hl]
      rfl
  | noCounter k hk l hl hcounter =>
      have hl5 : l < 5 := hl
      have hcount : (runAttempts E H m sk T (l + 1)).length = l + 1 :=
        length_attemptsBelow (l + 1)
      refine ⟨rfl, rfl, hcount.le.trans hl, ?_, ?_, Or.inr rfl, fun h => (by cases h),
        fun _ => Or.inr ⟨rfl, l, hl5, hcount, ?_⟩⟩
      · intro l' hl' hge
        rw [wotscAttempts_statsOf _ _ _ hl', List.getD_eq_default _ _ hge]
      · exact (congrArg (fun l => l.foldl max 0)
          (take_wotscAttempts_statsOf (k + 1) limitWotsc (hcount.le.trans hl))).symm
      · rw [wotscAttempts_statsOf _ _ _ hl5, getD_runAttempts (Nat.lt_succ_self l), hcounter,
          Option.elim_none]

/-- With an accepted key the call hands on the return code and the statistics of
`crypto_sign_signature`. -/
theorem slhDsaSignWithStats_of_accepted (E : Build) {H : HashFns} (sig : Vector UInt8 3680)
    (siglen : ℕ) {m : Option (List UInt8)} {mlen : ℕ} (hm : ¬ (m.isNone ∧ mlen ≠ 0))
    {sk : List UInt8} (hkey : KeyAccepted H sk) (stats : Option SignStats) (T : ThreadState) :
    let r := (slhDsaSignWithStats E H (some sig) (some siglen) m mlen (some sk) stats T).val
    let r₀ := (cryptoSignSignature E H sig ((m.getD [0]).take mlen) (bytesAt 64 sk)
      (signThread E H (m.getD [0]) mlen sk)).val
    r.code = r₀.code ∧ r.stats = stats.bind fun _ => r₀.T.signStats := by
  have hvalidate := (slhDsaSecretKeyValidateUnburned_cases E H sk T).1 hkey
  obtain ⟨hflag, _⟩ := cryptoSignSignature_installed (E := E) (H := H)
    ((m.getD [0]).take mlen) (bytesAt 64 sk)
    (T := signThread E H (m.getD [0]) mlen sk) rfl (show (64 : ℕ) ≠ 0 by decide) rfl sig
  intro r r₀
  simp only [r, r₀]
  rw [slhDsaSignWithStats, slhDsaSignWithStatsImpl, if_neg hm, Traced.val_bind, hvalidate]
  dsimp only
  rw [if_neg (by decide), slhDsaSignChecked_eq, Traced.val_bind, hflag,
    if_neg Bool.false_ne_true]
  split
  · exact ⟨rfl, rfl⟩
  · exact ⟨rfl, rfl⟩

theorem stats_of_rejected (sig : Option (Vector UInt8 3680)) (siglen : Option ℕ)
    (m : Option (List UInt8)) (mlen : ℕ) (sk : Option (List UInt8))
    (stats : Option SignStats)
    (hzero : (slhDsaSignWithStats E H sig siglen m mlen sk stats T).val.code ≠ 0)
    (hlimit : (slhDsaSignWithStats E H sig siglen m mlen sk stats T).val.code ≠
      signLimitExceeded) :
    (slhDsaSignWithStats E H sig siglen m mlen sk stats T).val.stats = stats := by
  by_cases hm : m.isNone ∧ mlen ≠ 0
  · rw [slhDsaSignWithStats, slhDsaSignWithStatsImpl.eq_def]
    split
    · rw [if_pos hm]
      rfl
    · rfl
  · cases sig with
    | none => rfl
    | some sig =>
      cases siglen with
      | none => rfl
      | some siglen =>
        cases sk with
        | none => rfl
        | some sk =>
            have hcase := signCase_slhDsaSignWithStats E H sig siglen hm sk stats T
            generalize (slhDsaSignWithStats E H (some sig) (some siglen) m mlen (some sk)
              stats T).val = r at hcase hzero hlimit ⊢
            cases hcase with
            | badKey hkey T' => rfl
            | limit hkey hl stats' T' => exact absurd rfl hlimit
            | signed hkey hl r₀ T' hT' hsigned => exact absurd rfl hzero

end Report

/-- For every valid key, every message and every build the stats object tells the truth
about the run, and a call that is rejected before it signs leaves the object alone. -/
theorem signStats_tell_truth (E : Build) (H : HashFns) :
    (∀ (sig : Vector UInt8 3680) (siglen : ℕ) (m : Option (List UInt8)) (mlen : ℕ)
        (sk : List UInt8) (stats : SignStats) (T : ThreadState), (m = none → mlen = 0) →
      (slhDsaSecretKeyValidate E H (some sk) slhDsaSecretKeySize T).val.1 = 0 →
      ∃ s, (slhDsaSignWithStats E H (some sig) (some siglen) m mlen (some sk) (some stats)
          T).val.stats = some s ∧
        StatsTrue E H ((m.getD [0]).take mlen) (bytesAt 64 sk)
          (signThread E H (m.getD [0]) mlen sk)
          (slhDsaSignWithStats E H (some sig) (some siglen) m mlen (some sk) (some stats)
            T).val.code s) ∧
      ∀ (sig : Option (Vector UInt8 3680)) (siglen : Option ℕ) (m : Option (List UInt8))
        (mlen : ℕ) (sk : Option (List UInt8)) (stats : Option SignStats) (T : ThreadState),
        (slhDsaSignWithStats E H sig siglen m mlen sk stats T).val.code ≠ 0 →
          (slhDsaSignWithStats E H sig siglen m mlen sk stats T).val.code ≠
              signLimitExceeded →
            (slhDsaSignWithStats E H sig siglen m mlen sk stats T).val.stats = stats := by
  constructor
  · intro sig siglen m mlen sk stats T hm hkey
    have hnot : ¬ (m.isNone ∧ mlen ≠ 0) := by
      rintro ⟨hnone, hsize⟩
      exact hsize (hm (Option.isNone_iff_eq_none.mp hnone))
    have haccepted : KeyAccepted H sk := by
      by_contra hrejected
      rw [slhDsaSecretKeyValidate,
        (slhDsaSecretKeyValidateUnburned_cases E H sk T).2 hrejected] at hkey
      cases hkey
    obtain ⟨hcode, hstats⟩ := slhDsaSignWithStats_of_accepted E sig siglen hnot haccepted
      (some stats) T
    have hcase := statsCase_cryptoSignSignature (E := E) (H := H)
      ((m.getD [0]).take mlen) (bytesAt 64 sk)
      (T := signThread E H (m.getD [0]) mlen sk) rfl (show (64 : ℕ) ≠ 0 by decide)
      (signStats_signStatsBegin E _) sig
    rw [hcode, hstats, Option.bind_some]
    obtain ⟨s, hs⟩ := hcase.exists_stats
    rw [hs] at hcase ⊢
    exact ⟨s, rfl, statsTrue_of_statsCase hcase⟩
  · intro sig siglen m mlen sk stats T hzero hlimit
    exact stats_of_rejected sig siglen m mlen sk stats hzero hlimit

/-- The hypotheses hold of the key of zeros and the hash functions that ignore their
input, for which one attempt each is enough. -/
theorem signStats_tell_truth_constantHash :
    ∃ s, (slhDsaSignWithStats smallestCaps constantHash (some (Vector.replicate 3680 0))
        (some 0) (some [1]) 1 (some (List.replicate 64 0)) (some (statsOf smallestCaps 9 [] 9))
        ThreadState.fresh).val.stats = some s ∧
      s.forscMaxAttempts = 1 ∧ s.wotscMaxAttempts = 1 := by
  have hvalid : (slhDsaSecretKeyValidate smallestCaps constantHash
      (some (List.replicate 64 0)) slhDsaSecretKeySize ThreadState.fresh).val.1 = 0 := by
    rw [slhDsaSecretKeyValidate, (slhDsaSecretKeyValidateUnburned_cases _ _ _ _).1
      keyAccepted_constantHash]
  obtain ⟨s, hs, htrue⟩ := (signStats_tell_truth smallestCaps constantHash).1
    (Vector.replicate 3680 0) 0 (some [1]) 1 (List.replicate 64 0)
    (statsOf smallestCaps 9 [] 9) ThreadState.fresh (fun h => by cases h) hvalid
  exact ⟨s, hs, htrue.forscMax, htrue.wotscMax⟩

end BitcoinPqc
