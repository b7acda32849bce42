import BitcoinPqc.Correctness.Sign
import BitcoinPqc.Properties.Keys

/-!
# No address is used twice

Every hash call that a scalar run of a key makes is the call of a valid position of the
hypertree of that key. Among valid positions the hashed bytes of the address determine
the position, and the position determines the call, so two calls with the same address
are the same call, in one run or in two.
-/

namespace BitcoinPqc

/-- The address bytes of a call of `thash` or `prf_addr`. -/
def Query.address : Query → Option AddrBytes
  | .thash addr _ _ => some addr
  | .prfAddr addr _ _ => some addr
  | .wotscHash _ _ => none

/-- The calls of the scalar runs of one secret key: key generation from its seed, its
validation, and signatures on any messages. -/
inductive KeyCall (H : HashFns) (sk : Vector UInt8 64) : Query → Prop
  | keypair (E : Build) (hE : E.hasAvx2 = false) (pk₀ : Vector UInt8 32)
      (sk₀ : Vector UInt8 64) (T : ThreadState) (q : Query)
      (hq : q ∈ (cryptoSignSeedKeypair E H pk₀ sk₀ (slice sk 0 48) T).log) : KeyCall H sk q
  | validate (E : Build) (hE : E.hasAvx2 = false) (T : ThreadState) (q : Query)
      (hq : q ∈ (slhDsaSecretKeyValidate E H (some sk.toList) slhDsaSecretKeySize T).log) :
      KeyCall H sk q
  | sign (E : Build) (hE : E.hasAvx2 = false) (sig : Vector UInt8 3680) (m : List UInt8)
      (T : ThreadState) (q : Query)
      (hq : q ∈ (cryptoSignSignature E H sig m sk T).log) : KeyCall H sk q

variable {H : HashFns}

theorem address_queryAt (ctx : SpxCtx) (r : Role) :
    (queryAt H ctx r).address = some (adrs r.addr) := by
  cases r with
  | forsNode tree leaf height index =>
      cases height with
      | zero => rfl
      | succ height => rfl
  | _ => rfl

/-- A call of a key is the call of a valid position or a step of a counter search. -/
theorem KeyCall.honest {sk : Vector UInt8 64} {q : Query} (h : KeyCall H sk q) :
    HonestQuery H (skCtx H sk) q ∨ ∃ msg counter, q = .wotscHash msg counter := by
  have hP (E : Build) (hE : E.hasAvx2 = false) : CallsOk E H (skCtx H sk)
      fun q => HonestQuery H (skCtx H sk) q ∨ ∃ msg counter, q = .wotscHash msg counter :=
    ⟨fun _ r hr => Or.inl ⟨r, hr, rfl⟩, fun htrue => by
      rw [hE] at htrue
      cases htrue⟩
  cases h with
  | keypair E hE pk₀ sk₀ T q hq =>
      have hctx := skCtx_eq_seedCtx H sk
      have hsat := hP E hE
      rw [hctx] at hsat ⊢
      exact (cryptoSignSeedKeypair_sat E H (slice sk 0 48) hsat pk₀ sk₀ T).1 q hq
  | validate E hE T q hq =>
      have hsat := slhDsaSecretKeyValidate_sat E H sk.toList
        (by simpa only [bytesAt_toList] using hP E hE) T
      exact hsat.1 q hq
  | sign E hE sig m T q hq =>
      exact (cryptoSignSignature_sat sk (hP E hE)
        (fun msg counter => Or.inr ⟨msg, counter, rfl⟩) sig m T).1 q hq

/-- The address of a call of a key belongs to exactly one valid position, whose call it
is, and two calls with the same address are equal, inputs and outputs included. -/
theorem address_determines_call (H : HashFns) (sk : Vector UInt8 64) :
    (∀ q a, KeyCall H sk q → q.address = some a →
      ∃ r : Role, r.Valid ∧ adrs r.addr = a ∧ q = queryAt H (skCtx H sk) r ∧
        ∀ r' : Role, r'.Valid → adrs r'.addr = a → r' = r) ∧
      ∀ q q' a, KeyCall H sk q → KeyCall H sk q' →
        q.address = some a → q'.address = some a → q = q' := by
  have hrole (q : Query) (a : AddrBytes) (hq : KeyCall H sk q)
      (ha : q.address = some a) :
      ∃ r : Role, r.Valid ∧ adrs r.addr = a ∧ q = queryAt H (skCtx H sk) r ∧
        ∀ r' : Role, r'.Valid → adrs r'.addr = a → r' = r := by
    rcases hq.honest with ⟨r, hr, rfl⟩ | ⟨msg, counter, rfl⟩
    · rw [address_queryAt, Option.some.injEq] at ha
      exact ⟨r, hr, ha, rfl, fun r' hr' ha' => Role.eq_of_adrs_eq hr' hr (ha'.trans ha.symm)⟩
    · cases ha
  refine ⟨hrole, ?_⟩
  intro q q' a hq hq' ha ha'
  obtain ⟨r, hr, hra, rfl, hunique⟩ := hrole q a hq ha
  obtain ⟨r', hr', hra', rfl, _⟩ := hrole q' a hq' ha'
  rw [hunique r' hr' hra']

end BitcoinPqc
