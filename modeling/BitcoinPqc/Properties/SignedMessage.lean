import BitcoinPqc.Properties.SignVerify
import BitcoinPqc.Sphincs.SignedMessage

/-!
# Signing and opening messages in place

The message may lie anywhere outside the signature, also where the signed message will
have it, and the opened message may be written over the signed one. Nothing but the
buffers of the call changes, and a call that fails leaves zeros where it could have left a
signature or a message.

`cryptoSignAt` is `cryptoSign` on the bytes that the buffers hold, and `cryptoSignOpen`
hands out a message exactly when the detached signature of the same bytes is accepted.
-/

namespace BitcoinPqc

variable {E E' : Build} {H : HashFns}

/-!
## Signing
-/

section Signing

variable (E H) (B : SignBuffers) (mem : Mem UInt8) (sk : Vector UInt8 64) (T : ThreadState)

/-- The detached signature that `crypto_sign` stores. -/
def detachedAt : SignResult :=
  (cryptoSignSignature E H (bytesAt 3680 (mem.read B.sm spxBytes)) (mem.read B.m B.mlen) sk
    T).val

theorem cryptoSignAt_of_ne (h : (detachedAt E H B mem sk T).code ≠ 0) :
    (cryptoSignAt E H B mem sk T).val =
      ⟨(detachedAt E H B mem sk T).code, 0,
        (mem.store B.sm (detachedAt E H B mem sk T).sig.toList).memset B.sm 0 spxBytes,
        (detachedAt E H B mem sk T).T⟩ := by
  rw [cryptoSignAt, Traced.val_bind]
  exact congrArg Traced.val (if_pos h)

theorem cryptoSignAt_of_eq (h : (detachedAt E H B mem sk T).code = 0) :
    (cryptoSignAt E H B mem sk T).val =
      ⟨0, ((detachedAt E H B mem sk T).siglen + B.mlen) % 2 ^ 64,
        (mem.store B.sm (detachedAt E H B mem sk T).sig.toList).memmove (B.sm + spxBytes) B.m
          B.mlen,
        (detachedAt E H B mem sk T).T⟩ := by
  rw [cryptoSignAt, Traced.val_bind]
  exact congrArg Traced.val (if_neg (not_not_intro h))

theorem code_cryptoSignAt :
    (cryptoSignAt E H B mem sk T).val.code = (detachedAt E H B mem sk T).code := by
  by_cases h : (detachedAt E H B mem sk T).code = 0
  · rw [cryptoSignAt_of_eq E H B mem sk T h, h]
  · rw [cryptoSignAt_of_ne E H B mem sk T h]

theorem read_message_store (v : Vector UInt8 3680) :
    (mem.store B.sm v.toList).read B.m B.mlen = mem.read B.m B.mlen := by
  apply (mem.sameOutside_store B.sm v.toList).read_eq
  have hlen : v.toList.length = spxBytes := Vector.length_toList
  have hapart := B.apart
  omega

theorem read_signed (v : Vector UInt8 3680) :
    ((mem.store B.sm v.toList).memmove (B.sm + spxBytes) B.m B.mlen).read B.sm
        (spxBytes + B.mlen) =
      v.toList ++ mem.read B.m B.mlen := by
  have hlen : v.toList.length = spxBytes := Vector.length_toList
  have hsig := ((mem.store B.sm v.toList).sameOutside_memmove (B.sm + spxBytes) B.m
    B.mlen).read_eq (q := B.sm) (k := spxBytes) (Or.inl le_rfl)
  have hstored := mem.read_store_self B.sm v.toList
  rw [hlen] at hstored
  rw [Mem.read_add, hsig, hstored, Mem.read_memmove_self, read_message_store]

theorem sameOutside_signed (v : Vector UInt8 3680) :
    Mem.SameOutside mem
      ((mem.store B.sm v.toList).memmove (B.sm + spxBytes) B.m B.mlen) B.sm
      (spxBytes + B.mlen) := by
  have hlen : v.toList.length = spxBytes := Vector.length_toList
  have hstore := mem.sameOutside_store B.sm v.toList
  have hmove := (mem.store B.sm v.toList).sameOutside_memmove (B.sm + spxBytes) B.m B.mlen
  exact (hstore.mono le_rfl (by omega)).trans (hmove.mono (by omega) (by omega))

theorem sameOutside_cleared (v : Vector UInt8 3680) :
    Mem.SameOutside mem ((mem.store B.sm v.toList).memset B.sm 0 spxBytes) B.sm spxBytes := by
  have hlen : v.toList.length = spxBytes := Vector.length_toList
  have hstore := mem.sameOutside_store B.sm v.toList
  rw [hlen] at hstore
  exact hstore.trans ((mem.store B.sm v.toList).sameOutside_memset B.sm 0 spxBytes)

theorem read_cleared (v : Vector UInt8 3680) :
    ((mem.store B.sm v.toList).memset B.sm 0 spxBytes).read B.sm (spxBytes + B.mlen) =
      List.replicate spxBytes 0 ++ mem.read (B.sm + spxBytes) B.mlen := by
  have htail := (sameOutside_cleared B mem v).read_eq (q := B.sm + spxBytes) (k := B.mlen)
    (Or.inr le_rfl)
  rw [Mem.read_add, Mem.read_memset_self, htail]

end Signing

/-- What `crypto_sign` leaves in memory: the signature and the message, or zeros in place
of the signature. -/
structure SignAtOutcome (mem : Mem UInt8) (B : SignBuffers) (detached : SignResult)
    (r : MemResult) : Prop where
  code : r.code = detached.code
  signed : r.code = 0 → r.len = spxBytes + B.mlen ∧
    r.mem.read B.sm (spxBytes + B.mlen) = detached.sig.toList ++ mem.read B.m B.mlen ∧
    Mem.SameOutside mem r.mem B.sm (spxBytes + B.mlen)
  failed : r.code ≠ 0 → r.len = 0 ∧
    r.mem.read B.sm spxBytes = List.replicate spxBytes 0 ∧
    Mem.SameOutside mem r.mem B.sm spxBytes

theorem signAtOutcome (E : Build) (H : HashFns) (B : SignBuffers) (mem : Mem UInt8)
    (sk : Vector UInt8 64) (T : ThreadState) :
    SignAtOutcome mem B (detachedAt E H B mem sk T) (cryptoSignAt E H B mem sk T).val where
  code := code_cryptoSignAt E H B mem sk T
  signed := by
    intro h
    rw [code_cryptoSignAt] at h
    have hsiglen : (detachedAt E H B mem sk T).siglen = spxBytes := (signed_of_eq_zero h).siglen
    have hfits := B.fits
    have hlen : (spxBytes + B.mlen) % 2 ^ 64 = spxBytes + B.mlen :=
      Nat.mod_eq_of_lt (by omega)
    rw [cryptoSignAt_of_eq E H B mem sk T h, hsiglen, hlen]
    exact ⟨rfl, read_signed B mem _, sameOutside_signed B mem _⟩
  failed := by
    intro h
    rw [code_cryptoSignAt] at h
    rw [cryptoSignAt_of_ne E H B mem sk T h]
    exact ⟨rfl, Mem.read_memset_self _ _ _ _, sameOutside_cleared B mem _⟩

theorem bytesAt_append {n : ℕ} {xs : List UInt8} (h : n ≤ xs.length) (ys : List UInt8) :
    bytesAt n (xs ++ ys) = bytesAt n xs := by
  ext i hi
  simp [bytesAt, List.getElem?_append_left (show i < xs.length by omega)]

/-- The call in memory is the call on the bytes that its buffers hold. -/
theorem cryptoSignAt_eq_cryptoSign (E : Build) (H : HashFns) (B : SignBuffers)
    (mem : Mem UInt8) (sk : Vector UInt8 64) (T : ThreadState) :
    let r := (cryptoSignAt E H B mem sk T).val
    let s := (cryptoSign E H (mem.read B.sm (spxBytes + B.mlen)) (mem.read B.m B.mlen) B.mlen
      sk T).val
    r.code = s.code ∧ r.len = s.smlen ∧ r.T = s.T ∧
      r.mem.read B.sm (spxBytes + B.mlen) = s.sm := by
  have hbuf : bytesAt 3680 (mem.read B.sm (spxBytes + B.mlen)) =
      bytesAt 3680 (mem.read B.sm spxBytes) := by
    rw [Mem.read_add, bytesAt_append (by simp [spxBytes])]
  have hmessage : (mem.read B.m B.mlen).take B.mlen = mem.read B.m B.mlen :=
    List.take_of_length_le (by simp)
  intro r s
  have hs : s = if (detachedAt E H B mem sk T).code ≠ 0
      then ⟨(detachedAt E H B mem sk T).code, 0, List.replicate spxBytes 0 ++
        (mem.read B.sm (spxBytes + B.mlen)).drop spxBytes, (detachedAt E H B mem sk T).T⟩
      else ⟨0, ((detachedAt E H B mem sk T).siglen + B.mlen) % 2 ^ 64,
        (detachedAt E H B mem sk T).sig.toList ++ mem.read B.m B.mlen ++
          (mem.read B.sm (spxBytes + B.mlen)).drop (spxBytes + B.mlen),
        (detachedAt E H B mem sk T).T⟩ := by
    simp only [s, cryptoSign, hbuf, hmessage, Traced.val_bind]
    exact apply_ite Traced.val _ _ _
  by_cases hcode : (detachedAt E H B mem sk T).code = 0
  · rw [if_neg (not_not_intro hcode)] at hs
    have hr : r = _ := cryptoSignAt_of_eq E H B mem sk T hcode
    rw [hs, hr, List.drop_of_length_le (by simp), List.append_nil]
    exact ⟨rfl, rfl, rfl, read_signed B mem _⟩
  · rw [if_pos hcode] at hs
    have hr : r = _ := cryptoSignAt_of_ne E H B mem sk T hcode
    rw [hs, hr, Mem.read_add, List.drop_left' (Mem.length_read _ _ _)]
    exact ⟨rfl, rfl, rfl, read_cleared B mem _⟩

/-!
## Opening
-/

/-- The detached signature of a signed message is accepted. -/
def AcceptedAt (E : Build) (H : HashFns) (mem : Mem UInt8) (sm smlen : ℕ)
    (pk : Vector UInt8 32) (T : ThreadState) : Prop :=
  spxBytes ≤ smlen ∧
    (cryptoSignVerify E H (bytesAt 3680 (mem.read sm spxBytes)) spxBytes
      (mem.read (sm + spxBytes) (smlen - spxBytes)) pk T).val.1 = 0

/-- What `crypto_sign_open` leaves in memory: the message that was accepted, or zeros. -/
structure OpenOutcome (E : Build) (H : HashFns) (mem : Mem UInt8) (m sm smlen : ℕ)
    (pk : Vector UInt8 32) (T : ThreadState) (r : MemResult) : Prop where
  accepted : AcceptedAt E H mem sm smlen pk T → r.code = 0 ∧ r.len = smlen - spxBytes ∧
    r.mem.read m (smlen - spxBytes) = mem.read (sm + spxBytes) (smlen - spxBytes) ∧
    Mem.SameOutside mem r.mem m (smlen - spxBytes)
  rejected : ¬ AcceptedAt E H mem sm smlen pk T → r.code = -1 ∧ r.len = 0 ∧
    r.mem.read m smlen = List.replicate smlen 0 ∧ Mem.SameOutside mem r.mem m smlen

/-- A message is handed out exactly when its signature is accepted. -/
theorem openOutcome (E : Build) (H : HashFns) (mem : Mem UInt8) (m sm smlen : ℕ)
    (pk : Vector UInt8 32) (T : ThreadState) :
    OpenOutcome E H mem m sm smlen pk T (cryptoSignOpen E H mem m sm smlen pk T).val where
  accepted := by
    rintro ⟨hlen, hcode⟩
    rw [cryptoSignOpen, if_neg (Nat.not_lt.mpr hlen), Traced.val_bind]
    simp only [hcode, ne_eq, not_true_eq_false, if_false, Traced.val_pure]
    exact ⟨trivial, trivial, Mem.read_memmove_self _ _ _ _, Mem.sameOutside_memmove _ _ _ _⟩
  rejected := by
    intro h
    rw [cryptoSignOpen]
    split
    · exact ⟨rfl, rfl, Mem.read_memset_self _ _ _ _, Mem.sameOutside_memset _ _ _ _⟩
    · next hlen =>
        have hcode : (cryptoSignVerify E H (bytesAt 3680 (mem.read sm spxBytes)) spxBytes
            (mem.read (sm + spxBytes) (smlen - spxBytes)) pk T).val.1 ≠ 0 :=
          fun hzero => h ⟨Nat.not_lt.mp hlen, hzero⟩
        rw [Traced.val_bind]
        simp only [hcode, ne_eq, not_false_eq_true, if_true, Traced.val_pure]
        exact ⟨trivial, trivial, Mem.read_memset_self _ _ _ _, Mem.sameOutside_memset _ _ _ _⟩

/-- Both calls deliver all or nothing: `crypto_sign`, with the message outside the signature
area, leaves the signed message that it makes from separate buffers, or zeros in place of the
signature; `crypto_sign_open`, however its buffers overlap, leaves an accepted message, or
zeros over the whole output. They change nothing else. -/
theorem signedMessage_allOrNothing (E : Build) (H : HashFns) (mem : Mem UInt8)
    (T : ThreadState) :
    (∀ (B : SignBuffers) (sk : Vector UInt8 64),
      let r := (cryptoSignAt E H B mem sk T).val
      let s := (cryptoSign E H (mem.read B.sm (spxBytes + B.mlen)) (mem.read B.m B.mlen)
        B.mlen sk T).val
      (r.code = s.code ∧ r.len = s.smlen ∧ r.T = s.T ∧
          r.mem.read B.sm (spxBytes + B.mlen) = s.sm) ∧
        SignAtOutcome mem B (detachedAt E H B mem sk T) r) ∧
      ∀ (m sm smlen : ℕ) (pk : Vector UInt8 32),
        OpenOutcome E H mem m sm smlen pk T (cryptoSignOpen E H mem m sm smlen pk T).val :=
  ⟨fun B sk => ⟨cryptoSignAt_eq_cryptoSign E H B mem sk T, signAtOutcome E H B mem sk T⟩,
    fun m sm smlen pk => openOutcome E H mem m sm smlen pk T⟩

/-!
## Round trip
-/

/-- A signed message opens to the message that was signed, for every key that is accepted.
It may have been moved, it may be opened over itself or over anything else, and the opener
may be any build on any thread whose bound for the counters is at least that of the
signer. -/
theorem cryptoSignOpen_cryptoSignAt (E E' : Build) (H : HashFns) (B : SignBuffers)
    (mem : Mem UInt8) (sk : Vector UInt8 64) (T₀ T T' : ThreadState)
    (hkey : (slhDsaSecretKeyValidate E H (some sk.toList) slhDsaSecretKeySize T₀).val.1 = 0)
    (hbound : wotscBound E T ≤ wotscBound E' T')
    (hsign : (cryptoSignAt E H B mem sk T).val.code = 0) :
    let signed := (cryptoSignAt E H B mem sk T).val
    signed.len = spxBytes + B.mlen ∧ Mem.SameOutside mem signed.mem B.sm signed.len ∧
      ∀ (later : Mem UInt8) (sm m : ℕ),
        later.read sm signed.len = signed.mem.read B.sm signed.len →
          let opened := (cryptoSignOpen E' H later m sm signed.len (slice sk 32 32) T').val
          opened.code = 0 ∧ opened.len = B.mlen ∧
            opened.mem.read m B.mlen = mem.read B.m B.mlen ∧
            Mem.SameOutside later opened.mem m B.mlen := by
  have hout := signAtOutcome E H B mem sk T
  obtain ⟨hlen, hread, hframe⟩ := hout.signed hsign
  have hroot := (slhDsaSecretKeyValidate_eq_zero_iff E H sk T₀).mp hkey
  have hdetached : (detachedAt E H B mem sk T).code = 0 := by rw [← hout.code, hsign]
  have hverify := (signed_of_eq_zero hdetached).verify hroot hbound
  intro signed
  refine ⟨hlen, by rw [hlen]; exact hframe, ?_⟩
  intro later sm m hlater
  rw [hlen, hread, Mem.read_add] at hlater
  obtain ⟨hsig, hmessage⟩ := List.append_inj hlater (by simp [spxBytes])
  have hrest : spxBytes + B.mlen - spxBytes = B.mlen := Nat.add_sub_cancel_left _ _
  have haccepted : AcceptedAt E' H later sm (spxBytes + B.mlen) (slice sk 32 32) T' := by
    refine ⟨Nat.le_add_right _ _, ?_⟩
    rw [hrest, hsig, hmessage, bytesAt_toList]
    exact hverify
  have hopen := (openOutcome E' H later m sm _ (slice sk 32 32) T').accepted haccepted
  rw [hrest, hmessage] at hopen
  rw [hlen]
  exact hopen

/-- Signing a message of one byte where the signed message will have it, and opening it to
where the signature was. -/
theorem cryptoSignOpen_cryptoSignAt_inPlace :
    let B : SignBuffers := ⟨1, 3681, 1, Or.inr le_rfl, by decide⟩
    let mem : Mem UInt8 := fun a => UInt8.ofNat a
    let signed := (cryptoSignAt smallestCaps constantHash B mem (Vector.replicate 64 0)
      sourceThread).val
    let opened := (cryptoSignOpen smallestCaps constantHash signed.mem 1 1 signed.len
      (slice (Vector.replicate 64 0) 32 32) ThreadState.fresh).val
    opened.code = 0 ∧ opened.mem.read 1 1 = mem.read 3681 1 := by
  intro B mem signed opened
  have hrun := cryptoSignOpen_cryptoSignAt smallestCaps smallestCaps constantHash B mem
    (Vector.replicate 64 0) ThreadState.fresh sourceThread ThreadState.fresh
    (by
      rw [slhDsaSecretKeyValidate_eq_zero_iff, skRoot_constantHash]
      decide)
    le_rfl
    (by
      rw [code_cryptoSignAt]
      exact cryptoSignSignature_constantHash _ _ _ _)
  obtain ⟨hcode, _, hmessage, _⟩ := hrun.2.2 signed.mem 1 1 rfl
  exact ⟨hcode, hmessage⟩

end BitcoinPqc
