import BitcoinPqc.Correctness.Sha2X86

/-!
# The x86 backends

When the support check succeeds the backends compress the whole blocks of their input and
leave the rest, as the scalar code does. They only pass on input with a whole block, so an
input without one leaves the state bytes as they are, which the scalar code loads and stores
again.
-/

namespace BitcoinPqc

section Lengths

variable {W : Type} {b n : ℕ} {load : Vector UInt8 n → Vector W 8}
  {store : Vector W 8 → Vector UInt8 n} {compress : Vector W 8 → Vector UInt8 b → Vector W 8}

variable (compress) in
theorem hashblocks_of_fullBytes (hb : 0 < b) (hstore : ∀ st, store (load st) = st)
    (st : Vector UInt8 n) (inp : List UInt8) :
    (if b * (inp.length / b) = 0 then (st, inp.length)
      else (store (absorb compress (load st) (inp.take (b * (inp.length / b)))),
        inp.length - b * (inp.length / b))) =
      (hashblocks hb load store compress st inp).val := by
  rw [hashblocks_eq, absorb_take hb, ← Nat.mod_eq_sub]
  by_cases hle : b ≤ inp.length
  · rw [if_neg (Nat.mul_ne_zero hb.ne' (Nat.div_pos hle hb).ne')]
  · have hlt := Nat.lt_of_not_le hle
    rw [Nat.div_eq_of_lt hlt, Nat.mul_zero, if_pos rfl, absorb_of_lt hlt, hstore,
      Nat.mod_eq_of_lt hlt]

end Lengths

variable {cpu : X86Cpu} {cached : ℤ} {inp : List UInt8}

theorem spxSha2X86HashblocksSha256_eq (hcpu : spxSha2X86CanUseSha256Ni cpu cached ≠ 0)
    (hlen : inp.length < 2 ^ 64) (statebytes : Vector UInt8 32) :
    spxSha2X86HashblocksSha256 cpu cached statebytes inp =
      (cryptoHashblocksSha256Ref statebytes inp).val := by
  have hmask : inp.length &&& (2 ^ 64 - 64) = 64 * (inp.length / 64) :=
    and_two_pow_sub _ 6 hlen (by decide)
  rw [cryptoHashblocksSha256Ref, cryptoHashblocksSha256,
    ← hashblocks_of_fullBytes sha256Compress (by decide) storeWords32_loadWords32,
    spxSha2X86HashblocksSha256, hmask, spxSha256ProcessX86_eq]
  simp only [hcpu, or_false]

/-- The `int` that the function returns holds the number of bytes left over. -/
theorem spxSha2X86HashblocksSha512_eq (hcpu : spxSha2X86CanUseSha512Ni cpu cached ≠ 0)
    (hlen : inp.length < 2 ^ 64) (statebytes : Vector UInt8 64) :
    spxSha2X86HashblocksSha512 cpu cached statebytes inp =
      ((cryptoHashblocksSha512Ref statebytes inp).val.1,
        ((cryptoHashblocksSha512Ref statebytes inp).val.2 : ℤ)) := by
  have hmask : inp.length &&& (2 ^ 64 - 128) = 128 * (inp.length / 128) :=
    and_two_pow_sub _ 7 hlen (by decide)
  have hrest : (cryptoHashblocksSha512Ref statebytes inp).val.2 < 128 := by
    rw [cryptoHashblocksSha512Ref, cryptoHashblocksSha512, hashblocks_eq]
    exact Nat.mod_lt _ (by decide)
  have hint : ((cryptoHashblocksSha512Ref statebytes inp).val.2 : ℤ).bmod (2 ^ 32) =
      (cryptoHashblocksSha512Ref statebytes inp).val.2 :=
    Int.bmod_eq_of_le (by omega) (by omega)
  rw [← hint, cryptoHashblocksSha512Ref, cryptoHashblocksSha512,
    ← hashblocks_of_fullBytes sha512Compress (by decide) storeWords64_loadWords64,
    spxSha2X86HashblocksSha512, hmask, spxSha512ProcessX86_eq]
  simp only [hcpu, or_false]
  split
  · rfl
  · rfl

/-- Where the support check succeeds the backends leave the state bytes of the scalar code,
and for SHA-256 its remainder. -/
theorem spxSha2X86_eq_ref (cpu : X86Cpu) (cached256 cached512 : ℤ) (inp : List UInt8)
    (hlen : inp.length < 2 ^ 64) :
    (∀ statebytes, spxSha2X86CanUseSha256Ni cpu cached256 ≠ 0 →
      spxSha2X86HashblocksSha256 cpu cached256 statebytes inp =
        (cryptoHashblocksSha256Ref statebytes inp).val) ∧
      ∀ statebytes, spxSha2X86CanUseSha512Ni cpu cached512 ≠ 0 →
        (spxSha2X86HashblocksSha512 cpu cached512 statebytes inp).1 =
          (cryptoHashblocksSha512Ref statebytes inp).val.1 := by
  constructor
  · intro statebytes hcpu
    exact spxSha2X86HashblocksSha256_eq hcpu hlen statebytes
  · intro statebytes hcpu
    rw [spxSha2X86HashblocksSha512_eq hcpu hlen]

/-- A processor with every feature. -/
def fullCpu : X86Cpu where
  cpuid _ _ := ⟨0xffffffff, 0xffffffff, 0xffffffff, 0xffffffff⟩
  xgetbv0 := 0x7

/-- The padded message `abc`, on a processor that has not been asked before. -/
theorem spxSha2X86_eq_ref_abc :
    spxSha2X86HashblocksSha256 fullCpu (-1) iv256 (sha512Padded [0x61, 0x62, 0x63] 3) =
        (cryptoHashblocksSha256Ref iv256 (sha512Padded [0x61, 0x62, 0x63] 3)).val ∧
      (spxSha2X86HashblocksSha512 fullCpu (-1) iv512 (sha512Padded [0x61, 0x62, 0x63] 3)).1 =
        (cryptoHashblocksSha512Ref iv512 (sha512Padded [0x61, 0x62, 0x63] 3)).val.1 :=
  ⟨(spxSha2X86_eq_ref fullCpu (-1) (-1) (sha512Padded [0x61, 0x62, 0x63] 3)
      (by decide +kernel)).1 iv256 (by decide),
    (spxSha2X86_eq_ref fullCpu (-1) (-1) (sha512Padded [0x61, 0x62, 0x63] 3)
      (by decide +kernel)).2 iv512 (by decide)⟩

end BitcoinPqc
