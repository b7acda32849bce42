import BitcoinPqc.Foundation.X86Sha
import BitcoinPqc.Sphincs.Sha2

/-!
# SHA-2 with the SHA instructions of x86

The code of `sha2_x86_shani.c` for x86-64, in a build with the intrinsics. The words of the
state are moved into two registers, the blocks are compressed there, and the words are moved
back. The result of a support check is kept in a static variable, which is negative before
the first check.
-/

namespace BitcoinPqc

/-- `state0` and `state1`. -/
structure ShaState (R : Type) where
  state0 : R
  state1 : R

/-- The state with the four registers of the message schedule. -/
structure ShaRegs (R : Type) where
  state : ShaState R
  m0 : R
  m1 : R
  m2 : R
  m3 : R

/-!
## SHA-256
-/

/-- Four words of the state in memory. -/
def mmLoadWords (state : Vector UInt32 8) (i : ℕ) : M128i :=
  ofLanes dwordCodec (Vector.ofFn fun j => state.getD (i + j.val) 0)

/-- `bswap_mask` of `spx_sha256_process_x86`. -/
def bswapMask32 : M128i := mmSetEpi64x 0x0c0d0e0f08090a0b 0x0405060700010203

/-- The first lines of `spx_sha256_process_x86`. -/
def spxSha256LoadState (state : Vector UInt32 8) : ShaState M128i :=
  let tmp := mmLoadWords state 0
  let state1 := mmLoadWords state 4
  let tmp := mmShuffleEpi32 tmp 0xB1
  let state1 := mmShuffleEpi32 state1 0x1B
  let state0 := mmAlignrEpi8 tmp state1 8
  let state1 := mmBlendEpi16 state1 tmp 0xF0
  ⟨state0, state1⟩

/-- The last lines of `spx_sha256_process_x86`. -/
def spxSha256StoreState (s : ShaState M128i) : Vector UInt32 8 :=
  let tmp := mmShuffleEpi32 s.state0 0x1B
  let state1 := mmShuffleEpi32 s.state1 0xB1
  let state0 := mmBlendEpi16 tmp state1 0xF0
  let state1 := mmAlignrEpi8 state1 tmp 8
  (lanes dwordCodec state0 ++ lanes dwordCodec state1 : Vector UInt32 (4 + 4))

/-- The lines for four rounds. -/
def spxSha256FourRounds (s : ShaState M128i) (msg k : M128i) : ShaState M128i :=
  let msg := mmAddEpi32 msg k
  let state1 := mmSha256rnds2 s.state1 s.state0 msg
  let msg := mmShuffleEpi32 msg 0x0E
  let state0 := mmSha256rnds2 s.state0 state1 msg
  ⟨state0, state1⟩

/-- The lines that complete `msg0` when `msg2` and `msg3` hold the words before it. -/
def spxSha256NextWords (msg0 msg2 msg3 : M128i) : M128i :=
  let tmp := mmAlignrEpi8 msg3 msg2 4
  let msg0 := mmAddEpi32 msg0 tmp
  mmSha256msg2 msg0 msg3

/-- One pass through the loop of `spx_sha256_process_x86`. -/
def spxSha256BlockX86 (s : ShaState M128i) (data : Vector UInt8 64) : ShaState M128i :=
  let abefSave := s.state0
  let cdghSave := s.state1
  let msg0 := mmShuffleEpi8 (slice data 0 16) bswapMask32
  let s := spxSha256FourRounds s msg0 (mmSetEpi64x 0xE9B5DBA5B5C0FBCF 0x71374491428A2F98)
  let msg1 := mmShuffleEpi8 (slice data 16 16) bswapMask32
  let s := spxSha256FourRounds s msg1 (mmSetEpi64x 0xAB1C5ED5923F82A4 0x59F111F13956C25B)
  let msg0 := mmSha256msg1 msg0 msg1
  let msg2 := mmShuffleEpi8 (slice data 32 16) bswapMask32
  let s := spxSha256FourRounds s msg2 (mmSetEpi64x 0x550C7DC3243185BE 0x12835B01D807AA98)
  let msg1 := mmSha256msg1 msg1 msg2
  let msg3 := mmShuffleEpi8 (slice data 48 16) bswapMask32
  let s := spxSha256FourRounds s msg3 (mmSetEpi64x 0xC19BF1749BDC06A7 0x80DEB1FE72BE5D74)
  let msg0 := spxSha256NextWords msg0 msg2 msg3
  let msg2 := mmSha256msg1 msg2 msg3
  let s := spxSha256FourRounds s msg0 (mmSetEpi64x 0x240CA1CC0FC19DC6 0xEFBE4786E49B69C1)
  let msg1 := spxSha256NextWords msg1 msg3 msg0
  let msg3 := mmSha256msg1 msg3 msg0
  let s := spxSha256FourRounds s msg1 (mmSetEpi64x 0x76F988DA5CB0A9DC 0x4A7484AA2DE92C6F)
  let msg2 := spxSha256NextWords msg2 msg0 msg1
  let msg0 := mmSha256msg1 msg0 msg1
  let s := spxSha256FourRounds s msg2 (mmSetEpi64x 0xBF597FC7B00327C8 0xA831C66D983E5152)
  let msg3 := spxSha256NextWords msg3 msg1 msg2
  let msg1 := mmSha256msg1 msg1 msg2
  let s := spxSha256FourRounds s msg3 (mmSetEpi64x 0x1429296706CA6351 0xD5A79147C6E00BF3)
  let msg0 := spxSha256NextWords msg0 msg2 msg3
  let msg2 := mmSha256msg1 msg2 msg3
  let s := spxSha256FourRounds s msg0 (mmSetEpi64x 0x53380D134D2C6DFC 0x2E1B213827B70A85)
  let msg1 := spxSha256NextWords msg1 msg3 msg0
  let msg3 := mmSha256msg1 msg3 msg0
  let s := spxSha256FourRounds s msg1 (mmSetEpi64x 0x92722C8581C2C92E 0x766A0ABB650A7354)
  let msg2 := spxSha256NextWords msg2 msg0 msg1
  let msg0 := mmSha256msg1 msg0 msg1
  let s := spxSha256FourRounds s msg2 (mmSetEpi64x 0xC76C51A3C24B8B70 0xA81A664BA2BFE8A1)
  let msg3 := spxSha256NextWords msg3 msg1 msg2
  let msg1 := mmSha256msg1 msg1 msg2
  let s := spxSha256FourRounds s msg3 (mmSetEpi64x 0x106AA070F40E3585 0xD6990624D192E819)
  let msg0 := spxSha256NextWords msg0 msg2 msg3
  let msg2 := mmSha256msg1 msg2 msg3
  let s := spxSha256FourRounds s msg0 (mmSetEpi64x 0x34B0BCB52748774C 0x1E376C0819A4C116)
  let msg1 := spxSha256NextWords msg1 msg3 msg0
  let msg3 := mmSha256msg1 msg3 msg0
  let s := spxSha256FourRounds s msg1 (mmSetEpi64x 0x682E6FF35B9CCA4F 0x4ED8AA4A391C0CB3)
  let msg2 := spxSha256NextWords msg2 msg0 msg1
  let s := spxSha256FourRounds s msg2 (mmSetEpi64x 0x8CC7020884C87814 0x78A5636F748F82EE)
  let msg3 := spxSha256NextWords msg3 msg1 msg2
  let s := spxSha256FourRounds s msg3 (mmSetEpi64x 0xC67178F2BEF9A3F7 0xA4506CEB90BEFFFA)
  ⟨mmAddEpi32 s.state0 abefSave, mmAddEpi32 s.state1 cdghSave⟩

/-- `spx_sha256_process_x86`. -/
def spxSha256ProcessX86 (state : Vector UInt32 8) (data : List UInt8) : Vector UInt32 8 :=
  let r := hashblocksLoop sha256BlockBytes_pos spxSha256BlockX86 (spxSha256LoadState state) data
  spxSha256StoreState r.val.1

/-!
## SHA-512
-/

/-- `spx_sha512_k`. -/
def spxSha512K : Vector UInt64 80 :=
  #v[0x428A2F98D728AE22, 0x7137449123EF65CD, 0xB5C0FBCFEC4D3B2F, 0xE9B5DBA58189DBBC,
    0x3956C25BF348B538, 0x59F111F1B605D019, 0x923F82A4AF194F9B, 0xAB1C5ED5DA6D8118,
    0xD807AA98A3030242, 0x12835B0145706FBE, 0x243185BE4EE4B28C, 0x550C7DC3D5FFB4E2,
    0x72BE5D74F27B896F, 0x80DEB1FE3B1696B1, 0x9BDC06A725C71235, 0xC19BF174CF692694,
    0xE49B69C19EF14AD2, 0xEFBE4786384F25E3, 0x0FC19DC68B8CD5B5, 0x240CA1CC77AC9C65,
    0x2DE92C6F592B0275, 0x4A7484AA6EA6E483, 0x5CB0A9DCBD41FBD4, 0x76F988DA831153B5,
    0x983E5152EE66DFAB, 0xA831C66D2DB43210, 0xB00327C898FB213F, 0xBF597FC7BEEF0EE4,
    0xC6E00BF33DA88FC2, 0xD5A79147930AA725, 0x06CA6351E003826F, 0x142929670A0E6E70,
    0x27B70A8546D22FFC, 0x2E1B21385C26C926, 0x4D2C6DFC5AC42AED, 0x53380D139D95B3DF,
    0x650A73548BAF63DE, 0x766A0ABB3C77B2A8, 0x81C2C92E47EDAEE6, 0x92722C851482353B,
    0xA2BFE8A14CF10364, 0xA81A664BBC423001, 0xC24B8B70D0F89791, 0xC76C51A30654BE30,
    0xD192E819D6EF5218, 0xD69906245565A910, 0xF40E35855771202A, 0x106AA07032BBD1B8,
    0x19A4C116B8D2D0C8, 0x1E376C085141AB53, 0x2748774CDF8EEB99, 0x34B0BCB5E19B48A8,
    0x391C0CB3C5C95A63, 0x4ED8AA4AE3418ACB, 0x5B9CCA4F7763E373, 0x682E6FF3D6B2B8A3,
    0x748F82EE5DEFB2FC, 0x78A5636F43172F60, 0x84C87814A1F0AB72, 0x8CC702081A6439EC,
    0x90BEFFFA23631E28, 0xA4506CEBDE82BDE9, 0xBEF9A3F7B2C67915, 0xC67178F2E372532B,
    0xCA273ECEEA26619C, 0xD186B8C721C0C207, 0xEADA7DD6CDE0EB1E, 0xF57D4F7FEE6ED178,
    0x06F067AA72176FBA, 0x0A637DC5A2C898A6, 0x113F9804BEF90DAE, 0x1B710B35131C471B,
    0x28DB77F523047D84, 0x32CAAB7B40C72493, 0x3C9EBE0A15C9BEBC, 0x431D67C49C100D4C,
    0x4CC5D4BECB3E42B6, 0x597F299CFC657E2A, 0x5FCB6FAB3AD6FAEC, 0x6C44198C4A475817]

/-- `k[i]`, four constants. -/
def spxSha512KRegister (i : ℕ) : M256i :=
  ofLanes qwordCodec (Vector.ofFn fun j => spxSha512K.getD (4 * i + j.val) 0)

/-- Four words of the state in memory. -/
def mm256LoadWords (state : Vector UInt64 8) (i : ℕ) : M256i :=
  ofLanes qwordCodec (Vector.ofFn fun j => state.getD (i + j.val) 0)

/-- `bswap_mask` of `spx_sha512_process_x86`. -/
def bswapMask64 : M256i :=
  mm256SetEpi64x 0x08090A0B0C0D0E0F 0x0001020304050607 0x08090A0B0C0D0E0F 0x0001020304050607

/-- `spx_sha512_permute_state`. -/
def spxSha512PermuteState (s : ShaState M256i) : ShaState M256i :=
  let state0 := mm256ShuffleEpi32 s.state0 0x4E
  let state1 := mm256ShuffleEpi32 s.state1 0x4E
  let tmp := state0
  let state0 := mm256Permute2x128 state0 state1 0x13
  let state1 := mm256Permute2x128 tmp state1 0x02
  ⟨state0, state1⟩

/-- `spx_sha512_4rounds`. -/
def spxSha512FourRounds (s : ShaState M256i) (msg k : M256i) : ShaState M256i :=
  let wk := mm256AddEpi64 msg k
  let state0 := mm256Sha512rnds2 s.state0 s.state1 (mm256Extracti128 wk 0)
  let state1 := mm256Sha512rnds2 s.state1 state0 (mm256Extracti128 wk 1)
  ⟨state0, state1⟩

/-- `spx_sha512_msg_expand`. It returns what it stores to `m2` and `m3`. -/
def spxSha512MsgExpand (m0 m1 m2 m3 : M256i) : M256i × M256i :=
  let m3 := mm256Sha512msg1 m3 (mm256Extracti128 m0 0)
  let m2 := mm256AddEpi64 m2 (mm256Permute4x64 (mm256BlendEpi32 m0 m1 0x03) 0x39)
  let m2 := mm256Sha512msg2 m2 m1
  (m2, m3)

/-- The body of the loop over `r`. -/
def spxSha512RoundsBody (x : ShaRegs M256i) (r : ℕ) : ShaRegs M256i :=
  let s := spxSha512FourRounds x.state x.m2 (spxSha512KRegister (r + 0))
  let e := spxSha512MsgExpand x.m2 x.m3 x.m0 x.m1
  let m0 := e.1
  let m1 := e.2
  let s := spxSha512FourRounds s x.m3 (spxSha512KRegister (r + 1))
  let e := spxSha512MsgExpand x.m3 m0 m1 x.m2
  let m1 := e.1
  let m2 := e.2
  let s := spxSha512FourRounds s m0 (spxSha512KRegister (r + 2))
  let e := spxSha512MsgExpand m0 m1 m2 x.m3
  let m2 := e.1
  let m3 := e.2
  let s := spxSha512FourRounds s m1 (spxSha512KRegister (r + 3))
  let e := spxSha512MsgExpand m1 m2 m3 m0
  let m3 := e.1
  let m0 := e.2
  ⟨s, m0, m1, m2, m3⟩

/-- One pass through the loop of `spx_sha512_process_x86`. -/
def spxSha512BlockX86 (s : ShaState M256i) (input : Vector UInt8 128) : ShaState M256i :=
  let state0Save := s.state0
  let state1Save := s.state1
  let m0 := mm256ShuffleEpi8 (slice input 0 32) bswapMask64
  let m1 := mm256ShuffleEpi8 (slice input 32 32) bswapMask64
  let m2 := mm256ShuffleEpi8 (slice input 64 32) bswapMask64
  let m3 := mm256ShuffleEpi8 (slice input 96 32) bswapMask64
  let s := spxSha512FourRounds s m0 (spxSha512KRegister 0)
  let s := spxSha512FourRounds s m1 (spxSha512KRegister 1)
  let m0 := mm256Sha512msg1 m0 (mm256Extracti128 m1 0)
  -- `r` is 2, 6, 10 and 14.
  let x := (List.range' 2 4 4).foldl spxSha512RoundsBody ⟨s, m0, m1, m2, m3⟩
  let s := spxSha512FourRounds x.state x.m2 (spxSha512KRegister 18)
  let s := spxSha512FourRounds s x.m3 (spxSha512KRegister 19)
  ⟨mm256AddEpi64 s.state0 state0Save, mm256AddEpi64 s.state1 state1Save⟩

/-- `spx_sha512_process_x86`. -/
def spxSha512ProcessX86 (state : Vector UInt64 8) (input : List UInt8) : Vector UInt64 8 :=
  let s := spxSha512PermuteState ⟨mm256LoadWords state 0, mm256LoadWords state 4⟩
  let r := hashblocksLoop sha512BlockBytes_pos spxSha512BlockX86 s input
  let s := spxSha512PermuteState r.val.1
  (lanes qwordCodec s.state0 ++ lanes qwordCodec s.state1 : Vector UInt64 (4 + 4))

/-!
## The support checks
-/

/-- What `cpuid` returns. -/
structure CpuidRegs where
  eax : UInt32
  ebx : UInt32
  ecx : UInt32
  edx : UInt32

/-- What the checks ask the processor. -/
structure X86Cpu where
  /-- `spx_cpuid`. -/
  cpuid : UInt32 → UInt32 → CpuidRegs
  /-- `spx_xgetbv0`. -/
  xgetbv0 : UInt64

/-- `reg & (1U << i)`. -/
def cpuBit (reg i : UInt32) : UInt32 := reg &&& (1 <<< i)

/-- `spx_detect_sha256_ni`. -/
def spxDetectSha256Ni (cpu : X86Cpu) : Bool :=
  if (cpu.cpuid 0 0).eax < 7 then false
  else if cpuBit (cpu.cpuid 1 0).ecx 9 = 0 ∨ cpuBit (cpu.cpuid 1 0).ecx 19 = 0 then
    false
  else decide (cpuBit (cpu.cpuid 7 0).ebx 29 ≠ 0)

/-- `spx_detect_sha512_ni`. -/
def spxDetectSha512Ni (cpu : X86Cpu) : Bool :=
  if (cpu.cpuid 0 0).eax < 7 then false
  else if cpuBit (cpu.cpuid 1 0).ecx 9 = 0 ∨ cpuBit (cpu.cpuid 1 0).ecx 19 = 0 then
    false
  else if cpuBit (cpu.cpuid 1 0).ecx 27 = 0 ∨ cpuBit (cpu.cpuid 1 0).ecx 28 = 0 then
    false
  else if cpu.xgetbv0 &&& 0x6 ≠ 0x6 then false
  else if cpuBit (cpu.cpuid 7 0).ebx 5 = 0 ∨ (cpu.cpuid 7 0).eax < 1 then false
  else decide (cpuBit (cpu.cpuid 7 1).eax 0 ≠ 0)

/-- `spx_sha2_x86_can_use_sha256_ni` with the static variable `cached`. What it returns is
then the value of the variable. -/
def spxSha2X86CanUseSha256Ni (cpu : X86Cpu) (cached : ℤ) : ℤ :=
  if cached < 0 then if spxDetectSha256Ni cpu then 1 else 0 else cached

/-- `spx_sha2_x86_can_use_sha512_ni` with the static variable `cached`. What it returns is
then the value of the variable. -/
def spxSha2X86CanUseSha512Ni (cpu : X86Cpu) (cached : ℤ) : ℤ :=
  if cached < 0 then if spxDetectSha512Ni cpu then 1 else 0 else cached

/-!
## The backends
-/

/-- `spx_sha2_x86_hashblocks_sha256`: the state bytes and the number of bytes left over. -/
def spxSha2X86HashblocksSha256 (cpu : X86Cpu) (cached : ℤ) (statebytes : Vector UInt8 32)
    (inp : List UInt8) : Vector UInt8 32 × ℕ :=
  let fullBytes := inp.length &&& (2 ^ 64 - 64)
  if fullBytes = 0 ∨ spxSha2X86CanUseSha256Ni cpu cached = 0 then (statebytes, inp.length)
  else
    let state := spxSha256ProcessX86 (loadWords32 8 statebytes) (inp.take fullBytes)
    (storeWords32 state, inp.length - fullBytes)

/-- `spx_sha2_x86_hashblocks_sha512`: the state bytes and the number of bytes left over,
converted to `int`. -/
def spxSha2X86HashblocksSha512 (cpu : X86Cpu) (cached : ℤ) (statebytes : Vector UInt8 64)
    (inp : List UInt8) : Vector UInt8 64 × ℤ :=
  let fullBytes := inp.length &&& (2 ^ 64 - 128)
  if fullBytes = 0 ∨ spxSha2X86CanUseSha512Ni cpu cached = 0 then
    (statebytes, (inp.length : ℤ).bmod (2 ^ 32))
  else
    let state := spxSha512ProcessX86 (loadWords64 8 statebytes) (inp.take fullBytes)
    (storeWords64 state, ((inp.length - fullBytes : ℕ) : ℤ).bmod (2 ^ 32))

end BitcoinPqc
