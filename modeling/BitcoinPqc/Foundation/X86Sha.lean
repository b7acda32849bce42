import BitcoinPqc.Foundation.X86

/-!
# The SHA instructions of x86

The instructions for SHA-256 work on four 32-bit words in a register and those for
SHA-512 on four 64-bit words; otherwise they are the same. The variables of the hash are
kept in two registers, `C, D, G, H` and `A, B, E, F` from the highest lane to the lowest,
and two rounds turn the second into what is then the first.
-/

namespace BitcoinPqc

/-- The functions of the instruction reference. -/
structure ShaFns (W : Type) where
  ch : W → W → W → W
  maj : W → W → W → W
  /-- `Σ0` and `Σ1`. -/
  sum0 : W → W
  sum1 : W → W
  /-- `σ0` and `σ1`. -/
  sigma0 : W → W
  sigma1 : W → W

/-- Rotation to the right. -/
def ror32 (x c : UInt32) : UInt32 := (x >>> c) ||| (x <<< (32 - c))

/-- Rotation to the right. -/
def ror64 (x c : UInt64) : UInt64 := (x >>> c) ||| (x <<< (64 - c))

/-- The functions of SHA-256. -/
def shaFns32 : ShaFns UInt32 where
  ch x y z := (x &&& y) ^^^ (~~~x &&& z)
  maj x y z := (x &&& y) ^^^ (x &&& z) ^^^ (y &&& z)
  sum0 x := ror32 x 2 ^^^ ror32 x 13 ^^^ ror32 x 22
  sum1 x := ror32 x 6 ^^^ ror32 x 11 ^^^ ror32 x 25
  sigma0 x := ror32 x 7 ^^^ ror32 x 18 ^^^ (x >>> 3)
  sigma1 x := ror32 x 17 ^^^ ror32 x 19 ^^^ (x >>> 10)

/-- The functions of SHA-512. -/
def shaFns64 : ShaFns UInt64 where
  ch x y z := (x &&& y) ^^^ (~~~x &&& z)
  maj x y z := (x &&& y) ^^^ (x &&& z) ^^^ (y &&& z)
  sum0 x := ror64 x 28 ^^^ ror64 x 34 ^^^ ror64 x 39
  sum1 x := ror64 x 14 ^^^ ror64 x 18 ^^^ ror64 x 41
  sigma0 x := ror64 x 1 ^^^ ror64 x 8 ^^^ (x >>> 7)
  sigma1 x := ror64 x 19 ^^^ ror64 x 61 ^^^ (x >>> 6)

section Words

variable {W : Type} [Add W] [Inhabited W] (F : ShaFns W)

/-- One round on the variables `A` to `H`. -/
def shaRound (v : Vector W 8) (wk : W) : Vector W 8 :=
  let a := v.getD 0 default
  let b := v.getD 1 default
  let c := v.getD 2 default
  let d := v.getD 3 default
  let e := v.getD 4 default
  let f := v.getD 5 default
  let g := v.getD 6 default
  let h := v.getD 7 default
  #v[F.ch e f g + F.sum1 e + wk + h + F.maj a b c + F.sum0 a, a, b, c,
    F.ch e f g + F.sum1 e + wk + h + d, e, f, g]

/-- The register with `A, B, E, F`. -/
def abef (v : Vector W 8) : Vector W 4 :=
  #v[v.getD 5 default, v.getD 4 default, v.getD 1 default, v.getD 0 default]

/-- The register with `C, D, G, H`. -/
def cdgh (v : Vector W 8) : Vector W 4 :=
  #v[v.getD 7 default, v.getD 6 default, v.getD 3 default, v.getD 2 default]

/-- The variables in two registers. -/
def shaVariables (a b : Vector W 4) : Vector W 8 :=
  #v[b.getD 3 default, b.getD 2 default, a.getD 3 default, a.getD 2 default,
    b.getD 1 default, b.getD 0 default, a.getD 1 default, a.getD 0 default]

/-- Two rounds, from `C, D, G, H` in `a` and `A, B, E, F` in `b`. -/
def shaRnds2 (a b : Vector W 4) (wk₀ wk₁ : W) : Vector W 4 :=
  abef (shaRound F (shaRound F (shaVariables a b) wk₀) wk₁)

/-- The first part of the schedule, for the words `0` to `3` in `a` and the word `4`. -/
def shaMsg1 (a : Vector W 4) (w₄ : W) : Vector W 4 :=
  #v[a.getD 0 default + F.sigma0 (a.getD 1 default),
    a.getD 1 default + F.sigma0 (a.getD 2 default),
    a.getD 2 default + F.sigma0 (a.getD 3 default),
    a.getD 3 default + F.sigma0 w₄]

/-- The second part of the schedule, for the words `14` and `15` in the higher half of
`b`. -/
def shaMsg2 (a b : Vector W 4) : Vector W 4 :=
  let w₁₆ := a.getD 0 default + F.sigma1 (b.getD 2 default)
  let w₁₇ := a.getD 1 default + F.sigma1 (b.getD 3 default)
  let w₁₈ := a.getD 2 default + F.sigma1 w₁₆
  let w₁₉ := a.getD 3 default + F.sigma1 w₁₇
  #v[w₁₆, w₁₇, w₁₈, w₁₉]

/-- Two rounds turn the registers with the variables into the register with `A, B, E, F`
of the new variables. -/
theorem shaRnds2_cdgh_abef (v : Vector W 8) (wk₀ wk₁ : W) :
    shaRnds2 F (cdgh v) (abef v) wk₀ wk₁ = abef (shaRound F (shaRound F v wk₀) wk₁) := rfl

/-- The old register with `A, B, E, F` is then the one with `C, D, G, H`. -/
theorem cdgh_shaRound_shaRound (v : Vector W 8) (wk₀ wk₁ : W) :
    cdgh (shaRound F (shaRound F v wk₀) wk₁) = abef v := rfl

end Words

/-- `_mm_sha256rnds2_epu32`. -/
def mmSha256rnds2 (a b k : M128i) : M128i :=
  ofLanes dwordCodec (shaRnds2 shaFns32 (lanes dwordCodec a) (lanes dwordCodec b)
    (lane dwordCodec k 0) (lane dwordCodec k 1))

/-- `_mm_sha256msg1_epu32`. -/
def mmSha256msg1 (a b : M128i) : M128i :=
  ofLanes dwordCodec (shaMsg1 shaFns32 (lanes dwordCodec a) (lane dwordCodec b 0))

/-- `_mm_sha256msg2_epu32`. -/
def mmSha256msg2 (a b : M128i) : M128i :=
  ofLanes dwordCodec (shaMsg2 shaFns32 (lanes dwordCodec a) (lanes dwordCodec b))

/-- `_mm256_sha512rnds2_epi64`. -/
def mm256Sha512rnds2 (a b : M256i) (k : M128i) : M256i :=
  ofLanes qwordCodec (shaRnds2 shaFns64 (lanes qwordCodec a) (lanes qwordCodec b)
    (lane qwordCodec k 0) (lane qwordCodec k 1))

/-- `_mm256_sha512msg1_epi64`. -/
def mm256Sha512msg1 (a : M256i) (b : M128i) : M256i :=
  ofLanes qwordCodec (shaMsg1 shaFns64 (lanes qwordCodec a) (lane qwordCodec b 0))

/-- `_mm256_sha512msg2_epi64`. -/
def mm256Sha512msg2 (a b : M256i) : M256i :=
  ofLanes qwordCodec (shaMsg2 shaFns64 (lanes qwordCodec a) (lanes qwordCodec b))

end BitcoinPqc
