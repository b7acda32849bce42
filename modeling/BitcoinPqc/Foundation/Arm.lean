import BitcoinPqc.Foundation.Simd

/-!
# The SHA-256 instructions of ARMv8

The instructions take and return registers with four 32-bit words, the lowest lane first.
The instructions `SHA256H` and `SHA256H2` do the same four rounds on `x`, the variables
`A, B, C, D`, and `y`, the variables `E, F, G, H`; the first returns `x` and the second `y`.
Each takes the register that it returns as its first operand.
-/

namespace BitcoinPqc

/-- `uint32x4_t`. -/
abbrev Uint32x4 : Type := Vector UInt32 4

/-- `ROR`. -/
def armRor (x c : UInt32) : UInt32 := (x >>> c) ||| (x <<< (32 - c))

/-- `SHAchoose`. -/
def shaChoose (x y z : UInt32) : UInt32 := ((y ^^^ z) &&& x) ^^^ z

/-- `SHAmajority`. -/
def shaMajority (x y z : UInt32) : UInt32 := (x &&& y) ||| ((x ||| y) &&& z)

/-- `SHAhashSIGMA0`. -/
def shaHashSigma0 (x : UInt32) : UInt32 := armRor x 2 ^^^ armRor x 13 ^^^ armRor x 22

/-- `SHAhashSIGMA1`. -/
def shaHashSigma1 (x : UInt32) : UInt32 := armRor x 6 ^^^ armRor x 11 ^^^ armRor x 25

/-- One pass through the loop of `SHA256hash`. The last step rotates `y` and `x` together by
one word. -/
def sha256HashRound (s : Uint32x4 × Uint32x4) (w : UInt32) : Uint32x4 × Uint32x4 :=
  let x := s.1
  let y := s.2
  let chs := shaChoose (y.getD 0 0) (y.getD 1 0) (y.getD 2 0)
  let maj := shaMajority (x.getD 0 0) (x.getD 1 0) (x.getD 2 0)
  let t := y.getD 3 0 + shaHashSigma1 (y.getD 0 0) + chs + w
  let x₃ := t + x.getD 3 0
  let y₃ := t + shaHashSigma0 (x.getD 0 0) + maj
  (#v[y₃, x.getD 0 0, x.getD 1 0, x.getD 2 0], #v[x₃, y.getD 0 0, y.getD 1 0, y.getD 2 0])

/-- `SHA256hash`, with both halves. -/
def sha256Hash (x y w : Uint32x4) : Uint32x4 × Uint32x4 :=
  (List.range 4).foldl (fun s e => sha256HashRound s (w.getD e 0)) (x, y)

/-- `vsha256hq_u32`. -/
def vsha256hqU32 (hashAbcd hashEfgh wk : Uint32x4) : Uint32x4 :=
  (sha256Hash hashAbcd hashEfgh wk).1

/-- `vsha256h2q_u32`. -/
def vsha256h2qU32 (hashEfgh hashAbcd wk : Uint32x4) : Uint32x4 :=
  (sha256Hash hashAbcd hashEfgh wk).2

/-- `vsha256su0q_u32`. -/
def vsha256su0qU32 (w₀ w₄ : Uint32x4) : Uint32x4 :=
  let t : Uint32x4 := #v[w₀.getD 1 0, w₀.getD 2 0, w₀.getD 3 0, w₄.getD 0 0]
  Vector.ofFn fun e =>
    let elt := t.getD e.val 0
    (armRor elt 7 ^^^ armRor elt 18 ^^^ (elt >>> 3)) + w₀.getD e.val 0

/-- `vsha256su1q_u32`. -/
def vsha256su1qU32 (tw₀ w₈ w₁₂ : Uint32x4) : Uint32x4 :=
  let t₀ : Uint32x4 := #v[w₈.getD 1 0, w₈.getD 2 0, w₈.getD 3 0, w₁₂.getD 0 0]
  let elt (t₁ : UInt32) (e : ℕ) :=
    (armRor t₁ 17 ^^^ armRor t₁ 19 ^^^ (t₁ >>> 10)) + tw₀.getD e 0 + t₀.getD e 0
  let r₀ := elt (w₁₂.getD 2 0) 0
  let r₁ := elt (w₁₂.getD 3 0) 1
  #v[r₀, r₁, elt r₀ 2, elt r₁ 3]

/-- `vaddq_u32`. -/
def vaddqU32 (a b : Uint32x4) : Uint32x4 := Vector.ofFn fun i => a[i] + b[i]

/-- `vrev32q_u8`. -/
def vrev32qU8 (a : Vector UInt8 16) : Vector UInt8 16 :=
  gather (fun i => 4 * (i / 4) + (3 - i % 4)) a

/-- `vreinterpretq_u32_u8`. -/
def vreinterpretqU32U8 (a : Vector UInt8 16) : Uint32x4 := lanes dwordCodec a

end BitcoinPqc
