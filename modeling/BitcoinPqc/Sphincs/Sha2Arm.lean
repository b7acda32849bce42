import BitcoinPqc.Foundation.Arm
import BitcoinPqc.Sphincs.Sha2

/-!
# SHA-256 with the SHA instructions of ARMv8

The code of `sha2_armv8_sha.c` in a build with the intrinsics. `state0` has the words `0` to
`3` of the state and `state1` the words `4` to `7`. The backend is switched off: its support
check returns zero.
-/

namespace BitcoinPqc

/-- `spx_sha256_round_consts`. -/
def spxSha256RoundConsts : Vector UInt32 64 :=
  #v[0x428a2f98, 0x71374491, 0xb5c0fbcf, 0xe9b5dba5, 0x3956c25b, 0x59f111f1, 0x923f82a4,
    0xab1c5ed5, 0xd807aa98, 0x12835b01, 0x243185be, 0x550c7dc3, 0x72be5d74, 0x80deb1fe,
    0x9bdc06a7, 0xc19bf174, 0xe49b69c1, 0xefbe4786, 0x0fc19dc6, 0x240ca1cc, 0x2de92c6f,
    0x4a7484aa, 0x5cb0a9dc, 0x76f988da, 0x983e5152, 0xa831c66d, 0xb00327c8, 0xbf597fc7,
    0xc6e00bf3, 0xd5a79147, 0x06ca6351, 0x14292967, 0x27b70a85, 0x2e1b2138, 0x4d2c6dfc,
    0x53380d13, 0x650a7354, 0x766a0abb, 0x81c2c92e, 0x92722c85, 0xa2bfe8a1, 0xa81a664b,
    0xc24b8b70, 0xc76c51a3, 0xd192e819, 0xd6990624, 0xf40e3585, 0x106aa070, 0x19a4c116,
    0x1e376c08, 0x2748774c, 0x34b0bcb5, 0x391c0cb3, 0x4ed8aa4a, 0x5b9cca4f, 0x682e6ff3,
    0x748f82ee, 0x78a5636f, 0x84c87814, 0x8cc70208, 0x90befffa, 0xa4506ceb, 0xbef9a3f7,
    0xc67178f2]

/-- `vld1q_u32(spx_sha256_round_consts + offset)`. -/
def loadRoundConsts (offset : ℕ) : Uint32x4 :=
  Vector.ofFn fun i => spxSha256RoundConsts.getD (offset + i.val) 0

/-- `spx_load_be_u32x4`. -/
def spxLoadBeU32x4 (inp : Vector UInt8 16) : Uint32x4 := vreinterpretqU32U8 (vrev32qU8 inp)

/-- `SPX_SHA256_ROUND4`, on `state0` and `state1`. -/
def spxSha256Round4 (s : Uint32x4 × Uint32x4) (msg : Uint32x4) (offset : ℕ) :
    Uint32x4 × Uint32x4 :=
  let tmp := vaddqU32 msg (loadRoundConsts offset)
  let state1 := vsha256hqU32 s.2 s.1 tmp
  let state0 := vsha256h2qU32 s.1 state1 tmp
  (state0, state1)

/-- The rounds of a block in `spx_sha256_process_arm`. -/
def spxSha256RoundsArm (s : Uint32x4 × Uint32x4) (msg0 msg1 msg2 msg3 : Uint32x4) :
    Uint32x4 × Uint32x4 :=
  let s := spxSha256Round4 s msg0 0
  let s := spxSha256Round4 s msg1 4
  let s := spxSha256Round4 s msg2 8
  let s := spxSha256Round4 s msg3 12
  let msg0 := vsha256su0qU32 msg0 msg1
  let msg0 := vsha256su1qU32 msg0 msg2 msg3
  let s := spxSha256Round4 s msg0 16
  let msg1 := vsha256su0qU32 msg1 msg2
  let msg1 := vsha256su1qU32 msg1 msg3 msg0
  let s := spxSha256Round4 s msg1 20
  let msg2 := vsha256su0qU32 msg2 msg3
  let msg2 := vsha256su1qU32 msg2 msg0 msg1
  let s := spxSha256Round4 s msg2 24
  let msg3 := vsha256su0qU32 msg3 msg0
  let msg3 := vsha256su1qU32 msg3 msg1 msg2
  let s := spxSha256Round4 s msg3 28
  let msg0 := vsha256su0qU32 msg0 msg1
  let msg0 := vsha256su1qU32 msg0 msg2 msg3
  let s := spxSha256Round4 s msg0 32
  let msg1 := vsha256su0qU32 msg1 msg2
  let msg1 := vsha256su1qU32 msg1 msg3 msg0
  let s := spxSha256Round4 s msg1 36
  let msg2 := vsha256su0qU32 msg2 msg3
  let msg2 := vsha256su1qU32 msg2 msg0 msg1
  let s := spxSha256Round4 s msg2 40
  let msg3 := vsha256su0qU32 msg3 msg0
  let msg3 := vsha256su1qU32 msg3 msg1 msg2
  let s := spxSha256Round4 s msg3 44
  let msg0 := vsha256su0qU32 msg0 msg1
  let msg0 := vsha256su1qU32 msg0 msg2 msg3
  let s := spxSha256Round4 s msg0 48
  let msg1 := vsha256su0qU32 msg1 msg2
  let msg1 := vsha256su1qU32 msg1 msg3 msg0
  let s := spxSha256Round4 s msg1 52
  let msg2 := vsha256su0qU32 msg2 msg3
  let msg2 := vsha256su1qU32 msg2 msg0 msg1
  let s := spxSha256Round4 s msg2 56
  let msg3 := vsha256su0qU32 msg3 msg0
  let msg3 := vsha256su1qU32 msg3 msg1 msg2
  spxSha256Round4 s msg3 60

/-- One pass through the loop of `spx_sha256_process_arm`. -/
def spxSha256BlockArm (s : Uint32x4 × Uint32x4) (inp : Vector UInt8 64) : Uint32x4 × Uint32x4 :=
  let saved0 := s.1
  let saved1 := s.2
  let msg0 := spxLoadBeU32x4 (slice inp 0 16)
  let msg1 := spxLoadBeU32x4 (slice inp 16 16)
  let msg2 := spxLoadBeU32x4 (slice inp 32 16)
  let msg3 := spxLoadBeU32x4 (slice inp 48 16)
  let s := spxSha256RoundsArm s msg0 msg1 msg2 msg3
  (vaddqU32 s.1 saved0, vaddqU32 s.2 saved1)

/-- `state0` and `state1` from the words of the state. -/
def armHalves (state : Vector UInt32 8) : Uint32x4 × Uint32x4 :=
  (#v[state.getD 0 0, state.getD 1 0, state.getD 2 0, state.getD 3 0],
    #v[state.getD 4 0, state.getD 5 0, state.getD 6 0, state.getD 7 0])

/-- The words of the state from `state0` and `state1`. -/
def armWords (s : Uint32x4 × Uint32x4) : Vector UInt32 8 := (s.1 ++ s.2 : Vector UInt32 (4 + 4))

/-- `spx_sha256_process_arm`. -/
def spxSha256ProcessArm (state : Vector UInt32 8) (inp : List UInt8) : Vector UInt32 8 :=
  let r := hashblocksLoop sha256BlockBytes_pos spxSha256BlockArm (armHalves state) inp
  armWords r.val.1

/-- `spx_sha2_arm_can_use_sha256`. -/
def spxSha2ArmCanUseSha256 : ℤ := 0

/-- `spx_sha2_arm_hashblocks_sha256`: the state bytes and the number of bytes left over. -/
def spxSha2ArmHashblocksSha256 (statebytes : Vector UInt8 32) (inp : List UInt8) :
    Vector UInt8 32 × ℕ :=
  let fullBytes := inp.length &&& (2 ^ 64 - 64)
  if fullBytes = 0 ∨ spxSha2ArmCanUseSha256 = 0 then (statebytes, inp.length)
  else
    let state := spxSha256ProcessArm (loadWords32 8 statebytes) (inp.take fullBytes)
    (storeWords32 state, inp.length - fullBytes)

end BitcoinPqc
