import BitcoinPqc.Foundation.Atomics
import BitcoinPqc.Sphincs.Sha2Arm
import BitcoinPqc.Sphincs.Sha2X86

/-!
# The choice of a SHA-2 backend

`opt_flags.h` and the end of the backends in `sha2.c`. The first call of
`crypto_hashblocks_sha256` chooses a backend and stores a pointer to it, and so do the
checks it rests on with what they find. All of these are static variables that any number
of threads load and store.

The environment answers `getenv`, and may answer differently each time.
-/

namespace BitcoinPqc

/-!
## The build and the platform
-/

/-- The definitions that the files are compiled with. -/
structure ShaBuild where
  /-- `SPX_PRODUCTION_BUILD`. -/
  productionBuild : Bool
  /-- `SPX_ENABLE_TEST_BENCH_ENV_KNOBS`, and so `SPX_RUNTIME_ENV_KNOBS_ENABLED`. -/
  envKnobs : Bool
  /-- `SPX_ENABLE_ARM_SHA`. -/
  armSha : Bool
  /-- `SPX_USE_COMMONCRYPTO_SHA2`. -/
  commonCrypto : Bool
  /-- `SPX_HAVE_SHA256_INTRINSICS` in a file with the x86 backend. -/
  sha256Intrinsics : Bool
  /-- `SPX_HAVE_SHA512_INTRINSICS` in a file with the x86 backend. -/
  sha512Intrinsics : Bool
  /-- The `#error` at the top of `opt_flags.h`. -/
  no_knobs : productionBuild → envKnobs = false
  /-- CommonCrypto is there on Apple systems only, where the x86 backend is not. -/
  no_intrinsics : commonCrypto → sha256Intrinsics = false ∧ sha512Intrinsics = false

/-- What the backends run on. -/
structure ShaPlatform where
  cpu : X86Cpu
  /-- `CC_SHA256_Update`. -/
  ccSha256Update : CcCtx UInt32 → List UInt8 → ℕ → Traced (Vector UInt8 64) (CcCtx UInt32)
  /-- `CC_SHA512_Update`. -/
  ccSha512Update : CcCtx UInt64 → List UInt8 → ℕ → Traced (Vector UInt8 128) (CcCtx UInt64)

/-!
## The static variables
-/

/-- The two functions, which each have their own variables. -/
inductive ShaWidth
  | sha256
  | sha512
deriving DecidableEq

/-- What a `hashblocks_impl` pointer points to. -/
inductive ShaImpl
  | ref
  | x86
  | arm
  | commonCrypto
deriving DecidableEq

/-- The static variables of type `int`. The first two are called `cached`. -/
inductive ShaFlag
  | disableShaAccel
  | shaBackendMode
  | niAvailable (w : ShaWidth)
deriving DecidableEq

/-- The static variables. -/
inductive ShaVar
  | flag (f : ShaFlag)
  | hashblocksImpl (w : ShaWidth)
deriving DecidableEq

/-- A flag is an `int`, a pointer may be `NULL`. -/
abbrev ShaVar.Value : ShaVar → Type
  | flag _ => ℤ
  | hashblocksImpl _ => Option ShaImpl

/-- The initialisers. -/
def ShaVar.first : ∀ x : ShaVar, x.Value
  | flag _ => (-1 : ℤ)
  | hashblocksImpl _ => (none : Option ShaImpl)

/-- Programs over these variables, which may look up environment variables. -/
abbrev ShaProg (α : Type) : Type := Prog ShaVar.Value (fun _ : String => Option String) α

namespace ShaDispatch

/-- `getenv`. -/
def getenv (name : String) : ShaProg (Option String) := Prog.query name

/-- The value of the flag `f`, which `compute` finds where it is negative. -/
def cachedFlag (f : ShaFlag) (compute : ShaProg ℤ) : ShaProg ℤ :=
  Prog.cached (ShaVar.flag f) (fun v : ℤ => decide (v < 0)) compute

variable (B : ShaBuild) (P : ShaPlatform)

/-!
## The flags
-/

/-- `spx_env_flag`. -/
def spxEnvFlag (name : String) : ShaProg Bool :=
  if B.envKnobs then do
    let value ← getenv name
    pure (value.any fun v =>
      v ≠ "" && v ∈ ["1", "true", "TRUE", "yes", "YES", "on", "ON"])
  else pure false

/-- `spx_opt_profile_is`. -/
def spxOptProfileIs (profile : String) : ShaProg Bool :=
  if B.envKnobs then do
    let configured ← getenv "SPX_OPT_PROFILE"
    pure (configured.any fun v => v ≠ "" && v = profile)
  else pure false

/-- `spx_opt_disable_sha_accel`. -/
def spxOptDisableShaAccel : ShaProg ℤ :=
  cachedFlag .disableShaAccel do
    let flag ← spxEnvFlag B "SPX_DISABLE_SHA_ACCEL"
    if flag then pure 1
    else do
      let scalar ← spxOptProfileIs B "scalar"
      pure (if scalar then 1 else 0)

/-- `SPX_SHA_BACKEND_AUTO`. -/
def spxShaBackendAuto : ℤ := 0

/-- `SPX_SHA_BACKEND_SCALAR`. -/
def spxShaBackendScalar : ℤ := 1

/-- `SPX_SHA_BACKEND_ARM`. -/
def spxShaBackendArm : ℤ := 2

/-- `SPX_SHA_BACKEND_X86`. -/
def spxShaBackendX86 : ℤ := 3

/-- `SPX_SHA_BACKEND_COMMONCRYPTO`. -/
def spxShaBackendCommonCrypto : ℤ := 4

/-- The mode that the variable `SPX_SHA_BACKEND` asks for. -/
def configuredMode (configured : Option String) : ℤ :=
  configured.elim spxShaBackendAuto fun v =>
    if v = "" then spxShaBackendAuto
    else if v ∈ ["scalar", "ref"] then spxShaBackendScalar
    else if v ∈ ["arm", "armv8", "armv8_sha256"] then spxShaBackendArm
    else if v ∈ ["x86", "x86_ni", "shani"] then spxShaBackendX86
    else if v ∈ ["commoncrypto", "cc"] then spxShaBackendCommonCrypto
    else spxShaBackendAuto

/-- `spx_opt_sha_backend_mode`. -/
def spxOptShaBackendMode : ShaProg ℤ :=
  if B.productionBuild then pure spxShaBackendScalar
  else if B.envKnobs then
    cachedFlag .shaBackendMode do
      let configured ← getenv "SPX_SHA_BACKEND"
      pure (configuredMode configured)
  else pure spxShaBackendAuto

/-!
## The backends
-/

/-- Whether the x86 backend is compiled in. -/
def intrinsics : ShaWidth → Bool
  | .sha256 => B.sha256Intrinsics
  | .sha512 => B.sha512Intrinsics

/-- What the x86 support check finds. -/
def detect : ShaWidth → Bool
  | .sha256 => spxDetectSha256Ni P.cpu
  | .sha512 => spxDetectSha512Ni P.cpu

/-- `spx_sha2_x86_can_use_sha256_ni` and `spx_sha2_x86_can_use_sha512_ni`. -/
def spxSha2X86CanUse (w : ShaWidth) : ShaProg ℤ :=
  if intrinsics B w then
    cachedFlag (.niAvailable w) (pure (if detect P w then 1 else 0))
  else pure 0

/-- `spx_sha2_arm_can_use_sha256` and `spx_sha2_arm_can_use_sha512`. -/
def spxSha2ArmCanUse : ShaWidth → ℤ
  | .sha256 => spxSha2ArmCanUseSha256
  | .sha512 => 0

/-- `spx_sha2_x86_hashblocks_sha256`. -/
def spxSha2X86HashblocksSha256 (statebytes : Vector UInt8 32) (inp : List UInt8) :
    ShaProg (Vector UInt8 32 × ℕ) :=
  if intrinsics B .sha256 ∧ inp.length &&& (2 ^ 64 - 64) ≠ 0 then do
    let available ← spxSha2X86CanUse B P .sha256
    pure (BitcoinPqc.spxSha2X86HashblocksSha256 P.cpu available statebytes inp)
  else pure (statebytes, inp.length)

/-- `spx_sha2_x86_hashblocks_sha512`. -/
def spxSha2X86HashblocksSha512 (statebytes : Vector UInt8 64) (inp : List UInt8) :
    ShaProg (Vector UInt8 64 × ℤ) :=
  if intrinsics B .sha512 ∧ inp.length &&& (2 ^ 64 - 128) ≠ 0 then do
    let available ← spxSha2X86CanUse B P .sha512
    pure (BitcoinPqc.spxSha2X86HashblocksSha512 P.cpu available statebytes inp)
  else pure (statebytes, (inp.length : ℤ).bmod (2 ^ 32))

/-!
## The choice
-/

/-- `spx_sha256_select_hashblocks_impl` and `spx_sha512_select_hashblocks_impl`. -/
def spxSelectHashblocksImpl (w : ShaWidth) : ShaProg (Option ShaImpl) := do
  let mode ← spxOptShaBackendMode B
  let disabled ← spxOptDisableShaAccel B
  if disabled ≠ 0 ∨ mode = spxShaBackendScalar then pure (some .ref)
  else if mode = spxShaBackendArm then
    pure (some (if B.armSha ∧ spxSha2ArmCanUse w ≠ 0 then .arm else .ref))
  else if mode = spxShaBackendX86 then do
    let available ← spxSha2X86CanUse B P w
    pure (some (if available ≠ 0 then .x86 else .ref))
  else if mode = spxShaBackendCommonCrypto then
    pure (some (if B.commonCrypto then .commonCrypto else .ref))
  else do
    let available ← spxSha2X86CanUse B P w
    pure (some (if available ≠ 0 then .x86
      else if B.armSha ∧ spxSha2ArmCanUse w ≠ 0 then .arm
      else if B.commonCrypto then .commonCrypto
      else .ref))

/-- `spx_sha256_get_hashblocks_impl` and `spx_sha512_get_hashblocks_impl`. -/
def spxGetHashblocksImpl (w : ShaWidth) : ShaProg (Option ShaImpl) :=
  Prog.cached (ShaVar.hashblocksImpl w) (fun p : Option ShaImpl => p.isNone)
    (spxSelectHashblocksImpl B P w)

/-- A call through `spx_sha256_hashblocks_impl`. It returns nothing through a null
pointer. -/
def callSha256Impl (statebytes : Vector UInt8 32) (inp : List UInt8) :
    Option ShaImpl → ShaProg (Option (Vector UInt8 32 × ℕ))
  | none => pure none
  | some .ref => pure (some (cryptoHashblocksSha256Ref statebytes inp).val)
  | some .x86 => do
      let r ← spxSha2X86HashblocksSha256 B P statebytes inp
      pure (some r)
  | some .arm => pure (some (spxSha2ArmHashblocksSha256 statebytes inp))
  | some .commonCrypto =>
      pure (some (spxCcSha256Hashblocks P.ccSha256Update statebytes inp).val)

/-- A call through `spx_sha512_hashblocks_impl`. The functions return an `int`. -/
def callSha512Impl (statebytes : Vector UInt8 64) (inp : List UInt8) :
    Option ShaImpl → ShaProg (Option (Vector UInt8 64 × ℤ))
  | none => pure none
  | some .ref =>
      let r := (cryptoHashblocksSha512Ref statebytes inp).val
      pure (some (r.1, (r.2 : ℤ).bmod (2 ^ 32)))
  | some .x86 => do
      let r ← spxSha2X86HashblocksSha512 B P statebytes inp
      pure (some r)
  | some .arm => pure (some (statebytes, (inp.length : ℤ).bmod (2 ^ 32)))
  | some .commonCrypto =>
      let r := (spxCcSha512Hashblocks P.ccSha512Update statebytes inp).val
      pure (some (r.1, (r.2 : ℤ).bmod (2 ^ 32)))

/-- `crypto_hashblocks_sha256`. -/
def cryptoHashblocksSha256 (statebytes : Vector UInt8 32) (inp : List UInt8) :
    ShaProg (Option (Vector UInt8 32 × ℕ)) := do
  let impl ← spxGetHashblocksImpl B P .sha256
  callSha256Impl B P statebytes inp impl

/-- `crypto_hashblocks_sha512`. -/
def cryptoHashblocksSha512 (statebytes : Vector UInt8 64) (inp : List UInt8) :
    ShaProg (Option (Vector UInt8 64 × ℤ)) := do
  let impl ← spxGetHashblocksImpl B P .sha512
  callSha512Impl B P statebytes inp impl

/-- The constants of `enum spx_sha2_impl_id`. A backend that is not compiled in is not
asked for, and the last constant is `SPX_SHA2_IMPL_UNKNOWN`. -/
def spxSha2ImplId (impl : Option ShaImpl) : ℕ :=
  if impl = none then 0
  else if impl = some .ref then 1
  else if impl = some .x86 then 2
  else if B.armSha ∧ impl = some .arm then 3
  else if B.commonCrypto ∧ impl = some .commonCrypto then 4
  else 5

/-- `spx_sha2_test_sha256_impl` and `spx_sha2_test_sha512_impl`. -/
def spxSha2TestImpl (w : ShaWidth) : ShaProg ℕ := do
  let impl ← Prog.read (ShaVar.hashblocksImpl w)
  pure (spxSha2ImplId B impl)

end ShaDispatch

/-!
## The calls
-/

/-- The calls that the threads make. -/
inductive ShaCall
  | cryptoHashblocksSha256 (statebytes : Vector UInt8 32) (inp : List UInt8)
  | cryptoHashblocksSha512 (statebytes : Vector UInt8 64) (inp : List UInt8)
  | spxSha2TestImpl (w : ShaWidth)

/-- What a call returns. -/
def ShaCall.Result : ShaCall → Type
  | cryptoHashblocksSha256 _ _ => Option (Vector UInt8 32 × ℕ)
  | cryptoHashblocksSha512 _ _ => Option (Vector UInt8 64 × ℤ)
  | spxSha2TestImpl _ => ℕ

/-- The program of a call. -/
def ShaCall.body (B : ShaBuild) (P : ShaPlatform) : ∀ c : ShaCall, ShaProg c.Result
  | cryptoHashblocksSha256 statebytes inp =>
      ShaDispatch.cryptoHashblocksSha256 B P statebytes inp
  | cryptoHashblocksSha512 statebytes inp =>
      ShaDispatch.cryptoHashblocksSha512 B P statebytes inp
  | spxSha2TestImpl w => ShaDispatch.spxSha2TestImpl B w

/-- The static variables and the calls of the threads `T`. -/
abbrev ShaThreads (T : Type) : Type :=
  Threads T ShaVar.Value (fun _ : String => Option String) ShaCall.Result

/-- The states that threads reach when `getenv` answers with `J`. -/
abbrev ShaThreads.Reachable {T : Type} [DecidableEq T] (B : ShaBuild) (P : ShaPlatform)
    (J : String → Option String → Prop) : ShaThreads T → Prop :=
  Threads.Reachable ShaVar.first (ShaCall.body B P) J

end BitcoinPqc
