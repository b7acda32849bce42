import BitcoinPqc.Sphincs.Fors
import BitcoinPqc.Sphincs.Merkle

/-!
# Key generation, signing and verification

The code of `sign.c` in the build with the library's own random source. A
signature is written piece by piece into the caller's buffer `sig`, so the
functions return the buffer after the call together with the return code.

The salt loop and the loops over the layers leave early on a failure; what they
have written by then stays in the buffer.
-/

namespace BitcoinPqc

variable (E : Build) (H : HashFns)

/-- What `crypto_sign_seed_keypair` returns and leaves in its outputs. -/
structure KeypairResult where
  code : Int
  pk : Vector UInt8 32
  sk : Vector UInt8 64
  T : ThreadState

/-- `crypto_sign_seed_keypair`, for the previous contents of `pk` and `sk`. -/
def cryptoSignSeedKeypair (pk : Vector UInt8 32) (sk : Vector UInt8 64)
    (seed : Vector UInt8 48) (T : ThreadState) : Traced Query KeypairResult := do
  let sk := write sk 0 seed
  let pk := write pk 0 (slice sk (2 * spxN) spxN)
  let ctx := initializeHashFunction H
    { pubSeed := slice pk 0 spxN
      skSeed := slice sk 0 spxN
      stateSeeded := Vector.replicate 40 0 }
  let (code, root, T) ← merkleGenRoot E H (slice sk (3 * spxN) spxN) ctx T
  let sk := write sk (3 * spxN) root
  if code ≠ 0 then pure ⟨-1, pk, sk, T⟩
  else pure ⟨0, write pk spxN (slice sk (3 * spxN) spxN), sk, T⟩

/-- `crypto_sign_keypair`, for the previous contents of `pk` and `sk`. -/
def cryptoSignKeypair (pk : Vector UInt8 32) (sk : Vector UInt8 64) (T : ThreadState) :
    Traced Query KeypairResult :=
  let (seed, T) := T.clearFailure.randombytes cryptoSeedBytes
  if T.randomSourceFailed then pure ⟨-1, pk, sk, T⟩
  else cryptoSignSeedKeypair E H pk sk seed T

/-!
## Signing
-/

/-- `R` after `ctr` is XORed into the first four bytes of `r_base`. -/
def xorSalt (rBase : Block) (ctr : ℕ) : Block :=
  write rBase 0 #v[rBase[0] ^^^ UInt8.ofNat ctr, rBase[1] ^^^ UInt8.ofNat (ctr >>> 8),
    rBase[2] ^^^ UInt8.ofNat (ctr >>> 16), rBase[3] ^^^ UInt8.ofNat (ctr >>> 24)]

/-- What the salt loop leaves behind; `code` is `0` when a salt was found. -/
structure GrindResult where
  code : Int
  R : Block
  mhash : Block
  tree : ℕ
  idxLeaf : ℕ
  T : ThreadState

/-- The salt loop of `crypto_sign_signature` at salt `R`, where `n` is the number
of attempts the cap leaves after this one. -/
def grindLoop (rBase : Block) (pk : Vector UInt8 32) (m : List UInt8) :
    (n attempts ctr : ℕ) → Block → ThreadState → GrindResult
  | n, attempts, ctr, R, T =>
      let attempts := attempts + 1
      let (mhash, tree, idxLeaf) := hashMessage H R pk m
      if forscCompressedIndex mhash = 0 then
        ⟨0, R, mhash, tree, idxLeaf, T.recordForscAttempts attempts⟩
      else
        match n with
        | 0 =>
            ⟨signLimitExceeded, R, mhash, tree, idxLeaf,
              (T.recordForscAttempts attempts).recordForscCap⟩
        | n + 1 =>
            let ctr := (ctr + 1) % 2 ^ 32
            if ctr = 0 then ⟨-1, R, mhash, tree, idxLeaf, T⟩
            else grindLoop rBase pk m n attempts ctr (xorSalt rBase ctr) T

/-- The variables of the loop over the layers of `crypto_sign_signature`. -/
structure SignLayerState where
  mem : Vector UInt8 3680
  sig : ℕ
  root : Block
  tree : ℕ
  idxLeaf : ℕ
  wotsAddr : Addr
  treeAddr : Addr
  T : ThreadState

/-- One layer; an error carries the code, the buffer and the thread state. -/
def signLayer (ctx : SpxCtx) (i : ℕ) (s : SignLayerState) :
    Traced Query
      (Except (Int × Vector UInt8 3680 × ThreadState) SignLayerState) := do
  let treeAddr := setLayerAddr s.treeAddr i
  let treeAddr := setTreeAddr treeAddr s.tree
  let wotsAddr := copySubtreeAddr s.wotsAddr treeAddr
  let wotsAddr := setKeypairAddr wotsAddr s.idxLeaf
  let r ← merkleSign E H s.sig s.mem s.root ctx wotsAddr treeAddr s.idxLeaf s.T
  if r.code ≠ 0 then pure (.error (r.code, r.mem, r.T))
  else
    pure (.ok
      { mem := r.mem
        sig := s.sig + (spxWotsBytes + spxTreeHeight * spxN)
        root := r.root
        tree := s.tree >>> spxTreeHeight
        idxLeaf := s.tree &&& (2 ^ spxTreeHeight - 1)
        wotsAddr := wotsAddr
        treeAddr := r.treeAddr
        T := r.T })

/-- What `crypto_sign_signature` returns and leaves in its outputs. -/
structure SignResult where
  code : Int
  siglen : ℕ
  sig : Vector UInt8 3680
  T : ThreadState

/-- The hash context of a secret key. -/
def skCtx (sk : Vector UInt8 64) : SpxCtx :=
  initializeHashFunction H
    { pubSeed := slice sk (2 * spxN) spxN
      skSeed := slice sk 0 spxN
      stateSeeded := Vector.replicate 40 0 }

/-- The variables of `crypto_sign_signature` when the loop over the layers
starts: `fors_sign` has written its part and left its public key in `root`. -/
def signLayersStart (ctx : SpxCtx) (mem : Vector UInt8 3680) (g : GrindResult) :
    Traced Query SignLayerState := do
  let wotsAddr := setType zeroAddr addrTypeWots
  let treeAddr := setType zeroAddr addrTypeHashTree
  let wotsAddr := setTreeAddr wotsAddr g.tree
  let wotsAddr := setKeypairAddr wotsAddr g.idxLeaf
  let r ← forsSign E H spxN mem g.mhash ctx wotsAddr
  pure
    { mem := r.2
      sig := spxN + spxForsBytes
      root := r.1
      tree := g.tree
      idxLeaf := g.idxLeaf
      wotsAddr := wotsAddr
      treeAddr := treeAddr
      T := g.T }

/-- `crypto_sign_signature`, for the previous contents `sig` of the output. -/
def cryptoSignSignature (sig : Vector UInt8 3680) (m : List UInt8)
    (sk : Vector UInt8 64) (T : ThreadState) : Traced Query SignResult := do
  let skPrf := slice sk spxN spxN
  let pk := slice sk (2 * spxN) spxPkBytes
  let ctx := skCtx H sk
  let (optrand, T) := T.clearFailure.randombytesBlock
  if T.randomSourceFailed then pure ⟨-1, 0, sig, T⟩
  else do
    let R := H.genMessageRandom skPrf optrand m
    let g := grindLoop H R pk m (E.forscMaxGrindAttempts - 1) 0 0 R T
    let sig := write sig 0 g.R
    if g.code ≠ 0 then pure ⟨g.code, 0, sig, g.T⟩
    else do
      let start ← signLayersStart E H ctx sig g
      match ← Traced.forRangeExcept spxD (signLayer E H ctx) start with
      | .error (code, mem, T) => pure ⟨code, 0, mem, T⟩
      | .ok s => pure ⟨0, spxBytes, s.mem, s.T⟩

/-- What `crypto_sign` returns and leaves in its outputs. -/
structure SignedMessageResult where
  code : Int
  smlen : ℕ
  sm : List UInt8
  T : ThreadState

/-- `crypto_sign`, for the previous contents of `sm`. -/
def cryptoSign (sm m : List UInt8) (mlen : ℕ) (sk : Vector UInt8 64) (T : ThreadState) :
    Traced Query SignedMessageResult := do
  let r ← cryptoSignSignature E H (bytesAt 3680 sm) (m.take mlen) sk T
  if r.code ≠ 0 then pure ⟨r.code, 0, List.replicate spxBytes 0 ++ sm.drop spxBytes, r.T⟩
  else
    pure ⟨0, (r.siglen + mlen) % 2 ^ 64,
      r.sig.toList ++ m.take mlen ++ sm.drop (spxBytes + mlen), r.T⟩

/-!
## Verification
-/

/-- The variables of the loop over the layers of `crypto_sign_verify`. -/
structure VerifyLayerState where
  sig : ℕ
  root : Block
  wotsPk : ℕ → Block
  tree : ℕ
  idxLeaf : ℕ
  wotsAddr : Addr
  treeAddr : Addr
  wotsPkAddr : Addr
  T : ThreadState

/-- One layer; an error carries the thread state. -/
def verifyLayer (sig : Vector UInt8 3680) (ctx : SpxCtx) (i : ℕ)
    (s : VerifyLayerState) :
    Traced Query (Except ThreadState VerifyLayerState) := do
  let treeAddr := setLayerAddr s.treeAddr i
  let treeAddr := setTreeAddr treeAddr s.tree
  let wotsAddr := copySubtreeAddr s.wotsAddr treeAddr
  let wotsAddr := setKeypairAddr wotsAddr s.idxLeaf
  let wotsPkAddr := copyKeypairAddr s.wotsPkAddr wotsAddr
  match ← wotsPkFromSig E H s.wotsPk sig s.sig s.root ctx wotsAddr s.T with
  | (.error _, T) => pure (.error T)
  | (.ok (wotsPk, wotsAddr), T) => do
      let sigPtr := s.sig + spxWotsBytes
      let leaf ← thash H ((List.range spxWotsLen).map wotsPk) ctx wotsPkAddr
      let r ← computeRoot H leaf s.idxLeaf 0 sig sigPtr spxTreeHeight ctx treeAddr
      pure (.ok
        { sig := sigPtr + spxTreeHeight * spxN
          root := r.1
          wotsPk := wotsPk
          tree := s.tree >>> spxTreeHeight
          idxLeaf := s.tree &&& (2 ^ spxTreeHeight - 1)
          wotsAddr := wotsAddr
          treeAddr := r.2
          wotsPkAddr := wotsPkAddr
          T := T })

/-- The hash context of a public key; its secret seed is not initialised. -/
def pkCtx (pk : Vector UInt8 32) : SpxCtx :=
  initializeHashFunction H
    { pubSeed := slice pk 0 spxN
      skSeed := E.uninit 0
      stateSeeded := Vector.replicate 40 0 }

/-- The variables of `crypto_sign_verify` when the loop over the layers starts:
`root` is the FORS public key recomputed from the signature. -/
def verifyLayersStart (sig : Vector UInt8 3680) (mhash : Block) (tree idxLeaf : ℕ)
    (ctx : SpxCtx) (T : ThreadState) : Traced Query VerifyLayerState := do
  let wotsAddr := setType zeroAddr addrTypeWots
  let treeAddr := setType zeroAddr addrTypeHashTree
  let wotsPkAddr := setType zeroAddr addrTypeWotsPk
  let wotsAddr := setTreeAddr wotsAddr tree
  let wotsAddr := setKeypairAddr wotsAddr idxLeaf
  let root ← forsPkFromSig E H sig spxN mhash ctx wotsAddr
  pure
    { sig := spxN + spxForsBytes
      root := root
      wotsPk := E.uninit
      tree := tree
      idxLeaf := idxLeaf
      wotsAddr := wotsAddr
      treeAddr := treeAddr
      wotsPkAddr := wotsPkAddr
      T := T }

/-- `crypto_sign_verify`. -/
def cryptoSignVerify (sig : Vector UInt8 3680) (siglen : ℕ) (m : List UInt8)
    (pk : Vector UInt8 32) (T : ThreadState) : Traced Query (Int × ThreadState) := do
  let pubRoot := slice pk spxN spxN
  if siglen ≠ spxBytes then pure (-1, T)
  else do
    let ctx := pkCtx E H pk
    let (mhash, tree, idxLeaf) := hashMessage H (slice sig 0 spxN) pk m
    if forscCompressedIndex mhash ≠ 0 then pure (-1, T)
    else do
      let start ← verifyLayersStart E H sig mhash tree idxLeaf ctx T
      match ← Traced.forRangeExcept spxD (verifyLayer E H sig ctx) start with
      | .error T => pure (-1, T)
      | .ok s => if s.root ≠ pubRoot then pure (-1, s.T) else pure (0, s.T)

end BitcoinPqc
