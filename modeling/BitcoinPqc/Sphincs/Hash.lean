import BitcoinPqc.Foundation.Traced
import BitcoinPqc.Sphincs.Address

/-!
# The hash functions and their queries

`HashFns` holds the hash functions as arbitrary functions of the bytes they
absorb: the tweakable hash and the address PRF read the state that absorbed the
public seed, the hashed part of an address and, respectively, whole input blocks
or the secret seed. The 8-lane versions of the vectorised backend are fields
too, with the law that each lane is the scalar function on that lane's address
and input.

A `Query` is one call of a hash function with its arguments. The programs of the
model run in `Traced Query`, so the calls of a run are its log.
-/

namespace BitcoinPqc

/-- A value in each of the eight lanes. -/
abbrev Lanes (α : Type) : Type := Fin 8 → α

/-- The lane with the given number. -/
abbrev laneIdx (i : ℕ) : Fin 8 := Fin.ofNat 8 i

/-- The bytes produced by MGF1 for a message: digest, tree and leaf. -/
abbrev DigestBytes : Type := Vector UInt8 20

structure HashFns where
  /-- `seed_state`: the SHA-256 state that absorbed the public seed. -/
  seedState : Block → Vector UInt8 40
  /-- `thash` on a seeded state, an address and whole input blocks. -/
  thash : Vector UInt8 40 → AddrBytes → List Block → Block
  /-- `prf_addr` on a seeded state, an address and the secret seed. -/
  prfAddr : Vector UInt8 40 → AddrBytes → Block → Block
  /-- `sha256`. -/
  sha256 : List UInt8 → Vector UInt8 32
  /-- `sha512`. -/
  sha512 : List UInt8 → Vector UInt8 64
  /-- `sha256_inc_init`, `sha256_inc_blocks` on one block and
  `sha256_inc_finalize` on the rest. -/
  sha256Inc : Vector UInt8 64 → List UInt8 → Vector UInt8 32
  /-- `gen_message_random` on `sk_prf`, `optrand` and the message. -/
  genMessageRandom : Block → Block → List UInt8 → Block
  /-- The bytes `hash_message` splits, from `R`, the public key and the
  message. -/
  messageDigest : Block → Vector UInt8 32 → List UInt8 → DigestBytes
  thashx8 : Vector UInt8 40 → Lanes AddrBytes → Lanes (List Block) → Lanes Block
  prfAddrx8 : Vector UInt8 40 → Lanes AddrBytes → Block → Lanes Block
  thashx8_lane : ∀ st addr inp j, thashx8 st addr inp j = thash st (addr j) (inp j)
  prfAddrx8_lane : ∀ st addr sk j, prfAddrx8 st addr sk j = prfAddr st (addr j) sk

/-- One call of a hash function. -/
inductive Query where
  | thash (addr : AddrBytes) (input : List Block) (out : Block)
  | prfAddr (addr : AddrBytes) (skSeed : Block) (out : Block)
  | wotscHash (msg : Block) (counter : ℕ)
  deriving DecidableEq

/-- `spx_ctx`. -/
structure SpxCtx where
  pubSeed : Block
  skSeed : Block
  stateSeeded : Vector UInt8 40

variable (H : HashFns)

/-- `initialize_hash_function`. -/
def initializeHashFunction (ctx : SpxCtx) : SpxCtx :=
  { ctx with stateSeeded := H.seedState ctx.pubSeed }

/-- `thash(out, in, inblocks, ctx, addr)`; the number of blocks is the length of
the input. -/
def thash (input : List Block) (ctx : SpxCtx) (addr : Addr) :
    Traced Query Block :=
  let out := H.thash ctx.stateSeeded (adrs addr) input
  Traced.ask (.thash (adrs addr) input out) out

/-- `prf_addr(out, ctx, addr)`. -/
def prfAddr (ctx : SpxCtx) (addr : Addr) : Traced Query Block :=
  let out := H.prfAddr ctx.stateSeeded (adrs addr) ctx.skSeed
  Traced.ask (.prfAddr (adrs addr) ctx.skSeed out) out

/-- `thashx8`: all lanes are read before any is written. -/
def thashx8 (input : Lanes (List Block)) (ctx : SpxCtx) (addr : Lanes Addr) :
    Traced Query (Lanes Block) :=
  let out := H.thashx8 ctx.stateSeeded (fun j => adrs (addr j)) input
  ⟨out, List.ofFn fun j => .thash (adrs (addr j)) (input j) (out j)⟩

/-- `prf_addrx8`. -/
def prfAddrx8 (ctx : SpxCtx) (addr : Lanes Addr) : Traced Query (Lanes Block) :=
  let out := H.prfAddrx8 ctx.stateSeeded (fun j => adrs (addr j)) ctx.skSeed
  ⟨out, List.ofFn fun j => .prfAddr (adrs (addr j)) ctx.skSeed (out j)⟩

/-- `hash_message`: the digest, the tree index and the leaf index. -/
def hashMessage (R : Block) (pk : Vector UInt8 32) (m : List UInt8) :
    Block × ℕ × ℕ :=
  let buf := H.messageDigest R pk m
  let digest := slice buf 0 spxForsMsgBytes
  let tree := bytesToUll (slice buf spxForsMsgBytes ((spxTreeBits + 7) / 8)) &&&
    ((2 ^ 64 - 1) >>> (64 - spxTreeBits))
  let leafIdx := bytesToUll (slice buf (spxForsMsgBytes + (spxTreeBits + 7) / 8)
    ((spxLeafBits + 7) / 8)) &&& ((2 ^ 32 - 1) >>> (32 - spxLeafBits))
  (digest, tree, leafIdx)

theorem hashMessage_tree_lt (R : Block) (pk : Vector UInt8 32) (m : List UInt8) :
    (hashMessage H R pk m).2.1 < 2 ^ 24 := by
  have hmask (x : ℕ) : x &&& (2 ^ 64 - 1) >>> (64 - 24) = x % 2 ^ 24 :=
    Nat.and_two_pow_sub_one_eq_mod x 24
  change _ &&& (2 ^ 64 - 1) >>> (64 - 24) < 2 ^ 24
  rw [hmask]
  exact Nat.mod_lt _ (by decide)

theorem hashMessage_leaf_lt (R : Block) (pk : Vector UInt8 32) (m : List UInt8) :
    (hashMessage H R pk m).2.2 < 2 ^ 6 := by
  have hmask (x : ℕ) : x &&& (2 ^ 32 - 1) >>> (32 - 6) = x % 2 ^ 6 :=
    Nat.and_two_pow_sub_one_eq_mod x 6
  change _ &&& (2 ^ 32 - 1) >>> (32 - 6) < 2 ^ 6
  rw [hmask]
  exact Nat.mod_lt _ (by decide)

end BitcoinPqc
