import Mathlib.Data.Int.Notation
import Mathlib.Data.Nat.Notation
import Mathlib.Tactic.TypeStar

/-!
# Parameters of the bounded30 profile

The constants of `params-sphincs-sha2-128s-bounded30.h`, `address.h`,
`sha2_offsets.h` and `wots.h`. A 16-byte string is a `Block`, the unit in which
hash inputs and signatures are counted.
-/

namespace BitcoinPqc

/-- `SPX_N`: hash output length in bytes. -/
@[simp] abbrev spxN : ℕ := 16

/-- `SPX_FULL_HEIGHT`: height of the hypertree. -/
@[simp] abbrev spxFullHeight : ℕ := 30

/-- `SPX_D`: number of subtree layers. -/
@[simp] abbrev spxD : ℕ := 5

@[simp] abbrev spxForsHeight : ℕ := 16

@[simp] abbrev spxForsTrees : ℕ := 8

/-- `SPX_FORS_SIG_TREES`: the last tree is compressed away. -/
@[simp] abbrev spxForsSigTrees : ℕ := spxForsTrees - 1

@[simp] abbrev spxWotsW : ℕ := 256

@[simp] abbrev spxWotsLogw : ℕ := 8

@[simp] abbrev spxWotsLen1 : ℕ := 8 * spxN / spxWotsLogw

/-- `SPX_WOTS_LEN`: there are no checksum chains. -/
@[simp] abbrev spxWotsLen : ℕ := spxWotsLen1

/-- `SPX_WOTSC_TARGET`: the checksum every signed value is searched to have. -/
@[simp] abbrev spxWotscTarget : ℕ := ((spxWotsW - 1) * spxWotsLen1) / 2

@[simp] abbrev spxWotsBytes : ℕ := spxWotsLen * spxN

@[simp] abbrev spxTreeHeight : ℕ := spxFullHeight / spxD

@[simp] abbrev spxForsMsgBytes : ℕ := (spxForsHeight * spxForsTrees + 7) / 8

@[simp] abbrev spxForsBytes : ℕ := (spxForsHeight + 1) * spxForsSigTrees * spxN

/-- `SPX_BYTES`: signature length. -/
@[simp] abbrev spxBytes : ℕ :=
  spxN + spxForsBytes + spxD * spxWotsBytes + spxFullHeight * spxN

@[simp] abbrev spxPkBytes : ℕ := 2 * spxN

@[simp] abbrev spxSkBytes : ℕ := 2 * spxN + spxPkBytes

/-- `CRYPTO_SEEDBYTES`. -/
@[simp] abbrev cryptoSeedBytes : ℕ := 3 * spxN

/-- `SPX_TREE_BITS` of `hash_message`. -/
@[simp] abbrev spxTreeBits : ℕ := spxTreeHeight * (spxD - 1)

/-- `SPX_LEAF_BITS` of `hash_message`. -/
@[simp] abbrev spxLeafBits : ℕ := spxTreeHeight

/-- `SPX_NO_SIGN_LEAF`: the leaf index with which nothing is signed. -/
@[simp] abbrev spxNoSignLeaf : ℕ := 0xFFFFFFFF

/-- `BITCOINPQC_SIGN_LIMIT_EXCEEDED`. -/
abbrev signLimitExceeded : Int := -100

/-- A string of `SPX_N` bytes. -/
abbrev Block : Type := Vector UInt8 16

example : spxBytes = 3680 ∧ spxForsBytes = 1904 ∧ spxSkBytes = 64 := by decide

end BitcoinPqc
