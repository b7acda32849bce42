import BitcoinPqc.Foundation.Bytes
import BitcoinPqc.Sphincs.Params

/-!
# Hash addresses

An address is a buffer of 32 bytes of which the hash reads the first 22. The
setters write single fields of the compressed SHA-2 layout, in which the chain
number shares its byte with the tree height and the hash step is the low byte
of the tree index.

Every buffer in the code starts as zero bytes and is changed by setters and
copies only, so it is always `addrOf` of six field values, and each setter is an
equation on these fields. The hashed part `adrs` determines the fields.
-/

namespace BitcoinPqc

/-- `uint32_t addr[8]`, read as bytes. -/
abbrev Addr : Type := Vector UInt8 32

/-- The `SPX_SHA256_ADDR_BYTES` bytes of an address that are hashed. -/
abbrev AddrBytes : Type := Vector UInt8 22

/-- The bytes of `addr` that enter a hash. -/
def adrs (addr : Addr) : AddrBytes := slice addr 0 22

def zeroAddr : Addr := Vector.replicate 32 0

@[simp] abbrev spxOffsetLayer : ℕ := 0

@[simp] abbrev spxOffsetTree : ℕ := 1

@[simp] abbrev spxOffsetType : ℕ := 9

@[simp] abbrev spxOffsetKpAddr : ℕ := 10

@[simp] abbrev spxOffsetChainAddr : ℕ := 17

@[simp] abbrev spxOffsetHashAddr : ℕ := 21

@[simp] abbrev spxOffsetTreeHgt : ℕ := 17

@[simp] abbrev spxOffsetTreeIndex : ℕ := 18

@[simp] abbrev addrTypeWots : ℕ := 0

@[simp] abbrev addrTypeWotsPk : ℕ := 1

@[simp] abbrev addrTypeHashTree : ℕ := 2

@[simp] abbrev addrTypeForsTree : ℕ := 3

@[simp] abbrev addrTypeForsPk : ℕ := 4

@[simp] abbrev addrTypeWotsPrf : ℕ := 5

@[simp] abbrev addrTypeForsPrf : ℕ := 6

def setLayerAddr (addr : Addr) (layer : ℕ) : Addr :=
  write addr spxOffsetLayer #v[UInt8.ofNat layer]

def setTreeAddr (addr : Addr) (tree : ℕ) : Addr :=
  write addr spxOffsetTree (ullToBytes 8 tree)

def setType (addr : Addr) (type : ℕ) : Addr :=
  write addr spxOffsetType #v[UInt8.ofNat type]

/-- Copies the layer and tree fields of `inp` into `out`. -/
def copySubtreeAddr (out inp : Addr) : Addr :=
  write out 0 (slice inp 0 (spxOffsetTree + 8))

def setKeypairAddr (addr : Addr) (keypair : ℕ) : Addr :=
  write addr spxOffsetKpAddr (u32ToBytes keypair)

/-- Copies the layer, tree and keypair fields of `inp` into `out`. -/
def copyKeypairAddr (out inp : Addr) : Addr :=
  write (write out 0 (slice inp 0 (spxOffsetTree + 8))) spxOffsetKpAddr
    (slice inp spxOffsetKpAddr 4)

def setChainAddr (addr : Addr) (chain : ℕ) : Addr :=
  write addr spxOffsetChainAddr #v[UInt8.ofNat chain]

def setHashAddr (addr : Addr) (hash : ℕ) : Addr :=
  write addr spxOffsetHashAddr #v[UInt8.ofNat hash]

def setTreeHeight (addr : Addr) (treeHeight : ℕ) : Addr :=
  write addr spxOffsetTreeHgt #v[UInt8.ofNat treeHeight]

def setTreeIndex (addr : Addr) (treeIndex : ℕ) : Addr :=
  write addr spxOffsetTreeIndex (u32ToBytes treeIndex)

/-!
## Addresses by their fields
-/

/-- The address with the given fields and zero bytes elsewhere. `height` is the
byte shared by the chain number and the tree height, and `index` the four bytes
whose last one is the hash step. -/
def addrOf (layer tree type keypair height index : ℕ) : Addr :=
  setTreeIndex (setTreeHeight (setKeypairAddr (setType (setTreeAddr
    (setLayerAddr zeroAddr layer) tree) type) keypair) height) index

section Setters

variable (layer tree type keypair height index : ℕ)

theorem zeroAddr_eq_addrOf : zeroAddr = addrOf 0 0 0 0 0 0 := by
  decide

@[simp] theorem setTreeIndex_addrOf (index' : ℕ) :
    setTreeIndex (addrOf layer tree type keypair height index) index' =
      addrOf layer tree type keypair height index' :=
  write_write_self _ _ _ _

@[simp] theorem setTreeHeight_addrOf (height' : ℕ) :
    setTreeHeight (addrOf layer tree type keypair height index) height' =
      addrOf layer tree type keypair height' index := by
  simp only [addrOf, setTreeHeight, setTreeIndex]
  rw [write_comm _ 18 17 _ _ (by decide), write_write_self]

@[simp] theorem setChainAddr_addrOf (chain : ℕ) :
    setChainAddr (addrOf layer tree type keypair height index) chain =
      addrOf layer tree type keypair chain index :=
  setTreeHeight_addrOf layer tree type keypair height index chain

@[simp] theorem setKeypairAddr_addrOf (keypair' : ℕ) :
    setKeypairAddr (addrOf layer tree type keypair height index) keypair' =
      addrOf layer tree type keypair' height index := by
  simp only [addrOf, setTreeHeight, setTreeIndex, setKeypairAddr]
  rw [write_comm _ 18 10 _ _ (by decide), write_comm _ 17 10 _ _ (by decide),
    write_write_self]

@[simp] theorem setType_addrOf (type' : ℕ) :
    setType (addrOf layer tree type keypair height index) type' =
      addrOf layer tree type' keypair height index := by
  simp only [addrOf, setTreeHeight, setTreeIndex, setKeypairAddr, setType]
  rw [write_comm _ 18 9 _ _ (by decide), write_comm _ 17 9 _ _ (by decide),
    write_comm _ 10 9 _ _ (by decide), write_write_self]

@[simp] theorem setTreeAddr_addrOf (tree' : ℕ) :
    setTreeAddr (addrOf layer tree type keypair height index) tree' =
      addrOf layer tree' type keypair height index := by
  simp only [addrOf, setTreeHeight, setTreeIndex, setKeypairAddr, setType,
    setTreeAddr]
  rw [write_comm _ 18 1 _ _ (by decide), write_comm _ 17 1 _ _ (by decide),
    write_comm _ 10 1 _ _ (by decide), write_comm _ 9 1 _ _ (by decide),
    write_write_self]

@[simp] theorem setLayerAddr_addrOf (layer' : ℕ) :
    setLayerAddr (addrOf layer tree type keypair height index) layer' =
      addrOf layer' tree type keypair height index := by
  simp only [addrOf, setTreeHeight, setTreeIndex, setKeypairAddr, setType,
    setTreeAddr, setLayerAddr]
  rw [write_comm _ 18 0 _ _ (by decide), write_comm _ 17 0 _ _ (by decide),
    write_comm _ 10 0 _ _ (by decide), write_comm _ 9 0 _ _ (by decide),
    write_comm _ 1 0 _ _ (by decide), write_write_self]

theorem u32ToBytes_of_lt {x : ℕ} (hx : x < 256) :
    u32ToBytes x = (#v[0, 0, 0] : Vector UInt8 3) ++ #v[UInt8.ofNat x] := by
  have hshift (k : ℕ) (hk : 2 ^ 8 ≤ 2 ^ k) : x >>> k = 0 := by
    rw [Nat.shiftRight_eq_div_pow]
    exact Nat.div_eq_of_lt (by omega)
  simp only [u32ToBytes, hshift 24 (by decide), hshift 16 (by decide),
    hshift 8 (by decide)]
  rfl

/-- The hash step is the low byte of the index, so it replaces an index below
256. -/
theorem setHashAddr_addrOf {index hash : ℕ} (hindex : index < 256)
    (hhash : hash < 256) :
    setHashAddr (addrOf layer tree type keypair height index) hash =
      addrOf layer tree type keypair height hash := by
  simp only [addrOf, setHashAddr, setTreeIndex, u32ToBytes_of_lt hindex,
    u32ToBytes_of_lt hhash, write_append]
  exact write_write_self _ _ _ _

theorem slice_addrOf_subtree :
    slice (addrOf layer tree type keypair height index) 0 (spxOffsetTree + 8) =
      #v[UInt8.ofNat layer] ++ ullToBytes 8 tree := by
  simp only [addrOf, setTreeHeight, setTreeIndex, setKeypairAddr, setType,
    setTreeAddr, setLayerAddr]
  rw [slice_write_of_disjoint _ _ _ _ _ (by decide),
    slice_write_of_disjoint _ _ _ _ _ (by decide),
    slice_write_of_disjoint _ _ _ _ _ (by decide),
    slice_write_of_disjoint _ _ _ _ _ (by decide), ← write_append]
  exact slice_write_self _ _ _ (by decide)

theorem slice_addrOf_keypair :
    slice (addrOf layer tree type keypair height index) spxOffsetKpAddr 4 =
      u32ToBytes keypair := by
  simp only [addrOf, setTreeHeight, setTreeIndex, setKeypairAddr]
  rw [slice_write_of_disjoint _ _ _ _ _ (by decide),
    slice_write_of_disjoint _ _ _ _ _ (by decide)]
  exact slice_write_self _ _ _ (by decide)

theorem slice_addrOf_type :
    slice (addrOf layer tree type keypair height index) spxOffsetType 1 =
      #v[UInt8.ofNat type] := by
  simp only [addrOf, setTreeHeight, setTreeIndex, setKeypairAddr, setType]
  rw [slice_write_of_disjoint _ _ _ _ _ (by decide),
    slice_write_of_disjoint _ _ _ _ _ (by decide),
    slice_write_of_disjoint _ _ _ _ _ (by decide)]
  exact slice_write_self _ _ _ (by decide)

theorem slice_addrOf_height :
    slice (addrOf layer tree type keypair height index) spxOffsetTreeHgt 1 =
      #v[UInt8.ofNat height] := by
  simp only [addrOf, setTreeHeight, setTreeIndex]
  rw [slice_write_of_disjoint _ _ _ _ _ (by decide)]
  exact slice_write_self _ _ _ (by decide)

theorem slice_addrOf_index :
    slice (addrOf layer tree type keypair height index) spxOffsetTreeIndex 4 =
      u32ToBytes index :=
  slice_write_self _ _ _ (by decide)

@[simp] theorem copySubtreeAddr_addrOf
    (layer' tree' type' keypair' height' index' : ℕ) :
    copySubtreeAddr (addrOf layer tree type keypair height index)
        (addrOf layer' tree' type' keypair' height' index') =
      addrOf layer' tree' type keypair height index := by
  have hwrite : copySubtreeAddr (addrOf layer tree type keypair height index)
      (addrOf layer' tree' type' keypair' height' index') =
      setTreeAddr (setLayerAddr (addrOf layer tree type keypair height index)
        layer') tree' := by
    rw [copySubtreeAddr, slice_addrOf_subtree, write_append]
    rfl
  rw [hwrite, setLayerAddr_addrOf, setTreeAddr_addrOf]

@[simp] theorem copyKeypairAddr_addrOf
    (layer' tree' type' keypair' height' index' : ℕ) :
    copyKeypairAddr (addrOf layer tree type keypair height index)
        (addrOf layer' tree' type' keypair' height' index') =
      addrOf layer' tree' type keypair' height index := by
  have hwrite : copyKeypairAddr (addrOf layer tree type keypair height index)
      (addrOf layer' tree' type' keypair' height' index') =
      setKeypairAddr (copySubtreeAddr
        (addrOf layer tree type keypair height index)
        (addrOf layer' tree' type' keypair' height' index')) keypair' := by
    rw [copyKeypairAddr, slice_addrOf_keypair]
    rfl
  rw [hwrite, copySubtreeAddr_addrOf, setKeypairAddr_addrOf]

end Setters

/-- The hashed bytes of an address determine its fields. -/
theorem adrs_addrOf_injective
    {layer tree type keypair height index : ℕ}
    {layer' tree' type' keypair' height' index' : ℕ}
    (hlayer : layer < 256) (hlayer' : layer' < 256)
    (htree : tree < 256 ^ 8) (htree' : tree' < 256 ^ 8)
    (htype : type < 256) (htype' : type' < 256)
    (hkeypair : keypair < 2 ^ 32) (hkeypair' : keypair' < 2 ^ 32)
    (hheight : height < 256) (hheight' : height' < 256)
    (hindex : index < 2 ^ 32) (hindex' : index' < 2 ^ 32)
    (h : adrs (addrOf layer tree type keypair height index) =
      adrs (addrOf layer' tree' type' keypair' height' index')) :
    layer = layer' ∧ tree = tree' ∧ type = type' ∧ keypair = keypair' ∧
      height = height' ∧ index = index' := by
  have hwin (off len : ℕ) (hle : off + len ≤ 22) :
      slice (addrOf layer tree type keypair height index) off len =
        slice (addrOf layer' tree' type' keypair' height' index') off len := by
    have hslice := congrArg (fun a : AddrBytes => slice a off len) h
    simpa [adrs, slice_slice, hle] using hslice
  have hbyte {x y : ℕ} (hx : x < 256) (hy : y < 256)
      (hxy : (#v[UInt8.ofNat x] : Vector UInt8 1) = #v[UInt8.ofNat y]) :
      x = y := by
    simp only [Vector.mk.injEq, Array.mk.injEq, List.cons.injEq, and_true,
      ofNat_uint8_eq_iff] at hxy
    omega
  have hsubtree := hwin 0 9 (by decide)
  rw [slice_addrOf_subtree, slice_addrOf_subtree] at hsubtree
  obtain ⟨hl, ht⟩ := Vector.append_inj hsubtree
  have hty := hwin spxOffsetType 1 (by decide)
  rw [slice_addrOf_type, slice_addrOf_type] at hty
  have hkp := hwin spxOffsetKpAddr 4 (by decide)
  rw [slice_addrOf_keypair, slice_addrOf_keypair] at hkp
  have hht := hwin spxOffsetTreeHgt 1 (by decide)
  rw [slice_addrOf_height, slice_addrOf_height] at hht
  have hix := hwin spxOffsetTreeIndex 4 (by decide)
  rw [slice_addrOf_index, slice_addrOf_index] at hix
  exact ⟨hbyte hlayer hlayer' hl, ullToBytes_injective 8 _ _ htree htree' ht,
    hbyte htype htype' hty, u32ToBytes_injective _ _ hkeypair hkeypair' hkp,
    hbyte hheight hheight' hht, u32ToBytes_injective _ _ hindex hindex' hix⟩

end BitcoinPqc
