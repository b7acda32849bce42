import BitcoinPqc.Foundation.Bytes
import Mathlib.Data.Nat.Bitwise
import Mathlib.Tactic.IntervalCases

/-!
# Vector registers

A register is the string of its bytes, lowest first. Instructions that move bytes are
`gather`s: byte `i` of the result is a byte of the operands with a number that depends on
`i` only, or zero. Instructions that compute do so on the words in the lanes of a
register, which are stored with the lowest byte first.

When the byte numbers of a `gather` run on through a lane, the lane of the result is a
lane of the operand, so for a given control value the effect of an instruction on the
lanes is a finite check.
-/

namespace BitcoinPqc

/-!
## Moving bytes
-/

section Gather

variable {n m : ℕ}

/-- The bytes with the given numbers; a number that is out of range gives zero. -/
def gather (f : ℕ → ℕ) (v : Vector UInt8 n) : Vector UInt8 m :=
  Vector.ofFn fun i => v[f i.val]?.getD default

theorem slice_gather {f : ℕ → ℕ} (v : Vector UInt8 n) {o o' len : ℕ} (hm : o + len ≤ m)
    (hf : ∀ j < len, f (o + j) = o' + j) :
    slice (gather f v : Vector UInt8 m) o len = slice v o' len := by
  ext i hi
  rw [getElem_slice _ _ _ _ hi (by omega)]
  simp only [gather, slice, Vector.getElem_ofFn, hf i hi]

/-- A window in which the numbers run backwards is a window of the operand, reversed. -/
theorem reverse_slice_gather {f : ℕ → ℕ} (v : Vector UInt8 n) {o o' len : ℕ}
    (hm : o + len ≤ m) (hf : ∀ j < len, f (o + j) = o' + (len - 1 - j)) :
    (slice (gather f v : Vector UInt8 m) o len).reverse = slice v o' len := by
  ext i hi
  rw [Vector.getElem_reverse, getElem_slice _ _ _ _ (by omega) (by omega)]
  simp only [gather, slice, Vector.getElem_ofFn]
  rw [hf _ (by omega), show len - 1 - (len - 1 - i) = i by omega]

end Gather

/-!
## Lanes
-/

/-- Words that are stored in `k` bytes. -/
structure WordCodec (W : Type) (k : ℕ) where
  ofBytes : Vector UInt8 k → W
  toBytes : W → Vector UInt8 k
  ofBytes_toBytes : ∀ w, ofBytes (toBytes w) = w

/-- 32-bit words, lowest byte first. -/
def dwordCodec : WordCodec UInt32 4 where
  ofBytes x := UInt32.ofNat (bytesToUll x.reverse)
  toBytes w := (ullToBytes 4 w.toNat).reverse
  ofBytes_toBytes w := by
    rw [Vector.reverse_reverse, bytesToUll_ullToBytes,
      Nat.mod_eq_of_lt (show w.toNat < 256 ^ 4 from w.toNat_lt), UInt32.ofNat_toNat]

/-- 64-bit words, lowest byte first. -/
def qwordCodec : WordCodec UInt64 8 where
  ofBytes x := UInt64.ofNat (bytesToUll x.reverse)
  toBytes w := (ullToBytes 8 w.toNat).reverse
  ofBytes_toBytes w := by
    rw [Vector.reverse_reverse, bytesToUll_ullToBytes,
      Nat.mod_eq_of_lt (show w.toNat < 256 ^ 8 from w.toNat_lt), UInt64.ofNat_toNat]

section Lanes

variable {W : Type} {k n m : ℕ} (C : WordCodec W k)

/-- The word in lane `i`. -/
def lane (r : Vector UInt8 n) (i : ℕ) : W := C.ofBytes (slice r (k * i) k)

/-- The words of a register with four lanes. -/
def lanes (r : Vector UInt8 n) : Vector W 4 := #v[lane C r 0, lane C r 1, lane C r 2, lane C r 3]

theorem lanes_eq_iff {r : Vector UInt8 n} {w₀ w₁ w₂ w₃ : W} :
    lanes C r = #v[w₀, w₁, w₂, w₃] ↔
      lane C r 0 = w₀ ∧ lane C r 1 = w₁ ∧ lane C r 2 = w₂ ∧ lane C r 3 = w₃ := by
  simp [lanes]

variable [Inhabited W]

/-- The register with the given words. -/
def ofLanes (v : Vector W 4) : Vector UInt8 n :=
  (List.range 4).foldl (fun x i => write x (k * i) (C.toBytes (v.getD i default)))
    (Vector.replicate n 0)

/-- An operation on the words of two registers. -/
def mapLanes (f : W → W → W) (a b : Vector UInt8 n) : Vector UInt8 n :=
  ofLanes C (Vector.ofFn fun i =>
    f ((lanes C a).getD i.val default) ((lanes C b).getD i.val default))

theorem lane_ofLanes (hn : k * 4 ≤ n) (v : Vector W 4) {i : ℕ} (hi : i < 4) :
    lane C (ofLanes C v : Vector UInt8 n) i = v.getD i default := by
  rw [lane, ofLanes, slice_foldl_write (fun i => C.toBytes (v.getD i default)) _ hn hi,
    C.ofBytes_toBytes]

theorem lanes_ofLanes (hn : k * 4 ≤ n) (v : Vector W 4) :
    lanes C (ofLanes C v : Vector UInt8 n) = v := by
  apply ext_getD (d := default)
  intro i hi
  interval_cases i
  · exact lane_ofLanes C hn v (by decide)
  · exact lane_ofLanes C hn v (by decide)
  · exact lane_ofLanes C hn v (by decide)
  · exact lane_ofLanes C hn v (by decide)

theorem lanes_mapLanes (hn : k * 4 ≤ n) (f : W → W → W) {a b : Vector UInt8 n}
    {v w : Vector W 4} (hv : lanes C a = v) (hw : lanes C b = w) :
    lanes C (mapLanes C f a b) =
      #v[f (v.getD 0 default) (w.getD 0 default), f (v.getD 1 default) (w.getD 1 default),
        f (v.getD 2 default) (w.getD 2 default), f (v.getD 3 default) (w.getD 3 default)] := by
  rw [mapLanes, lanes_ofLanes C hn, hv, hw]
  rfl

omit [Inhabited W] in
/-- A lane through which the byte numbers run on is a lane of the operand. -/
theorem lane_gather {f : ℕ → ℕ} (v : Vector UInt8 n) (i i' : ℕ) (hm : k * i + k ≤ m)
    (hf : ∀ j < k, f (k * i + j) = k * i' + j) :
    lane C (gather f v : Vector UInt8 m) i = lane C v i' := by
  rw [lane, slice_gather v hm hf, lane]

omit [Inhabited W] in
theorem lanes_gather {f : ℕ → ℕ} (v : Vector UInt8 n) (i₀ i₁ i₂ i₃ : ℕ) (hm : k * 4 ≤ m)
    (hf : ∀ j < k, f (k * 0 + j) = k * i₀ + j ∧ f (k * 1 + j) = k * i₁ + j ∧
      f (k * 2 + j) = k * i₂ + j ∧ f (k * 3 + j) = k * i₃ + j) :
    lanes C (gather f v : Vector UInt8 m) =
      #v[lane C v i₀, lane C v i₁, lane C v i₂, lane C v i₃] := by
  rw [lanes, lane_gather C v 0 i₀ (by omega) fun j hj => (hf j hj).1,
    lane_gather C v 1 i₁ (by omega) fun j hj => (hf j hj).2.1,
    lane_gather C v 2 i₂ (by omega) fun j hj => (hf j hj).2.2.1,
    lane_gather C v 3 i₃ (by omega) fun j hj => (hf j hj).2.2.2]

omit [Inhabited W] in
theorem lane_append_left (a : Vector UInt8 n) (b : Vector UInt8 m) (i : ℕ)
    (hi : k * i + k ≤ n) : lane C (a ++ b) i = lane C a i := by
  rw [lane, lane]
  congr 1
  apply Vector.ext
  intro j hj
  rw [getElem_slice _ _ _ _ hj (by omega), getElem_slice _ _ _ _ hj (by omega),
    Vector.getElem_append_left (by omega)]

omit [Inhabited W] in
theorem lane_append_right (a : Vector UInt8 n) (b : Vector UInt8 m) (i i' : ℕ)
    (hi : k * i = n + k * i') (hm : k * i' + k ≤ m) : lane C (a ++ b) i = lane C b i' := by
  rw [lane, lane]
  congr 1
  apply Vector.ext
  intro j hj
  rw [getElem_slice _ _ _ _ hj (by omega), getElem_slice _ _ _ _ hj (by omega),
    Vector.getElem_append_right (by omega) (by omega)]
  congr 1
  omega

end Lanes

end BitcoinPqc
