import Mathlib.Algebra.Group.Nat.Defs
import Mathlib.Data.Nat.Notation
import Mathlib.Tactic.Common

/-!
# Windows of a fixed-size buffer

A buffer is a `Vector`, so its size is part of its type. `slice v off len` reads
the window of length `len` at offset `off`, and `write v off w` is the buffer
after a copy of `w` to offset `off`. Both are total: a read past the end gives
the default entry, and the part of a copy that would fall past the end is
dropped. Statements about reads carry the bound they need.

Two buffers are compared window by window: a window that was written reads
back what was written, a disjoint window is unchanged, and two buffers with
the same windows at every multiple of a block length are equal.
-/

namespace BitcoinPqc

section Windows

variable {α : Type*} {n m : ℕ}

/-- The buffer after a copy of `w` to offset `off`. -/
def write (v : Vector α n) (off : ℕ) (w : Vector α m) : Vector α n :=
  Vector.ofFn fun i =>
    if h : off ≤ i.val ∧ i.val < off + m then w[i.val - off] else v[i]

theorem getElem_write (v : Vector α n) (off : ℕ) (w : Vector α m) (i : ℕ)
    (hi : i < n) :
    (write v off w)[i] =
      if h : off ≤ i ∧ i < off + m then w[i - off] else v[i] := by
  simp [write]

theorem getElem_write_of_mem (v : Vector α n) (off : ℕ) (w : Vector α m) (i : ℕ)
    (hi : i < n) (h : off ≤ i ∧ i < off + m) :
    (write v off w)[i] = w[i - off] := by
  rw [getElem_write, dif_pos h]

theorem getElem_write_of_not_mem (v : Vector α n) (off : ℕ) (w : Vector α m)
    (i : ℕ) (hi : i < n) (h : ¬ (off ≤ i ∧ i < off + m)) :
    (write v off w)[i] = v[i] := by
  rw [getElem_write, dif_neg h]

/-- A copy hides an earlier copy of the same length to the same place. -/
@[simp] theorem write_write_self (v : Vector α n) (off : ℕ) (w w' : Vector α m) :
    write (write v off w) off w' = write v off w' := by
  ext i hi
  simp only [getElem_write]
  split <;> rfl

@[simp] theorem write_full (v w : Vector α n) : write v 0 w = w := by
  ext i hi
  rw [getElem_write_of_mem _ _ _ _ hi (by omega)]
  rfl

theorem write_comm {k : ℕ} (v : Vector α n) (off o : ℕ) (w : Vector α m)
    (w' : Vector α k) (h : off + m ≤ o ∨ o + k ≤ off) :
    write (write v off w) o w' = write (write v o w') off w := by
  ext i hi
  simp only [getElem_write]
  split_ifs <;> first | rfl | omega

theorem write_append {k : ℕ} (v : Vector α n) (off : ℕ) (w : Vector α m)
    (w' : Vector α k) :
    write v off (w ++ w') = write (write v off w) (off + m) w' := by
  ext i hi
  by_cases hin : off ≤ i ∧ i < off + (m + k)
  · rw [getElem_write_of_mem _ _ _ _ _ hin]
    by_cases hfst : i < off + m
    · rw [getElem_write_of_not_mem _ _ _ _ _ (by omega),
        getElem_write_of_mem _ _ _ _ _ ⟨hin.1, hfst⟩,
        Vector.getElem_append_left (by omega)]
    · rw [getElem_write_of_mem _ _ _ _ _ (by omega),
        Vector.getElem_append_right (by omega) (by omega)]
      congr 1
      omega
  · rw [getElem_write_of_not_mem _ _ _ _ _ hin,
      getElem_write_of_not_mem _ _ _ _ _ (by omega),
      getElem_write_of_not_mem _ _ _ _ _ (by omega)]

/-- Two buffers agree outside the window `[lo, hi)`. -/
def EqOutside (v w : Vector α n) (lo hi : ℕ) : Prop :=
  ∀ i (h : i < n), i < lo ∨ hi ≤ i → v[i] = w[i]

theorem EqOutside.refl (v : Vector α n) (lo hi : ℕ) : EqOutside v v lo hi :=
  fun _ _ _ => rfl

theorem EqOutside.trans {u v w : Vector α n} {lo hi : ℕ}
    (h : EqOutside u v lo hi) (h' : EqOutside v w lo hi) :
    EqOutside u w lo hi :=
  fun i hi hout => (h i hi hout).trans (h' i hi hout)

theorem EqOutside.mono {u v : Vector α n} {lo hi lo' hi' : ℕ}
    (h : EqOutside u v lo hi) (hlo : lo' ≤ lo) (hhi : hi ≤ hi') :
    EqOutside u v lo' hi' :=
  fun i hi hout => h i hi (by omega)

theorem EqOutside.write (v : Vector α n) (off : ℕ) (w : Vector α m) :
    EqOutside (write v off w) v off (off + m) := by
  intro i hi hout
  exact getElem_write_of_not_mem _ _ _ _ hi (by omega)

theorem getD_eq_getElem (v : Vector α n) {i : ℕ} (hi : i < n) (d : α) : v.getD i d = v[i] := by
  simp [Vector.getD, hi]

theorem getD_ofFn (f : Fin n → α) {i : ℕ} (hi : i < n) (d : α) :
    (Vector.ofFn f).getD i d = f ⟨i, hi⟩ := by
  rw [getD_eq_getElem _ hi, Vector.getElem_ofFn]

theorem ext_getD {u v : Vector α n} {d : α} (h : ∀ i < n, u.getD i d = v.getD i d) : u = v := by
  ext i hi
  rw [← getD_eq_getElem u hi d, ← getD_eq_getElem v hi d]
  exact h i hi

variable [Inhabited α]

/-- The window of length `len` at offset `off`. -/
def slice (v : Vector α n) (off len : ℕ) : Vector α len :=
  Vector.ofFn fun i => v[off + i.val]?.getD default

theorem getElem_slice (v : Vector α n) (off len i : ℕ) (hi : i < len)
    (h : off + i < n) :
    (slice v off len)[i] = v[off + i] := by
  simp [slice, h]

theorem slice_write_self (v : Vector α n) (off : ℕ) (w : Vector α m)
    (h : off + m ≤ n) :
    slice (write v off w) off m = w := by
  ext i hi
  rw [getElem_slice _ _ _ _ hi (by omega),
    getElem_write_of_mem _ _ _ _ (by omega) ⟨by omega, by omega⟩]
  simp

theorem EqOutside.slice_eq {u v : Vector α n} {lo hi : ℕ}
    (h : EqOutside u v lo hi) (o len : ℕ) (hd : o + len ≤ lo ∨ hi ≤ o) :
    slice u o len = slice v o len := by
  ext i hilen
  simp only [slice, Vector.getElem_ofFn]
  congr 1
  by_cases hn : o + i < n
  · rw [Vector.getElem?_eq_getElem hn, Vector.getElem?_eq_getElem hn,
      h (o + i) hn (by omega)]
  · rw [Vector.getElem?_eq_none (by omega), Vector.getElem?_eq_none (by omega)]

theorem slice_write_of_disjoint (v : Vector α n) (off : ℕ) (w : Vector α m)
    (o len : ℕ) (h : off + m ≤ o ∨ o + len ≤ off) :
    slice (write v off w) o len = slice v o len :=
  (EqOutside.write v off w).slice_eq o len (by omega)

theorem slice_slice (v : Vector α n) (a b o len : ℕ) (h : o + len ≤ b)
    (hn : a + b ≤ n) :
    slice (slice v a b) o len = slice v (a + o) len := by
  ext i hi
  rw [getElem_slice _ _ _ _ hi (by omega), getElem_slice _ _ _ _ hi (by omega),
    getElem_slice _ _ _ _ (by omega) (by omega)]
  congr 1
  omega

theorem slice_write_of_subset (v : Vector α n) (off : ℕ) (w : Vector α m) (o len : ℕ)
    (h : o + len ≤ m) (hn : off + m ≤ n) :
    slice (write v off w) (off + o) len = slice w o len := by
  rw [← slice_slice _ off m o len h hn, slice_write_self _ _ _ hn]

theorem write_slice_self (v : Vector α n) (off len : ℕ) (h : off + len ≤ n) :
    write v off (slice v off len) = v := by
  ext i hi
  by_cases hin : off ≤ i ∧ i < off + len
  · rw [getElem_write_of_mem _ _ _ _ hi hin, getElem_slice _ _ _ _ (by omega) (by omega)]
    congr 1
    omega
  · exact getElem_write_of_not_mem _ _ _ _ hi hin

/-- A buffer that differs from another in a window only is that buffer with the window
copied over. -/
theorem eq_write_of_eqOutside {u v : Vector α n} {off len : ℕ}
    (h : EqOutside v u off (off + len)) (hn : off + len ≤ n) :
    v = write u off (slice v off len) := by
  ext i hi
  by_cases hin : off ≤ i ∧ i < off + len
  · rw [getElem_write_of_mem _ _ _ _ hi hin, getElem_slice _ _ _ _ (by omega) (by omega)]
    congr 1
    omega
  · rw [getElem_write_of_not_mem _ _ _ _ hi hin]
    exact h i hi (by omega)

/-- Blocks that are written one behind the other are read back. -/
theorem slice_foldl_write {k size : ℕ} (g : ℕ → Vector α k) (x : Vector α size)
    {n : ℕ} (hn : k * n ≤ size) {j : ℕ} (hj : j < n) :
    slice ((List.range n).foldl (fun x i => write x (k * i) (g i)) x) (k * j) k = g j := by
  induction n with
  | zero => exact absurd hj (Nat.not_lt_zero j)
  | succ n ih =>
      rw [Nat.mul_succ] at hn
      rw [List.range_succ, List.foldl_append, List.foldl_cons, List.foldl_nil]
      rcases Nat.lt_succ_iff_lt_or_eq.mp hj with hlt | rfl
      · have hle : k * (j + 1) ≤ k * n := Nat.mul_le_mul_left k hlt
        rw [Nat.mul_succ] at hle
        rw [slice_write_of_disjoint _ _ _ _ _ (Or.inr hle), ih (by omega) hlt]
      · exact slice_write_self _ _ _ (by omega)

/-- Something is written to each of `n` parts of a buffer, at the same place, and read
back. -/
theorem slice_foldl_write_parts {k size part : ℕ} (off : ℕ) (g : ℕ → Vector α k)
    (x : Vector α size) (hoff : off + k ≤ part) {n : ℕ} (hn : n * part ≤ size) {j : ℕ}
    (hj : j < n) :
    slice ((List.range n).foldl (fun x i => write x (i * part + off) (g i)) x)
      (j * part + off) k = g j := by
  induction n with
  | zero => exact absurd hj (Nat.not_lt_zero j)
  | succ n ih =>
      rw [Nat.succ_mul] at hn
      rw [List.range_succ, List.foldl_append, List.foldl_cons, List.foldl_nil]
      rcases Nat.lt_succ_iff_lt_or_eq.mp hj with hlt | rfl
      · have hle : (j + 1) * part ≤ n * part := Nat.mul_le_mul_right part hlt
        rw [Nat.succ_mul] at hle
        rw [slice_write_of_disjoint _ _ _ _ _ (Or.inr (by omega)), ih (by omega) hlt]
      · exact slice_write_self _ _ _ (by omega)

/-- The other places of the parts keep what they hold. -/
theorem slice_foldl_write_parts_of_disjoint {k size part : ℕ} (off : ℕ) (g : ℕ → Vector α k)
    (x : Vector α size) (hoff : off + k ≤ part) (n : ℕ) {o len : ℕ} (hlen : o + len ≤ part)
    (hd : off + k ≤ o ∨ o + len ≤ off) (j : ℕ) :
    slice ((List.range n).foldl (fun x i => write x (i * part + off) (g i)) x)
      (j * part + o) len = slice x (j * part + o) len := by
  induction n with
  | zero => rfl
  | succ n ih =>
      rw [List.range_succ, List.foldl_append, List.foldl_cons, List.foldl_nil,
        slice_write_of_disjoint _ _ _ _ _ ?_, ih]
      rcases Nat.lt_trichotomy j n with hlt | rfl | hgt
      · have hle : (j + 1) * part ≤ n * part := Nat.mul_le_mul_right part hlt
        rw [Nat.succ_mul] at hle
        omega
      · omega
      · have hle : (n + 1) * part ≤ j * part := Nat.mul_le_mul_right part hgt
        rw [Nat.succ_mul] at hle
        omega

theorem toList_slice (v : Vector α n) (off len : ℕ) (h : off + len ≤ n) :
    (slice v off len).toList = (v.toList.drop off).take len := by
  apply List.ext_getElem
  · rw [Vector.length_toList, List.length_take, List.length_drop, Vector.length_toList,
      Nat.min_eq_left (by omega)]
  · intro i hi _
    rw [Vector.length_toList] at hi
    rw [Vector.getElem_toList, getElem_slice _ _ _ _ hi (by omega), List.getElem_take,
      List.getElem_drop, Vector.getElem_toList]

theorem slice_append_slice {k l : ℕ} (v : Vector α (k + l)) :
    slice v 0 k ++ slice v k l = v := by
  ext i hi
  by_cases hk : i < k
  · rw [Vector.getElem_append_left hk, getElem_slice _ _ _ _ hk (by omega)]
    congr 1
    omega
  · rw [Vector.getElem_append_right hi (by omega),
      getElem_slice _ _ _ _ (by omega) (by omega)]
    congr 1
    omega

theorem slice_append_left {k l : ℕ} (v : Vector α k) (w : Vector α l) :
    slice (v ++ w) 0 k = v := by
  ext i hi
  rw [getElem_slice _ _ _ _ hi (by omega), Vector.getElem_append_left (by omega)]
  congr 1
  omega

theorem slice_append_right {k l : ℕ} (v : Vector α k) (w : Vector α l) (o len : ℕ)
    (h : o + len = k) :
    (slice (v ++ w) o (len + l) : Vector α (len + l)) = slice v o len ++ w := by
  ext i hi
  rw [getElem_slice _ _ _ _ hi (by omega)]
  by_cases hlen : i < len
  · rw [Vector.getElem_append_left (by omega), Vector.getElem_append_left hlen,
      getElem_slice _ _ _ _ hlen (by omega)]
  · rw [Vector.getElem_append_right (by omega) (by omega),
      Vector.getElem_append_right (by omega) (by omega)]
    congr 1
    omega

theorem ext_of_blocks {v w : Vector α n} (b q : ℕ) (hb : 0 < b) (hn : n = b * q)
    (h : ∀ j < q, slice v (b * j) b = slice w (b * j) b) : v = w := by
  ext i hi
  have hj : i / b < q := by
    rw [Nat.div_lt_iff_lt_mul hb, Nat.mul_comm]
    omega
  have hmod : i % b < b := Nat.mod_lt _ hb
  have hsplit : b * (i / b) + i % b = i := Nat.div_add_mod i b
  have hget : (slice v (b * (i / b)) b)[i % b] =
      (slice w (b * (i / b)) b)[i % b] := by
    rw [h (i / b) hj]
  rw [getElem_slice _ _ _ _ hmod (by omega),
    getElem_slice _ _ _ _ hmod (by omega)] at hget
  simpa only [hsplit] using hget

end Windows

/-- The first `n` bytes of a buffer. -/
def bytesAt (n : ℕ) (p : List UInt8) : Vector UInt8 n :=
  Vector.ofFn fun i => p.getD i.val 0

@[simp] theorem bytesAt_toList {n : ℕ} (v : Vector UInt8 n) : bytesAt n v.toList = v := by
  ext i hi
  simp [bytesAt]

/-!
## Big-endian encodings

`ullToBytes outlen x` writes the last byte first and shifts, so byte `i` is the
base-256 digit of weight `outlen - 1 - i`.
-/

/-- The `outlen` low-order bytes of `x`, most significant byte first. -/
def ullToBytes : (outlen : ℕ) → ℕ → Vector UInt8 outlen
  | 0, _ => #v[]
  | outlen + 1, x => (ullToBytes outlen (x >>> 8)).push (UInt8.ofNat (x &&& 0xff))

/-- The four bytes of a 32-bit integer, most significant byte first. -/
def u32ToBytes (x : ℕ) : Vector UInt8 4 :=
  #v[UInt8.ofNat (x >>> 24), UInt8.ofNat (x >>> 16), UInt8.ofNat (x >>> 8),
    UInt8.ofNat x]

/-- The integer with the given big-endian bytes. -/
def bytesToUll {inlen : ℕ} (v : Vector UInt8 inlen) : ℕ :=
  (List.finRange inlen).foldl
    (fun acc i => acc ||| (v[i].toNat <<< (8 * (inlen - 1 - i.val)))) 0

theorem ofNat_uint8_eq_iff (x y : ℕ) :
    UInt8.ofNat x = UInt8.ofNat y ↔ x % 256 = y % 256 := by
  constructor
  · intro h
    simpa using congrArg UInt8.toNat h
  · intro h
    apply UInt8.toNat_inj.mp
    simpa using h

theorem ofNat_and_0xff (x : ℕ) : UInt8.ofNat (x &&& 0xff) = UInt8.ofNat x := by
  have hmask : x &&& 0xff = x % 2 ^ 8 := Nat.and_two_pow_sub_one_eq_mod x 8
  rw [hmask, ofNat_uint8_eq_iff]
  exact Nat.mod_mod x 256

theorem toList_ullToBytes_succ (outlen x : ℕ) :
    (ullToBytes (outlen + 1) x).toList =
      (ullToBytes outlen (x >>> 8)).toList ++ [UInt8.ofNat x] := by
  rw [ullToBytes, Vector.toList_push, ofNat_and_0xff]

theorem ullToBytes_injective (outlen x y : ℕ) (hx : x < 256 ^ outlen)
    (hy : y < 256 ^ outlen) (h : ullToBytes outlen x = ullToBytes outlen y) :
    x = y := by
  induction outlen generalizing x y with
  | zero =>
      rw [Nat.pow_zero] at hx hy
      omega
  | succ outlen ih =>
      obtain ⟨hbyte, hrest⟩ := Vector.push_eq_push.mp h
      rw [Nat.pow_succ] at hx hy
      have hdiv : x >>> 8 = y >>> 8 := by
        refine ih _ _ ?_ ?_ hrest
        · rw [Nat.shiftRight_eq_div_pow, Nat.div_lt_iff_lt_mul (by decide)]
          exact hx
        · rw [Nat.shiftRight_eq_div_pow, Nat.div_lt_iff_lt_mul (by decide)]
          exact hy
      rw [ofNat_and_0xff, ofNat_and_0xff, ofNat_uint8_eq_iff] at hbyte
      rw [Nat.shiftRight_eq_div_pow, Nat.shiftRight_eq_div_pow] at hdiv
      omega

theorem u32ToBytes_eq (x : ℕ) : u32ToBytes x = ullToBytes 4 x := by
  have hnil (y : ℕ) : (ullToBytes 0 y).toList = [] := rfl
  apply Vector.toList_inj.mp
  simp only [toList_ullToBytes_succ, hnil, List.nil_append, List.cons_append,
    ← Nat.shiftRight_add]
  rfl

theorem u32ToBytes_injective (x y : ℕ) (hx : x < 2 ^ 32) (hy : y < 2 ^ 32)
    (h : u32ToBytes x = u32ToBytes y) : x = y := by
  simp only [u32ToBytes, Vector.mk.injEq, Array.mk.injEq, List.cons.injEq,
    ofNat_uint8_eq_iff, Nat.shiftRight_eq_div_pow] at h
  omega

/-- A further byte is the digit of weight one. -/
theorem bytesToUll_push {n : ℕ} (v : Vector UInt8 n) (x : UInt8) :
    bytesToUll (v.push x) = bytesToUll v * 256 + x.toNat := by
  have hshift (l : List (Fin n)) (acc : ℕ) :
      l.foldl (fun acc i => acc ||| (v[i].toNat <<< (8 * (n - 1 - i.val) + 8))) (acc <<< 8) =
        (l.foldl (fun acc i => acc ||| (v[i].toNat <<< (8 * (n - 1 - i.val)))) acc) <<< 8 := by
    induction l generalizing acc with
    | nil => rfl
    | cons i l ih =>
        rw [List.foldl_cons, List.foldl_cons, ← ih, Nat.shiftLeft_or_distrib,
          ← Nat.shiftLeft_add]
  have hinit := hshift (List.finRange n) 0
  rw [Nat.zero_shiftLeft] at hinit
  rw [bytesToUll, bytesToUll, List.finRange_succ_last, List.foldl_append, List.foldl_map,
    List.foldl_cons, List.foldl_nil]
  have hstep : (fun (acc : ℕ) (i : Fin n) => acc |||
      ((v.push x)[i.castSucc].toNat <<< (8 * (n + 1 - 1 - i.castSucc.val)))) =
        fun acc i => acc ||| (v[i].toNat <<< (8 * (n - 1 - i.val) + 8)) := by
    funext acc i
    have hi := i.isLt
    have hget : (v.push x)[i.castSucc] = v[i] := Vector.getElem_push_lt hi
    rw [hget, show 8 * (n + 1 - 1 - i.castSucc.val) = 8 * (n - 1 - i.val) + 8 by
      rw [Fin.val_castSucc]
      omega]
  have hlast : (v.push x)[Fin.last n] = x := Vector.getElem_push_eq
  rw [hstep, hinit, hlast, Fin.val_last, Nat.add_sub_cancel, Nat.sub_self, Nat.mul_zero,
    Nat.shiftLeft_zero, ← Nat.shiftLeft_add_eq_or_of_lt x.toNat_lt, Nat.shiftLeft_eq]

theorem bytesToUll_ullToBytes (n x : ℕ) : bytesToUll (ullToBytes n x) = x % 256 ^ n := by
  induction n generalizing x with
  | zero =>
      rw [Nat.pow_zero, Nat.mod_one]
      rfl
  | succ n ih =>
      have hbyte : (UInt8.ofNat (x &&& 0xff)).toNat = x % 256 := by
        rw [ofNat_and_0xff]
        exact UInt8.toNat_ofNat'
      rw [ullToBytes, bytesToUll_push, ih, hbyte, Nat.shiftRight_eq_div_pow,
        show 256 ^ (n + 1) = 256 * 256 ^ n from Nat.pow_succ', Nat.mod_mul,
        show (2 : ℕ) ^ 8 = 256 from rfl, Nat.add_comm, Nat.mul_comm]

theorem ullToBytes_bytesToUll {n : ℕ} (v : Vector UInt8 n) :
    ullToBytes n (bytesToUll v) = v := by
  induction n with
  | zero => exact Vector.eq_empty.symm
  | succ n ih =>
      obtain ⟨w, x, rfl⟩ := (Vector.exists_push :
        ∃ (w : Vector UInt8 n) (x : UInt8), v = w.push x)
      have hx := x.toNat_lt
      have hdiv : (bytesToUll w * 256 + x.toNat) >>> 8 = bytesToUll w := by
        rw [Nat.shiftRight_eq_div_pow]
        omega
      have hbyte : UInt8.ofNat ((bytesToUll w * 256 + x.toNat) &&& 0xff) = x := by
        have hlow : (bytesToUll w * 256 + x.toNat) % 256 = x.toNat % 256 := by omega
        rw [ofNat_and_0xff, (ofNat_uint8_eq_iff _ _).mpr hlow, UInt8.ofNat_toNat]
      rw [ullToBytes, bytesToUll_push, hdiv, ih, hbyte]

theorem bytesToUll_lt {n : ℕ} (v : Vector UInt8 n) : bytesToUll v < 256 ^ n := by
  have hmod := bytesToUll_ullToBytes n (bytesToUll v)
  rw [ullToBytes_bytesToUll] at hmod
  rw [hmod]
  exact Nat.mod_lt _ (Nat.pow_pos (by decide))

end BitcoinPqc
