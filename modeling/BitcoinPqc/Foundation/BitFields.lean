import Mathlib.Data.Nat.Bitwise
import Mathlib.Data.Nat.Notation
import Mathlib.Tactic.Common

/-!
# Bit fields of a byte string

The bits of a byte string are numbered from the least significant bit of its first byte.
Field `i` of width `w` is the number whose bits are the bits from `i * w` on, so fields of
the same width tile the byte string.
-/

namespace BitcoinPqc

variable {n : ℕ}

/-!
## Bits
-/

/-- Bit `o` of a byte string. -/
def bitAt (v : Vector UInt8 n) (o : ℕ) : Bool := (v.getD (o / 8) 0).toNat.testBit (o % 8)

/-- The byte string with the given bits. -/
def ofBitAt (b : ℕ → Bool) : Vector UInt8 n :=
  Vector.ofFn fun i => UInt8.ofNat (Nat.ofBits fun j : Fin 8 => b (8 * i + j))

theorem bitAt_eq_testBit (v : Vector UInt8 n) {i j : ℕ} (hi : i < n) (hj : j < 8) :
    bitAt v (8 * i + j) = v[i].toNat.testBit j := by
  have hdiv : (8 * i + j) / 8 = i := by omega
  have hmod : (8 * i + j) % 8 = j := by omega
  have hget : v.getD i 0 = v[i] := by simp [Vector.getD, hi]
  rw [bitAt, hdiv, hmod, hget]

theorem bitAt_ofBitAt (b : ℕ → Bool) {o : ℕ} (ho : o < 8 * n) :
    bitAt (ofBitAt b : Vector UInt8 n) o = b o := by
  have hbyte : o / 8 < n := Nat.div_lt_of_lt_mul ho
  have hbit : o % 8 < 8 := Nat.mod_lt o (by decide)
  have hsplit := bitAt_eq_testBit (ofBitAt b : Vector UInt8 n) hbyte hbit
  rw [Nat.div_add_mod] at hsplit
  rw [hsplit, ofBitAt, Vector.getElem_ofFn, UInt8.toNat_ofNat',
    Nat.mod_eq_of_lt (Nat.ofBits_lt_two_pow _), Nat.testBit_ofBits_lt _ _ hbit]
  simp only [Nat.div_add_mod]

theorem ext_bitAt {v w : Vector UInt8 n} (h : ∀ o < 8 * n, bitAt v o = bitAt w o) :
    v = w := by
  ext i hi
  apply Nat.eq_of_testBit_eq
  intro j
  by_cases hj : j < 8
  · rw [← bitAt_eq_testBit v hi hj, ← bitAt_eq_testBit w hi hj]
    exact h _ (by omega)
  · have hhigh (x : UInt8) : x.toNat.testBit j = false :=
      Nat.testBit_lt_two_pow
        (Nat.lt_of_lt_of_le x.toNat_lt (Nat.pow_le_pow_right (by decide) (by omega)))
    rw [hhigh, hhigh]

/-!
## Fields
-/

/-- Field `i` of width `w`. -/
def bitField (w : ℕ) (v : Vector UInt8 n) (i : ℕ) : ℕ :=
  Nat.ofBits fun j : Fin w => bitAt v (i * w + j)

theorem bitField_lt (w : ℕ) (v : Vector UInt8 n) (i : ℕ) : bitField w v i < 2 ^ w :=
  Nat.ofBits_lt_two_pow _

/-- The byte string with the given fields of width `w`. -/
def ofBitFields (w : ℕ) (f : ℕ → ℕ) : Vector UInt8 n :=
  ofBitAt fun o => (f (o / w)).testBit (o % w)

theorem ofBitFields_congr {w : ℕ} {f g : ℕ → ℕ} (h : ∀ i, i * w < 8 * n → f i = g i) :
    (ofBitFields w f : Vector UInt8 n) = ofBitFields w g := by
  apply ext_bitAt
  intro o ho
  rw [ofBitFields, ofBitFields, bitAt_ofBitAt _ ho, bitAt_ofBitAt _ ho,
    h _ (Nat.lt_of_le_of_lt (Nat.div_mul_le_self o w) ho)]

/-- The fields determine the byte string. -/
theorem ofBitFields_bitField {w : ℕ} (hw : 0 < w) (v : Vector UInt8 n) :
    ofBitFields w (bitField w v) = v := by
  apply ext_bitAt
  intro o ho
  rw [ofBitFields, bitAt_ofBitAt _ ho, bitField, Nat.testBit_ofBits_lt _ _ (Nat.mod_lt o hw)]
  simp only [Nat.div_add_mod']

theorem bitField_ofBitFields {w i : ℕ} {f : ℕ → ℕ} (hi : (i + 1) * w ≤ 8 * n)
    (hf : f i < 2 ^ w) : bitField w (ofBitFields w f : Vector UInt8 n) i = f i := by
  have hbits (j : Fin w) :
      bitAt (ofBitFields w f : Vector UInt8 n) (i * w + j) = (f i).testBit j := by
    have hlt : i * w + j < 8 * n := by
      rw [Nat.succ_mul] at hi
      omega
    have hdiv : (i * w + j) / w = i := by
      rw [Nat.mul_comm, Nat.mul_add_div (Nat.zero_lt_of_lt j.isLt), Nat.div_eq_of_lt j.isLt,
        Nat.add_zero]
    have hmod : (i * w + j) % w = j := by
      rw [Nat.mul_comm, Nat.mul_add_mod, Nat.mod_eq_of_lt j.isLt]
    rw [ofBitFields, bitAt_ofBitAt _ hlt, hdiv, hmod]
  rw [bitField, funext hbits, Nat.ofBits_testBit, Nat.mod_eq_of_lt hf]

/-!
## Which field uses which bit
-/

/-- Changing bit `o` alone can change the value of `f`. -/
def UsesBit (f : Vector UInt8 n → ℕ) (o : ℕ) : Prop :=
  ∃ v w : Vector UInt8 n, (∀ o' < 8 * n, o' ≠ o → bitAt v o' = bitAt w o') ∧ f v ≠ f w

/-- Each bit of a field is used by that field and by no other. -/
theorem usesBit_bitField_iff {w i o : ℕ} (hi : (i + 1) * w ≤ 8 * n) :
    UsesBit (fun v : Vector UInt8 n => bitField w v i) o ↔ i * w ≤ o ∧ o < (i + 1) * w := by
  rw [Nat.succ_mul] at *
  constructor
  · rintro ⟨v, v', hsame, hne⟩
    by_contra hout
    apply hne
    dsimp only
    rw [bitField, bitField]
    congr 1
    funext j
    apply hsame
    · omega
    · omega
  · rintro ⟨hle, hlt⟩
    refine ⟨ofBitAt fun _ => false, ofBitAt fun o' => decide (o' = o), ?_, ?_⟩
    · intro o' ho' hne
      rw [bitAt_ofBitAt _ ho', bitAt_ofBitAt _ ho', decide_eq_false hne]
    · intro heq
      have hj : o - i * w < w := by omega
      have hbit := congrArg (Nat.testBit · (o - i * w)) heq
      simp only [bitField, Nat.testBit_ofBits_lt _ _ hj, Nat.add_sub_cancel' hle] at hbit
      rw [bitAt_ofBitAt _ (by omega), bitAt_ofBitAt _ (by omega)] at hbit
      simp at hbit

/-!
## Loops over the bits
-/

/-- The loop that XORs bit after bit into a number. -/
theorem foldl_xor_shiftLeft (b : ℕ → Bool) (w : ℕ) :
    (List.range w).foldl (fun x j => x ^^^ ((b j).toNat <<< j)) 0 =
      Nat.ofBits fun j : Fin w => b j := by
  induction w with
  | zero => rfl
  | succ w ih =>
      rw [List.range_succ, List.foldl_append, List.foldl_cons, List.foldl_nil, ih]
      apply Nat.eq_of_testBit_eq
      intro k
      rw [Nat.testBit_xor, Nat.testBit_shiftLeft, Nat.testBit_ofBits, Nat.testBit_ofBits]
      rcases Nat.lt_trichotomy k w with hk | rfl | hk
      · rw [dif_pos hk, dif_pos (Nat.lt_succ_of_lt hk), decide_eq_false (Nat.not_le.mpr hk),
          Bool.false_and, Bool.xor_false]
      · rw [dif_neg (Nat.lt_irrefl k), dif_pos (Nat.lt_succ_self k), Nat.sub_self]
        cases b k <;> simp
      · have hhigh : (b w).toNat.testBit (k - w) = false :=
          Nat.testBit_lt_two_pow (Nat.lt_of_le_of_lt (Bool.toNat_le _)
            (Nat.one_lt_two_pow (Nat.sub_ne_zero_of_lt hk)))
        rw [dif_neg (by omega), dif_neg (by omega), hhigh, Bool.and_false, Bool.xor_false]

end BitcoinPqc
