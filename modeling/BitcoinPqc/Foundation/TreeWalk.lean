import BitcoinPqc.Foundation.MerkleTree
import Mathlib.Logic.Function.Basic

/-!
# Walking a tree leaf by leaf

A tree of height `H` is built from its leaves in order with one stack slot for
each height. After `idx` leaves the slot at height `h` holds the left child that
waits for its right sibling. The leaf `idx` is then merged upwards: at height `h`
the walk stands at the node with index `j` where `idx + 1 = (j + 1) * 2 ^ h`, and
it stops there when `j` is even, which stores the node in its slot.

`StackOk` is what the slots hold between two leaves and `Done` says which nodes
the walk has met. Both are arithmetic of binary counting: the climb from `idx`
ends at the height of the lowest zero bit of `idx`.
-/

namespace BitcoinPqc

namespace Merkle

variable {α : Type*}

/-- After `idx` leaves every left child that waits for its sibling is in its
slot. -/
def StackOk (nd : ℕ → ℕ → α) (H idx : ℕ) (stack : ℕ → α) : Prop :=
  ∀ h < H, ∀ j, j % 2 = 0 → (j + 1) * 2 ^ h ≤ idx → idx < (j + 2) * 2 ^ h →
    stack h = nd h j

/-- The walk has met node `i` at height `k` when it is about to treat height `h`
in the climb from leaf `idx`. -/
def Done (idx h k i : ℕ) : Prop :=
  (i + 1) * 2 ^ k ≤ idx ∨ (k < h ∧ (i + 1) * 2 ^ k = idx + 1)

theorem stackOk_zero (nd : ℕ → ℕ → α) (H : ℕ) (stack : ℕ → α) :
    StackOk nd H 0 stack := by
  intro h _ j _ hle _
  have hpos : 0 < (j + 1) * 2 ^ h := Nat.mul_pos (by omega) (Nat.two_pow_pos h)
  omega

theorem exponent_unique {a b h k : ℕ} (ha : a % 2 = 1) (hb : b % 2 = 1)
    (heq : a * 2 ^ h = b * 2 ^ k) : h = k := by
  induction h generalizing k with
  | zero =>
      cases k with
      | zero => rfl
      | succ k =>
          rw [Nat.pow_zero, Nat.mul_one, Nat.pow_succ, ← Nat.mul_assoc] at heq
          omega
  | succ h ih =>
      cases k with
      | zero =>
          rw [Nat.pow_zero, Nat.mul_one, Nat.pow_succ, ← Nat.mul_assoc] at heq
          omega
      | succ k =>
          rw [Nat.pow_succ, Nat.pow_succ, ← Nat.mul_assoc, ← Nat.mul_assoc] at heq
          rw [ih (Nat.mul_right_cancel (by decide) heq)]

/-- A climb that reaches a right child finds its sibling in the slot. -/
theorem StackOk.left_sibling {nd : ℕ → ℕ → α} {H idx : ℕ} {stack : ℕ → α}
    (hstack : StackOk nd H idx stack) {h j : ℕ} (hh : h < H)
    (hend : idx + 1 = (2 * j + 1 + 1) * 2 ^ h) : stack h = nd h (2 * j) := by
  have hpos : 0 < 2 ^ h := Nat.two_pow_pos h
  have hsplit : (2 * j + 1 + 1) * 2 ^ h = (2 * j + 1) * 2 ^ h + 2 ^ h :=
    Nat.succ_mul _ _
  have hnext : (2 * j + 2) * 2 ^ h = (2 * j + 1 + 1) * 2 ^ h := rfl
  exact hstack h hh (2 * j) (by omega) (by omega) (by omega)

/-- Storing the left child at which the climb stopped makes the slots right for
the next leaf. -/
theorem StackOk.update {nd : ℕ → ℕ → α} {H idx : ℕ} {stack : ℕ → α}
    (hstack : StackOk nd H idx stack) {h j : ℕ} (hj : j % 2 = 0)
    (hend : idx + 1 = (j + 1) * 2 ^ h) :
    StackOk nd H (idx + 1) (Function.update stack h (nd h j)) := by
  intro k hk i hi hle hlt
  by_cases hkh : k = h
  · subst hkh
    have hij : i = j := by
      rw [hend] at hle hlt
      have hle' := Nat.le_of_mul_le_mul_right hle (Nat.two_pow_pos k)
      have hlt' := Nat.lt_of_mul_lt_mul_right hlt
      omega
    rw [Function.update_self, hij]
  · rw [Function.update_of_ne hkh]
    rcases Nat.lt_or_ge idx ((i + 1) * 2 ^ k) with hnew | hold
    · have heq : (i + 1) * 2 ^ k = (j + 1) * 2 ^ h := by omega
      exact absurd (exponent_unique (by omega) (by omega) heq) hkh
    · exact hstack k hk i hi hold (by omega)

/-- Height `h` of the climb adds the node the climb stands at. -/
theorem Done.cases {idx h k i : ℕ} (hdone : Done idx (h + 1) k i) :
    Done idx h k i ∨ (k = h ∧ (i + 1) * 2 ^ h = idx + 1) := by
  rcases hdone with hle | ⟨hk, heq⟩
  · exact Or.inl (Or.inl hle)
  · rcases Nat.lt_succ_iff_lt_or_eq.mp hk with hlt | rfl
    · exact Or.inl (Or.inr ⟨hlt, heq⟩)
    · exact Or.inr ⟨rfl, heq⟩

/-- Every node completed by leaf `idx` was met by the climb that stopped at a left
child. -/
theorem done_of_done_next {idx h j k i : ℕ} (hj : j % 2 = 0)
    (hend : idx + 1 = (j + 1) * 2 ^ h) (hdone : Done (idx + 1) 0 k i) :
    Done idx (h + 1) k i := by
  rcases hdone with hle | ⟨hk, _⟩
  · rcases Nat.lt_or_ge idx ((i + 1) * 2 ^ k) with hnew | hold
    · have heq : (i + 1) * 2 ^ k = idx + 1 := by omega
      refine Or.inr ⟨?_, heq⟩
      by_contra hkh
      have hpow : (i + 1) * 2 ^ k = (2 * ((i + 1) * 2 ^ (k - (h + 1)))) * 2 ^ h := by
        have hexp : 2 ^ k = 2 ^ (k - (h + 1)) * 2 * 2 ^ h := by
          rw [← Nat.pow_succ, ← Nat.pow_add]
          congr 1
          omega
        rw [hexp, ← Nat.mul_assoc, ← Nat.mul_assoc,
          Nat.mul_comm ((i + 1) * 2 ^ (k - (h + 1))) 2]
      rw [heq, hend] at hpow
      have hodd := Nat.mul_right_cancel (Nat.two_pow_pos h) hpow
      omega
    · exact Or.inl hold
  · omega

theorem done_last {H k i : ℕ} (hk : k < H) (hi : i < 2 ^ (H - k)) :
    Done (2 ^ H - 1) H k i := by
  have hpos : 0 < 2 ^ H := Nat.two_pow_pos H
  have hle : (i + 1) * 2 ^ k ≤ 2 ^ H := by
    calc (i + 1) * 2 ^ k ≤ 2 ^ (H - k) * 2 ^ k := Nat.mul_le_mul_right _ hi
      _ = 2 ^ H := by
          rw [← Nat.pow_add]
          congr 1
          omega
  rcases Nat.lt_or_ge (2 ^ H - 1) ((i + 1) * 2 ^ k) with hnew | hold
  · exact Or.inr ⟨hk, by omega⟩
  · exact Or.inl hold

theorem not_done_zero (k i : ℕ) : ¬ Done 0 0 k i := by
  rintro (hle | ⟨hk, _⟩)
  · have hpos : 0 < (i + 1) * 2 ^ k := Nat.mul_pos (by omega) (Nat.two_pow_pos k)
    omega
  · omega

theorem index_lt_of_climb {H h r idx j : ℕ} (hr : h + r = H) (hidx : idx < 2 ^ H)
    (hend : idx + 1 = (j + 1) * 2 ^ h) : j < 2 ^ r := by
  have hle : (j + 1) * 2 ^ h ≤ 2 ^ r * 2 ^ h := by
    rw [← Nat.pow_add, Nat.add_comm r h, hr]
    omega
  exact Nat.le_of_mul_le_mul_right hle (Nat.two_pow_pos h)

/-- A climb past an even index is the climb from the last leaf, which meets no left
child below the root. -/
theorem odd_of_climb_last {H h r idx j : ℕ} (hr : h + (r + 1) = H)
    (hlast : idx = 2 ^ H - 1) (hend : idx + 1 = (j + 1) * 2 ^ h) : j % 2 = 1 := by
  have hpos : 0 < 2 ^ H := Nat.two_pow_pos H
  have heq : (j + 1) * 2 ^ h = 2 ^ (r + 1) * 2 ^ h := by
    rw [← Nat.pow_add, Nat.add_comm (r + 1) h, hr]
    omega
  have hodd := Nat.mul_right_cancel (Nat.two_pow_pos h) heq
  rw [Nat.pow_succ] at hodd
  omega

/-- A climb that does not stop at a node stands at a right child and goes on to its parent. -/
theorem exists_parent_of_climb {H h idx j : ℕ} (hh : h < H) (hidx : idx < 2 ^ H)
    (hend : idx + 1 = (j + 1) * 2 ^ h) (hgo : ¬ (j % 2 = 0 ∧ idx < 2 ^ H - 1)) :
    ∃ p, j = 2 * p + 1 ∧ idx + 1 = (p + 1) * 2 ^ (h + 1) := by
  have hodd : j % 2 = 1 := by
    rcases Nat.mod_two_eq_zero_or_one j with heven | hodd
    · exact odd_of_climb_last (H := H) (r := H - h - 1) (by omega) (by omega) hend
    · exact hodd
  refine ⟨j / 2, by omega, ?_⟩
  have hdouble : j + 1 = (j / 2 + 1) * 2 := by omega
  rw [hend, hdouble, Nat.pow_succ, Nat.mul_assoc, Nat.mul_comm 2 (2 ^ h)]

/-!
## The number of merges

A climb merges once for every height that it passes. Together the climbs from the first
leaves have made every node above them that is complete.
-/

/-- The merges of a climb that starts at node `j` with `r` heights to the root. A climb
that `stops` does so at a left child. -/
def climbMerges (stops : Bool) : (r j : ℕ) → ℕ
  | 0, _ => 0
  | r + 1, j => if j % 2 = 0 ∧ stops then 0 else climbMerges stops r (j / 2) + 1

/-- The nodes above the first `n` leaves whose leaves are all among them. -/
def completed (n : ℕ) : ℕ :=
  if n = 0 then 0 else n / 2 + completed (n / 2)
termination_by n
decreasing_by omega

theorem completed_eq (n : ℕ) : completed n = n / 2 + completed (n / 2) := by
  by_cases h : n = 0
  · subst h
    simp [completed]
  · rw [completed, if_neg h]

theorem completed_two_pow (H : ℕ) : completed (2 ^ H) = 2 ^ H - 1 := by
  induction H with
  | zero => simp [completed]
  | succ H ih =>
      have hpos : 0 < 2 ^ H := Nat.two_pow_pos H
      rw [completed_eq, Nat.pow_succ, Nat.mul_div_cancel _ (by decide), ih]
      omega

theorem climbMerges_false (r j : ℕ) : climbMerges false r j = r := by
  induction r generalizing j with
  | zero => rfl
  | succ r ih => simp [climbMerges, ih]

/-- A climb that stops completes the nodes that its leaf was missing for. -/
theorem completed_succ {r j : ℕ} (h : j + 1 < 2 ^ r) :
    completed (j + 1) = completed j + climbMerges true r j := by
  induction r generalizing j with
  | zero => omega
  | succ r ih =>
      rw [Nat.pow_succ] at h
      rw [completed_eq (j + 1), completed_eq j, climbMerges]
      rcases Nat.mod_two_eq_zero_or_one j with heven | hodd
      · rw [if_pos ⟨heven, rfl⟩, show (j + 1) / 2 = j / 2 by omega, Nat.add_zero]
      · rw [if_neg (by simp [hodd]), show (j + 1) / 2 = j / 2 + 1 by omega,
          ih (show j / 2 + 1 < 2 ^ r by omega)]
        omega

theorem completed_last (H : ℕ) : completed (2 ^ H - 1) + H = completed (2 ^ H) := by
  induction H with
  | zero => simp [completed]
  | succ H ih =>
      have hpos : 0 < 2 ^ H := Nat.two_pow_pos H
      rw [completed_eq (2 ^ (H + 1)), completed_eq (2 ^ (H + 1) - 1), Nat.pow_succ,
        Nat.mul_div_cancel _ (by decide), show (2 ^ H * 2 - 1) / 2 = 2 ^ H - 1 by omega, ← ih]
      omega

end Merkle

end BitcoinPqc
