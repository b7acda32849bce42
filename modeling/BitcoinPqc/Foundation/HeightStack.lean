import Mathlib.Data.Nat.BitIndices

/-!
# A stack of subtrees

Merging two subtrees of equal height counts in binary: after `m` leaves the heights on the
stack are the positions of the ones of `m`, the lowest on top. `waiting h j` are the
heights below a node with index `j` at height `h` on top of the stack; the node is merged
when the first of them is `h` itself, which is when `j` is odd.

`Holds` says that the first entries of two arrays, used as a stack, are given heights and
the nodes that another walk keeps in slots, one slot for each height.
-/

namespace BitcoinPqc

namespace Merkle

/-- The heights of the subtrees to the left of node `j` at height `h`, the lowest first. -/
def waiting (h j : ℕ) : List ℕ := j.bitIndices.map (· + h)

@[simp] theorem waiting_zero_index (h : ℕ) : waiting h 0 = [] := by
  simp [waiting]

theorem waiting_two_mul (h p : ℕ) : waiting h (2 * p) = waiting (h + 1) p := by
  simp [waiting, Function.comp_def, Nat.add_assoc, Nat.add_comm 1 h]

theorem waiting_two_mul_add_one (h p : ℕ) :
    waiting h (2 * p + 1) = h :: waiting (h + 1) p := by
  simp [waiting, Function.comp_def, Nat.add_assoc, Nat.add_comm 1 h]

theorem waiting_mul_two_pow (h j : ℕ) : waiting 0 (j * 2 ^ h) = waiting h j := by
  rw [Nat.mul_comm]
  simp [waiting]

theorem le_of_mem_waiting {h j k : ℕ} (hk : k ∈ waiting h j) : h ≤ k := by
  obtain ⟨i, _, rfl⟩ := List.mem_map.mp hk
  exact Nat.le_add_left h i

/-- A stack of the subtrees of `m < 2 ^ H` leaves has at most `H` entries. -/
theorem length_waiting_le {H h m : ℕ} (hm : m < 2 ^ H) : (waiting h m).length ≤ H := by
  induction H generalizing h m with
  | zero =>
      obtain rfl : m = 0 := by omega
      simp
  | succ H ih =>
      rw [Nat.pow_succ] at hm
      obtain ⟨p, rfl | rfl⟩ : ∃ p, m = 2 * p ∨ m = 2 * p + 1 := ⟨m / 2, by omega⟩
      · rw [waiting_two_mul]
        exact Nat.le_succ_of_le (ih (by omega))
      · rw [waiting_two_mul_add_one, List.length_cons]
        exact Nat.succ_le_succ (ih (by omega))

section Holds

variable {α : Type*} {slots slots' stack stack' : ℕ → α} {heights heights' : ℕ → ℕ}

/-- The first `k` entries of `stack` and `heights`, from the top, are the slots at the
given heights and these heights. -/
inductive Holds (slots stack : ℕ → α) (heights : ℕ → ℕ) : ℕ → List ℕ → Prop
  | nil : Holds slots stack heights 0 []
  | cons {k h : ℕ} {hs : List ℕ} (hheight : heights k = h) (hstack : stack k = slots h)
      (hrest : Holds slots stack heights k hs) : Holds slots stack heights (k + 1) (h :: hs)

theorem Holds.length_eq {k : ℕ} {hs : List ℕ} (h : Holds slots stack heights k hs) :
    hs.length = k := by
  induction h with
  | nil => rfl
  | cons _ _ _ ih => rw [List.length_cons, ih]

theorem Holds.le {H k h m : ℕ} (hholds : Holds slots stack heights k (waiting h m))
    (hm : m < 2 ^ H) : k ≤ H := by
  rw [← hholds.length_eq]
  exact length_waiting_le hm

/-- What lies above the stack, and the other slots, do not matter. -/
theorem Holds.congr {k : ℕ} {hs : List ℕ} (h : Holds slots stack heights k hs)
    (hheights : ∀ i < k, heights' i = heights i) (hstack : ∀ i < k, stack' i = stack i)
    (hslots : ∀ i ∈ hs, slots' i = slots i) : Holds slots' stack' heights' k hs := by
  induction h with
  | nil => exact .nil
  | @cons k h hs hheight hentry _ ih =>
      refine .cons ?_ ?_ (ih (fun i hi => hheights i (Nat.lt_succ_of_lt hi))
        (fun i hi => hstack i (Nat.lt_succ_of_lt hi))
        fun i hi => hslots i (List.mem_cons_of_mem h hi))
      · rw [hheights k (Nat.lt_succ_self k), hheight]
      · rw [hstack k (Nat.lt_succ_self k), hentry, hslots h List.mem_cons_self]

theorem Holds.update_above {k i : ℕ} {hs : List ℕ} (h : Holds slots stack heights k hs)
    (hi : k ≤ i) (a : α) (height : ℕ) :
    Holds slots (Function.update stack i a) (Function.update heights i height) k hs :=
  h.congr (fun _ hj => Function.update_of_ne (by omega) _ _)
    (fun _ hj => Function.update_of_ne (by omega) _ _) fun _ _ => rfl

/-- A node on top of the subtrees to its left, when the walk with slots stores it. -/
theorem Holds.store {k h j : ℕ} (hrest : Holds slots stack heights k (waiting (h + 1) j))
    (hheight : heights k = h) :
    Holds (Function.update slots h (stack k)) stack heights (k + 1)
      (h :: waiting (h + 1) j) := by
  refine .cons hheight (Function.update_self h (stack k) slots).symm (hrest.congr (fun _ _ => rfl)
    (fun _ _ => rfl) ?_)
  intro i hi
  have hle := le_of_mem_waiting hi
  exact Function.update_of_ne (by omega) _ _

end Holds

end Merkle

end BitcoinPqc
