import Mathlib.Tactic.Common
import Mathlib.Data.Nat.Notation

/-!
# Indexed chains

`chain f start steps x` applies `f start`, `f (start + 1)`, … in order, `steps`
times. Chains compose, and two chains over the same indices with equal ends
either start at the same value or meet at an explicit step, where two different
inputs of one `f i` have the same output.
-/

namespace BitcoinPqc

variable {α : Type*}

/-- The value reached from `x` after `steps` steps numbered from `start`. -/
def chain (f : ℕ → α → α) (start : ℕ) : ℕ → α → α
  | 0, x => x
  | steps + 1, x => f (start + steps) (chain f start steps x)

@[simp] theorem chain_zero (f : ℕ → α → α) (start : ℕ) (x : α) :
    chain f start 0 x = x := rfl

theorem chain_succ (f : ℕ → α → α) (start steps : ℕ) (x : α) :
    chain f start (steps + 1) x = f (start + steps) (chain f start steps x) :=
  rfl

theorem chain_add (f : ℕ → α → α) (start a b : ℕ) (x : α) :
    chain f start (a + b) x = chain f (start + a) b (chain f start a x) := by
  induction b with
  | zero => rfl
  | succ b ih =>
      rw [← Nat.add_assoc, chain_succ, ih, chain_succ, Nat.add_assoc]

/-- Two chains with equal ends start at the same value, or some step sends two
different values to the same one. -/
theorem eq_or_collision_of_chain_eq (f : ℕ → α → α) (start steps : ℕ) (x y : α)
    (h : chain f start steps x = chain f start steps y) :
    x = y ∨ ∃ i < steps, chain f start i x ≠ chain f start i y ∧
      chain f start (i + 1) x = chain f start (i + 1) y := by
  induction steps with
  | zero => exact Or.inl h
  | succ steps ih =>
      by_cases heq : chain f start steps x = chain f start steps y
      · rcases ih heq with hxy | ⟨i, hi, hne, hout⟩
        · exact Or.inl hxy
        · exact Or.inr ⟨i, by omega, hne, hout⟩
      · exact Or.inr ⟨steps, by omega, heq, h⟩

end BitcoinPqc
