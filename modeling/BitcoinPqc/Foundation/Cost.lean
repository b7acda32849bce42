import BitcoinPqc.Foundation.Traced
import Mathlib.Algebra.BigOperators.Group.Finset.Basic
import Mathlib.Algebra.Order.Group.Multiset

/-!
# The cost of a computation

Every event of a computation has a kind, and the cost of the computation is the multiset
of the kinds of its events. Costs add up along a sequence, so the cost of a loop whose
rounds have known costs is their sum, whatever the rounds compute.

A loop that may leave early costs what the rounds cost that it reaches.
-/

namespace BitcoinPqc

namespace Traced

variable {ε κ α β σ δ : Type} (kind : ε → κ)

/-- The kinds of the events of `x`. -/
def cost (x : Traced ε α) : Multiset κ :=
  x.log.map kind

@[simp] theorem cost_pure (a : α) : cost kind (pure a : Traced ε α) = 0 := rfl

@[simp] theorem cost_ask (e : ε) (a : α) : cost kind (ask e a) = {kind e} := rfl

@[simp] theorem cost_bind (x : Traced ε α) (f : α → Traced ε β) :
    cost kind (x >>= f) = cost kind x + cost kind (f x.val) := by
  simp [cost]

@[simp] theorem cost_map (g : α → β) (x : Traced ε α) : cost kind (g <$> x) = cost kind x := by
  rw [cost, log_map, cost]

/-- A loop costs what its rounds cost, when no round's cost depends on the variables. -/
theorem cost_forRange {n : ℕ} {body : ℕ → σ → Traced ε σ} {c : ℕ → Multiset κ}
    (h : ∀ i < n, ∀ t, cost kind (body i t) = c i) (s : σ) :
    cost kind (forRange n body s) = ∑ i ∈ Finset.range n, c i := by
  induction n with
  | zero => rfl
  | succ n ih =>
      rw [forRange_succ, cost_bind, ih fun i hi => h i (by omega), h n (by omega),
        Finset.sum_range_succ]

theorem cost_forRange_const {n : ℕ} {body : ℕ → σ → Traced ε σ} {c : Multiset κ}
    (h : ∀ i < n, ∀ t, cost kind (body i t) = c) (s : σ) :
    cost kind (forRange n body s) = n • c := by
  rw [cost_forRange kind h, Finset.sum_const, Finset.card_range]

theorem cost_forRangeExcept_succ_of_error {n : ℕ} {body : ℕ → σ → Traced ε (Except δ σ)}
    {s : σ} {d : δ} (h : (forRangeExcept n body s).val = .error d) :
    cost kind (forRangeExcept (n + 1) body s) = cost kind (forRangeExcept n body s) := by
  rw [forRangeExcept, cost_bind, h]
  exact add_zero _

/-- A round that is reached adds its cost. -/
theorem cost_forRangeExcept_succ_of_ok {n : ℕ} {body : ℕ → σ → Traced ε (Except δ σ)}
    {s t : σ} (h : (forRangeExcept n body s).val = .ok t) :
    cost kind (forRangeExcept (n + 1) body s) =
      cost kind (forRangeExcept n body s) + cost kind (body n t) := by
  rw [forRangeExcept, cost_bind, h]

end Traced

end BitcoinPqc
