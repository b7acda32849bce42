import Mathlib.Algebra.BigOperators.Fin
import Mathlib.Algebra.Order.BigOperators.Group.Finset
import Mathlib.Order.Antichain

/-!
# Words of a fixed digit sum

Two words with the same digit sum are equal or incomparable in the componentwise order:
where one is not below the other there is a position at which it is larger, and the sums
force a position at which it is smaller.
-/

namespace BitcoinPqc

variable {ι M : Type*} [LinearOrder M]

theorem exists_lt_of_not_le {a b : ι → M} (h : ¬ a ≤ b) : ∃ i, b i < a i := by
  simpa only [Pi.le_def, not_forall, not_le] using h

variable [Fintype ι] [AddCommMonoid M] [IsOrderedCancelAddMonoid M]

/-- A word below a word of the same sum is that word. -/
theorem eq_of_le_of_digitSum_eq {a b : ι → M} (hle : a ≤ b) (hsum : ∑ i, a i = ∑ i, b i) :
    a = b := by
  funext i
  exact (Finset.sum_eq_sum_iff_of_le fun j _ => hle j).mp hsum i (Finset.mem_univ i)

theorem isAntichain_sum_eq (s : M) : IsAntichain (· ≤ ·) {a : ι → M | ∑ i, a i = s} := by
  intro a ha b hb hne hle
  apply hne
  exact eq_of_le_of_digitSum_eq hle (ha.trans (Eq.symm hb))

theorem eq_or_incomparable_of_sum_eq {a b : ι → M} (hsum : ∑ i, a i = ∑ i, b i) :
    a = b ∨ ∃ i j, a i < b i ∧ b j < a j := by
  by_cases hne : a = b
  · exact Or.inl hne
  · have hanti := (isAntichain_sum_eq (∑ i, b i) : IsAntichain (· ≤ ·) {a : ι → M | _})
    obtain ⟨j, hj⟩ := exists_lt_of_not_le (hanti hsum rfl hne)
    obtain ⟨i, hi⟩ := exists_lt_of_not_le (hanti rfl hsum (Ne.symm hne))
    exact Or.inr ⟨i, j, hi, hj⟩

end BitcoinPqc
