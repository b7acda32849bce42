import Mathlib.Tactic.Common
import Mathlib.Data.Nat.Init
import Mathlib.Order.Nat

/-!
# First hit of a bounded search

`firstUpTo p bound` is the least index not above the inclusive bound at which
`p` holds. A larger bound never selects a different index, so two searches for
the same predicate that both succeed agree whatever their bounds.
-/

namespace BitcoinPqc

variable (p : ℕ → Prop) [DecidablePred p]

/-- Search from index `c`, with `n` more indices permitted after `c`. -/
def firstFrom : ℕ → ℕ → Option ℕ
  | 0, c => if p c then some c else none
  | n + 1, c => if p c then some c else firstFrom n (c + 1)

/-- The least index up to `bound` at which `p` holds. -/
def firstUpTo (bound : ℕ) : Option ℕ := firstFrom p bound 0

theorem firstFrom_eq_some_iff (n c d : ℕ) :
    firstFrom p n c = some d ↔
      p d ∧ c ≤ d ∧ d ≤ c + n ∧ ∀ e, c ≤ e → e < d → ¬ p e := by
  induction n generalizing c with
  | zero =>
      by_cases hc : p c
      · simp only [firstFrom, if_pos hc, Option.some.injEq]
        constructor
        · rintro rfl
          exact ⟨hc, le_rfl, le_rfl, fun e _ _ => by omega⟩
        · rintro ⟨_, _, _, _⟩
          omega
      · simp only [firstFrom, if_neg hc, reduceCtorEq, false_iff]
        rintro ⟨hd, _, _, _⟩
        exact hc (by rwa [show c = d by omega])
  | succ n ih =>
      by_cases hc : p c
      · simp only [firstFrom, if_pos hc, Option.some.injEq]
        constructor
        · rintro rfl
          exact ⟨hc, le_rfl, by omega, fun e _ _ => by omega⟩
        · rintro ⟨_, hle, _, hmin⟩
          by_contra hne
          exact hmin c le_rfl (by omega) hc
      · simp only [firstFrom, if_neg hc, ih]
        constructor
        · rintro ⟨hd, hle, hub, hmin⟩
          refine ⟨hd, by omega, by omega, ?_⟩
          intro e he hed
          rcases Nat.eq_or_lt_of_le he with rfl | hlt
          · exact hc
          · exact hmin e hlt hed
        · rintro ⟨hd, hle, hub, hmin⟩
          have hne : c ≠ d := by
            rintro rfl
            exact hc hd
          exact ⟨hd, by omega, by omega, fun e he hed => hmin e (by omega) hed⟩

theorem firstFrom_eq_none_iff (n c : ℕ) :
    firstFrom p n c = none ↔ ∀ e, c ≤ e → e ≤ c + n → ¬ p e := by
  induction n generalizing c with
  | zero =>
      by_cases hc : p c
      · simp only [firstFrom, if_pos hc, reduceCtorEq, false_iff]
        intro h
        exact h c le_rfl le_rfl hc
      · simp only [firstFrom, if_neg hc, true_iff]
        intro e he heub
        rwa [show e = c by omega]
  | succ n ih =>
      by_cases hc : p c
      · simp only [firstFrom, if_pos hc, reduceCtorEq, false_iff]
        intro h
        exact h c le_rfl (by omega) hc
      · simp only [firstFrom, if_neg hc, ih]
        constructor
        · intro h e he heub
          rcases Nat.eq_or_lt_of_le he with rfl | hlt
          · exact hc
          · exact h e hlt (by omega)
        · intro h e he heub
          exact h e (by omega) (by omega)

theorem firstUpTo_eq_some_iff (bound d : ℕ) :
    firstUpTo p bound = some d ↔ p d ∧ d ≤ bound ∧ ∀ e < d, ¬ p e := by
  rw [firstUpTo, firstFrom_eq_some_iff]
  constructor
  · rintro ⟨hd, _, hub, hmin⟩
    exact ⟨hd, by omega, fun e he => hmin e (by omega) he⟩
  · rintro ⟨hd, hub, hmin⟩
    exact ⟨hd, by omega, by omega, fun e _ he => hmin e he⟩

theorem firstUpTo_eq_none_iff (bound : ℕ) :
    firstUpTo p bound = none ↔ ∀ e ≤ bound, ¬ p e := by
  rw [firstUpTo, firstFrom_eq_none_iff]
  constructor
  · intro h e he
    exact h e (by omega) (by omega)
  · intro h e _ he
    exact h e (by omega)

/-- A larger bound keeps the hit of a smaller one. -/
theorem firstUpTo_mono {bound bound' d : ℕ} (hle : bound ≤ bound')
    (h : firstUpTo p bound = some d) : firstUpTo p bound' = some d := by
  rw [firstUpTo_eq_some_iff] at h ⊢
  exact ⟨h.1, h.2.1.trans hle, h.2.2⟩

theorem firstUpTo_unique {bound bound' d d' : ℕ}
    (h : firstUpTo p bound = some d) (h' : firstUpTo p bound' = some d') :
    d = d' := by
  rcases Nat.le_total bound bound' with hle | hle
  · have hd := firstUpTo_mono p hle h
    rw [h'] at hd
    exact (Option.some.inj hd).symm
  · have hd := firstUpTo_mono p hle h'
    rw [h] at hd
    exact Option.some.inj hd

end BitcoinPqc
