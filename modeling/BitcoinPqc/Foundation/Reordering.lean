import BitcoinPqc.Foundation.Traced
import Mathlib.Data.List.Perm.Basic
import Mathlib.Data.Multiset.Bind

/-!
# Loops run in another order

Two nested loops whose order is exchanged make the same list of rounds up to a permutation.
Hence a fold over the rounds is the same when any two of them commute, and a computation
that records an event in each of them records the same events in another order, which is
what `Traced.Shuffled` says.
-/

namespace BitcoinPqc

section Loops

variable {α β γ : Type*}

theorem flatMap_map_comm (l : List α) (m : List β) (f : α → β → γ) :
    (l.flatMap fun a => m.map (f a)).Perm (m.flatMap fun b => l.map fun a => f a b) := by
  rw [← Multiset.coe_eq_coe, ← Multiset.coe_bind, ← Multiset.coe_bind]
  exact Multiset.bind_map_comm (l : Multiset α) (m : Multiset β)

/-- A loop whose rounds run a prologue and an inner loop, and the loop of the prologues
followed by the loops exchanged. -/
theorem flatMap_cons_map_perm (l : List α) (m : List β) (g : α → γ) (f : α → β → γ) :
    (l.map g ++ m.flatMap fun b => l.map fun a => f a b).Perm
      (l.flatMap fun a => g a :: m.map (f a)) :=
  ((flatMap_map_comm l m f).symm.append_left _).trans (List.map_append_flatMap_perm l g _)

end Loops

namespace Traced

variable {ε α β α' β' : Type} {R : α → β → Prop}

/-- The same events up to their order, and related values. -/
def Shuffled (R : α → β → Prop) (x : Traced ε α) (y : Traced ε β) : Prop :=
  x.log.Perm y.log ∧ R x.val y.val

namespace Shuffled

theorem pure {a : α} {b : β} (h : R a b) : Shuffled R (pure a : Traced ε α) (pure b) :=
  ⟨.refl _, h⟩

theorem refl {R : α → α → Prop} (hR : ∀ a, R a a) (x : Traced ε α) : Shuffled R x x :=
  ⟨.refl _, hR _⟩

theorem bind {S : α' → β' → Prop} {x : Traced ε α} {y : Traced ε β} (h : Shuffled R x y)
    {f : α → Traced ε α'} {g : β → Traced ε β'}
    (hfg : ∀ a b, R a b → Shuffled S (f a) (g b)) : Shuffled S (x >>= f) (y >>= g) := by
  obtain ⟨hlog, hval⟩ := hfg _ _ h.2
  refine ⟨?_, hval⟩
  rw [log_bind, log_bind]
  exact h.1.append hlog

theorem of_left {S : α → β' → Prop} {T : β → β' → Prop} {x : Traced ε α} {y : Traced ε β}
    {z : Traced ε β'} (hy : Shuffled R x y) (hz : Shuffled S x z)
    (h : ∀ a b c, R a b → S a c → T b c) : Shuffled T y z :=
  ⟨hy.1.symm.trans hz.1, h _ _ _ hy.2 hz.2⟩

end Shuffled

end Traced

end BitcoinPqc
