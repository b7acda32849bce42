import Mathlib.Data.List.Basic

/-!
# Results that depend on answers

`Asks α` is a computation that asks questions with the answers yes and no, and goes on with
what it is told. `Asks.Runs` says which answers it was given and what it came to. Two runs of
the same computation whose answers do not contradict each other are the same run.
-/

namespace BitcoinPqc

/-- Two lists of answers that do not contradict each other. -/
def AnsweredAlike (l l' : List Bool) : Prop :=
  ∀ (k : ℕ) (b b' : Bool), l[k]? = some b → l'[k]? = some b' → b = b'

@[simp] theorem answeredAlike_cons (b b' : Bool) (l l' : List Bool) :
    AnsweredAlike (b :: l) (b' :: l') ↔ b = b' ∧ AnsweredAlike l l' := by
  constructor
  · intro h
    exact ⟨h 0 b b' rfl rfl, fun k c c' hc hc' => h (k + 1) c c' hc hc'⟩
  · rintro ⟨rfl, h⟩ k c c' hc hc'
    cases k with
    | zero => exact Option.some.inj (hc.symm.trans hc')
    | succ k => exact h k c c' hc hc'

/-- A result, or a question and what follows each answer. -/
inductive Asks (α : Type*) where
  | done (a : α)
  | ask (next : Bool → Asks α)

namespace Asks

variable {α β : Type*}

/-- With these answers the computation comes to this result. -/
inductive Runs : Asks α → List Bool → α → Prop
  | done (a : α) : Runs (done a) [] a
  | ask {next : Bool → Asks α} {b : Bool} {l : List Bool} {a : α} (h : Runs (next b) l a) :
      Runs (ask next) (b :: l) a

/-- Go on with a function of the result. -/
def map (f : α → β) : Asks α → Asks β
  | done a => done (f a)
  | ask next => ask fun b => (next b).map f

theorem Runs.map {x : Asks α} {l : List Bool} {a : α} (h : x.Runs l a) (f : α → β) :
    (x.map f).Runs l (f a) := by
  induction h with
  | done a => exact Runs.done (f a)
  | ask _ ih => exact Runs.ask ih

/-- Answers that do not contradict each other lead along the same branch to its end. -/
theorem Runs.unique {x : Asks α} {l l' : List Bool} {a a' : α} (h : x.Runs l a)
    (h' : x.Runs l' a') (hl : AnsweredAlike l l') : l = l' ∧ a = a' := by
  induction h generalizing l' with
  | done a =>
      cases h' with
      | done => exact ⟨rfl, rfl⟩
  | ask _ ih =>
      cases h' with
      | ask h' =>
          obtain ⟨rfl, htail⟩ := (answeredAlike_cons _ _ _ _).mp hl
          obtain ⟨rfl, rfl⟩ := ih h' htail
          exact ⟨rfl, rfl⟩

end Asks

end BitcoinPqc
