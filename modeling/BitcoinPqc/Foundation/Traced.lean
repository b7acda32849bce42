import Mathlib.Tactic.Common
import Mathlib.Data.Nat.Notation

/-!
# Computations that record their oracle queries

`Traced ε α` is a value together with the list of events recorded while it was
computed, oldest first. A program written in this monad has a value, read with
`val`, that does not depend on the recording, and a log, read with `log`, about
which trace properties are stated.

`Sat P Q x` says that every event of `x` satisfies `P` and its value satisfies
`Q`. It is closed under sequencing, and a counted loop keeps an invariant that
its body keeps, so the value and the log of a program are treated in one
induction. `Same R x y` compares two programs. `Traced.forRange` is the counted
loop and `Traced.forRangeExcept` is the counted loop whose body may leave early.
-/

namespace BitcoinPqc

/-- A value and the events recorded while it was computed. -/
@[ext] structure Traced (ε : Type) (α : Type) where
  val : α
  log : List ε

namespace Traced

variable {ε α β σ δ : Type}

instance : Monad (Traced ε) where
  pure a := ⟨a, []⟩
  bind x f := ⟨(f x.val).val, x.log ++ (f x.val).log⟩

@[simp] theorem val_pure (a : α) : (pure a : Traced ε α).val = a := rfl

@[simp] theorem log_pure (a : α) : (pure a : Traced ε α).log = [] := rfl

@[simp] theorem val_bind (x : Traced ε α) (f : α → Traced ε β) :
    (x >>= f).val = (f x.val).val := (rfl)

@[simp] theorem log_bind (x : Traced ε α) (f : α → Traced ε β) :
    (x >>= f).log = x.log ++ (f x.val).log := (rfl)

@[simp] theorem log_map (g : α → β) (x : Traced ε α) :
    (g <$> x).log = x.log := by
  change x.log ++ [] = x.log
  rw [List.append_nil]

instance : LawfulMonad (Traced ε) :=
  LawfulMonad.mk' (Traced ε)
    (fun _ => Traced.ext rfl (by simp))
    (fun _ _ => Traced.ext rfl (by simp))
    (fun _ _ _ => Traced.ext rfl (by simp [List.append_assoc]))

/-- Record one event and answer with `a`. -/
def ask (e : ε) (a : α) : Traced ε α := ⟨a, [e]⟩

@[simp] theorem val_ask (e : ε) (a : α) : (ask e a).val = a := rfl

@[simp] theorem log_ask (e : ε) (a : α) : (ask e a).log = [e] := rfl

/-- Every event of `x` satisfies `P` and its value satisfies `Q`. -/
def Sat (P : ε → Prop) (Q : α → Prop) (x : Traced ε α) : Prop :=
  (∀ e ∈ x.log, P e) ∧ Q x.val

namespace Sat

variable {P : ε → Prop}

theorem pure {Q : α → Prop} {a : α} (h : Q a) : Sat P Q (pure a) :=
  ⟨by simp, h⟩

theorem ask {Q : α → Prop} {e : ε} {a : α} (he : P e) (h : Q a) :
    Sat P Q (ask e a) :=
  ⟨by simpa using he, h⟩

/-- A single query whose answer is known. -/
theorem single {x : Traced ε α} {a : α} {e : ε} (h : x = ⟨a, [e]⟩) (he : P e) :
    Sat P (fun b => b = a) x := by
  subst h
  exact ⟨by simpa using he, rfl⟩

theorem bind {R : α → Prop} {Q : β → Prop} {x : Traced ε α}
    {f : α → Traced ε β} (hx : Sat P R x) (hf : ∀ a, R a → Sat P Q (f a)) :
    Sat P Q (x >>= f) := by
  obtain ⟨hxlog, hxval⟩ := hx
  obtain ⟨hflog, hfval⟩ := hf x.val hxval
  refine ⟨?_, hfval⟩
  intro e he
  rw [log_bind, List.mem_append] at he
  rcases he with he | he
  · exact hxlog e he
  · exact hflog e he

theorem mono {Q R : α → Prop} {x : Traced ε α} (hx : Sat P R x)
    (h : ∀ a, R a → Q a) : Sat P Q x :=
  ⟨hx.1, h _ hx.2⟩

end Sat

/-!
## Counted loops

`forRange n body s` runs the body for `i = 0, …, n - 1`. The recursion peels off
the last round, so the state before round `l` is the state of the loop run for
`l` rounds.
-/

/-- `for (i = 0; i < n; i++) s = body(i, s)`. -/
def forRange : (n : ℕ) → (ℕ → σ → Traced ε σ) → σ → Traced ε σ
  | 0, _, s => pure s
  | n + 1, body, s => forRange n body s >>= body n

@[simp] theorem forRange_zero (body : ℕ → σ → Traced ε σ) (s : σ) :
    forRange 0 body s = pure s := rfl

theorem forRange_succ (n : ℕ) (body : ℕ → σ → Traced ε σ) (s : σ) :
    forRange (n + 1) body s = forRange n body s >>= body n := rfl

theorem val_forRange (n : ℕ) (body : ℕ → σ → Traced ε σ) (s : σ) :
    (forRange n body s).val = (List.range n).foldl (fun t i => (body i t).val) s := by
  induction n with
  | zero => rfl
  | succ n ih =>
      rw [forRange_succ, val_bind, ih, List.range_succ, List.foldl_append, List.foldl_cons,
        List.foldl_nil]

/-- A loop keeps the invariant its body keeps. -/
theorem Sat.forRange {P : ε → Prop} {body : ℕ → σ → Traced ε σ} {s : σ}
    (n : ℕ) (I : ℕ → σ → Prop) (h0 : I 0 s)
    (hstep : ∀ i < n, ∀ t, I i t → Sat P (I (i + 1)) (body i t)) :
    Sat P (I n) (forRange n body s) := by
  induction n with
  | zero => exact Sat.pure h0
  | succ n ih =>
      have hprev := ih fun i hi => hstep i (by omega)
      exact hprev.bind (hstep n (by omega))

theorem mem_log_forRange {n i : ℕ} (hi : i < n) {body : ℕ → σ → Traced ε σ} {s : σ}
    {e : ε} (he : e ∈ (body i (forRange i body s).val).log) :
    e ∈ (forRange n body s).log := by
  induction n with
  | zero => omega
  | succ n ih =>
      rw [forRange_succ, log_bind, List.mem_append]
      rcases Nat.lt_succ_iff_lt_or_eq.mp hi with hlt | rfl
      · exact Or.inl (ih hlt)
      · exact Or.inr he

/-- `forRange` whose body may leave the loop with `.error d`. -/
def forRangeExcept :
    (n : ℕ) → (ℕ → σ → Traced ε (Except δ σ)) → σ → Traced ε (Except δ σ)
  | 0, _, s => pure (.ok s)
  | n + 1, body, s => do
      match ← forRangeExcept n body s with
      | .error d => pure (.error d)
      | .ok t => body n t

@[simp] theorem forRangeExcept_zero (body : ℕ → σ → Traced ε (Except δ σ))
    (s : σ) : forRangeExcept 0 body s = pure (.ok s) := rfl

/-- A round is reached only when every earlier round went on. -/
theorem forRangeExcept_succ_eq_ok_iff (n : ℕ)
    (body : ℕ → σ → Traced ε (Except δ σ)) (s t : σ) :
    (forRangeExcept (n + 1) body s).val = .ok t ↔
      ∃ u, (forRangeExcept n body s).val = .ok u ∧ (body n u).val = .ok t := by
  rw [forRangeExcept, val_bind]
  cases h : (forRangeExcept n body s).val with
  | error d => simp
  | ok u => simp

theorem mem_log_forRangeExcept {n i : ℕ} (hi : i < n)
    {body : ℕ → σ → Traced ε (Except δ σ)} {s u : σ}
    (hu : (forRangeExcept i body s).val = .ok u) {e : ε} (he : e ∈ (body i u).log) :
    e ∈ (forRangeExcept n body s).log := by
  induction n with
  | zero => omega
  | succ n ih =>
      rw [forRangeExcept, log_bind, List.mem_append]
      rcases Nat.lt_succ_iff_lt_or_eq.mp hi with hlt | rfl
      · exact Or.inl (ih hlt)
      · rw [hu]
        exact Or.inr he

/-- One postcondition for an early exit and one for going on. -/
def ExceptPost (E : δ → Prop) (I : σ → Prop) : Except δ σ → Prop
  | .error d => E d
  | .ok u => I u

/-- A loop that may leave early keeps the invariant its body keeps, and every
early exit has the exit property its body gives. -/
theorem Sat.forRangeExcept {P : ε → Prop} {body : ℕ → σ → Traced ε (Except δ σ)}
    {s : σ} (n : ℕ) (I : ℕ → σ → Prop) (E : ℕ → δ → Prop) (h0 : I 0 s)
    (hstep : ∀ i < n, ∀ t, I i t → Sat P (ExceptPost (E i) (I (i + 1))) (body i t)) :
    Sat P (ExceptPost (fun d => ∃ i < n, E i d) (I n)) (forRangeExcept n body s) := by
  induction n with
  | zero => exact Sat.pure h0
  | succ n ih =>
      have hprev := ih fun i hi => hstep i (by omega)
      refine hprev.bind ?_
      intro r hr
      cases r with
      | error d =>
          obtain ⟨i, hi, hd⟩ := hr
          exact Sat.pure ⟨i, by omega, hd⟩
      | ok u =>
          refine (hstep n (by omega) u hr).mono ?_
          intro r' hr'
          cases r' with
          | error d => exact ⟨n, by omega, hr'⟩
          | ok t => exact hr'

/-!
## Two computations

`Same R x y` says that two computations record the same events and that their values are
related by `R`.
-/

/-- The same events, and related values. -/
def Same (R : α → β → Prop) (x : Traced ε α) (y : Traced ε β) : Prop :=
  x.log = y.log ∧ R x.val y.val

namespace Same

variable {α' β' : Type} {R : α → β → Prop}

theorem pure {a : α} {b : β} (h : R a b) : Same R (pure a : Traced ε α) (pure b) :=
  ⟨rfl, h⟩

theorem refl (x : Traced ε α) : Same Eq x x :=
  ⟨rfl, rfl⟩

theorem bind {S : α' → β' → Prop} {x : Traced ε α} {y : Traced ε β} (h : Same R x y)
    {f : α → Traced ε α'} {g : β → Traced ε β'}
    (hfg : ∀ a b, R a b → Same S (f a) (g b)) : Same S (x >>= f) (y >>= g) := by
  obtain ⟨hlog, hval⟩ := hfg _ _ h.2
  refine ⟨?_, hval⟩
  rw [log_bind, log_bind, h.1, hlog]

theorem eq {x y : Traced ε α} (h : Same Eq x y) : x = y :=
  Traced.ext h.2 h.1

end Same

end Traced

end BitcoinPqc
