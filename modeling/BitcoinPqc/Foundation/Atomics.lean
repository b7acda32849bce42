import Mathlib.Data.Set.Insert
import Mathlib.Logic.Function.Basic
import Mathlib.Logic.Relation
import Mathlib.Tactic.Common

/-!
# Calls that share atomic variables

A call is a program of single loads and stores of shared variables and of questions to the
environment. Any number of threads run calls side by side. A load may return any value that
was ever stored to its variable, so no order between the accesses of different threads, nor
of one thread, is assumed.

What holds of every value that is stored to a variable can be relied on by every load. This
is `Prog.Holds`, which is proved for one call at a time. What is proved for each call then
holds of all of them in every interleaving.
-/

namespace BitcoinPqc

variable {L A : Type} {V : L → Type} {R : A → Type} {α β : Type}

/-- A program over the shared variables `L` with values `V`, which may ask the questions `A`
with answers `R`. -/
inductive Prog (V : L → Type) (R : A → Type) (α : Type) : Type
  | ret (a : α)
  | load (l : L) (next : V l → Prog V R α)
  | store (l : L) (v : V l) (next : Prog V R α)
  | ask (q : A) (next : R q → Prog V R α)

namespace Prog

/-- One program after the other. -/
def bind : Prog V R α → (α → Prog V R β) → Prog V R β
  | ret a, f => f a
  | load l next, f => load l fun v => (next v).bind f
  | store l v next, f => store l v (next.bind f)
  | ask q next, f => ask q fun r => (next r).bind f

instance : Monad (Prog V R) where
  pure := ret
  bind := bind

/-- Load a variable. -/
def read (l : L) : Prog V R (V l) := load l ret

/-- Store to a variable. -/
def write (l : L) (v : V l) : Prog V R Unit := store l v (ret ())

/-- Ask the environment. -/
def query (q : A) : Prog V R (R q) := ask q ret

/-- The value that variable `l` caches. Where it is not set yet it is computed and stored. -/
def cached (l : L) (isUnset : V l → Bool) (compute : Prog V R (V l)) : Prog V R (V l) := do
  let value ← read l
  if isUnset value then do
    let value ← compute
    write l value
    pure value
  else pure value

/-!
## What holds of a program

The loads return values with `I`, the answers have `J`. The program stores only values with
`I`, and what it returns has `Q`.
-/

/-- Loads and answers with `I` and `J` lead to stores with `I` and a result with `Q`. -/
def Holds (I : ∀ l, V l → Prop) (J : ∀ q, R q → Prop) (Q : α → Prop) : Prog V R α → Prop
  | ret a => Q a
  | load l next => ∀ v, I l v → (next v).Holds I J Q
  | store l v next => I l v ∧ next.Holds I J Q
  | ask q next => ∀ r, J q r → (next r).Holds I J Q

section Holds

variable {I : ∀ l, V l → Prop} {J : ∀ q, R q → Prop} {Q : α → Prop}

@[simp] theorem holds_pure {a : α} : (pure a : Prog V R α).Holds I J Q ↔ Q a := Iff.rfl

theorem holds_bind {p : Prog V R α} {f : α → Prog V R β} {Q : β → Prop} :
    (p >>= f).Holds I J Q ↔ p.Holds I J fun a => (f a).Holds I J Q := by
  induction p with
  | ret a => exact Iff.rfl
  | load l next ih => exact forall_congr' fun v => imp_congr_right fun _ => ih v
  | store l v next ih => exact and_congr_right fun _ => ih
  | ask q next ih => exact forall_congr' fun r => imp_congr_right fun _ => ih r

@[simp] theorem holds_read {l : L} {Q : V l → Prop} :
    (read l : Prog V R (V l)).Holds I J Q ↔ ∀ v, I l v → Q v := Iff.rfl

@[simp] theorem holds_write {l : L} {v : V l} {Q : Unit → Prop} :
    (write l v : Prog V R Unit).Holds I J Q ↔ I l v ∧ Q () := Iff.rfl

@[simp] theorem holds_query {q : A} {Q : R q → Prop} :
    (query q : Prog V R (R q)).Holds I J Q ↔ ∀ r, J q r → Q r := Iff.rfl

theorem Holds.mono {p : Prog V R α} {Q' : α → Prop} (h : p.Holds I J Q)
    (hQ : ∀ a, Q a → Q' a) : p.Holds I J Q' := by
  induction p with
  | ret a => exact hQ a h
  | load l next ih => exact fun v hv => ih v (h v hv)
  | store l v next ih => exact ⟨h.1, ih h.2⟩
  | ask q next ih => exact fun r hr => ih r (h r hr)

theorem holds_cached {l : L} {isUnset : V l → Bool} {compute : Prog V R (V l)}
    {Q : V l → Prop} (hset : ∀ v, I l v → isUnset v = false → Q v)
    (hcompute : compute.Holds I J fun v => I l v ∧ Q v) :
    (cached l isUnset compute).Holds I J Q := by
  rw [cached, holds_bind, holds_read]
  intro v hv
  cases hunset : isUnset v with
  | false => exact hset v hv hunset
  | true =>
      simp only [if_true, holds_bind]
      exact hcompute

end Holds

/-!
## How long a program runs
-/

/-- Every path through the program has at most `n` actions. -/
def Within : ℕ → Prog V R α → Prop
  | _, ret _ => True
  | n, load _ next => 0 < n ∧ ∀ v, (next v).Within (n - 1)
  | n, store _ _ next => 0 < n ∧ next.Within (n - 1)
  | n, ask _ next => 0 < n ∧ ∀ r, (next r).Within (n - 1)

section Within

variable {m n : ℕ}

theorem within_pure (a : α) : (pure a : Prog V R α).Within n := trivial

theorem within_read (l : L) : (read l : Prog V R (V l)).Within 1 :=
  ⟨Nat.one_pos, fun _ => trivial⟩

theorem within_write (l : L) (v : V l) : (write l v : Prog V R Unit).Within 1 :=
  ⟨Nat.one_pos, trivial⟩

theorem within_query (q : A) : (query q : Prog V R (R q)).Within 1 :=
  ⟨Nat.one_pos, fun _ => trivial⟩

theorem Within.mono {p : Prog V R α} (h : p.Within m) (hmn : m ≤ n) : p.Within n := by
  induction p generalizing m n with
  | ret a => trivial
  | load l next ih =>
      exact ⟨h.1.trans_le hmn, fun v => ih v (h.2 v) (Nat.sub_le_sub_right hmn 1)⟩
  | store l v next ih =>
      exact ⟨h.1.trans_le hmn, ih h.2 (Nat.sub_le_sub_right hmn 1)⟩
  | ask q next ih =>
      exact ⟨h.1.trans_le hmn, fun r => ih r (h.2 r) (Nat.sub_le_sub_right hmn 1)⟩

theorem Within.bind {p : Prog V R α} {f : α → Prog V R β} (hp : p.Within m)
    (hf : ∀ a, (f a).Within n) : (p >>= f).Within (m + n) := by
  induction p generalizing m with
  | ret a => exact (hf a).mono (Nat.le_add_left n m)
  | load l next ih =>
      refine ⟨Nat.add_pos_left hp.1 n, fun v => ?_⟩
      rw [Nat.sub_add_comm hp.1]
      exact ih v (hp.2 v)
  | store l v next ih =>
      refine ⟨Nat.add_pos_left hp.1 n, ?_⟩
      rw [Nat.sub_add_comm hp.1]
      exact ih hp.2
  | ask q next ih =>
      refine ⟨Nat.add_pos_left hp.1 n, fun r => ?_⟩
      rw [Nat.sub_add_comm hp.1]
      exact ih r (hp.2 r)

/-- A cache costs a load, and a store when it computes. -/
theorem Within.cached {l : L} {isUnset : V l → Bool} {compute : Prog V R (V l)}
    (h : compute.Within n) : (cached l isUnset compute).Within (n + 2) := by
  have hstore : (compute >>= fun v => write l v >>= fun _ => pure v).Within (n + 1) :=
    h.bind fun v => (within_write l v).bind fun _ => within_pure (n := 0) v
  have hload := (within_read (V := V) (R := R) l).bind (n := n + 1) fun v =>
    show Within _ (if isUnset v then compute >>= fun v => write l v >>= fun _ => pure v
      else pure v) by
    split
    · exact hstore
    · exact within_pure v
  exact hload.mono (by omega)

end Within

/-!
## A program on its own
-/

/-- What the program returns when every load returns the value in `init` and every question
has the answer in `answer`. -/
def eval (init : ∀ l, V l) (answer : ∀ q, R q) : Prog V R α → α
  | ret a => a
  | load l next => (next (init l)).eval init answer
  | store _ _ next => next.eval init answer
  | ask q next => (next (answer q)).eval init answer

section Eval

variable {init : ∀ l, V l} {answer : ∀ q, R q}

@[simp] theorem eval_pure (a : α) : (pure a : Prog V R α).eval init answer = a := rfl

@[simp] theorem eval_bind (p : Prog V R α) (f : α → Prog V R β) :
    (p >>= f).eval init answer = (f (p.eval init answer)).eval init answer := by
  induction p with
  | ret a => rfl
  | load l next ih => exact ih (init l)
  | store l v next ih => exact ih
  | ask q next ih => exact ih (answer q)

@[simp] theorem eval_read (l : L) :
    (read l : Prog V R (V l)).eval init answer = init l := rfl

@[simp] theorem eval_write (l : L) (v : V l) :
    (write l v : Prog V R Unit).eval init answer = () := rfl

@[simp] theorem eval_query (q : A) :
    (query q : Prog V R (R q)).eval init answer = answer q := rfl

theorem eval_cached {l : L} {isUnset : V l → Bool} (h : isUnset (init l))
    (compute : Prog V R (V l)) :
    (cached l isUnset compute).eval init answer = compute.eval init answer := by
  simp [cached, h]

end Eval

/-- The program returns what it returns on its own, whatever other threads have stored, when
each variable only ever holds its first value or the one in `final`. -/
def Transparent (init final : ∀ l, V l) (J : ∀ q, R q → Prop) (answer : ∀ q, R q)
    (p : Prog V R α) : Prop :=
  p.Holds (fun l v => v = init l ∨ v = final l) J fun a => a = p.eval init answer

section Transparent

variable {init final : ∀ l, V l} {J : ∀ q, R q → Prop} {answer : ∀ q, R q}

theorem transparent_pure (a : α) :
    (pure a : Prog V R α).Transparent init final J answer := rfl

theorem transparent_query {q : A} (h : ∀ r, J q r → r = answer q) :
    (query q : Prog V R (R q)).Transparent init final J answer := h

theorem Transparent.bind {p : Prog V R α} {f : α → Prog V R β}
    (hp : p.Transparent init final J answer)
    (hf : (f (p.eval init answer)).Transparent init final J answer) :
    (p >>= f).Transparent init final J answer := by
  rw [Transparent, holds_bind, eval_bind]
  exact Holds.mono hp fun a ha => ha ▸ hf

/-- A cache is transparent when its final value is the one that it computes. -/
theorem Transparent.cached {l : L} {isUnset : V l → Bool} {compute : Prog V R (V l)}
    (hcompute : compute.Transparent init final J answer) (hinit : isUnset (init l))
    (hfinal : final l = compute.eval init answer) :
    (cached l isUnset compute).Transparent init final J answer := by
  rw [Transparent, eval_cached hinit]
  refine holds_cached ?_ (Holds.mono hcompute ?_)
  · rintro v (rfl | rfl) hset
    · rw [hinit] at hset
      cases hset
    · exact hfinal
  · intro v hv
    exact ⟨Or.inr (hv.trans hfinal.symm), hv⟩

end Transparent

end Prog

/-!
## Threads
-/

variable {T C : Type} {ρ : C → Type}

/-- A call under way: what is left of it and the number of actions it has taken. -/
structure Running (V : L → Type) (R : A → Type) (ρ : C → Type) where
  call : C
  rest : Prog V R (ρ call)
  taken : ℕ

/-- The values stored to each variable so far, the call each thread runs, and the calls
that have returned with their results. -/
structure Threads (T : Type) (V : L → Type) (R : A → Type) (ρ : C → Type) where
  written : ∀ l, Set (V l)
  running : T → Option (Running V R ρ)
  returned : List (T × Σ c, ρ c)

namespace Threads

variable [DecidableEq L] [DecidableEq T]

/-- Nothing has run yet. -/
def init (first : ∀ l, V l) : Threads T V R ρ :=
  ⟨fun l => {first l}, fun _ => none, []⟩

/-- Thread `t` after an action, with `rest` left of its call. -/
def proceed (s : Threads T V R ρ) (t : T) (c : C) (rest : Prog V R (ρ c)) (n : ℕ) :
    Threads T V R ρ :=
  { s with running := Function.update s.running t (some ⟨c, rest, n + 1⟩) }

/-- A step of one thread. `body` has the program of each call and `J` the answers that the
environment may give. -/
inductive Step (body : ∀ c, Prog V R (ρ c)) (J : ∀ q, R q → Prop) (s : Threads T V R ρ) :
    Threads T V R ρ → Prop
  | start (t : T) (c : C) (h : s.running t = none) :
      Step body J s { s with running := Function.update s.running t (some ⟨c, body c, 0⟩) }
  | load (t : T) (c : C) (n : ℕ) (l : L) (next : V l → Prog V R (ρ c)) (v : V l)
      (h : s.running t = some ⟨c, .load l next, n⟩) (hv : v ∈ s.written l) :
      Step body J s (s.proceed t c (next v) n)
  | store (t : T) (c : C) (n : ℕ) (l : L) (v : V l) (next : Prog V R (ρ c))
      (h : s.running t = some ⟨c, .store l v next, n⟩) :
      Step body J s
        { s.proceed t c next n with
          written := Function.update s.written l (insert v (s.written l)) }
  | ask (t : T) (c : C) (n : ℕ) (q : A) (next : R q → Prog V R (ρ c)) (r : R q)
      (h : s.running t = some ⟨c, .ask q next, n⟩) (hr : J q r) :
      Step body J s (s.proceed t c (next r) n)
  | finish (t : T) (c : C) (n : ℕ) (a : ρ c) (h : s.running t = some ⟨c, .ret a, n⟩) :
      Step body J s
        { s with
          running := Function.update s.running t none
          returned := (t, ⟨c, a⟩) :: s.returned }

/-- The states that the threads can reach. -/
def Reachable (first : ∀ l, V l) (body : ∀ c, Prog V R (ρ c)) (J : ∀ q, R q → Prop) :
    Threads T V R ρ → Prop :=
  Relation.ReflTransGen (Step body J) (init first)

/-- Every variable only ever holds values with `I`, every call under way keeps to what was
proved of it within its bound, and every result is as it should be. -/
structure Sound (I : ∀ l, V l → Prop) (J : ∀ q, R q → Prop) (Q : ∀ c, ρ c → Prop)
    (bound : C → ℕ) (s : Threads T V R ρ) : Prop where
  nonempty : ∀ l, (s.written l).Nonempty
  written : ∀ l, ∀ v ∈ s.written l, I l v
  running : ∀ t r, s.running t = some r →
    r.rest.Holds I J (Q r.call) ∧
      ∃ left, r.taken + left = bound r.call ∧ r.rest.Within left
  returned : ∀ e ∈ s.returned, Q e.2.1 e.2.2

section Sound

variable {first : ∀ l, V l} {body : ∀ c, Prog V R (ρ c)} {I : ∀ l, V l → Prop}
  {J : ∀ q, R q → Prop} {Q : ∀ c, ρ c → Prop} {bound : C → ℕ} {s s' : Threads T V R ρ}

omit [DecidableEq L] [DecidableEq T] in
theorem sound_init (hfirst : ∀ l, I l (first l)) :
    (init first : Threads T V R ρ).Sound I J Q bound where
  nonempty l := ⟨first l, rfl⟩
  written := by
    rintro l v rfl
    exact hfirst l
  running _ _ h := by cases h
  returned _ h := by cases h

omit [DecidableEq L] in
theorem forall_update {running : T → Option (Running V R ρ)} {P : Running V R ρ → Prop}
    (h : ∀ u r, running u = some r → P r) {t : T} {o : Option (Running V R ρ)}
    (ho : ∀ r, o = some r → P r) :
    ∀ u r, Function.update running t o u = some r → P r :=
  (Function.forall_update_iff running fun _ o => ∀ r, o = some r → P r).mpr
    ⟨ho, fun u _ => h u⟩

omit [DecidableEq L] in
theorem Sound.proceed (h : s.Sound I J Q bound) {t : T} {c : C} {n left : ℕ}
    {rest : Prog V R (ρ c)} (hholds : rest.Holds I J (Q c)) (hpos : 0 < left)
    (hleft : n + left = bound c) (hwithin : rest.Within (left - 1)) :
    (s.proceed t c rest n).Sound I J Q bound where
  nonempty := h.nonempty
  written := h.written
  running := forall_update h.running <| by
    rintro r ⟨⟩
    refine ⟨hholds, left - 1, ?_, hwithin⟩
    change n + 1 + (left - 1) = bound c
    omega
  returned := h.returned

omit [DecidableEq T] in
theorem Sound.write (h : s.Sound I J Q bound) {l : L} {v : V l} (hv : I l v) :
    Sound I J Q bound
      { s with written := Function.update s.written l (insert v (s.written l)) } where
  nonempty := (Function.forall_update_iff s.written fun _ ws => ws.Nonempty).mpr
    ⟨Set.insert_nonempty v _, fun k _ => h.nonempty k⟩
  written := (Function.forall_update_iff s.written fun k ws => ∀ w ∈ ws, I k w).mpr
    ⟨Set.forall_insert_of_forall (h.written l) hv, fun k _ => h.written k⟩
  running := h.running
  returned := h.returned

theorem Sound.step (hbody : ∀ c, (body c).Holds I J (Q c))
    (hbound : ∀ c, (body c).Within (bound c)) (h : s.Sound I J Q bound)
    (hstep : Step body J s s') : s'.Sound I J Q bound := by
  cases hstep with
  | start t c ht =>
      refine ⟨h.nonempty, h.written, forall_update h.running ?_, h.returned⟩
      rintro r ⟨⟩
      exact ⟨hbody c, bound c, Nat.zero_add _, hbound c⟩
  | load t c n l next v ht hv =>
      obtain ⟨hholds, left, hleft, hpos, hwithin⟩ := h.running t _ ht
      exact h.proceed (hholds v (h.written l v hv)) hpos hleft (hwithin v)
  | store t c n l v next ht =>
      obtain ⟨⟨hv, hholds⟩, left, hleft, hpos, hwithin⟩ := h.running t _ ht
      exact (h.proceed hholds hpos hleft hwithin).write hv
  | ask t c n q next r ht hr =>
      obtain ⟨hholds, left, hleft, hpos, hwithin⟩ := h.running t _ ht
      exact h.proceed (hholds r hr) hpos hleft (hwithin r)
  | finish t c n a ht =>
      have hQ : Q c a := (h.running t _ ht).1
      refine ⟨h.nonempty, h.written, forall_update h.running (by simp), ?_⟩
      intro e he
      rcases List.mem_cons.mp he with rfl | he
      · exact hQ
      · exact h.returned e he

/-- What is proved of one call at a time holds in every interleaving. -/
theorem Reachable.sound (hfirst : ∀ l, I l (first l)) (hbody : ∀ c, (body c).Holds I J (Q c))
    (hbound : ∀ c, (body c).Within (bound c)) (hs : Reachable first body J s) :
    s.Sound I J Q bound := by
  induction hs with
  | refl => exact sound_init hfirst
  | tail _ hstep ih => exact ih.step hbody hbound hstep

/-- No call waits for another thread: where the environment answers, it can take its next
step. -/
theorem Sound.exists_step (h : s.Sound I J Q bound) (hJ : ∀ q, ∃ r, J q r) {t : T}
    {r : Running V R ρ} (ht : s.running t = some r) :
    ∃ s', Step body J s s' ∧ s'.running t ≠ some r := by
  obtain ⟨c, rest, n⟩ := r
  have hne (rest' : Prog V R (ρ c)) : (s.proceed t c rest' n).running t ≠ some ⟨c, rest, n⟩ := by
    simp [Threads.proceed]
  cases rest with
  | ret a =>
      refine ⟨_, .finish t c n a ht, ?_⟩
      simp
  | load l next =>
      obtain ⟨v, hv⟩ := h.nonempty l
      exact ⟨_, .load t c n l next v ht hv, hne (next v)⟩
  | store l v next => exact ⟨_, .store t c n l v next ht, hne next⟩
  | ask q next =>
      obtain ⟨r, hr⟩ := hJ q
      exact ⟨_, .ask t c n q next r ht hr, hne (next r)⟩

end Sound

section Alone

variable {first : ∀ l, V l} {body : ∀ c, Prog V R (ρ c)} {J : ∀ q, R q → Prop}
  {answer : ∀ q, R q} {s : Threads T V R ρ}

/-- A call under way can always return what it returns on its own, while the others wait:
every load may still find the first value. -/
theorem exists_steps_eval (hanswer : ∀ q, J q (answer q)) {t : T} {c : C}
    (p : Prog V R (ρ c)) (n : ℕ) (hfirst : ∀ l, first l ∈ s.written l)
    (ht : s.running t = some ⟨c, p, n⟩) :
    ∃ s', Relation.ReflTransGen (Step body J) s s' ∧
      s'.returned = (t, ⟨c, p.eval first answer⟩) :: s.returned ∧
      (∀ l, first l ∈ s'.written l) ∧ ∀ u, u ≠ t → s'.running u = s.running u := by
  have hproceed (s : Threads T V R ρ) (rest : Prog V R (ρ c)) (n : ℕ) {u : T} (hu : u ≠ t) :
      (s.proceed t c rest n).running u = s.running u := Function.update_of_ne hu _ _
  induction p generalizing s n with
  | ret a =>
      exact ⟨_, .single (.finish t c n a ht), rfl, hfirst,
        fun u hu => Function.update_of_ne hu _ _⟩
  | load l next ih =>
      obtain ⟨s', hsteps, hreturned, hwritten, hothers⟩ := ih (first l)
        (s := s.proceed t c (next (first l)) n) (n + 1) hfirst (Function.update_self ..)
      exact ⟨s', .head (.load t c n l next (first l) ht (hfirst l)) hsteps, hreturned, hwritten,
        fun u hu => (hothers u hu).trans (hproceed s _ n hu)⟩
  | store l v next ih =>
      obtain ⟨s', hsteps, hreturned, hwritten, hothers⟩ := ih
        (s := { s.proceed t c next n with
          written := Function.update s.written l (insert v (s.written l)) }) (n + 1)
        ((Function.forall_update_iff s.written fun k ws => first k ∈ ws).mpr
          ⟨Set.mem_insert_of_mem v (hfirst l), fun k _ => hfirst k⟩) (Function.update_self ..)
      exact ⟨s', .head (.store t c n l v next ht) hsteps, hreturned, hwritten,
        fun u hu => (hothers u hu).trans (hproceed s _ n hu)⟩
  | ask q next ih =>
      obtain ⟨s', hsteps, hreturned, hwritten, hothers⟩ := ih (answer q)
        (s := s.proceed t c (next (answer q)) n) (n + 1) hfirst (Function.update_self ..)
      exact ⟨s', .head (.ask t c n q next (answer q) ht (hanswer q)) hsteps, hreturned,
        hwritten, fun u hu => (hothers u hu).trans (hproceed s _ n hu)⟩

theorem exists_reachable_returned (hanswer : ∀ q, J q (answer q)) {t u : T} (htu : t ≠ u)
    (c d : C) :
    ∃ s, Reachable first body J s ∧
      s.returned = [(u, ⟨d, (body d).eval first answer⟩),
        (t, ⟨c, (body c).eval first answer⟩)] := by
  let started : Threads T V R ρ :=
    { written := fun l => {first l}
      running := Function.update (fun _ => none) t (some ⟨c, body c, 0⟩)
      returned := [] }
  let both : Threads T V R ρ :=
    { started with running := Function.update started.running u (some ⟨d, body d, 0⟩) }
  have hfirstStart : Step body J (init first) started := .start t c rfl
  have hidle : started.running u = none := by simp [started, htu.symm]
  have hsecondStart : Step body J started both := .start u d hidle
  have hrunning : both.running t = some ⟨c, body c, 0⟩ := by simp [both, started, htu]
  have hrunning' : both.running u = some ⟨d, body d, 0⟩ := by simp [both]
  obtain ⟨s, hsteps, hreturned, hwritten, hothers⟩ :=
    exists_steps_eval hanswer (body c) 0 (fun l => rfl) hrunning
  obtain ⟨s', hsteps', hreturned', _, _⟩ := exists_steps_eval hanswer (body d) 0 hwritten
    ((hothers u htu.symm).trans hrunning')
  refine ⟨s', .head hfirstStart (.head hsecondStart (hsteps.trans hsteps')), ?_⟩
  rw [hreturned', hreturned]

end Alone

end Threads

end BitcoinPqc
