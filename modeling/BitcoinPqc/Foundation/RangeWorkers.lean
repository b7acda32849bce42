import Mathlib.Data.List.Flatten
import Mathlib.Data.List.Perm.Basic
import Mathlib.Data.Nat.Notation
import Mathlib.Tactic.Common

/-!
# Workers on ranges of jobs

Jobs are numbered. A worker runs the jobs of a range in order, one at a time, and the
jobs it has not run yet are pending. When workers run side by side each step runs the
next job of one of them, so the jobs that were run and the pending jobs stay the same
jobs whatever the order.

When the jobs commute, what they leave does not depend on their order: a run of each job
of a list once leaves what the list leaves in its own order.
-/

namespace BitcoinPqc

/-- A worker: its next job and the end of its range. -/
structure RangeWorker where
  next : ℕ
  stop : ℕ

namespace RangeWorker

/-- The jobs a worker has not run yet. -/
def jobs (w : RangeWorker) : List ℕ := List.range' w.next (w.stop - w.next)

/-- The worker after one more job. -/
def advance (w : RangeWorker) : RangeWorker := ⟨w.next + 1, w.stop⟩

theorem jobs_of_lt {w : RangeWorker} (h : w.next < w.stop) :
    w.jobs = w.next :: w.advance.jobs := by
  rw [jobs, show w.stop - w.next = w.stop - (w.next + 1) + 1 by omega, List.range'_succ]
  rfl

theorem jobs_of_le {w : RangeWorker} (h : w.stop ≤ w.next) : w.jobs = [] := by
  rw [jobs, Nat.sub_eq_zero_of_le h, List.range'_zero]

end RangeWorker

/-- The jobs that workers have not run yet. -/
def pendingJobs (ws : List RangeWorker) : List ℕ := ws.flatMap RangeWorker.jobs

theorem pendingJobs_concat (ws : List RangeWorker) (w : RangeWorker) :
    pendingJobs (ws ++ [w]) = pendingJobs ws ++ w.jobs := by
  rw [pendingJobs, List.flatMap_append, List.flatMap_singleton]
  rfl

theorem pendingJobs_of_finished {ws : List RangeWorker} (h : ∀ w ∈ ws, w.stop ≤ w.next) :
    pendingJobs ws = [] :=
  List.flatMap_eq_nil_iff.mpr fun w hw => RangeWorker.jobs_of_le (h w hw)

/-- A step of worker `k` takes its next job from the pending jobs. -/
theorem perm_pendingJobs_set {ws : List RangeWorker} {k : ℕ} {w : RangeWorker}
    (hk : ws[k]? = some w) (hw : w.next < w.stop) :
    (pendingJobs ws).Perm (w.next :: pendingJobs (ws.set k w.advance)) := by
  induction ws generalizing k with
  | nil => exact absurd hk (by simp)
  | cons v ws ih =>
      cases k with
      | zero =>
          obtain rfl : v = w := by simpa using hk
          rw [List.set_cons_zero, pendingJobs, List.flatMap_cons, RangeWorker.jobs_of_lt hw]
          exact List.Perm.refl _
      | succ k =>
          rw [List.set_cons_succ, pendingJobs, List.flatMap_cons]
          exact ((ih (by simpa using hk)).append_left v.jobs).trans List.perm_middle

theorem next_mem_pendingJobs {ws : List RangeWorker} {k : ℕ} {w : RangeWorker}
    (hk : ws[k]? = some w) (hw : w.next < w.stop) : w.next ∈ pendingJobs ws :=
  (perm_pendingJobs_set hk hw).symm.subset List.mem_cons_self

theorem range'_split {start mid stop : ℕ} (h : start ≤ mid) (h' : mid ≤ stop) :
    List.range' start (stop - start) =
      List.range' start (mid - start) ++ List.range' mid (stop - mid) := by
  rw [show List.range' mid (stop - mid) =
      List.range' (start + 1 * (mid - start)) (stop - mid) by congr 1; omega,
    List.range'_append]
  congr 1
  omega

theorem share_le (jobs : ℕ) {workers : ℕ} (h : 0 < workers) :
    (jobs + workers - 1) / workers ≤ jobs := by
  rw [Nat.div_le_iff_le_mul_add_pred h]
  have hmul : 1 * jobs ≤ workers * jobs := Nat.mul_le_mul_right jobs h
  omega

/-- Commuting jobs leave the same in every order. -/
theorem foldl_eq_of_commute {σ : Type} {run : σ → ℕ → σ}
    (hcomm : ∀ s i j, i ≠ j → run (run s i) j = run (run s j) i) {l l' : List ℕ}
    (hperm : l.Perm l') (s : σ) : l.foldl run s = l'.foldl run s := by
  refine hperm.foldl_eq' ?_ s
  intro i _ j _ t
  by_cases hij : i = j
  · rw [hij]
  · exact hcomm t i j hij

end BitcoinPqc
