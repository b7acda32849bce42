import BitcoinPqc.Sphincs.Sha2
import Mathlib.Algebra.Group.Defs
import Mathlib.Data.List.Range
import Mathlib.Logic.Function.Iterate
import Mathlib.Tactic.IntervalCases

/-!
# The rounds of SHA-2, numbered through

The scalar code keeps sixteen words of the message schedule and replaces them after every
sixteen rounds. Here the words and the constants are functions of the number of the round.
The words that the code keeps are a window on the schedule, which moves on by sixteen, and
the rounds of a block are the rounds with the numbers from zero on. Code that computes the
words in another order only has to compute the same schedule.
-/

namespace BitcoinPqc

section Schedule

variable {W : Type} [Add W] (S : Sigmas W)

/-- The recurrence of the message schedule. -/
def IsSchedule (w : ℕ → W) : Prop :=
  ∀ t, w (t + 16) = (S.sigma1 (w (t + 14)) + w (t + 9)) + (S.sigma0 (w (t + 1)) + w t)

variable [Inhabited W]

/-- The sixteen words that begin one word later. -/
def slideWords (v : Vector W 16) : Vector W 16 :=
  Vector.ofFn fun i =>
    if i.val = 15 then
      (S.sigma1 (v.getD 14 default) + v.getD 9 default) +
        (S.sigma0 (v.getD 1 default) + v.getD 0 default)
    else v.getD (i.val + 1) default

/-- The schedule that begins with the given words. -/
def scheduleWord (v : Vector W 16) (t : ℕ) : W := ((slideWords S)^[t] v).getD 0 default

theorem slideWords_getD (v : Vector W 16) {i : ℕ} (hi : i < 15) :
    (slideWords S v).getD i default = v.getD (i + 1) default := by
  rw [slideWords, getD_ofFn _ (show i < 16 by omega), if_neg (show i ≠ 15 by omega)]

theorem slideWords_getD_last (v : Vector W 16) :
    (slideWords S v).getD 15 default =
      (S.sigma1 (v.getD 14 default) + v.getD 9 default) +
        (S.sigma0 (v.getD 1 default) + v.getD 0 default) := by
  rw [slideWords, getD_ofFn _ (by decide), if_pos rfl]

theorem scheduleWord_of_lt (v : Vector W 16) {i : ℕ} (hi : i < 16) :
    scheduleWord S v i = v.getD i default := by
  induction i generalizing v with
  | zero => rfl
  | succ i ih =>
      have hslide := ih (slideWords S v) (by omega)
      rw [slideWords_getD S v (by omega)] at hslide
      rw [← hslide, scheduleWord, scheduleWord, Function.iterate_succ_apply]

theorem scheduleWord_add (v : Vector W 16) (t i : ℕ) :
    scheduleWord S v (t + i) = scheduleWord S ((slideWords S)^[t] v) i := by
  rw [scheduleWord, scheduleWord, Nat.add_comm, Function.iterate_add_apply]

theorem isSchedule_scheduleWord (v : Vector W 16) : IsSchedule S (scheduleWord S v) := by
  intro t
  have hword {i : ℕ} (hi : i < 16) :
      scheduleWord S v (t + i) = ((slideWords S)^[t] v).getD i default := by
    rw [scheduleWord_add, scheduleWord_of_lt S _ hi]
  have hlast : scheduleWord S v (t + 16) =
      (slideWords S ((slideWords S)^[t] v)).getD 15 default := by
    rw [show t + 16 = (t + 1) + 15 by omega, scheduleWord_add, scheduleWord_of_lt S _ (by decide),
      Function.iterate_succ_apply']
  rw [hlast, slideWords_getD_last, ← hword (by decide), ← hword (by decide),
    ← hword (by decide), ← hword (by decide)]
  rfl

/-!
## Windows
-/

/-- Sixteen words of a schedule. -/
def window (w : ℕ → W) (t : ℕ) : Vector W 16 := Vector.ofFn fun i => w (t + i.val)

/-- The window while it moves on, after `n` words. -/
def movedWindow (w : ℕ → W) (t n : ℕ) : Vector W 16 :=
  Vector.ofFn fun i => w (t + if i.val < n then i.val + 16 else i.val)

variable {S}

omit [Add W] in
theorem window_getD (w : ℕ → W) (t : ℕ) {i : ℕ} (hi : i < 16) :
    (window w t).getD i default = w (t + i) := by
  rw [window, getD_ofFn _ hi]

omit [Add W] in
/-- The code reads the word that is `j` words ahead of the one that it replaces. -/
theorem movedWindow_getD (w : ℕ → W) (t : ℕ) {n j : ℕ} (hn : n < 16) (hj : j < 16) :
    (movedWindow w t n).getD ((n + j) % 16) default = w (t + n + j) := by
  rw [movedWindow, getD_ofFn _ (Nat.mod_lt _ (by decide))]
  congr 1
  dsimp only
  split
  · omega
  · omega

theorem sha2Schedule_movedWindow {w : ℕ → W} (hw : IsSchedule S w) (t : ℕ) {n : ℕ}
    (hn : n < 16) : sha2Schedule S (movedWindow w t n) n = movedWindow w t (n + 1) := by
  have hnew : (S.sigma1 (w (t + n + 14)) + w (t + n + 9)) +
      (S.sigma0 (w (t + n + 1)) + w (t + n + 0)) = w (t + (n + 16)) :=
    (hw (t + n)).symm.trans (by rw [Nat.add_assoc])
  rw [sha2Schedule]
  dsimp only
  rw [movedWindow_getD w t hn (by decide), movedWindow_getD w t hn (by decide),
    movedWindow_getD w t hn (by decide), movedWindow_getD w t hn (by decide), hnew]
  apply Vector.ext
  intro i hi
  rw [Vector.getElem_setIfInBounds]
  simp only [movedWindow, Vector.getElem_ofFn]
  by_cases hin : n = i
  · rw [if_pos hin, if_pos (by omega), hin]
  · rw [if_neg hin]
    congr 2
    by_cases hlt : i < n
    · rw [if_pos hlt, if_pos (by omega)]
    · rw [if_neg hlt, if_neg (by omega)]

theorem sha2Expand_window {w : ℕ → W} (hw : IsSchedule S w) (t : ℕ) :
    sha2Expand S (window w t) = window w (t + 16) := by
  have hmoved (n : ℕ) (hn : n ≤ 16) :
      (List.range n).foldl (sha2Schedule S) (window w t) = movedWindow w t n := by
    induction n with
    | zero => rfl
    | succ n ih =>
        rw [List.range_succ, List.foldl_append, ih (by omega)]
        exact sha2Schedule_movedWindow hw t (by omega)
  rw [sha2Expand, hmoved 16 (Nat.le_refl _)]
  apply Vector.ext
  intro i hi
  simp only [movedWindow, window, Vector.getElem_ofFn, hi, if_true]
  congr 1
  omega

end Schedule

/-!
## Rounds
-/

section Rounds

variable {W : Type} [Add W] [AndOp W] [XorOp W] [Complement W] [Inhabited W] (S : Sigmas W)

/-- The constants by the number of the round. -/
def roundConstant (ks : List (Vector W 16)) (t : ℕ) : W :=
  (ks.getD (t / 16) default).getD (t % 16) default

/-- The `n` rounds with the numbers from `t` on. -/
def roundsFrom (w k : ℕ → W) (t n : ℕ) (v : Vector W 8) : Vector W 8 :=
  (List.range' t n).foldl (fun v i => sha2Round S v (w i) (k i)) v

variable {S}

theorem roundsFrom_add (w k : ℕ → W) (t m n : ℕ) (v : Vector W 8) :
    roundsFrom S w k t (m + n) v = roundsFrom S w k (t + m) n (roundsFrom S w k t m v) := by
  rw [roundsFrom, roundsFrom, roundsFrom, ← List.foldl_append]
  congr 1
  simp

theorem sha2Round_getD_succ (v : Vector W 8) (w k : W) {m : ℕ} (hm : m < 7) (hm3 : m ≠ 3) :
    (sha2Round S v w k).getD (m + 1) default = v.getD m default := by
  interval_cases m
  · rfl
  · rfl
  · rfl
  · exact absurd rfl hm3
  · rfl
  · rfl
  · rfl

theorem sha2Rounds_window (w k : ℕ → W) (t : ℕ) (k16 : Vector W 16)
    (hk : ∀ i < 16, k16.getD i default = k (t + i)) (v : Vector W 8) :
    sha2Rounds S k16 (window w t) v = roundsFrom S w k t 16 v := by
  rw [sha2Rounds, roundsFrom, List.range'_eq_map_range, List.foldl_map]
  apply List.foldl_ext
  intro v i hi
  rw [window_getD w t (List.mem_range.mp hi), hk i (List.mem_range.mp hi)]

theorem sha2Groups_window {w : ℕ → W} (hw : IsSchedule S w) (k : ℕ → W)
    (ks : List (Vector W 16)) (t : ℕ)
    (hk : ∀ i < 16 * ks.length, roundConstant ks i = k (t + i)) (v : Vector W 8) :
    sha2Groups S ks (window w t) v = roundsFrom S w k t (16 * ks.length) v := by
  induction ks generalizing t v with
  | nil => rfl
  | cons k16 ks ih =>
      have hhead (i : ℕ) (hi : i < 16) : k16.getD i default = k (t + i) := by
        rw [← hk i (by rw [List.length_cons]; omega), roundConstant, Nat.div_eq_of_lt hi,
          Nat.mod_eq_of_lt hi]
        rfl
      have htail (i : ℕ) (hi : i < 16 * ks.length) : roundConstant ks i = k (t + 16 + i) := by
        rw [Nat.add_assoc, ← hk (16 + i) (by rw [List.length_cons]; omega), roundConstant,
          roundConstant, Nat.add_mod_left, Nat.add_div_left i (by decide)]
        rfl
      rw [sha2Groups, sha2Expand_window hw, sha2Rounds_window w k t k16 hhead,
        ih (t + 16) htail, ← roundsFrom_add, List.length_cons]
      congr 1
      omega

theorem sha2Groups_eq (ks : List (Vector W 16)) (words : Vector W 16) (v : Vector W 8) :
    sha2Groups S ks words v =
      roundsFrom S (scheduleWord S words) (roundConstant ks) 0 (16 * ks.length) v := by
  have hwords : words = window (scheduleWord S words) 0 := by
    apply Vector.ext
    intro i hi
    rw [window, Vector.getElem_ofFn, Nat.zero_add, scheduleWord_of_lt S words hi,
      getD_eq_getElem words hi]
  conv_lhs => rw [hwords]
  exact sha2Groups_window (isSchedule_scheduleWord S words) (roundConstant ks) ks 0
    (fun i _ => by rw [Nat.zero_add]) v

/-- The words of the state added to the variables. -/
def addWords (u v : Vector W 8) : Vector W 8 := Vector.ofFn fun i => u.get i + v.get i

omit [AndOp W] [XorOp W] [Complement W] in
theorem addWords_getD (u v : Vector W 8) {i : ℕ} (hi : i < 8) :
    (addWords u v).getD i default = u.getD i default + v.getD i default := by
  rw [addWords, getD_ofFn _ hi, getD_eq_getElem _ hi, getD_eq_getElem _ hi]
  rfl

theorem sha2Compress_eq (ks : List (Vector W 16)) (state : Vector W 8) (words : Vector W 16) :
    sha2Compress S ks state words =
      addWords (roundsFrom S (scheduleWord S words) (roundConstant ks) 0 (16 * ks.length) state)
        state := by
  rw [sha2Compress, sha2Groups_eq]
  rfl

end Rounds

/-!
## Rounds lose nothing
-/

section Injective

variable {W : Type} [Add W] [IsRightCancelAdd W] [AndOp W] [XorOp W] [Complement W] [Inhabited W]

/-- The variables before a round can be found from those after it. -/
theorem sha2Round_injective (S : Sigmas W) (w k : W) :
    Function.Injective fun v => sha2Round S v w k := by
  intro u v h
  simp only [sha2Round, Vector.mk.injEq, Array.mk.injEq, List.cons.injEq, and_true] at h
  obtain ⟨hsum, ha, hb, hc, hd, he, hf, hg⟩ := h
  rw [ha, hb, hc, he, hf, hg] at hsum
  have ht := add_right_cancel hsum
  have hh := add_right_cancel (add_right_cancel (add_right_cancel ht))
  rw [he, hf, hg, hh] at hd
  have hd := add_right_cancel hd
  apply ext_getD (d := default)
  intro i hi
  interval_cases i
  · exact ha
  · exact hb
  · exact hc
  · exact hd
  · exact he
  · exact hf
  · exact hg
  · exact hh

theorem roundsFrom_injective (S : Sigmas W) (w k : ℕ → W) (t n : ℕ) :
    Function.Injective (roundsFrom S w k t n) := by
  induction n with
  | zero => exact fun _ _ h => h
  | succ n ih =>
      intro u v h
      rw [roundsFrom_add, roundsFrom_add] at h
      exact ih (sha2Round_injective S (w (t + n)) (k (t + n)) h)

omit [AndOp W] [XorOp W] [Complement W] in
/-- The added state can be taken off again. -/
theorem addWords_right_cancel {u v s : Vector W 8}
    (h : addWords u s = addWords v s) : u = v := by
  apply ext_getD (d := default)
  intro i hi
  have hword := congrArg (fun x => x.getD i default) h
  rw [addWords_getD _ _ hi, addWords_getD _ _ hi] at hword
  exact add_right_cancel hword

end Injective

end BitcoinPqc
