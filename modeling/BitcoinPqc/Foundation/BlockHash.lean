import Mathlib.Algebra.Group.Nat.Defs
import Mathlib.Data.List.GetD
import Mathlib.Data.Fintype.Card
import Mathlib.Data.Nat.Notation
import Mathlib.Tactic.Common

/-!
# Iterated compression

A hash function that works block by block compresses the whole blocks of its input into a
chaining value, in order, and keeps what is left for later. `absorb f s x` is the chaining
value after the whole blocks of `x`, and `partialBlock b x` is what is left. Inputs that
consist of whole blocks can be absorbed one after the other.
-/

namespace BitcoinPqc

variable {α σ : Type*} {b : ℕ}

/-!
## The rest of an input
-/

/-- The entries behind the whole blocks. -/
def partialBlock (b : ℕ) (x : List α) : List α := x.drop (b * (x.length / b))

theorem length_partialBlock (x : List α) : (partialBlock b x).length = x.length % b := by
  rw [partialBlock, List.length_drop, Nat.mod_eq_sub]

/-- A list is its whole blocks followed by the rest. -/
theorem take_append_partialBlock (x : List α) :
    x.take (b * (x.length / b)) ++ partialBlock b x = x :=
  List.take_append_drop _ x

theorem length_take_wholeBlocks (x : List α) :
    (x.take (b * (x.length / b))).length = b * (x.length / b) := by
  rw [List.length_take, Nat.min_eq_left (Nat.mul_div_le x.length b)]

theorem partialBlock_of_lt {x : List α} (h : x.length < b) : partialBlock b x = x := by
  rw [partialBlock, Nat.div_eq_of_lt h, Nat.mul_zero, List.drop_zero]

theorem partialBlock_of_le (hb : 0 < b) {x : List α} (h : b ≤ x.length) :
    partialBlock b x = partialBlock b (x.drop b) := by
  rw [partialBlock, partialBlock, List.drop_drop, List.length_drop, Nat.div_eq_sub_div hb h,
    Nat.mul_succ, Nat.add_comm]

theorem partialBlock_append (hb : 0 < b) {x : List α} (hx : b ∣ x.length) (y : List α) :
    partialBlock b (x ++ y) = partialBlock b y := by
  obtain ⟨k, hk⟩ := hx
  have hdiv : (x ++ y).length / b = k + y.length / b := by
    rw [List.length_append, hk, Nat.mul_add_div hb]
  rw [partialBlock, hdiv, Nat.mul_add, ← hk, List.drop_length_add_append]
  rfl

/-!
## Blocks
-/

variable [Inhabited α]

/-- The first `b` entries of a list. -/
def headBlock (b : ℕ) (x : List α) : Vector α b :=
  Vector.ofFn fun i => x.getD i.val default

/-- The first `n` blocks of length `b`. -/
def firstBlocks (b : ℕ) : ℕ → List α → List (Vector α b)
  | 0, _ => []
  | n + 1, x => headBlock b x :: firstBlocks b n (x.drop b)

/-- The blocks of length `b` that fit into a list. -/
def wholeBlocks (b : ℕ) (x : List α) : List (Vector α b) := firstBlocks b (x.length / b) x

/-- The chaining value after the whole blocks. -/
def absorb (f : σ → Vector α b → σ) (s : σ) (x : List α) : σ := (wholeBlocks b x).foldl f s

theorem headBlock_eq_of_take_eq {x y : List α} (h : x.take b = y.take b) :
    headBlock b x = headBlock b y := by
  apply Vector.ext
  intro i hi
  have hget (z : List α) : z.getD i default = (z.take b).getD i default := by
    rw [List.getD_eq_getElem?_getD, List.getD_eq_getElem?_getD, List.getElem?_take_of_lt hi]
  rw [headBlock, headBlock, Vector.getElem_ofFn, Vector.getElem_ofFn]
  exact (hget x).trans (h ▸ (hget y).symm)

theorem headBlock_append {x : List α} (h : b ≤ x.length) (y : List α) :
    headBlock b (x ++ y) = headBlock b x := by
  apply headBlock_eq_of_take_eq
  rw [List.take_append_of_le_length h]

theorem headBlock_toList (v : Vector α b) : headBlock b v.toList = v := by
  apply Vector.ext
  intro i hi
  rw [headBlock, Vector.getElem_ofFn, List.getD_eq_getElem _ _ (by simpa using hi),
    Vector.getElem_toList]

theorem length_firstBlocks (n : ℕ) (x : List α) : (firstBlocks b n x).length = n := by
  induction n generalizing x with
  | zero => rfl
  | succ n ih => rw [firstBlocks, List.length_cons, ih]

theorem length_wholeBlocks (x : List α) : (wholeBlocks b x).length = x.length / b :=
  length_firstBlocks _ x

theorem wholeBlocks_of_lt {x : List α} (h : x.length < b) : wholeBlocks b x = [] := by
  rw [wholeBlocks, Nat.div_eq_of_lt h]
  rfl

theorem wholeBlocks_of_le (hb : 0 < b) {x : List α} (h : b ≤ x.length) :
    wholeBlocks b x = headBlock b x :: wholeBlocks b (x.drop b) := by
  rw [wholeBlocks, wholeBlocks, List.length_drop, Nat.div_eq_sub_div hb h]
  rfl

theorem wholeBlocks_append (hb : 0 < b) {x : List α} (hx : b ∣ x.length) (y : List α) :
    wholeBlocks b (x ++ y) = wholeBlocks b x ++ wholeBlocks b y := by
  obtain ⟨k, hk⟩ := hx
  induction k generalizing x with
  | zero =>
      have hnil : x = [] := List.eq_nil_of_length_eq_zero (by rw [hk, Nat.mul_zero])
      rw [hnil, wholeBlocks_of_lt (show ([] : List α).length < b from hb)]
      rfl
  | succ k ih =>
      have hle : b ≤ x.length := by
        rw [hk, Nat.mul_succ]
        omega
      have hdrop : (x.drop b).length = b * k := by
        rw [List.length_drop, hk, Nat.mul_succ, Nat.add_sub_cancel]
      rw [wholeBlocks_of_le hb (by rw [List.length_append]; omega), headBlock_append hle,
        List.drop_append_of_le_length hle, ih hdrop, wholeBlocks_of_le hb hle]
      rfl

theorem wholeBlocks_toList (hb : 0 < b) (v : Vector α b) : wholeBlocks b v.toList = [v] := by
  have hlen : v.toList.length = b := Vector.length_toList
  rw [wholeBlocks_of_le hb (Nat.le_of_eq hlen.symm), headBlock_toList,
    wholeBlocks_of_lt (by rw [List.length_drop, hlen]; omega)]

theorem wholeBlocks_take (hb : 0 < b) (x : List α) :
    wholeBlocks b (x.take (b * (x.length / b))) = wholeBlocks b x := by
  have happend := wholeBlocks_append hb (x := x.take (b * (x.length / b)))
    ⟨x.length / b, length_take_wholeBlocks x⟩ (partialBlock b x)
  rw [take_append_partialBlock, wholeBlocks_of_lt (x := partialBlock b x)
    (by rw [length_partialBlock]; exact Nat.mod_lt _ hb), List.append_nil] at happend
  exact happend.symm

/-!
## Chaining values
-/

variable {f : σ → Vector α b → σ} {s : σ}

theorem absorb_of_lt {x : List α} (h : x.length < b) : absorb f s x = s := by
  rw [absorb, wholeBlocks_of_lt h]
  rfl

theorem absorb_of_le (hb : 0 < b) {x : List α} (h : b ≤ x.length) :
    absorb f s x = absorb f (f s (headBlock b x)) (x.drop b) := by
  rw [absorb, wholeBlocks_of_le hb h]
  rfl

theorem absorb_append (hb : 0 < b) {x : List α} (hx : b ∣ x.length) (y : List α) :
    absorb f s (x ++ y) = absorb f (absorb f s x) y := by
  rw [absorb, wholeBlocks_append hb hx, List.foldl_append]
  rfl

/-- The input up to its last whole block is all that is compressed. -/
theorem absorb_take (hb : 0 < b) (x : List α) :
    absorb f s (x.take (b * (x.length / b))) = absorb f s x := by
  rw [absorb, wholeBlocks_take hb, absorb]

/-- A relation that every block preserves holds of the chaining values. -/
theorem absorb_rel {τ : Type*} {g : τ → Vector α b → τ} {t : τ} {r : σ → τ → Prop}
    (hblock : ∀ s t z, r s t → r (f s z) (g t z)) (h : r s t) (x : List α) :
    r (absorb f s x) (absorb g t x) :=
  List.foldl_rel h fun z _ s t hst => hblock s t z hst

/-- On finitely many chaining values a compression that depends on its block somewhere moves
some chaining value, for every number of blocks. Otherwise a run would end where it
started, so all but the last of its blocks would reach every chaining value, and the last
block would not matter at any of them. -/
theorem exists_absorb_ne [Finite σ] (hb : 0 < b) {u : σ} {v w : Vector α b}
    (hne : f u v ≠ f u w) (n : ℕ) :
    ∃ (s : σ) (x : List α), x.length = b * (n + 1) ∧ absorb f s x ≠ s := by
  by_contra hno
  have hfix (s : σ) (x : List α) (hx : x.length = b * (n + 1)) : absorb f s x = s := by
    by_contra hmove
    exact hno ⟨s, x, hx, hmove⟩
  have hlen : (List.replicate (b * n) (default : α)).length = b * n := List.length_replicate
  have hlast (s : σ) (z : Vector α b) :
      f (absorb f s (List.replicate (b * n) default)) z = s := by
    have hrun := hfix s (List.replicate (b * n) default ++ z.toList)
      (by rw [List.length_append, hlen, Vector.length_toList, Nat.mul_succ])
    rw [absorb_append hb ⟨n, hlen⟩] at hrun
    rw [absorb, wholeBlocks_toList hb] at hrun
    exact hrun
  have hinj : Function.Injective fun s => absorb f s (List.replicate (b * n) default) := by
    intro s t hst
    rw [← hlast s v, ← hlast t v]
    exact congrArg (fun c => f c v) hst
  obtain ⟨s, hs⟩ := Finite.injective_iff_surjective.mp hinj u
  apply hne
  have hv := hlast s v
  have hw := hlast s w
  dsimp only at hs
  rw [hs] at hv hw
  rw [hv, hw]

end BitcoinPqc
