import Mathlib.Data.Nat.Notation
import Mathlib.Tactic.Common

/-!
# Cyclic streams

The infinite repetition of the first `size` elements of a list. A piece of the stream that
does not run over the end of the list is a piece of the list, and a piece that starts
behind the end is one that starts at the beginning again.
-/

namespace BitcoinPqc

variable {α : Type*} [Inhabited α]

/-- Element `i` of the infinite repetition of the first `size` elements. -/
def cycleAt (data : List α) (size i : ℕ) : α := data.getD (i % size) default

/-- The `len` elements of the repetition from `start` on. -/
def cycleSlice (data : List α) (size start len : ℕ) : List α :=
  (List.range len).map fun i => cycleAt data size (start + i)

theorem length_cycleSlice (data : List α) (size start len : ℕ) :
    (cycleSlice data size start len).length = len := by
  rw [cycleSlice, List.length_map, List.length_range]

theorem cycleSlice_zero (data : List α) (size start : ℕ) :
    cycleSlice data size start 0 = [] := rfl

/-- Two pieces that follow each other are one piece. -/
theorem cycleSlice_add (data : List α) (size start k l : ℕ) :
    cycleSlice data size start (k + l) =
      cycleSlice data size start k ++ cycleSlice data size (start + k) l := by
  simp only [cycleSlice, List.range_add, List.map_append, List.map_map, Function.comp_def,
    Nat.add_assoc]

theorem cycleSlice_mod (data : List α) (size start len : ℕ) :
    cycleSlice data size (start % size) len = cycleSlice data size start len := by
  simp only [cycleSlice, cycleAt, Nat.mod_add_mod]

/-- A piece that does not run over the end is a piece of the list. -/
theorem cycleSlice_of_le {data : List α} {size start len : ℕ} (hend : start + len ≤ size)
    (hsize : size ≤ data.length) :
    cycleSlice data size start len = (data.drop start).take len := by
  apply List.ext_getElem
  · rw [length_cycleSlice, List.length_take, List.length_drop]
    omega
  · intro i hi hi'
    rw [length_cycleSlice] at hi
    have hmod : (start + i) % size = start + i := Nat.mod_eq_of_lt (by omega)
    simp only [cycleSlice, List.getElem_map, List.getElem_range, cycleAt, List.getElem_take,
      List.getElem_drop, hmod]
    exact (List.getElem_eq_getD _).symm

end BitcoinPqc
