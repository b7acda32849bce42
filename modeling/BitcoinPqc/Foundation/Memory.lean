import Mathlib.Data.Nat.Notation
import Mathlib.Tactic.Common

/-!
# A flat memory and ranges that overlap

A `Mem` holds an entry at every address. `read` is the list of the entries of a range,
`store` writes a list to consecutive addresses, and the library calls `memset` and
`memmove` are stores: a move writes what its source holds before the call, so its two
ranges may overlap in any way.

What a call does to a memory is said by what the ranges read afterwards and by
`SameOutside`, the range outside which nothing has changed.
-/

namespace BitcoinPqc

/-- The entry at every address. -/
def Mem (α : Type*) := ℕ → α

namespace Mem

variable {α : Type*}

/-- The entries at `p, …, p + n - 1`. -/
def read (mem : Mem α) (p n : ℕ) : List α :=
  (List.range n).map fun i => mem (p + i)

/-- The memory after `xs` is written to the addresses from `p` on. -/
def store (mem : Mem α) (p : ℕ) (xs : List α) : Mem α := fun a =>
  if p ≤ a then xs.getD (a - p) (mem a) else mem a

/-- `memset(p, c, n)`. -/
def memset (mem : Mem α) (p : ℕ) (c : α) (n : ℕ) : Mem α :=
  mem.store p (List.replicate n c)

/-- `memmove(dst, src, n)`. -/
def memmove (mem : Mem α) (dst src n : ℕ) : Mem α :=
  mem.store dst (mem.read src n)

/-- `mem'` agrees with `mem` at every address outside `p, …, p + n - 1`. -/
def SameOutside (mem mem' : Mem α) (p n : ℕ) : Prop :=
  ∀ a, a < p ∨ p + n ≤ a → mem' a = mem a

/-!
## Reading
-/

@[simp] theorem length_read (mem : Mem α) (p n : ℕ) : (mem.read p n).length = n := by
  simp [read]

@[simp] theorem getElem_read (mem : Mem α) (p n : ℕ) {i : ℕ} (hi : i < (mem.read p n).length) :
    (mem.read p n)[i] = mem (p + i) := by
  simp [read]

theorem read_add (mem : Mem α) (p n k : ℕ) :
    mem.read p (n + k) = mem.read p n ++ mem.read (p + n) k := by
  simp [read, List.range_add, Nat.add_assoc]

theorem read_eq_iff (mem mem' : Mem α) (p q n : ℕ) :
    mem.read p n = mem'.read q n ↔ ∀ i < n, mem (p + i) = mem' (q + i) := by
  constructor
  · intro h i hi
    have hentry := congrArg (fun l => l[i]?) h
    simpa [read, hi] using hentry
  · intro h
    exact List.map_congr_left fun i hi => h i (List.mem_range.mp hi)

/-!
## Writing
-/

theorem store_of_mem (mem : Mem α) (p : ℕ) (xs : List α) {i : ℕ} (hi : i < xs.length) :
    mem.store p xs (p + i) = xs[i] := by
  simp [store, hi]

theorem sameOutside_store (mem : Mem α) (p : ℕ) (xs : List α) :
    SameOutside mem (mem.store p xs) p xs.length := by
  intro a ha
  rw [store]
  split
  · rw [List.getD_eq_getElem?_getD, List.getElem?_eq_none (by omega), Option.getD_none]
  · rfl

@[simp] theorem read_store_self (mem : Mem α) (p : ℕ) (xs : List α) :
    (mem.store p xs).read p xs.length = xs := by
  apply List.ext_getElem (by simp)
  intro i hi _
  rw [getElem_read, store_of_mem]

/-- A move leaves in its target what its source held, also where they overlap. -/
@[simp] theorem read_memmove_self (mem : Mem α) (dst src n : ℕ) :
    (mem.memmove dst src n).read dst n = mem.read src n := by
  simpa [memmove] using read_store_self mem dst (mem.read src n)

@[simp] theorem read_memset_self (mem : Mem α) (p : ℕ) (c : α) (n : ℕ) :
    (mem.memset p c n).read p n = List.replicate n c := by
  simpa [memset] using read_store_self mem p (List.replicate n c)

theorem sameOutside_memmove (mem : Mem α) (dst src n : ℕ) :
    SameOutside mem (mem.memmove dst src n) dst n := by
  simpa [memmove] using sameOutside_store mem dst (mem.read src n)

theorem sameOutside_memset (mem : Mem α) (p : ℕ) (c : α) (n : ℕ) :
    SameOutside mem (mem.memset p c n) p n := by
  simpa [memset] using sameOutside_store mem p (List.replicate n c)

/-!
## What does not change
-/

namespace SameOutside

variable {mem mem' mem'' : Mem α} {p n : ℕ}

theorem trans (h : SameOutside mem mem' p n) (h' : SameOutside mem' mem'' p n) :
    SameOutside mem mem'' p n := fun a ha => (h' a ha).trans (h a ha)

theorem mono (h : SameOutside mem mem' p n) {q k : ℕ} (hle : q ≤ p) (hend : p + n ≤ q + k) :
    SameOutside mem mem' q k := fun a ha => h a (by omega)

theorem read_eq (h : SameOutside mem mem' p n) {q k : ℕ} (hapart : q + k ≤ p ∨ p + n ≤ q) :
    mem'.read q k = mem.read q k := by
  rw [read_eq_iff]
  intro i hi
  exact h (q + i) (by omega)

end SameOutside

end Mem

end BitcoinPqc
