import Mathlib.Data.Nat.Notation
import Mathlib.Logic.Function.Basic
import Mathlib.Tactic.Common

/-!
# A heap with an unreliable allocator

A `Heap` holds the live buffers with their contents, whether each request so far was
granted, and a record of the releases: for each one the contents of the buffer at that
moment, or `none` when the address was not live. A pointer is an optional address and the
NULL pointer is `none`.

An `Allocator` is an arbitrary function of the heap and the requested size. It may
fail at any request, it may reuse a released address and it fills a new buffer with
arbitrary bytes, but it never hands out a live address. The heap knows the requests,
so an allocator can answer every request on its own.

`Owned` says that the live buffers are exactly those that a table of owners lists,
without sharing, and that only buffers full of zeros were ever released. Each heap
operation keeps it with the table that the operation leaves.
-/

namespace BitcoinPqc

/-- The live buffers, the answers to the requests, oldest first, and the contents at each
release. -/
structure Heap where
  blocks : ℕ → Option (List UInt8)
  answers : List Bool
  released : List (Option (List UInt8))

/-- The answers to the requests for memory. -/
structure Allocator where
  address : Heap → ℕ → Option ℕ
  contents : Heap → ℕ → List UInt8
  fresh : ∀ h size a, address h size = some a → h.blocks a = none
  contents_length : ∀ h size, (contents h size).length = size

/-- An allocator that hands out each address once. -/
def countingAllocator : Allocator where
  address := fun h _ =>
    if h.blocks h.answers.length = none then some h.answers.length else none
  contents := fun _ size => List.replicate size 0
  fresh := by
    intro h size a hans
    split at hans
    · next hnone =>
        cases hans
        exact hnone
    · cases hans
  contents_length := fun _ size => List.length_replicate

namespace Heap

/-- A heap that was not used yet. -/
def empty : Heap := ⟨fun _ => none, [], []⟩

/-- `malloc(size)`. -/
def malloc (A : Allocator) (size : ℕ) (h : Heap) : Option ℕ × Heap :=
  match A.address h size with
  | none => (none, { h with answers := h.answers ++ [false] })
  | some a =>
      (some a,
        { h with
          blocks := Function.update h.blocks a (some (A.contents h size))
          answers := h.answers ++ [true] })

/-- `free(p)`. -/
def free (p : Option ℕ) (h : Heap) : Heap :=
  match p with
  | none => h
  | some a =>
      { h with
        blocks := Function.update h.blocks a none
        released := h.blocks a :: h.released }

/-- Write `bytes` to the start of the buffer at `p`. What would fall past the end is
dropped. -/
def store (p : Option ℕ) (bytes : List UInt8) (h : Heap) : Heap :=
  match p with
  | none => h
  | some a =>
      { h with
        blocks := Function.update h.blocks a
          ((h.blocks a).map fun c => bytes.take c.length ++ c.drop bytes.length) }

/-- The contents of the buffer at `p`. -/
def load (p : Option ℕ) (h : Heap) : List UInt8 := (p.bind h.blocks).getD []

/-- Overwrite the first `len` bytes at `p` with zeros. -/
def zero (p : Option ℕ) (len : ℕ) (h : Heap) : Heap := h.store p (List.replicate len 0)

theorem released_store (p : Option ℕ) (bytes : List UInt8) (h : Heap) :
    (h.store p bytes).released = h.released := by
  cases p with
  | none => rfl
  | some a => rfl

theorem blocks_store (p : Option ℕ) (bytes : List UInt8) (h : Heap) (a : ℕ) :
    ((h.store p bytes).blocks a).map List.length = (h.blocks a).map List.length := by
  cases p with
  | none => rfl
  | some b =>
      by_cases hab : a = b
      · subst hab
        simp only [store, Function.update_self, Option.map_map]
        congr 1
        funext c
        simp only [Function.comp_apply, List.length_append, List.length_take,
          List.length_drop]
        omega
      · simp only [store, Function.update_of_ne hab]

theorem blocks_store_self {h : Heap} {a : ℕ} {c bytes : List UInt8}
    (hc : h.blocks a = some c) (hlen : bytes.length = c.length) :
    (h.store (some a) bytes).blocks a = some bytes := by
  simp only [store, Function.update_self, hc, Option.map_some, Option.some.injEq]
  rw [← hlen, List.take_length, hlen, List.drop_length, List.append_nil]

theorem load_store_self {h : Heap} {a : ℕ} {c bytes : List UInt8}
    (hc : h.blocks a = some c) (hlen : bytes.length = c.length) :
    (h.store (some a) bytes).load (some a) = bytes := by
  rw [load, Option.bind_some, blocks_store_self hc hlen, Option.getD_some]

theorem blocks_malloc {A : Allocator} {size a : ℕ} {h : Heap}
    (hans : (h.malloc A size).1 = some a) :
    ∃ c, (h.malloc A size).2.blocks a = some c ∧ c.length = size := by
  unfold malloc at *
  cases hanswer : A.address h size with
  | none =>
      rw [hanswer] at hans
      cases hans
  | some b =>
      rw [hanswer] at hans
      cases hans
      exact ⟨_, Function.update_self _ _ _, A.contents_length h size⟩

/-- A request is answered with a buffer that was not live. -/
theorem blocks_eq_none_of_malloc {A : Allocator} {size a : ℕ} {h : Heap}
    (hans : (h.malloc A size).1 = some a) : h.blocks a = none := by
  unfold malloc at hans
  cases hanswer : A.address h size with
  | none =>
      rw [hanswer] at hans
      cases hans
  | some b =>
      rw [hanswer] at hans
      cases hans
      exact A.fresh h size a hanswer

theorem blocks_malloc_of_live (A : Allocator) (size : ℕ) {b : ℕ} {h : Heap}
    (hlive : h.blocks b ≠ none) : (h.malloc A size).2.blocks b = h.blocks b := by
  unfold malloc
  cases hanswer : A.address h size with
  | none => rfl
  | some a =>
      have hne : b ≠ a := by
        rintro rfl
        exact hlive (A.fresh h size b hanswer)
      exact Function.update_of_ne hne _ _

theorem answers_malloc (A : Allocator) (size : ℕ) (h : Heap) :
    (h.malloc A size).2.answers = h.answers ++ [(h.malloc A size).1.isSome] := by
  unfold malloc
  cases A.address h size with
  | none => rfl
  | some a => rfl

@[simp] theorem answers_free (p : Option ℕ) (h : Heap) : (h.free p).answers = h.answers := by
  cases p with
  | none => rfl
  | some a => rfl

@[simp] theorem answers_store (p : Option ℕ) (bytes : List UInt8) (h : Heap) :
    (h.store p bytes).answers = h.answers := by
  cases p with
  | none => rfl
  | some a => rfl

@[simp] theorem answers_zero (p : Option ℕ) (len : ℕ) (h : Heap) :
    (h.zero p len).answers = h.answers :=
  answers_store p _ h

theorem blocks_store_of_ne {p a : ℕ} (h : a ≠ p) (bytes : List UInt8) (heap : Heap) :
    (heap.store (some p) bytes).blocks a = heap.blocks a :=
  Function.update_of_ne h _ _

theorem load_store_store {h : Heap} {p q : ℕ} (hpq : p ≠ q) {c d v w : List UInt8}
    (hc : h.blocks p = some c) (hv : v.length = c.length) (hd : h.blocks q = some d)
    (hw : w.length = d.length) :
    ((h.store (some p) v).store (some q) w).load (some p) = v ∧
      ((h.store (some p) v).store (some q) w).load (some q) = w := by
  constructor
  · rw [load, Option.bind_some, blocks_store_of_ne hpq, blocks_store_self hc hv,
      Option.getD_some]
  · exact load_store_self ((blocks_store_of_ne hpq.symm v h).trans hd) hw

theorem free_zero_comm {p q : Option ℕ} (hpq : ∀ a, p = some a → q ≠ some a) (len : ℕ)
    (h : Heap) : (h.zero q len).free p = (h.free p).zero q len := by
  cases p with
  | none => rfl
  | some a =>
      cases q with
      | none => rfl
      | some b =>
          have hab : a ≠ b := by
            rintro rfl
            exact hpq a rfl rfl
          simp only [zero, store, free, Function.update_of_ne hab,
            Function.update_of_ne hab.symm, Function.update_comm hab]

end Heap

/-!
## Owners
-/

section Owned

variable {ι : Type*}

/-- The table `own` lists the live buffers, each with its size, and every release
was of a live buffer full of zeros. -/
structure Owned (own : ι → Option (ℕ × ℕ)) (h : Heap) : Prop where
  live : ∀ x a n, own x = some (a, n) → ∃ c, h.blocks a = some c ∧ c.length = n
  unshared : ∀ x y a n k, own x = some (a, n) → own y = some (a, k) → x = y
  listed : ∀ a, h.blocks a ≠ none → ∃ x n, own x = some (a, n)
  wiped : ∀ c ∈ h.released, ∃ n, c = some (List.replicate n 0)

theorem owned_empty : Owned (fun _ : ι => none) Heap.empty where
  live := fun _ _ _ h => by cases h
  unshared := fun _ _ _ _ _ h => by cases h
  listed := fun _ h => absurd rfl h
  wiped := fun _ h => by cases h

variable {own : ι → Option (ℕ × ℕ)} {h : Heap}

namespace Owned

/-- The table depends only on which buffers are live, on their sizes and on the
releases. -/
theorem of_same {h' : Heap} (hown : Owned own h)
    (hblocks : ∀ a, (h'.blocks a).map List.length = (h.blocks a).map List.length)
    (hreleased : h'.released = h.released) : Owned own h' where
  live := by
    intro x a n hx
    obtain ⟨c, hc, hlen⟩ := hown.live x a n hx
    have hsame := hblocks a
    rw [hc, Option.map_some, hlen] at hsame
    exact Option.map_eq_some_iff.mp hsame
  unshared := hown.unshared
  listed := by
    intro a ha
    refine hown.listed a ?_
    intro hnone
    have hsame := hblocks a
    rw [hnone, Option.map_none, Option.map_eq_none_iff] at hsame
    exact ha hsame
  wiped := by
    rw [hreleased]
    exact hown.wiped

theorem store (hown : Owned own h) (p : Option ℕ) (bytes : List UInt8) :
    Owned own (h.store p bytes) :=
  hown.of_same (Heap.blocks_store p bytes h) (Heap.released_store p bytes h)

variable [DecidableEq ι]

theorem update_none {x : ι} (hx : own x = none) : Function.update own x none = own := by
  conv_lhs => rw [← hx]
  exact Function.update_eq_self x own

theorem malloc (hown : Owned own h) (A : Allocator) (size : ℕ) {x : ι}
    (hx : own x = none) :
    Owned (Function.update own x ((h.malloc A size).1.map fun a => (a, size)))
      (h.malloc A size).2 := by
  unfold Heap.malloc
  cases hans : A.address h size with
  | none =>
      simp only [Option.map_none, update_none hx]
      exact hown.of_same (fun _ => rfl) rfl
  | some a =>
      have hfresh : h.blocks a = none := A.fresh h size a hans
      have hnew (y : ι) (n : ℕ) : own y ≠ some (a, n) := by
        intro hy
        obtain ⟨c, hc, _⟩ := hown.live y a n hy
        rw [hfresh] at hc
        cases hc
      simp only [Option.map_some]
      constructor
      · intro y b n hy
        by_cases hyx : y = x
        · subst hyx
          rw [Function.update_self] at hy
          cases hy
          exact ⟨_, Function.update_self _ _ _, A.contents_length h size⟩
        · rw [Function.update_of_ne hyx] at hy
          obtain ⟨c, hc, hlen⟩ := hown.live y b n hy
          have hba : b ≠ a := by
            rintro rfl
            exact hnew y n hy
          exact ⟨c, (Function.update_of_ne hba _ _).trans hc, hlen⟩
      · intro y z b n k hy hz
        by_cases hyx : y = x
        · by_cases hzx : z = x
          · rw [hyx, hzx]
          · rw [hyx, Function.update_self] at hy
            rw [Function.update_of_ne hzx] at hz
            cases hy
            exact absurd hz (hnew z k)
        · rw [Function.update_of_ne hyx] at hy
          by_cases hzx : z = x
          · rw [hzx, Function.update_self] at hz
            cases hz
            exact absurd hy (hnew y n)
          · rw [Function.update_of_ne hzx] at hz
            exact hown.unshared y z b n k hy hz
      · intro b hb
        by_cases hba : b = a
        · exact ⟨x, size, by rw [Function.update_self, hba]⟩
        · obtain ⟨y, n, hy⟩ := hown.listed b fun hnone =>
            hb ((Function.update_of_ne hba _ _).trans hnone)
          have hyx : y ≠ x := by
            rintro rfl
            rw [hx] at hy
            cases hy
          exact ⟨y, n, by rw [Function.update_of_ne hyx, hy]⟩
      · exact hown.wiped

theorem zero_free (hown : Owned own h) {x : ι} {p : Option ℕ} {n : ℕ}
    (hx : own x = p.map fun a => (a, n)) :
    Owned (Function.update own x none) ((h.zero p n).free p) := by
  cases p with
  | none =>
      rw [update_none hx]
      exact hown
  | some a =>
      have hzero := hown.store (some a) (List.replicate n 0)
      obtain ⟨c, hc, hlen⟩ := hown.live x a n hx
      have hwiped : (h.zero (some a) n).blocks a = some (List.replicate n 0) :=
        Heap.blocks_store_self hc (by rw [List.length_replicate, hlen])
      have hother (y : ι) (k : ℕ) (hyx : y ≠ x) : own y ≠ some (a, k) := by
        intro hy
        exact hyx (hown.unshared y x a k n hy hx)
      constructor
      · intro y b k hy
        have hyx : y ≠ x := by
          rintro rfl
          rw [Function.update_self] at hy
          cases hy
        rw [Function.update_of_ne hyx] at hy
        have hba : b ≠ a := by
          rintro rfl
          exact hother y k hyx hy
        obtain ⟨c, hc, hlen⟩ := hzero.live y b k hy
        exact ⟨c, (Function.update_of_ne hba _ _).trans hc, hlen⟩
      · intro y z b k k' hy hz
        have hyx : y ≠ x := by
          rintro rfl
          rw [Function.update_self] at hy
          cases hy
        have hzx : z ≠ x := by
          rintro rfl
          rw [Function.update_self] at hz
          cases hz
        rw [Function.update_of_ne hyx] at hy
        rw [Function.update_of_ne hzx] at hz
        exact hown.unshared y z b k k' hy hz
      · intro b hb
        have hba : b ≠ a := by
          rintro rfl
          exact hb (Function.update_self _ _ _)
        obtain ⟨y, k, hy⟩ := hzero.listed b fun hnone =>
          hb ((Function.update_of_ne hba _ _).trans hnone)
        have hyx : y ≠ x := by
          rintro rfl
          rw [hx] at hy
          cases hy
          exact hba rfl
        exact ⟨y, k, by rw [Function.update_of_ne hyx, hy]⟩
      · intro c hc
        rcases List.mem_cons.mp hc with rfl | hc
        · exact ⟨n, hwiped⟩
        · exact hown.wiped c hc

/-- A request that is answered and released again, after the buffer was written and
wiped, leaves the table as it was. -/
theorem malloc_zero_free (hown : Owned own h) (A : Allocator) (size : ℕ)
    (bytes : List UInt8) {x : ι} (hx : own x = none) :
    Owned own
      ((((h.malloc A size).2.store (h.malloc A size).1 bytes).zero (h.malloc A size).1
        size).free (h.malloc A size).1) := by
  have hnew := (hown.malloc A size hx).store (h.malloc A size).1 bytes
  have hdone := hnew.zero_free (x := x) (Function.update_self _ _ _)
  rw [Function.update_idem, update_none hx] at hdone
  exact hdone

/-- Two buffers that are wiped one after the other and then released leave the
table. -/
theorem zero_free_two (hown : Owned own h) {x y : ι} (hxy : x ≠ y) {p q : Option ℕ}
    {n k : ℕ} (hx : own x = p.map fun a => (a, n)) (hy : own y = q.map fun a => (a, k)) :
    Owned (Function.update (Function.update own x none) y none)
      ((((h.zero p n).zero q k).free p).free q) := by
  have hpq (a : ℕ) (hp : p = some a) : q ≠ some a := by
    rintro rfl
    rw [hp] at hx
    exact hxy (hown.unshared x y a n k hx hy)
  rw [Heap.free_zero_comm hpq]
  refine (hown.zero_free hx).zero_free ?_
  rw [Function.update_of_ne hxy.symm, hy]

end Owned

end Owned

end BitcoinPqc
