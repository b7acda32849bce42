import Mathlib.Tactic.Common
import Mathlib.Data.Nat.Bitwise

/-!
# Merkle trees over an indexed row of leaves

The leaves are a function of their index and the hash of a node is tweaked by
its height and its index, so `node leaf hash h i` is the node over the leaves
`2 ^ h * i, …, 2 ^ h * i + 2 ^ h - 1`. The row of leaves is unbounded: a forest of
equal trees is read as one row, and a tree of height `H` is a node at height
`H`.

`climb hash g path n x` recomputes the ancestor at height `n` of the leaf with
index `g` from its value and the sibling at each height. The honest siblings
give the tree's own node, and two climbs with equal results either start at
the same value with the same siblings or exhibit two different pairs of
children with the same hash.
-/

namespace BitcoinPqc

variable {α : Type*}

namespace Merkle

/-- The node at height `h` and index `i`. -/
def node (leaf : ℕ → α) (hash : ℕ → ℕ → α → α → α) : ℕ → ℕ → α
  | 0, i => leaf i
  | h + 1, i =>
      hash (h + 1) i (node leaf hash h (2 * i)) (node leaf hash h (2 * i + 1))

theorem node_succ (leaf : ℕ → α) (hash : ℕ → ℕ → α → α → α) (h i : ℕ) :
    node leaf hash (h + 1) i =
      hash (h + 1) i (node leaf hash h (2 * i))
        (node leaf hash h (2 * i + 1)) := rfl

/-- A node and its sibling in left-to-right order. -/
def children (g : ℕ) (x sibling : α) : α × α :=
  if g % 2 = 1 then (sibling, x) else (x, sibling)

theorem children_inj (g : ℕ) {x y s t : α}
    (h : children g x s = children g y t) : x = y ∧ s = t := by
  unfold children at h
  split at h
  · exact ⟨(Prod.mk.inj h).2, (Prod.mk.inj h).1⟩
  · exact ⟨(Prod.mk.inj h).1, (Prod.mk.inj h).2⟩

/-- The ancestor at height `n` of the leaf with index `g` and value `x`, from
the siblings `path 0, …, path (n - 1)`. -/
def climb (hash : ℕ → ℕ → α → α → α) (g : ℕ) (path : ℕ → α) : ℕ → α → α
  | 0, x => x
  | n + 1, x =>
      hash (n + 1) (g >>> (n + 1))
        (children (g >>> n) (climb hash g path n x) (path n)).1
        (children (g >>> n) (climb hash g path n x) (path n)).2

theorem climb_succ (hash : ℕ → ℕ → α → α → α) (g : ℕ) (path : ℕ → α) (n : ℕ)
    (x : α) :
    climb hash g path (n + 1) x =
      hash (n + 1) (g >>> (n + 1))
        (children (g >>> n) (climb hash g path n x) (path n)).1
        (children (g >>> n) (climb hash g path n x) (path n)).2 := rfl

theorem xor_one_of_odd {g : ℕ} (h : g % 2 = 1) : g ^^^ 1 = 2 * (g / 2) := by
  have hdiv : (g ^^^ 1) / 2 = g / 2 := by simp [Nat.xor_div_two]
  have hmod : (g ^^^ 1) % 2 = (g + 1) % 2 := Nat.xor_mod_two_eq
  omega

theorem xor_one_of_even {g : ℕ} (h : g % 2 = 0) : g ^^^ 1 = 2 * (g / 2) + 1 := by
  have hdiv : (g ^^^ 1) / 2 = g / 2 := by simp [Nat.xor_div_two]
  have hmod : (g ^^^ 1) % 2 = (g + 1) % 2 := Nat.xor_mod_two_eq
  omega

theorem children_node (leaf : ℕ → α) (hash : ℕ → ℕ → α → α → α) (h g : ℕ) :
    children g (node leaf hash h g) (node leaf hash h (g ^^^ 1)) =
      (node leaf hash h (2 * (g / 2)), node leaf hash h (2 * (g / 2) + 1)) := by
  unfold children
  split
  · next hodd => rw [xor_one_of_odd hodd, show g = 2 * (g / 2) + 1 by omega,
      show (2 * (g / 2) + 1) / 2 = g / 2 by omega]
  · next heven => rw [xor_one_of_even (by omega), show g = 2 * (g / 2) by omega,
      show 2 * (g / 2) / 2 = g / 2 by omega]

/-- Climbing with the tree's own siblings gives the tree's own node. -/
theorem climb_node (leaf : ℕ → α) (hash : ℕ → ℕ → α → α → α) (g : ℕ)
    (path : ℕ → α) (n : ℕ)
    (hpath : ∀ k < n, path k = node leaf hash k ((g >>> k) ^^^ 1)) :
    climb hash g path n (leaf g) = node leaf hash n (g >>> n) := by
  induction n with
  | zero => rfl
  | succ n ih =>
      have hbelow := ih fun k hk => hpath k (by omega)
      have hhalf : g >>> (n + 1) = (g >>> n) / 2 := Nat.shiftRight_succ g n
      rw [climb_succ, hbelow, hpath n (by omega), children_node, hhalf, node_succ]

/-- Two climbs from one index with equal results start at the same value with
the same siblings, or at some height two different pairs of children have the
same hash. -/
theorem eq_or_collision_of_climb_eq (hash : ℕ → ℕ → α → α → α) (g : ℕ)
    (path path' : ℕ → α) (n : ℕ) (x y : α)
    (h : climb hash g path n x = climb hash g path' n y) :
    (x = y ∧ ∀ k < n, path k = path' k) ∨
      ∃ k < n,
        children (g >>> k) (climb hash g path k x) (path k) ≠
          children (g >>> k) (climb hash g path' k y) (path' k) ∧
        climb hash g path (k + 1) x = climb hash g path' (k + 1) y := by
  induction n with
  | zero => exact Or.inl ⟨h, fun k hk => by omega⟩
  | succ n ih =>
      by_cases heq : children (g >>> n) (climb hash g path n x) (path n) =
          children (g >>> n) (climb hash g path' n y) (path' n)
      · obtain ⟨hbelow, hsib⟩ := children_inj _ heq
        rcases ih hbelow with ⟨hxy, hpaths⟩ | ⟨k, hk, hne, hout⟩
        · refine Or.inl ⟨hxy, ?_⟩
          intro k hk
          rcases Nat.lt_succ_iff_lt_or_eq.mp hk with hlt | rfl
          · exact hpaths k hlt
          · exact hsib
        · exact Or.inr ⟨k, by omega, hne, hout⟩
      · exact Or.inr ⟨n, by omega, heq, h⟩

end Merkle

end BitcoinPqc
