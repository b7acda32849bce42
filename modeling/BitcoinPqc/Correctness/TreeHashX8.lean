import BitcoinPqc.Correctness.TreeHash

/-!
# The 8-lane walk builds the same tree

Below the top three levels a logical node is the group of eight consecutive real
nodes, and the walk over groups is the scalar walk over `group nd`. When the last
group reaches height `treeHeight - 3` it holds all real nodes of that height, and
at height `treeHeight - r` from there on the `2 ^ r` real nodes are in the last
lanes: lane `l` holds the node `l - (8 - 2 ^ r)`.

The lanes before these hold hashes of uninitialised slots at addresses of no node,
so nothing is said about the calls of this walk but that they satisfy a predicate
that every `thash` call satisfies.
-/

namespace BitcoinPqc

open Merkle

/-!
## Masks
-/

theorem and_mask_eight {x : ℕ} (hx : x < 2 ^ 32) :
    x &&& 0xFFFFFFF8 = 0 ↔ x / 8 = 0 := by
  have hdiv : (x &&& 0xFFFFFFF8) / 2 ^ 3 = x / 2 ^ 3 := by
    rw [Nat.and_div_two_pow, show 0xFFFFFFF8 / 2 ^ 3 = 2 ^ 29 - 1 by decide,
      Nat.and_two_pow_sub_one_eq_mod]
    exact Nat.mod_eq_of_lt (by omega)
  have hmod : (x &&& 0xFFFFFFF8) % 2 ^ 3 = 0 := by
    rw [Nat.and_mod_two_pow, show 0xFFFFFFF8 % 2 ^ 3 = 0 by decide, Nat.and_zero]
  omega

theorem group_test_iff {a b : ℕ} (ha : a < 2 ^ 29) (hb : b < 2 ^ 32) :
    ((8 * a) ^^^ b) &&& 0xFFFFFFF8 = 0 ↔ b / 8 = a := by
  have hlt : (8 * a) ^^^ b < 2 ^ 32 := Nat.xor_lt_two_pow (by omega) hb
  rw [and_mask_eight hlt, show (8 : ℕ) = 2 ^ 3 by rfl, Nat.xor_div_two_pow,
    Nat.mul_div_cancel_left a (by decide), Nat.xor_eq_zero_iff]
  exact eq_comm

theorem shiftLeft_three_mod {a : ℕ} (ha : a < 2 ^ 29) :
    (a <<< 3) % 2 ^ 32 = 8 * a := by
  rw [Nat.shiftLeft_eq]
  omega

theorem xor_one_eq_group (x : ℕ) : x ^^^ 1 = 8 * (x / 8) + ((x &&& 7) ^^^ 1) := by
  have hand : x &&& 7 = x % 8 := Nat.and_two_pow_sub_one_eq_mod x 3
  rw [hand]
  rcases Nat.mod_two_eq_zero_or_one x with heven | hodd
  · rw [xor_one_of_even heven, xor_one_of_even (by omega)]
    omega
  · rw [xor_one_of_odd hodd, xor_one_of_odd (by omega)]
    omega

theorem xor_one_and_seven_lt (x : ℕ) : (x &&& 7) ^^^ 1 < 8 :=
  Nat.xor_lt_two_pow (n := 3) (Nat.lt_of_le_of_lt Nat.and_le_right (by decide))
    (by decide)

/-- The node index of a lane that holds a real node. -/
theorem laneTreeIndex_eq {internalIdx leftAdj off i : ℕ} {l : Fin 8}
    (hidx : internalIdx < 2 ^ 32) (hlane : 8 * (internalIdx / 2) + l.val = leftAdj + i)
    (hlt : i + off < 2 ^ 32) : laneTreeIndex internalIdx leftAdj off l = i + off := by
  have hmask : internalIdx &&& 0xFFFFFFFE = 2 * (internalIdx / 2) := by
    have hdiv : (internalIdx &&& 0xFFFFFFFE) / 2 ^ 1 = internalIdx / 2 ^ 1 := by
      rw [Nat.and_div_two_pow, show 0xFFFFFFFE / 2 ^ 1 = 2 ^ 31 - 1 by decide,
        Nat.and_two_pow_sub_one_eq_mod]
      exact Nat.mod_eq_of_lt (by omega)
    have hmod : (internalIdx &&& 0xFFFFFFFE) % 2 ^ 1 = 0 := by
      rw [Nat.and_mod_two_pow, show 0xFFFFFFFE % 2 ^ 1 = 0 by decide, Nat.and_zero]
    omega
  unfold laneTreeIndex
  rw [hmask]
  omega

theorem shiftRight_succ_lt {off : ℕ} (hoff : off < 2 ^ 32) (h : ℕ) :
    off >>> (h + 1) < 2 ^ 31 := by
  rw [Nat.add_comm h 1, Nat.shiftRight_add, Nat.shiftRight_one]
  exact Nat.lt_of_le_of_lt (Nat.shiftRight_le _ _) (by omega)

variable (H : HashFns)

theorem thashx8_sat {P : Query → Prop} (hP : ∀ a i o, P (.thash a i o))
    (input : Lanes (List Block)) (ctx : SpxCtx) (addr : Lanes Addr) :
    Traced.Sat P (fun out => ∀ l, out l = H.thash ctx.stateSeeded (adrs (addr l)) (input l))
      (thashx8 H input ctx addr) := by
  constructor
  · intro q hq
    obtain ⟨l, rfl⟩ := List.mem_ofFn.mp hq
    exact hP _ _ _
  · exact fun l => H.thashx8_lane _ _ _ l

theorem prfAddrx8_sat {P : Query → Prop} (hP : ∀ a s o, P (.prfAddr a s o))
    (ctx : SpxCtx) (addr : Lanes Addr) :
    Traced.Sat P
      (fun out => ∀ l, out l = H.prfAddr ctx.stateSeeded (adrs (addr l)) ctx.skSeed)
      (prfAddrx8 H ctx addr) := by
  constructor
  · intro q hq
    obtain ⟨l, rfl⟩ := List.mem_ofFn.mp hq
    exact hP _ _ _
  · exact fun l => H.prfAddrx8_lane _ _ _ l

/-- The logical node of eight real nodes. -/
def group (nd : ℕ → ℕ → Block) (h j : ℕ) : Lanes Block := fun l => nd h (8 * j + l.val)

/-- The real nodes in the last `2 ^ r` lanes. -/
def TopNodes (nd : ℕ → ℕ → Block) (h r : ℕ) (current : Lanes Block) : Prop :=
  ∀ (l : Fin 8) i, l.val = 8 - 2 ^ r + i → current l = nd h i

/-- Merging two logical nodes pairs the children of each real node above them. -/
theorem mergeInput_group (nd : ℕ → ℕ → Block) (h p : ℕ) (l : Fin 8) :
    mergeInput (group nd h (2 * p)) (group nd h (2 * p + 1)) l =
      [nd h (2 * (8 * p + l.val)), nd h (2 * (8 * p + l.val) + 1)] := by
  have hl := l.isLt
  unfold mergeInput group
  simp only [Fin.val_ofNat]
  split
  · rw [show 8 * (2 * p) + 2 * l.val % 8 = 2 * (8 * p + l.val) by omega,
      show 8 * (2 * p) + (2 * l.val + 1) % 8 = 2 * (8 * p + l.val) + 1 by omega]
  · rw [show 8 * (2 * p + 1) + 2 * (l.val - 4) % 8 = 2 * (8 * p + l.val) by omega,
      show 8 * (2 * p + 1) + (2 * (l.val - 4) + 1) % 8 = 2 * (8 * p + l.val) + 1 by
        omega]

/-- Merging the real nodes of the last lanes pairs the children of the real nodes
above them, whatever the slot holds. -/
theorem TopNodes.mergeInput {nd : ℕ → ℕ → Block} {h r : ℕ} {current : Lanes Block}
    (htop : TopNodes nd h (r + 1) current) (hr : r < 3) (left : Lanes Block)
    (l : Fin 8) (i : ℕ) (hl : l.val = 8 - 2 ^ r + i) :
    BitcoinPqc.mergeInput left current l = [nd h (2 * i), nd h (2 * i + 1)] := by
  have hlt := l.isLt
  have hpow : 2 ^ r ≤ 4 := Nat.pow_le_pow_right (by decide) (show r ≤ 2 by omega)
  have hsucc : 2 ^ (r + 1) = 2 * 2 ^ r := Nat.pow_succ'
  have hpos : 0 < 2 ^ r := Nat.two_pow_pos r
  unfold BitcoinPqc.mergeInput
  rw [if_neg (by omega),
    htop (laneIdx (2 * (l.val - 4))) (2 * i) (by
      rw [Fin.val_ofNat]
      omega),
    htop (laneIdx (2 * (l.val - 4) + 1)) (2 * i + 1) (by
      rw [Fin.val_ofNat]
      omega)]

/-!
## The walk over groups
-/

/-- A generator of eight leaves at a time for the leaves of `nd`. -/
structure LeafGenX8 {n : ℕ} {ι : Type} (nd : ℕ → ℕ → Block) (P : Query → Prop)
    (treeHeight idxOffset authPath : ℕ)
    (genLeafx8 : ℕ → ι → Vector UInt8 n →
      Traced Query (Lanes Block × ι × Vector UInt8 n))
    (Inv : ℕ → ι → Vector UInt8 n → Prop) : Prop where
  gen : ∀ idx < 2 ^ (treeHeight - 3), ∀ info mem, Inv (8 * idx) info mem →
    Traced.Sat P
      (fun r => r.1 = group nd 0 idx ∧ Inv (8 * (idx + 1)) r.2.1 r.2.2 ∧
        ∀ k < treeHeight, slice r.2.2 (authPath + k * spxN) spxN =
          slice mem (authPath + k * spxN) spxN)
      (genLeafx8 (8 * idx + idxOffset) info mem)
  write : ∀ idx info mem k (b : Block), k < treeHeight → Inv idx info mem →
    Inv idx info (write mem (authPath + k * spxN) b)

/-- `AuthOk` for a walk over groups below the top three levels. -/
def AuthOkX8 {n : ℕ} (nd : ℕ → ℕ → Block) (treeHeight leafIdx authPath idx h : ℕ)
    (mem : Vector UInt8 n) : Prop :=
  ∀ k < treeHeight - 3, Done idx h k (leafIdx >>> k / 8) →
    slice mem (authPath + k * spxN) spxN = nd k (siblingIdx leafIdx k)

section Walk

variable {H} {ctx : SpxCtx} {base : Addr}
  {layer tree type keypair treeHeight idxOffset : ℕ} {nd : ℕ → ℕ → Block}
  {P : Query → Prop} {n : ℕ} {leafIdx authPath : ℕ}

theorem AuthOkX8.write_step {idx h j : ℕ} {mem : Vector UInt8 n}
    (hauth : AuthOkX8 nd treeHeight leafIdx authPath idx h mem)
    (hbound : authPath + treeHeight * spxN ≤ n) (hh : h < treeHeight - 3)
    (hleaf : leafIdx < 2 ^ 32) (hj : j < 2 ^ 29)
    (hend : idx + 1 = (j + 1) * 2 ^ h) :
    AuthOkX8 nd treeHeight leafIdx authPath idx (h + 1)
      (if (((j <<< 3) % 2 ^ 32) ^^^ (leafIdx >>> h)) &&& 0xFFFFFFF8 = 0 then
        write mem (authPath + h * spxN)
          (group nd h j (laneIdx (((leafIdx >>> h &&& 7) ^^^ 1) + 0)))
      else mem) := by
  intro k hk hdone
  simp only [spxN] at hbound ⊢
  have hlt : leafIdx >>> h < 2 ^ 32 := Nat.lt_of_le_of_lt (Nat.shiftRight_le _ _) hleaf
  rw [shiftLeft_three_mod hj]
  by_cases hgroup : leafIdx >>> h / 8 = j
  · have hentry : group nd h j (laneIdx (((leafIdx >>> h &&& 7) ^^^ 1) + 0)) =
        nd h (siblingIdx leafIdx h) := by
      unfold group
      rw [Fin.val_ofNat, Nat.add_zero, Nat.mod_eq_of_lt (xor_one_and_seven_lt _),
        ← hgroup, ← xor_one_eq_group]
    rw [if_pos ((group_test_iff hj hlt).mpr hgroup), hentry]
    by_cases hkh : k = h
    · rw [hkh, slice_write_self _ _ _ (by omega)]
    · rw [slice_write_of_disjoint _ _ _ _ _ (by omega)]
      rcases hdone.cases with hold | ⟨hnew, _⟩
      · exact hauth k hk hold
      · exact absurd hnew hkh
  · rw [if_neg fun h => hgroup ((group_test_iff hj hlt).mp h)]
    rcases hdone.cases with hold | ⟨rfl, heq⟩
    · exact hauth k hk hold
    · rw [hend] at heq
      have hidx := Nat.mul_right_cancel (Nat.two_pow_pos k) heq
      exact absurd (by omega) hgroup

/-- In the top three levels the path entry of height `h` is always written for a
leaf of the tree. -/
theorem PathOk.write_step {h r : ℕ} {mem : Vector UInt8 n}
    (hpath : PathOk nd treeHeight leafIdx authPath h mem) (hr3 : r < 3)
    (hr : h + (r + 1) = treeHeight) (hbound : authPath + treeHeight * spxN ≤ n)
    {current : Lanes Block} (hcur : TopNodes nd h (r + 1) current) :
    PathOk nd treeHeight leafIdx authPath (h + 1)
      (if (((0 <<< 3) % 2 ^ 32) ^^^ (leafIdx >>> h)) &&& 0xFFFFFFF8 = 0 then
        write mem (authPath + h * spxN)
          (current (laneIdx (((leafIdx >>> h &&& 7) ^^^ 1) + (8 - 2 ^ (r + 1)))))
      else mem) := by
  intro hleaf k hk
  simp only [spxN] at hbound ⊢
  have hpow : 2 ^ (r + 1) ≤ 8 := Nat.pow_le_pow_right (by decide) (show r + 1 ≤ 3 by omega)
  have hlt : leafIdx >>> h < 2 ^ (r + 1) := by
    rw [Nat.shiftRight_eq_div_pow, Nat.div_lt_iff_lt_mul (Nat.two_pow_pos h),
      ← Nat.pow_add, Nat.add_comm (r + 1) h, hr]
    exact hleaf
  have hsib : siblingIdx leafIdx h < 2 ^ (r + 1) :=
    Nat.xor_lt_two_pow hlt (Nat.one_lt_two_pow (by omega))
  have hgroup : siblingIdx leafIdx h = (leafIdx >>> h &&& 7) ^^^ 1 := by
    rw [siblingIdx, xor_one_eq_group, Nat.div_eq_of_lt (by omega), Nat.mul_zero,
      Nat.zero_add]
  have htest : (((0 <<< 3) % 2 ^ 32) ^^^ (leafIdx >>> h)) &&& 0xFFFFFFF8 = 0 := by
    rw [shiftLeft_three_mod (by decide), group_test_iff (by decide) (by omega)]
    exact Nat.div_eq_of_lt (by omega)
  rw [if_pos htest, ← hgroup, hcur (laneIdx (siblingIdx leafIdx h + (8 - 2 ^ (r + 1))))
    (siblingIdx leafIdx h) (by
      rw [Fin.val_ofNat]
      omega)]
  rcases Nat.lt_succ_iff_lt_or_eq.mp hk with hlt | rfl
  · rw [slice_write_of_disjoint _ _ _ _ _ (by omega)]
    exact hpath hleaf k hlt
  · rw [slice_write_self _ _ _ (by omega)]

theorem treehashx8Climb_top_sat
    (W : NodeTree H ctx base treeHeight idxOffset nd P)
    (hP : ∀ a i o, P (.thash a i o)) (M : Vector UInt8 n → Prop)
    (hM : ∀ mem k (b : Block), k < treeHeight → M mem →
      M (write mem (authPath + k * spxN) b))
    (hbound : authPath + treeHeight * spxN ≤ n) (hoff : idxOffset < 2 ^ 32)
    (stack : ℕ → Lanes Block) (idx r h : ℕ) (hr3 : r ≤ 3) (hr : h + r = treeHeight)
    (hlast : ¬ idx < 2 ^ (treeHeight - 3) - 1) (s : TreeHashStateX8 n)
    (hcur : TopNodes nd h r s.current) (hadj : s.leftAdj = 8 - 2 ^ r)
    (haddr : ∀ l, TreeAddr base (s.treeAddr l)) (hmem : M s.mem)
    (hpath : PathOk nd treeHeight leafIdx authPath h s.mem) :
    Traced.Sat P
      (fun t => M t.2.mem ∧ (∀ l, TreeAddr base (t.2.treeAddr l)) ∧
        t.1 = none ∧ t.2.current 7 = nd treeHeight 0 ∧
        PathOk nd treeHeight leafIdx authPath treeHeight t.2.mem)
      (treehashx8Climb H ctx treeHeight authPath idx (2 ^ (treeHeight - 3) - 1) stack
        r h 0 (leafIdx >>> h) (idxOffset >>> h) s) := by
  induction r generalizing h s with
  | zero =>
      have hh : h = treeHeight := hr
      subst hh
      rw [treehashx8Climb]
      exact Traced.Sat.pure ⟨hmem, haddr, rfl, hcur 7 0 rfl, hpath⟩
  | succ r ih =>
      have hpath' := hpath.write_step (by omega) hr hbound hcur
      rw [← hadj] at hpath'
      have hmem' : M (if (((0 <<< 3) % 2 ^ 32) ^^^ (leafIdx >>> h)) &&& 0xFFFFFFF8 = 0
          then write s.mem (authPath + h * spxN)
            (s.current (laneIdx (((leafIdx >>> h &&& 7) ^^^ 1) + s.leftAdj)))
          else s.mem) := by
        split
        · exact hM _ _ _ (by omega) hmem
        · exact hmem
      have htop : treeHeight - 3 ≤ h := by omega
      have hadj' : 8 - 2 ^ (treeHeight - h - 1) = 8 - 2 ^ r := by
        rw [show treeHeight - h - 1 = r by omega]
      rw [treehashx8Climb]
      simp only [if_pos htop, hlast, and_false, if_false, hadj']
      refine (thashx8_sat H hP _ ctx _).bind ?_
      intro current hcurrent
      have haddr' (l : Fin 8) : TreeAddr base
          (setTreeIndex (setTreeHeight (s.treeAddr l) (h + 1))
            (laneTreeIndex 0 (8 - 2 ^ r) (idxOffset >>> h >>> 1) l)) := by
        rw [(haddr l).set_eq]
        exact TreeAddr.nodeAddr _ _ _
      have hnodes : TopNodes nd (h + 1) r current := by
        intro l i hl
        have hoffh := shiftRight_succ_lt hoff h
        have hl8 := l.isLt
        rw [hcurrent l, (haddr l).set_eq, ← Nat.shiftRight_add,
          laneTreeIndex_eq (i := i) (by decide) (by omega) (by omega),
          hcur.mergeInput (by omega) _ l i hl, W.node_succ h (by omega) i]
      rw [← Nat.shiftRight_add, ← Nat.shiftRight_add] at *
      exact ih (h + 1) (by omega) (by omega) _ hnodes rfl haddr' hmem' hpath'

/-- When the last group reaches the top three levels every path entry below them
is written. -/
theorem AuthOkX8.pathOk {idx : ℕ} {mem : Vector UInt8 n}
    (hauth : AuthOkX8 nd treeHeight leafIdx authPath idx (treeHeight - 3) mem)
    (hlast : idx = 2 ^ (treeHeight - 3) - 1) :
    PathOk nd treeHeight leafIdx authPath (treeHeight - 3) mem := by
  intro hleaf k hk
  refine hauth k hk ?_
  rw [hlast]
  refine done_last hk ?_
  rw [Nat.shiftRight_eq_div_pow, Nat.div_div_eq_div_mul, ← Nat.pow_add (m := k) (n := 3),
    Nat.div_lt_iff_lt_mul (Nat.two_pow_pos _), ← Nat.pow_add]
  rwa [show treeHeight - 3 - k + (k + 3) = treeHeight by omega]

/-- What a climb from group `idx` returns: the logical left child it stops at, or the root
after the last group. -/
def ClimbResultX8 (base : Addr) (treeHeight leafIdx authPath : ℕ) (nd : ℕ → ℕ → Block)
    (M : Vector UInt8 n → Prop) (idx : ℕ) (t : Option ℕ × TreeHashStateX8 n) : Prop :=
  M t.2.mem ∧ (∀ l, TreeAddr base (t.2.treeAddr l)) ∧
    t.1.elim
      (idx = 2 ^ (treeHeight - 3) - 1 ∧ t.2.current (laneIdx 7) = nd treeHeight 0 ∧
        PathOk nd treeHeight leafIdx authPath treeHeight t.2.mem)
      fun h => idx < 2 ^ (treeHeight - 3) - 1 ∧ t.2.leftAdj = 0 ∧
        t.2.prevLeftAdj = 0 ∧ ∃ j, j % 2 = 0 ∧
        idx + 1 = (j + 1) * 2 ^ h ∧ t.2.current = group nd h j ∧
        AuthOkX8 nd treeHeight leafIdx authPath idx (h + 1) t.2.mem

/-- The last group enters the top three levels with eight real nodes. -/
theorem treehashx8Climb_last_sat
    (W : NodeTree H ctx base treeHeight idxOffset nd P)
    (hP : ∀ a i o, P (.thash a i o)) (M : Vector UInt8 n → Prop)
    (hM : ∀ mem k (b : Block), k < treeHeight → M mem →
      M (write mem (authPath + k * spxN) b))
    (hbound : authPath + treeHeight * spxN ≤ n) (hoff : idxOffset < 2 ^ 32)
    (hheight : 3 ≤ treeHeight) {idx : ℕ} (hlast : idx = 2 ^ (treeHeight - 3) - 1)
    (stack : ℕ → Lanes Block) (s : TreeHashStateX8 n)
    (hcur : s.current = group nd (treeHeight - 3) 0) (hadj : s.leftAdj = 0)
    (haddr : ∀ l, TreeAddr base (s.treeAddr l)) (hmem : M s.mem)
    (hauth : AuthOkX8 nd treeHeight leafIdx authPath idx (treeHeight - 3) s.mem) :
    Traced.Sat P (ClimbResultX8 base treeHeight leafIdx authPath nd M idx)
      (treehashx8Climb H ctx treeHeight authPath idx (2 ^ (treeHeight - 3) - 1) stack
        3 (treeHeight - 3) 0 (leafIdx >>> (treeHeight - 3)) (idxOffset >>> (treeHeight - 3))
        s) := by
  have htop : TopNodes nd (treeHeight - 3) 3 s.current := by
    intro l i hl
    have hli : l.val = i := by omega
    rw [hcur, group, Nat.mul_zero, Nat.zero_add, hli]
  have hclimb := treehashx8Climb_top_sat W hP M hM hbound hoff stack idx 3 (treeHeight - 3)
    le_rfl (by omega) (by omega) s htop hadj haddr hmem (hauth.pathOk hlast)
  refine hclimb.mono ?_
  rintro ⟨stop, t⟩ ⟨hmem, haddr, hstop, hroot, hpath⟩
  cases hstop
  exact ⟨hmem, haddr, hlast, hroot, hpath⟩

/-- A right logical node below the top three levels and its sibling make their parent. -/
theorem thashx8_group_sat (W : NodeTree H ctx base treeHeight idxOffset nd P)
    (hP : ∀ a i o, P (.thash a i o)) (hoff : idxOffset < 2 ^ 32) {h p : ℕ}
    (hh : h < treeHeight) (hp : 2 * p + 1 < 2 ^ 29) {treeAddr : Lanes Addr}
    (haddr : ∀ l, TreeAddr base (treeAddr l)) :
    Traced.Sat P (fun current => current = group nd (h + 1) p)
      (thashx8 H (mergeInput (group nd h (2 * p)) (group nd h (2 * p + 1))) ctx fun l =>
        setTreeIndex (setTreeHeight (treeAddr l) (h + 1))
          (laneTreeIndex (2 * p + 1) 0 (idxOffset >>> h >>> 1) l)) := by
  refine (thashx8_sat H hP _ ctx _).mono ?_
  intro current hcurrent
  funext l
  have hoffh := shiftRight_succ_lt hoff h
  have hl8 := l.isLt
  rw [hcurrent l, (haddr l).set_eq, ← Nat.shiftRight_add,
    laneTreeIndex_eq (i := 8 * p + l.val) (by omega) (by omega) (by omega),
    mergeInput_group, group, W.node_succ h hh (8 * p + l.val)]

theorem treehashx8Climb_sat
    (W : NodeTree H ctx base treeHeight idxOffset nd P)
    (hP : ∀ a i o, P (.thash a i o)) (M : Vector UInt8 n → Prop)
    (hM : ∀ mem k (b : Block), k < treeHeight → M mem →
      M (write mem (authPath + k * spxN) b))
    (hbound : authPath + treeHeight * spxN ≤ n) (hoff : idxOffset < 2 ^ 32)
    (hheight : 3 ≤ treeHeight ∧ treeHeight ≤ 31) (hleaf : leafIdx < 2 ^ 32) {idx : ℕ}
    (hidx : idx < 2 ^ (treeHeight - 3)) {stack : ℕ → Lanes Block}
    (hstack : StackOk (group nd) (treeHeight - 3) idx stack) (r h j : ℕ)
    (hr : h + r = treeHeight) (hh : h ≤ treeHeight - 3)
    (hend : idx + 1 = (j + 1) * 2 ^ h) (s : TreeHashStateX8 n)
    (hcur : s.current = group nd h j) (hadj : s.leftAdj = 0)
    (hprev : s.prevLeftAdj = 0)
    (haddr : ∀ l, TreeAddr base (s.treeAddr l)) (hmem : M s.mem)
    (hauth : AuthOkX8 nd treeHeight leafIdx authPath idx h s.mem) :
    Traced.Sat P (ClimbResultX8 base treeHeight leafIdx authPath nd M idx)
      (treehashx8Climb H ctx treeHeight authPath idx (2 ^ (treeHeight - 3) - 1) stack
        r h j (leafIdx >>> h) (idxOffset >>> h) s) := by
  induction r generalizing h j s with
  | zero => omega
  | succ r ih =>
      have hjr := index_lt_of_climb (r := treeHeight - 3 - h) (by omega) hidx hend
      rcases Nat.eq_or_lt_of_le hh with rfl | hlow
      · obtain rfl : r = 2 := by omega
        obtain rfl : j = 0 := by
          rw [Nat.sub_self] at hjr
          omega
        exact treehashx8Climb_last_sat W hP M hM hbound hoff hheight.1 (by omega) stack s hcur
          hadj haddr hmem hauth
      · have hj29 : j < 2 ^ 29 :=
          Nat.lt_of_lt_of_le hjr (Nat.pow_le_pow_right (by decide) (by omega))
        have hauth' := hauth.write_step hbound hlow hleaf hj29 hend
        have hmem' : M (if (((j <<< 3) % 2 ^ 32) ^^^ (leafIdx >>> h)) &&& 0xFFFFFFF8 = 0
            then write s.mem (authPath + h * spxN)
              (s.current (laneIdx (((leafIdx >>> h &&& 7) ^^^ 1) + 0)))
            else s.mem) := by
          split
          · exact hM _ _ _ (by omega) hmem
          · exact hmem
        have hnottop : ¬ treeHeight - 3 ≤ h := by omega
        rw [treehashx8Climb]
        simp only [if_neg hnottop, hadj, hprev]
        by_cases hstop : j &&& 1 = 0 ∧ idx < 2 ^ (treeHeight - 3) - 1
        · simp only [if_pos hstop]
          rw [Nat.and_one_is_mod] at hstop
          rw [← hcur] at hauth'
          exact Traced.Sat.pure ⟨hmem', haddr, hstop.2, rfl, rfl, j, hstop.1, hend, hcur,
            hauth'⟩
        · simp only [if_neg hstop]
          rw [Nat.and_one_is_mod] at hstop
          obtain ⟨p, rfl, hend'⟩ := exists_parent_of_climb hlow hidx hend hstop
          have hshift : (2 * p + 1) >>> 1 = p := by
            rw [Nat.shiftRight_one]
            omega
          rw [hstack.left_sibling hlow hend, hcur, hshift]
          rw [hcur] at hmem'
          refine (thashx8_group_sat W hP hoff (by omega) hj29 haddr).bind ?_
          intro current hnodes
          have haddr' (l : Fin 8) : TreeAddr base
              (setTreeIndex (setTreeHeight (s.treeAddr l) (h + 1))
                (laneTreeIndex (2 * p + 1) 0 (idxOffset >>> h >>> 1) l)) := by
            rw [(haddr l).set_eq]
            exact TreeAddr.nodeAddr _ _ _
          rw [← Nat.shiftRight_add, ← Nat.shiftRight_add] at *
          exact ih (h + 1) p (by omega) (by omega) hend' _ hnodes rfl rfl haddr' hmem'
            hauth'

theorem treehashx8Climb_leaf_sat {ι : Type}
    {genLeafx8 : ℕ → ι → Vector UInt8 n →
      Traced Query (Lanes Block × ι × Vector UInt8 n)}
    {Inv : ℕ → ι → Vector UInt8 n → Prop}
    (W : NodeTree H ctx base treeHeight idxOffset nd P)
    (G : LeafGenX8 nd P treeHeight idxOffset authPath genLeafx8 Inv)
    (hP : ∀ a i o, P (.thash a i o)) (hbound : authPath + treeHeight * spxN ≤ n)
    (hoff : idxOffset < 2 ^ 32) (hheight : 3 ≤ treeHeight ∧ treeHeight ≤ 31)
    (hleaf : leafIdx < 2 ^ 32) {idx : ℕ} (hidx : idx < 2 ^ (treeHeight - 3))
    {stack : ℕ → Lanes Block} (hstack : StackOk (group nd) (treeHeight - 3) idx stack)
    {treeAddr : Lanes Addr} (haddr : ∀ l, TreeAddr base (treeAddr l))
    {mem mem' : Vector UInt8 n}
    (hauth : AuthOkX8 nd treeHeight leafIdx authPath idx 0 mem) {leaves : Lanes Block}
    {info : ι} (hleaves : leaves = group nd 0 idx) (hinv : Inv (8 * (idx + 1)) info mem')
    (hframe : ∀ k < treeHeight, slice mem' (authPath + k * spxN) spxN =
      slice mem (authPath + k * spxN) spxN) :
    Traced.Sat P
      (ClimbResultX8 base treeHeight leafIdx authPath nd (Inv (8 * (idx + 1)) info) idx)
      (treehashx8Climb H ctx treeHeight authPath idx (2 ^ (treeHeight - 3) - 1) stack
        treeHeight 0 idx leafIdx idxOffset ⟨leaves, treeAddr, 0, 0, mem'⟩) := by
  have hauth' : AuthOkX8 nd treeHeight leafIdx authPath idx 0 mem' :=
    fun k hk hdone => (hframe k (by omega)).trans (hauth k hk hdone)
  exact treehashx8Climb_sat W hP (Inv (8 * (idx + 1)) info)
    (fun mem k b hk hm => G.write _ _ _ k b hk hm) hbound hoff hheight hleaf hidx hstack
    treeHeight 0 idx (by omega) (by omega) (by omega) ⟨leaves, treeAddr, 0, 0, mem'⟩
    hleaves rfl rfl haddr hinv hauth'

/-- What a whole walk over groups returns. -/
def WalkResultX8 {ι : Type} (treeHeight leafIdx authPath : ℕ) (nd : ℕ → ℕ → Block)
    (Inv : ℕ → ι → Vector UInt8 n → Prop)
    (r : Block × Lanes Addr × ι × Vector UInt8 n) : Prop :=
  r.1 = nd treeHeight 0 ∧ Inv (2 ^ treeHeight) r.2.2.1 r.2.2.2 ∧
    PathOk nd treeHeight leafIdx authPath treeHeight r.2.2.2

theorem treehashx8Loop_sat {ι : Type}
    {genLeafx8 : ℕ → ι → Vector UInt8 n →
      Traced Query (Lanes Block × ι × Vector UInt8 n)}
    {Inv : ℕ → ι → Vector UInt8 n → Prop}
    (W : NodeTree H ctx base treeHeight idxOffset nd P)
    (G : LeafGenX8 nd P treeHeight idxOffset authPath genLeafx8 Inv)
    (hP : ∀ a i o, P (.thash a i o)) (hbound : authPath + treeHeight * spxN ≤ n)
    (hoff : idxOffset < 2 ^ 32) (hheight : 3 ≤ treeHeight ∧ treeHeight ≤ 31)
    (hleaf : leafIdx < 2 ^ 32) (rest idx : ℕ)
    (hrest : idx + rest = 2 ^ (treeHeight - 3) - 1) (stack : ℕ → Lanes Block)
    (hstack : StackOk (group nd) (treeHeight - 3) idx stack) (treeAddr : Lanes Addr)
    (haddr : ∀ l, TreeAddr base (treeAddr l)) (info : ι)
    (mem : Vector UInt8 n) (hinv : Inv (8 * idx) info mem)
    (hauth : AuthOkX8 nd treeHeight leafIdx authPath idx 0 mem) :
    Traced.Sat P (WalkResultX8 treeHeight leafIdx authPath nd Inv)
      (treehashx8Loop H ctx genLeafx8 leafIdx idxOffset treeHeight authPath
        (2 ^ (treeHeight - 3) - 1) rest idx stack treeAddr 0 0 info mem) := by
  have hpos : 0 < 2 ^ (treeHeight - 3) := Nat.two_pow_pos _
  have hpow : 8 * 2 ^ (treeHeight - 3) = 2 ^ treeHeight := by
    rw [show (8 : ℕ) = 2 ^ 3 by rfl, ← Nat.pow_add]
    congr 1
    omega
  induction rest generalizing idx stack treeAddr info mem with
  | zero =>
      rw [treehashx8Loop]
      refine (G.gen idx (by omega) info mem hinv).bind ?_
      rintro ⟨leaves, info, mem'⟩ ⟨hleaves, hinv, hframe⟩
      refine (treehashx8Climb_leaf_sat W G hP hbound hoff hheight hleaf (by omega) hstack
        haddr hauth hleaves hinv hframe).bind ?_
      rintro ⟨stop, s⟩ ⟨hmem, haddr, hstop⟩
      cases stop with
      | some h => exact absurd hstop.1 (by omega)
      | none =>
          obtain ⟨hlast, hroot, hpath⟩ := hstop
          rw [show 8 * (idx + 1) = 2 ^ treeHeight by omega] at hmem
          exact Traced.Sat.pure ⟨hroot, hmem, hpath⟩
  | succ rest ih =>
      rw [treehashx8Loop]
      refine (G.gen idx (by omega) info mem hinv).bind ?_
      rintro ⟨leaves, info, mem'⟩ ⟨hleaves, hinv, hframe⟩
      refine (treehashx8Climb_leaf_sat W G hP hbound hoff hheight hleaf (by omega) hstack
        haddr hauth hleaves hinv hframe).bind ?_
      rintro ⟨stop, s⟩ ⟨hmem, haddr, hstop⟩
      cases stop with
      | none => exact absurd hstop.1 (by omega)
      | some h =>
          obtain ⟨_, hadj, hprev, j, hj, hend, hcur, hauth⟩ := hstop
          simp only at hadj hprev ⊢
          rw [hadj, hprev]
          refine ih (idx + 1) (by omega) _ ?_ _ haddr _ _ hmem ?_
          · rw [hcur]
            exact hstack.update hj hend
          · exact fun k hk hdone => hauth k hk (done_of_done_next hj hend hdone)

theorem treehashx8_node_sat {ι : Type}
    {genLeafx8 : ℕ → ι → Vector UInt8 n →
      Traced Query (Lanes Block × ι × Vector UInt8 n)}
    {Inv : ℕ → ι → Vector UInt8 n → Prop}
    (W : NodeTree H ctx base treeHeight idxOffset nd P)
    (G : LeafGenX8 nd P treeHeight idxOffset authPath genLeafx8 Inv)
    (hP : ∀ a i o, P (.thash a i o)) (hbound : authPath + treeHeight * spxN ≤ n)
    (hoff : idxOffset < 2 ^ 32) (hheight : 3 ≤ treeHeight ∧ treeHeight ≤ 31)
    (hleaf : leafIdx < 2 ^ 32) (stack : ℕ → Lanes Block) {treeAddr : Lanes Addr}
    (haddr : ∀ l, TreeAddr base (treeAddr l)) {info : ι} {mem : Vector UInt8 n}
    (hinv : Inv 0 info mem) :
    Traced.Sat P (WalkResultX8 treeHeight leafIdx authPath nd Inv)
      (treehashx8 H ctx genLeafx8 leafIdx idxOffset treeHeight authPath stack treeAddr
        info mem) :=
  treehashx8Loop_sat W G hP hbound hoff hheight hleaf _ 0 (Nat.zero_add _) stack
    (stackOk_zero _ _ stack) treeAddr haddr info mem hinv
    fun k _ hdone => absurd hdone (not_done_zero k _)

/-- `treehashx8` builds the tree of `nd`, with node addresses of the given fields. -/
theorem treehashx8_sat {ι : Type}
    {genLeafx8 : ℕ → ι → Vector UInt8 n →
      Traced Query (Lanes Block × ι × Vector UInt8 n)}
    {Inv : ℕ → ι → Vector UInt8 n → Prop}
    (W : WalkTree H ctx layer tree type keypair treeHeight idxOffset nd P)
    (G : LeafGenX8 nd P treeHeight idxOffset authPath genLeafx8 Inv)
    (hP : ∀ a i o, P (.thash a i o)) (hbound : authPath + treeHeight * spxN ≤ n)
    (hoff : idxOffset < 2 ^ 31) (hheight : 3 ≤ treeHeight ∧ treeHeight ≤ 31)
    (hleaf : leafIdx < 2 ^ 32) (stack : ℕ → Lanes Block) {treeAddr : Lanes Addr}
    (haddr : ∀ l, WalkAddr layer tree type keypair (treeAddr l)) {info : ι}
    {mem : Vector UInt8 n} (hinv : Inv 0 info mem) :
    Traced.Sat P (WalkResultX8 treeHeight leafIdx authPath nd Inv)
      (treehashx8 H ctx genLeafx8 leafIdx idxOffset treeHeight authPath stack treeAddr
        info mem) :=
  treehashx8_node_sat W.nodeTree G hP hbound (hoff.trans (by decide)) hheight hleaf stack
    (fun l => (haddr l).treeAddr) hinv

end Walk

end BitcoinPqc
