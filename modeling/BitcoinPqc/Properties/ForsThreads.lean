import BitcoinPqc.Properties.TreeShapes
import BitcoinPqc.Sphincs.ForsThreads

/-!
# Threads sign what one thread signs

Signing with one tree writes the part of that tree in the signature and its root, and
both depend on nothing that another tree leaves. So the trees may be signed in any order.
The ranges of the workers and the fallback loop together are the seven trees, whichever
worker could not be started, and the roots are hashed only after all of them.
-/

namespace BitcoinPqc

open Merkle

/-!
## One tree
-/

section Tree

variable (H : HashFns) (ctx : SpxCtx) (forsAddr : Addr) (leafIdx t : ℕ)

/-- `fors_gen_leafx1` without the memory, which it does not use. -/
def forsLeafx1 (addrIdx : ℕ) (leafAddr : Addr) : Traced Query (Block × Addr) := do
  let leafAddr := setTreeIndex leafAddr addrIdx
  let leafAddr := setType leafAddr addrTypeForsPrf
  let sk ← prfAddr H ctx leafAddr
  let leafAddr := setType leafAddr addrTypeForsTree
  let leaf ← thash H [sk] ctx leafAddr
  pure (leaf, leafAddr)

theorem forsGenLeafx1_eq {n : ℕ} :
    forsGenLeafx1 (n := n) H ctx = besidePath (forsLeafx1 H ctx) := by
  funext addrIdx leafAddr mem
  simp only [forsGenLeafx1, besidePath, forsLeafx1, bind_assoc, pure_bind]

/-- The address under which the secret value of the opened leaf is derived. -/
def forsSecretAddr : Addr :=
  setType (setTreeIndex (setTreeHeight (copyKeypairAddr zeroAddr forsAddr) 0)
    (leafIdx + t * 2 ^ spxForsHeight)) addrTypeForsPrf

/-- The nodes of a tree under an arbitrary address. -/
def forsShapeNode : ℕ → ℕ → Block :=
  shapeNode H ctx (setType (forsSecretAddr forsAddr leafIdx t) addrTypeForsTree)
    (t * 2 ^ spxForsHeight)
    (genLeaves (forsLeafx1 H ctx) (fun i => i + t * 2 ^ spxForsHeight)
      (copyKeypairAddr zeroAddr forsAddr))

/-- The blocks of the part of a signature for one tree. -/
def forsPartBlock : ℕ → Block
  | 0 => (prfAddr H ctx (forsSecretAddr forsAddr leafIdx t)).val
  | k + 1 => forsShapeNode H ctx forsAddr leafIdx t k (siblingIdx leafIdx k)

/-- The part of a signature for one tree. -/
def forsPart : Vector UInt8 treeBytes :=
  (List.range (spxForsHeight + 1)).foldl
    (fun x k => write x (spxN * k) (forsPartBlock H ctx forsAddr leafIdx t k))
    (Vector.replicate treeBytes 0)

/-- The tree walk of `fors_sign_tree`. -/
def forsWalk (E : Build) {n : ℕ} (sigTree : ℕ) (mem : Vector UInt8 n) :
    Traced Query (Block × Addr × Addr × Vector UInt8 n) :=
  treehashx1 H ctx (besidePath (forsLeafx1 H ctx)) leafIdx (t * 2 ^ spxForsHeight)
    spxForsHeight (sigTree + spxN) E.uninit
    (setType (forsSecretAddr forsAddr leafIdx t) addrTypeForsTree)
    (copyKeypairAddr zeroAddr forsAddr)
    (write mem sigTree (forsPartBlock H ctx forsAddr leafIdx t 0))

theorem forsSignTree_val_eq (E : Build) {n : ℕ} (sigTree : ℕ) (mem : Vector UInt8 n) :
    (forsSignTree E H sigTree mem ctx forsAddr leafIdx t).val =
      ((forsWalk H ctx forsAddr leafIdx t E sigTree mem).val.1,
        (forsWalk H ctx forsAddr leafIdx t E sigTree mem).val.2.2.2) := by
  simp only [forsSignTree, forsGenLeafx1_eq, Traced.val_bind, Traced.val_pure, forsWalk,
    forsPartBlock, forsSecretAddr]

variable {leafIdx} {n sigTree : ℕ}

/-- The memory while the tree is walked. -/
def ForsPartMem (mem mem' : Vector UInt8 n) (sigTree : ℕ) (sk : Block) : Prop :=
  EqOutside mem' mem sigTree (sigTree + treeBytes) ∧ slice mem' sigTree spxN = sk

theorem ForsPartMem.write {mem mem' : Vector UInt8 n} {sk : Block}
    (h : ForsPartMem mem mem' sigTree sk) {k : ℕ} (hk : k < spxForsHeight) (b : Block) :
    ForsPartMem mem (BitcoinPqc.write mem' (sigTree + spxN + k * spxN) b) sigTree sk := by
  simp only [spxForsHeight] at hk
  refine ⟨((EqOutside.write mem' _ b).mono ?_ ?_).trans h.1, ?_⟩
  · omega
  · simp only [spxN, treeBytes, spxForsHeight]
    omega
  · rw [slice_write_of_disjoint _ _ _ _ _ (by omega)]
    exact h.2

theorem forsPartMem_start (hbound : sigTree + treeBytes ≤ n) (mem : Vector UInt8 n)
    (sk : Block) : ForsPartMem mem (write mem sigTree sk) sigTree sk := by
  simp only [treeBytes, spxForsHeight, spxN] at hbound
  refine ⟨(EqOutside.write mem sigTree sk).mono le_rfl ?_, slice_write_self _ _ _ (by omega)⟩
  simp only [treeBytes, spxForsHeight, spxN]
  omega

theorem forsWalk_result (E : Build) (hbound : sigTree + treeBytes ≤ n)
    (mem : Vector UInt8 n) :
    NodeResult (setType (forsSecretAddr forsAddr leafIdx t) addrTypeForsTree) spxForsHeight
      leafIdx (sigTree + spxN) (forsShapeNode H ctx forsAddr leafIdx t)
      (fun i state mem' =>
        state = genInfo (forsLeafx1 H ctx) (fun i => i + t * 2 ^ spxForsHeight)
          (copyKeypairAddr zeroAddr forsAddr) i ∧
        ForsPartMem mem mem' sigTree (forsPartBlock H ctx forsAddr leafIdx t 0))
      (forsWalk H ctx forsAddr leafIdx t E sigTree mem).val :=
  treehashx1_shape H ctx (forsLeafx1 H ctx) leafIdx (t * 2 ^ spxForsHeight)
    (by
      simp only [treeBytes, spxForsHeight, spxN] at hbound ⊢
      omega) E.uninit _ _ _ _ (fun _ _ b hk h => h.write hk b) (forsPartMem_start hbound mem _)

theorem forsWalk_spec (E : Build) (hidx : leafIdx < 2 ^ spxForsHeight)
    (hbound : sigTree + treeBytes ≤ n) (mem : Vector UInt8 n) :
    (forsWalk H ctx forsAddr leafIdx t E sigTree mem).val.1 =
        forsShapeNode H ctx forsAddr leafIdx t spxForsHeight 0 ∧
      EqOutside (forsWalk H ctx forsAddr leafIdx t E sigTree mem).val.2.2.2 mem sigTree
        (sigTree + treeBytes) ∧
      ∀ j < spxForsHeight + 1,
        slice (forsWalk H ctx forsAddr leafIdx t E sigTree mem).val.2.2.2
            (sigTree + spxN * j) spxN =
          forsPartBlock H ctx forsAddr leafIdx t j := by
  obtain ⟨hroot, _, ⟨_, hout, hsk⟩, hpath⟩ := forsWalk_result H ctx forsAddr t E hbound mem
  refine ⟨hroot, hout, ?_⟩
  intro j hj
  cases j with
  | zero => exact hsk
  | succ k =>
      have hk := hpath hidx k (Nat.lt_of_succ_lt_succ hj)
      rw [show sigTree + spxN * (k + 1) = sigTree + spxN + k * spxN by
        simp only [spxN]
        omega]
      exact hk

/-- `fors_sign_tree` writes the part of its tree and nothing else, whatever the memory and
the stack held. -/
theorem forsSignTree_val (E : Build) (hidx : leafIdx < 2 ^ spxForsHeight)
    (hbound : sigTree + treeBytes ≤ n) (mem : Vector UInt8 n) :
    (forsSignTree E H sigTree mem ctx forsAddr leafIdx t).val =
      (forsShapeNode H ctx forsAddr leafIdx t spxForsHeight 0,
        write mem sigTree (forsPart H ctx forsAddr leafIdx t)) := by
  obtain ⟨hroot, hout, hblock⟩ := forsWalk_spec H ctx forsAddr t E hidx hbound mem
  have hpart : slice (forsWalk H ctx forsAddr leafIdx t E sigTree mem).val.2.2.2 sigTree
      treeBytes = forsPart H ctx forsAddr leafIdx t := by
    apply ext_of_blocks spxN (spxForsHeight + 1) (by decide) rfl
    intro j hj
    have hfit : spxN * j + spxN ≤ treeBytes := by
      simp only [spxForsHeight, spxN, treeBytes] at hj ⊢
      omega
    rw [slice_slice _ _ _ _ _ hfit hbound, hblock j hj, forsPart]
    exact (slice_foldl_write (forsPartBlock H ctx forsAddr leafIdx t) _ le_rfl hj).symm
  rw [forsSignTree_val_eq, hroot, eq_write_of_eqOutside hout hbound, hpart]

end Tree

/-!
## All trees in any order
-/

section Trees

variable (H : HashFns) {n : ℕ} (sig : ℕ) (m : Block) (ctx : SpxCtx) (forsAddr : Addr)

/-- What signing with tree `i` makes of the roots and the memory. -/
def forsFill (s : (ℕ → Block) × Vector UInt8 n) (i : ℕ) : (ℕ → Block) × Vector UInt8 n :=
  (Function.update s.1 i
      (forsShapeNode H ctx forsAddr (messageToIndices m i) i spxForsHeight 0),
    write s.2 (sig + i * treeBytes) (forsPart H ctx forsAddr (messageToIndices m i) i))

/-- The trees have their own places in the roots and in the signature. -/
theorem forsFill_comm (s : (ℕ → Block) × Vector UInt8 n) (i j : ℕ) (hij : i ≠ j) :
    forsFill H sig m ctx forsAddr (forsFill H sig m ctx forsAddr s i) j =
      forsFill H sig m ctx forsAddr (forsFill H sig m ctx forsAddr s j) i := by
  refine Prod.ext (Function.update_comm hij _ _ _) ?_
  refine write_comm _ _ _ _ _ ?_
  simp only [treeBytes, spxForsHeight, spxN]
  omega

theorem tree_fits {i : ℕ} (hi : i < spxForsSigTrees) (hbound : sig + spxForsBytes ≤ n) :
    sig + i * treeBytes + treeBytes ≤ n := by
  simp only [treeBytes, spxForsBytes, spxForsHeight, spxForsSigTrees, spxForsTrees,
    spxN] at hi hbound ⊢
  omega

variable {sig} {i : ℕ}

theorem forsSignLoopTree_eq (E : Build) (hi : i < spxForsSigTrees)
    (hbound : sig + spxForsBytes ≤ n) (s : ForsThreads n) :
    forsSignLoopTree H sig m ctx forsAddr E i s =
      { s with
        roots := (forsFill H sig m ctx forsAddr (s.roots, s.mem) i).1
        mem := (forsFill H sig m ctx forsAddr (s.roots, s.mem) i).2
        signed := s.signed ++ [i] } := by
  rw [forsSignLoopTree, forsSignTree_val H ctx forsAddr i E (messageToIndices_lt m i)
    (tree_fits sig hi hbound)]
  rfl

theorem forsSign_val (E : Build) (hscalar : E.hasAvx2 = false)
    (hbound : sig + spxForsBytes ≤ n) (mem : Vector UInt8 n) :
    (forsSign E H sig mem m ctx forsAddr).val =
      ((thash H ((List.range spxForsSigTrees).map
          ((List.range spxForsSigTrees).foldl (forsFill H sig m ctx forsAddr)
            (E.uninit, mem)).1) ctx
          (setType (copyKeypairAddr zeroAddr forsAddr) addrTypeForsPk)).val,
        ((List.range spxForsSigTrees).foldl (forsFill H sig m ctx forsAddr)
          (E.uninit, mem)).2) := by
  have hbody (s : (ℕ → Block) × Vector UInt8 n) (i : ℕ)
      (hi : i ∈ List.range spxForsSigTrees) :
      (Function.update s.1 i
          (forsSignTree E H (sig + i * ((spxForsHeight + 1) * spxN)) s.2 ctx forsAddr
            (messageToIndices m i) i).val.1,
        (forsSignTree E H (sig + i * ((spxForsHeight + 1) * spxN)) s.2 ctx forsAddr
          (messageToIndices m i) i).val.2) = forsFill H sig m ctx forsAddr s i := by
    rw [forsSignTree_val H ctx forsAddr i E (messageToIndices_lt m i)
      (tree_fits sig (List.mem_range.mp hi) hbound)]
    rfl
  simp only [forsSign, hscalar, Bool.false_eq_true, if_false, Traced.val_bind,
    Traced.val_pure, Traced.val_forRange]
  rw [List.foldl_ext _ _ _ hbody]

end Trees

/-!
## The invariant of a run
-/

/-- The trees that are left to the calling thread. -/
def ForsMain.trees : ForsMain → List ℕ
  | .spawn _ start _ => List.range' start (spxForsSigTrees - start)
  | .join _ start _ _ => List.range' start (spxForsSigTrees - start)
  | .scalar i => List.range' i (spxForsSigTrees - i)
  | .hash => []
  | .done _ => []

section Runs

variable (H : HashFns) {n : ℕ} (sig : ℕ) (m : Block) (ctx : SpxCtx) (forsAddr : Addr)
  (workers : ℕ)

/-- The FORS public key over the given roots. -/
def forsPkOf (roots : ℕ → Block) : Block :=
  (thash H ((List.range spxForsSigTrees).map roots) ctx
    (setType (copyKeypairAddr zeroAddr forsAddr) addrTypeForsPk)).val

/-- What the place of the calling thread says about the workers and the roots. -/
def MainOk (ws : List RangeWorker) (roots : ℕ → Block) : ForsMain → Prop
  | .spawn t start launched =>
      t = ws.length ∧ launched = ws.length ∧ t ≤ workers ∧ start ≤ spxForsSigTrees
  | .join t start launched _ =>
      launched = ws.length ∧ launched ≤ workers ∧ t ≤ launched ∧ start ≤ spxForsSigTrees ∧
        ∀ k < t, ∀ w, ws[k]? = some w → w.stop ≤ w.next
  | .scalar i => i ≤ spxForsSigTrees ∧ ∀ w ∈ ws, w.stop ≤ w.next
  | .hash => ∀ w ∈ ws, w.stop ≤ w.next
  | .done pk => (∀ w ∈ ws, w.stop ≤ w.next) ∧ pk = forsPkOf H ctx forsAddr roots

/-- The places filled in are those of the trees signed, these and the trees still to sign
are the seven trees, and the calling thread passes the joins only with finished
workers. -/
structure ForsInv (start : (ℕ → Block) × Vector UInt8 n) (s : ForsThreads n) : Prop where
  data : (s.roots, s.mem) = s.signed.foldl (forsFill H sig m ctx forsAddr) start
  trees : (s.signed ++ (pendingJobs s.workers ++ s.main.trees)).Perm
    (List.range spxForsSigTrees)
  main : MainOk H ctx forsAddr workers s.workers s.roots s.main

variable {H sig m ctx forsAddr workers} {start : (ℕ → Block) × Vector UInt8 n}
  {s s' : ForsThreads n}

/-- A worker with a tree left runs only before the joins are over, and its step does not
move the calling thread. -/
theorem MainOk.set {ws : List RangeWorker} {roots roots' : ℕ → Block} {main : ForsMain}
    (h : MainOk H ctx forsAddr workers ws roots main) {k : ℕ} {w : RangeWorker}
    (hk : ws[k]? = some w) (hw : w.next < w.stop) :
    MainOk H ctx forsAddr workers (ws.set k w.advance) roots' main := by
  have hmem : w ∈ ws := List.mem_of_getElem? hk
  cases main with
  | spawn t start launched =>
      rw [MainOk, List.length_set]
      exact h
  | join t start launched spawnFailed =>
      obtain ⟨hlen, hle, ht, hstart, hjoined⟩ := h
      rw [MainOk, List.length_set]
      refine ⟨hlen, hle, ht, hstart, ?_⟩
      intro j hj v hv
      by_cases hkj : k = j
      · subst hkj
        exact absurd (hjoined k hj w hk) (by omega)
      · rw [List.getElem?_set_ne hkj] at hv
        exact hjoined j hj v hv
  | scalar i => exact absurd (h.2 w hmem) (by omega)
  | hash => exact absurd (h w hmem) (by omega)
  | done pk => exact absurd (h.1 w hmem) (by omega)

theorem ForsInv.data_sign (h : ForsInv H sig m ctx forsAddr workers start s) (i : ℕ) :
    forsFill H sig m ctx forsAddr (s.roots, s.mem) i =
      (s.signed ++ [i]).foldl (forsFill H sig m ctx forsAddr) start := by
  rw [List.foldl_append, ← h.data]
  rfl

theorem ForsInv.lt_of_mem (h : ForsInv H sig m ctx forsAddr workers start s) {i : ℕ}
    (hi : i ∈ pendingJobs s.workers ++ s.main.trees) : i < spxForsSigTrees :=
  List.mem_range.mp (h.trees.subset (List.mem_append_right _ hi))

theorem start_add_share_le {t start : ℕ} (ht : t < workers) (hstart : start ≤ spxForsSigTrees) :
    start + forsShare workers t start ≤ spxForsSigTrees := by
  have hshare := share_le (spxForsSigTrees - start) (Nat.sub_pos_of_lt ht)
  rw [forsShare]
  omega

theorem range'_share {t start : ℕ} (ht : t < workers) (hstart : start ≤ spxForsSigTrees) :
    RangeWorker.jobs ⟨start, start + forsShare workers t start⟩ ++
        List.range' (start + forsShare workers t start)
          (spxForsSigTrees - (start + forsShare workers t start)) =
      List.range' start (spxForsSigTrees - start) :=
  (range'_split (Nat.le_add_right _ _) (start_add_share_le ht hstart)).symm

theorem finished_of_joined {ws : List RangeWorker} {t launched : ℕ}
    (hlen : launched = ws.length) (ht : ¬ t < launched)
    (hjoined : ∀ k < t, ∀ w, ws[k]? = some w → w.stop ≤ w.next) :
    ∀ w ∈ ws, w.stop ≤ w.next := by
  intro w hw
  obtain ⟨k, hk, hget⟩ := List.mem_iff_getElem.mp hw
  refine hjoined k (by omega) w ?_
  rw [List.getElem?_eq_getElem hk, hget]

theorem ForsInv.create (h : ForsInv H sig m ctx forsAddr workers start s) {t first launched : ℕ}
    (hspawn : s.main = .spawn t first launched) (ht : t < workers) :
    ForsInv H sig m ctx forsAddr workers start
      { s with
        main := .spawn (t + 1) (first + forsShare workers t first) (launched + 1)
        workers := s.workers ++ [⟨first, first + forsShare workers t first⟩] } := by
  obtain ⟨hdata, htrees, hmain⟩ := h
  rw [hspawn] at htrees hmain
  obtain ⟨hlen, hlaunched, _, hfirst⟩ := hmain
  refine ⟨hdata, ?_, ?_⟩
  · rw [pendingJobs_concat, ForsMain.trees, List.append_assoc (pendingJobs s.workers),
      range'_share ht hfirst]
    exact htrees
  · rw [MainOk, List.length_append, List.length_singleton]
    exact ⟨by omega, by omega, by omega, start_add_share_le ht hfirst⟩

/-- The joins begin after the last worker was started, and after a worker that could not be
started. -/
theorem ForsInv.startJoins (h : ForsInv H sig m ctx forsAddr workers start s)
    {t first launched : ℕ} (hspawn : s.main = .spawn t first launched) (spawnFailed : Bool) :
    ForsInv H sig m ctx forsAddr workers start
      { s with main := .join 0 first launched spawnFailed } := by
  obtain ⟨hdata, htrees, hmain⟩ := h
  rw [hspawn] at htrees hmain
  obtain ⟨hlen, hlaunched, hle, hfirst⟩ := hmain
  exact ⟨hdata, htrees, hlaunched, by omega, Nat.zero_le _, hfirst,
    fun k hk => absurd hk (Nat.not_lt_zero k)⟩

theorem ForsInv.work (hbound : sig + spxForsBytes ≤ n)
    (h : ForsInv H sig m ctx forsAddr workers start s) (E : Build) {k : ℕ} {w : RangeWorker}
    (hk : s.workers[k]? = some w) (hw : w.next < w.stop) :
    ForsInv H sig m ctx forsAddr workers start
      { forsSignLoopTree H sig m ctx forsAddr E w.next s with
        workers := s.workers.set k w.advance } := by
  have hnext := h.lt_of_mem (List.mem_append_left _ (next_mem_pendingJobs hk hw))
  rw [forsSignLoopTree_eq H m ctx forsAddr E hnext hbound]
  refine ⟨h.data_sign w.next, ?_, h.main.set hk hw⟩
  rw [List.append_assoc, List.singleton_append, ← List.cons_append]
  exact (((perm_pendingJobs_set hk hw).symm.append_right _).append_left _).trans h.trees

theorem ForsInv.join (h : ForsInv H sig m ctx forsAddr workers start s)
    {t first launched : ℕ} {spawnFailed : Bool} {w : RangeWorker}
    (hjoin : s.main = .join t first launched spawnFailed) (ht : t < launched)
    (hk : s.workers[t]? = some w) (hw : ¬ w.next < w.stop) :
    ForsInv H sig m ctx forsAddr workers start
      { s with main := .join (t + 1) first launched spawnFailed } := by
  obtain ⟨hdata, htrees, hmain⟩ := h
  rw [hjoin] at htrees hmain
  obtain ⟨hlen, hle, _, hfirst, hjoined⟩ := hmain
  refine ⟨hdata, htrees, hlen, hle, ht, hfirst, ?_⟩
  intro j hj v hv
  rcases Nat.lt_succ_iff_lt_or_eq.mp hj with hlt | rfl
  · exact hjoined j hlt v hv
  · rw [hk] at hv
    cases hv
    omega

/-- After the joins nothing is left to sign when every worker was started and the last one
reached the seventh tree. -/
theorem ForsInv.joined (h : ForsInv H sig m ctx forsAddr workers start s)
    {t first launched : ℕ} {spawnFailed : Bool}
    (hjoin : s.main = .join t first launched spawnFailed) (ht : ¬ t < launched) :
    ForsInv H sig m ctx forsAddr workers start
      { s with
        main := if !spawnFailed && first == spxForsSigTrees then .hash else .scalar first } := by
  obtain ⟨hdata, htrees, hmain⟩ := h
  rw [hjoin] at htrees hmain
  obtain ⟨hlen, _, _, hfirst, hjoined⟩ := hmain
  have hfinished := finished_of_joined hlen ht hjoined
  cases hdone : !spawnFailed && first == spxForsSigTrees with
  | true =>
      have hseven : first = spxForsSigTrees := by
        simpa using (Bool.and_eq_true_iff.mp hdone).2
      rw [hseven, ForsMain.trees, Nat.sub_self, List.range'_zero] at htrees
      exact ⟨hdata, htrees, hfinished⟩
  | false => exact ⟨hdata, htrees, hfirst, hfinished⟩

theorem ForsInv.scalar (hbound : sig + spxForsBytes ≤ n)
    (h : ForsInv H sig m ctx forsAddr workers start s) (E : Build) {i : ℕ}
    (hscalar : s.main = .scalar i) (hi : i < spxForsSigTrees) :
    ForsInv H sig m ctx forsAddr workers start
      { forsSignLoopTree H sig m ctx forsAddr E i s with main := .scalar (i + 1) } := by
  have hsigned := h.data_sign i
  obtain ⟨hdata, htrees, hmain⟩ := h
  rw [forsSignLoopTree_eq H m ctx forsAddr E hi hbound]
  rw [hscalar] at htrees hmain
  refine ⟨hsigned, ?_, hi, hmain.2⟩
  have hcons : ForsMain.trees (.scalar i) = i :: ForsMain.trees (.scalar (i + 1)) :=
    RangeWorker.jobs_of_lt (w := ⟨i, spxForsSigTrees⟩) hi
  rw [hcons] at htrees
  rw [List.append_assoc, List.singleton_append]
  exact (List.perm_middle.symm.append_left s.signed).trans htrees

/-- Every step keeps the invariant. -/
theorem ForsInv.step (hbound : sig + spxForsBytes ≤ n)
    (h : ForsInv H sig m ctx forsAddr workers start s)
    (hstep : ForsStep H sig m ctx forsAddr workers s s') :
    ForsInv H sig m ctx forsAddr workers start s' := by
  cases hstep with
  | create hspawn ht => exact h.create hspawn ht
  | createFails hspawn ht => exact h.startJoins hspawn true
  | created hspawn ht => exact h.startJoins hspawn false
  | work E hk hw => exact h.work hbound E hk hw
  | join hjoin ht hk hw => exact h.join hjoin ht hk hw
  | joined hjoin ht => exact h.joined hjoin ht
  | scalar E hscalar hi => exact h.scalar hbound E hscalar hi
  | @scalarDone i hscalar hi =>
      obtain ⟨hdata, htrees, hmain⟩ := h
      rw [hscalar] at htrees hmain
      rw [ForsMain.trees, Nat.sub_eq_zero_of_le (Nat.le_of_not_lt hi), List.range'_zero]
        at htrees
      exact ⟨hdata, htrees, hmain.2⟩
  | hash hhash =>
      obtain ⟨hdata, htrees, hmain⟩ := h
      rw [hhash] at htrees hmain
      exact ⟨hdata, htrees, hmain, rfl⟩

theorem forsInv_start (E : Build) (mem : Vector UInt8 n) :
    ForsInv H sig m ctx forsAddr workers (E.uninit, mem) (forsSignStart E workers mem) := by
  refine ⟨rfl, ?_, ?_⟩
  · rw [forsSignStart]
    split
    · exact List.Perm.refl _
    · exact List.Perm.refl _
  · rw [forsSignStart]
    split
    · exact ⟨rfl, rfl, Nat.zero_le _, Nat.zero_le _⟩
    · exact ⟨Nat.zero_le _, fun w hw => absurd hw List.not_mem_nil⟩

theorem forsInv_of_run (E : Build) (hbound : sig + spxForsBytes ≤ n) {mem : Vector UInt8 n}
    (hrun : Relation.ReflTransGen (ForsStep H sig m ctx forsAddr workers)
      (forsSignStart E workers mem) s) :
    ForsInv H sig m ctx forsAddr workers (E.uninit, mem) s := by
  induction hrun with
  | refl => exact forsInv_start E mem
  | tail _ hstep ih => exact ih.step hbound hstep

/-!
## What a run leaves
-/

theorem ForsInv.perm_of_trees (h : ForsInv H sig m ctx forsAddr workers start s)
    (htrees : s.main.trees = []) (hfinished : ∀ w ∈ s.workers, w.stop ≤ w.next) :
    s.signed.Perm (List.range spxForsSigTrees) := by
  have hperm := h.trees
  rwa [htrees, pendingJobs_of_finished hfinished, List.append_nil, List.append_nil] at hperm

/-- When every tree has been signed once, the roots and the memory are those of the trees
signed in order. -/
theorem ForsInv.data_of_perm (h : ForsInv H sig m ctx forsAddr workers start s)
    (hperm : s.signed.Perm (List.range spxForsSigTrees)) :
    (s.roots, s.mem) =
      (List.range spxForsSigTrees).foldl (forsFill H sig m ctx forsAddr) start :=
  h.data.trans (foldl_eq_of_commute (forsFill_comm H sig m ctx forsAddr) hperm start)

theorem ForsInv.result (E : Build) (hscalar : E.hasAvx2 = false)
    (hbound : sig + spxForsBytes ≤ n) {mem : Vector UInt8 n}
    (h : ForsInv H sig m ctx forsAddr workers (E.uninit, mem) s) {pk : Block}
    (hdone : s.main = .done pk) :
    (pk, s.mem) = (forsSign E H sig mem m ctx forsAddr).val := by
  have hmain := h.main
  rw [hdone] at hmain
  have htrees : s.main.trees = [] := by rw [hdone, ForsMain.trees]
  have hdata := h.data_of_perm (h.perm_of_trees htrees hmain.1)
  rw [forsSign_val H m ctx forsAddr E hscalar hbound, ← hdata, hmain.2, forsPkOf]

/-- A run that has not ended can go on. -/
theorem ForsInv.progress (E : Build) (h : ForsInv H sig m ctx forsAddr workers start s) :
    (∃ pk, s.main = .done pk) ∨ ∃ s', ForsStep H sig m ctx forsAddr workers s s' := by
  cases hmain : s.main with
  | spawn t first launched =>
      by_cases ht : t < workers
      · exact Or.inr ⟨_, .create hmain ht⟩
      · exact Or.inr ⟨_, .created hmain ht⟩
  | join t first launched spawnFailed =>
      by_cases ht : t < launched
      · have hlen := h.main
        rw [hmain] at hlen
        obtain ⟨w, hw⟩ : ∃ w, s.workers[t]? = some w :=
          ⟨_, List.getElem?_eq_getElem (hlen.1 ▸ ht)⟩
        by_cases hrest : w.next < w.stop
        · exact Or.inr ⟨_, .work E hw hrest⟩
        · exact Or.inr ⟨_, .join hmain ht hw hrest⟩
      · exact Or.inr ⟨_, .joined hmain ht⟩
  | scalar i =>
      by_cases hi : i < spxForsSigTrees
      · exact Or.inr ⟨_, .scalar E hmain hi⟩
      · exact Or.inr ⟨_, .scalarDone hmain hi⟩
  | hash => exact Or.inr ⟨_, .hash hmain⟩
  | done pk => exact Or.inl ⟨pk, rfl⟩

/-- The steps that the calling thread has left at most, but for the trees. -/
def ForsMain.rank (workers : ℕ) : ForsMain → ℕ
  | .spawn t _ _ => 4 + workers + (workers - t)
  | .join t _ launched _ => 3 + (launched - t)
  | .scalar _ => 2
  | .hash => 1
  | .done _ => 0

/-- The steps that a run has left at most. -/
def forsMeasure (workers : ℕ) (s : ForsThreads n) : ℕ :=
  (spxForsSigTrees - s.signed.length) + s.main.rank workers

theorem mem_trees_scalar {i : ℕ} (hscalar : s.main = .scalar i) (hi : i < spxForsSigTrees) :
    i ∈ s.main.trees := by
  rw [hscalar, ForsMain.trees, List.mem_range'_1]
  omega

theorem ForsInv.signed_lt (h : ForsInv H sig m ctx forsAddr workers start s) {i : ℕ}
    (hi : i ∈ pendingJobs s.workers ++ s.main.trees) :
    s.signed.length < spxForsSigTrees := by
  have hlen := h.trees.length_eq
  have hpos := List.length_pos_of_mem hi
  rw [List.length_append, List.length_range] at hlen
  omega

/-- Every step takes the run closer to its end. -/
theorem ForsInv.measure_lt (h : ForsInv H sig m ctx forsAddr workers start s)
    (hstep : ForsStep H sig m ctx forsAddr workers s s') :
    forsMeasure workers s' < forsMeasure workers s := by
  have hmain := h.main
  cases hstep with
  | @create t first launched hspawn ht =>
      simp only [forsMeasure, hspawn, ForsMain.rank]
      omega
  | @createFails t first launched hspawn ht =>
      rw [hspawn] at hmain
      obtain ⟨hlen, hlaunched, _, _⟩ := hmain
      simp only [forsMeasure, hspawn, ForsMain.rank]
      omega
  | @created t first launched hspawn ht =>
      rw [hspawn] at hmain
      obtain ⟨hlen, hlaunched, _, _⟩ := hmain
      simp only [forsMeasure, hspawn, ForsMain.rank]
      omega
  | @work k w E hk hw =>
      have hlt := h.signed_lt (List.mem_append_left _ (next_mem_pendingJobs hk hw))
      simp only [forsMeasure, forsSignLoopTree, List.length_append, List.length_singleton]
      omega
  | @join t first launched spawnFailed w hjoin ht hk hw =>
      simp only [forsMeasure, hjoin, ForsMain.rank]
      omega
  | @joined t first launched spawnFailed hjoin ht =>
      simp only [forsMeasure, hjoin]
      split
      · simp only [ForsMain.rank]
        omega
      · simp only [ForsMain.rank]
        omega
  | @scalar i E hscalar hi =>
      have hlt := h.signed_lt (List.mem_append_right _ (mem_trees_scalar hscalar hi))
      simp only [forsMeasure, forsSignLoopTree, hscalar, ForsMain.rank, List.length_append,
        List.length_singleton]
      omega
  | @scalarDone i hscalar hi =>
      simp only [forsMeasure, hscalar, ForsMain.rank]
      omega
  | hash hhash =>
      simp only [forsMeasure, hhash, ForsMain.rank]
      omega

/-- A step signs no tree or one that was not signed before, and then writes the places of
that tree only. -/
def SignsOne (sig : ℕ) (s s' : ForsThreads n) : Prop :=
  (s'.signed = s.signed ∧ s'.roots = s.roots ∧ s'.mem = s.mem) ∨
    ∃ i < spxForsSigTrees, i ∉ s.signed ∧ s'.signed = s.signed ++ [i] ∧
      (∀ j, j ≠ i → s'.roots j = s.roots j) ∧
      EqOutside s'.mem s.mem (sig + i * treeBytes) (sig + i * treeBytes + treeBytes)

theorem ForsInv.nodup (h : ForsInv H sig m ctx forsAddr workers start s) :
    (s.signed ++ (pendingJobs s.workers ++ s.main.trees)).Nodup :=
  h.trees.nodup_iff.mpr List.nodup_range

theorem ForsInv.signsOne_fill (h : ForsInv H sig m ctx forsAddr workers start s) {i : ℕ}
    (hi : i ∈ pendingJobs s.workers ++ s.main.trees)
    (hroots : s'.roots = (forsFill H sig m ctx forsAddr (s.roots, s.mem) i).1)
    (hmem : s'.mem = (forsFill H sig m ctx forsAddr (s.roots, s.mem) i).2)
    (hsigned : s'.signed = s.signed ++ [i]) : SignsOne sig s s' := by
  refine Or.inr ⟨i, h.lt_of_mem hi, ?_, hsigned, ?_, ?_⟩
  · intro hmem'
    exact (List.nodup_append.mp h.nodup).2.2 i hmem' i hi rfl
  · intro j hj
    rw [hroots]
    exact Function.update_of_ne hj _ _
  · rw [hmem]
    exact EqOutside.write _ _ _

theorem ForsInv.signsOne (hbound : sig + spxForsBytes ≤ n)
    (h : ForsInv H sig m ctx forsAddr workers start s)
    (hstep : ForsStep H sig m ctx forsAddr workers s s') : SignsOne sig s s' := by
  cases hstep with
  | @work k w E hk hw =>
      have hnext := List.mem_append_left s.main.trees (next_mem_pendingJobs hk hw)
      rw [forsSignLoopTree_eq H m ctx forsAddr E (h.lt_of_mem hnext) hbound]
      exact h.signsOne_fill hnext rfl rfl rfl
  | @scalar i E hscalar hi =>
      rw [forsSignLoopTree_eq H m ctx forsAddr E hi hbound]
      exact h.signsOne_fill (List.mem_append_right _ (mem_trees_scalar hscalar hi)) rfl rfl rfl
  | create => exact Or.inl ⟨rfl, rfl, rfl⟩
  | createFails => exact Or.inl ⟨rfl, rfl, rfl⟩
  | created => exact Or.inl ⟨rfl, rfl, rfl⟩
  | join => exact Or.inl ⟨rfl, rfl, rfl⟩
  | joined => exact Or.inl ⟨rfl, rfl, rfl⟩
  | scalarDone => exact Or.inl ⟨rfl, rfl, rfl⟩
  | hash => exact Or.inl ⟨rfl, rfl, rfl⟩

end Runs

/-!
## Every run
-/

theorem exists_tree_of_byte {o : ℕ} (ho : o < spxForsBytes) :
    ∃ i < spxForsSigTrees, (i * treeBytes ≤ o ∧ o < i * treeBytes + treeBytes) ∧
      ∀ j, j * treeBytes ≤ o → o < j * treeBytes + treeBytes → j = i := by
  simp only [treeBytes, spxForsBytes, spxForsHeight, spxForsSigTrees, spxForsTrees, spxN]
    at ho ⊢
  exact ⟨o / 272, by omega, by omega, fun j _ _ => by omega⟩

theorem forsSignWorkerCount_bounds (ulongMax : ℕ) (envThreads : Option (List UInt8)) :
    1 ≤ forsSignWorkerCount ulongMax envThreads ∧
      forsSignWorkerCount ulongMax envThreads ≤ spxForsSigTrees := by
  unfold forsSignWorkerCount
  dsimp only
  generalize (if 0 < _ then _ % 2 ^ 32 else 1) = workers
  simp only [spxForsSigTrees, spxForsTrees]
  split_ifs
  · omega
  · omega
  · omega
  · omega

/-- What holds in every state of a run of `fors_sign` with threads. -/
structure ForsRunOk (H : HashFns) {n : ℕ} (sig : ℕ) (m : Block) (ctx : SpxCtx)
    (forsAddr : Addr) (E : Build) (mem : Vector UInt8 n) (workers : ℕ) (s : ForsThreads n) :
    Prop where
  /-- A run that has ended leaves the public key and the signature of the loop without
  threads. -/
  result : ∀ pk, s.main = .done pk → (pk, s.mem) = (forsSign E H sig mem m ctx forsAddr).val
  /-- There is at least one worker, and room for each of them in the arrays. -/
  workers_bounds : 1 ≤ workers ∧ workers ≤ spxForsSigTrees
  /-- The roots are hashed after each tree has been signed once. -/
  complete : s.main = .hash ∨ (∃ pk, s.main = .done pk) →
    s.signed.Perm (List.range spxForsSigTrees)
  /-- Every byte of the FORS signature lies in the places of one tree that has been signed. -/
  covered : s.main = .hash ∨ (∃ pk, s.main = .done pk) → ∀ o < spxForsBytes, ∃ i ∈ s.signed,
    (i * treeBytes ≤ o ∧ o < i * treeBytes + treeBytes) ∧
      ∀ j, j * treeBytes ≤ o → o < j * treeBytes + treeBytes → j = i
  /-- Each tree is signed at most once, in its own places. -/
  signsOne : ∀ s', ForsStep H sig m ctx forsAddr workers s s' → SignsOne sig s s'
  /-- The run ends, since it can go on until it has, for a bounded number of steps. -/
  progress : (∃ pk, s.main = .done pk) ∨ ∃ s', ForsStep H sig m ctx forsAddr workers s s'
  bounded : ∀ s', ForsStep H sig m ctx forsAddr workers s s' →
    forsMeasure workers s' < forsMeasure workers s

/-- With threads `fors_sign` returns the public key and leaves the signature that it does
without, whatever the environment asks for, whichever worker cannot be started and
whatever the order of the steps. -/
theorem forsSign_threads (H : HashFns) {n : ℕ} {sig : ℕ} (m : Block) (ctx : SpxCtx)
    (forsAddr : Addr) (E : Build) (hscalar : E.hasAvx2 = false)
    (hbound : sig + spxForsBytes ≤ n) (mem : Vector UInt8 n) (ulongMax : ℕ)
    (envThreads : Option (List UInt8)) {s : ForsThreads n}
    (hrun : Relation.ReflTransGen
      (ForsStep H sig m ctx forsAddr (forsSignWorkerCount ulongMax envThreads))
      (forsSignStart E (forsSignWorkerCount ulongMax envThreads) mem) s) :
    ForsRunOk H sig m ctx forsAddr E mem (forsSignWorkerCount ulongMax envThreads) s := by
  have hinv := forsInv_of_run E hbound hrun
  have hcomplete : s.main = .hash ∨ (∃ pk, s.main = .done pk) →
      s.signed.Perm (List.range spxForsSigTrees) := by
    have hmain := hinv.main
    rintro (hhash | ⟨pk, hdone⟩)
    · rw [hhash] at hmain
      exact hinv.perm_of_trees (by rw [hhash, ForsMain.trees]) hmain
    · rw [hdone] at hmain
      exact hinv.perm_of_trees (by rw [hdone, ForsMain.trees]) hmain.1
  refine ⟨fun pk hdone => hinv.result E hscalar hbound hdone,
    forsSignWorkerCount_bounds ulongMax envThreads, hcomplete, ?_,
    fun s' hstep => hinv.signsOne hbound hstep, hinv.progress E,
    fun s' hstep => hinv.measure_lt hstep⟩
  intro hend o ho
  obtain ⟨i, hi, hplace⟩ := exists_tree_of_byte ho
  exact ⟨i, (hcomplete hend).mem_iff.mpr (List.mem_range.mpr hi), hplace⟩

/-- With two workers asked for, the first takes four trees and the second cannot be
started. -/
theorem forsSign_threads_createFails :
    ∃ s : ForsThreads 1904, s.main = .join 0 4 1 true ∧ s.workers = [⟨0, 4⟩] ∧
      ForsRunOk constantHash 0 (Vector.replicate 16 0)
        ⟨Vector.replicate 16 0, Vector.replicate 16 0, Vector.replicate 40 0⟩ zeroAddr
        smallestCaps (Vector.replicate 1904 0)
        (forsSignWorkerCount (2 ^ 64 - 1) (some [0x32])) s := by
  have hcount : forsSignWorkerCount (2 ^ 64 - 1) (some [0x32]) = 2 := by decide
  have hfirst : 0 < forsSignWorkerCount (2 ^ 64 - 1) (some [0x32]) := by decide
  have hsecond : 0 + 1 < forsSignWorkerCount (2 ^ 64 - 1) (some [0x32]) := by decide
  have hstart : (forsSignStart smallestCaps (forsSignWorkerCount (2 ^ 64 - 1) (some [0x32]))
      (Vector.replicate 1904 0 : Vector UInt8 1904)).main = .spawn 0 0 0 := by
    rw [hcount]
    rfl
  refine ⟨_, ?_, ?_, forsSign_threads constantHash (Vector.replicate 16 0)
    ⟨Vector.replicate 16 0, Vector.replicate 16 0, Vector.replicate 40 0⟩ zeroAddr
    smallestCaps rfl (by decide) (Vector.replicate 1904 0) (2 ^ 64 - 1) (some [0x32])
    ((Relation.ReflTransGen.single (ForsStep.create hstart hfirst)).tail
      (ForsStep.createFails rfl hsecond))⟩
  · rw [hcount]
    rfl
  · rw [hcount]
    rfl

end BitcoinPqc
