import BitcoinPqc.Foundation.RangeWorkers
import BitcoinPqc.Sphincs.Fors

/-!
# FORS signing with threads

The scalar path of `fors_sign` in a build with threads and runtime knobs. The calling
thread splits the trees into ranges, starts a worker for each range, joins the workers
and signs the trees that are left over itself, before it hashes the roots.

`ForsStep` is one step of the calling thread or of a worker, where signing one tree is
one step. Any thread that can take a step may take it. `pthread_create` may fail whenever
it is called, and the stack of a thread may hold anything when a tree is signed on it.
The list of the trees signed so far is recorded next to the state.
-/

namespace BitcoinPqc

/-!
## The number of workers
-/

/-- `isspace` in the C locale. -/
def isSpace (c : UInt8) : Bool := c == 0x20 || (0x09 ≤ c && c ≤ 0x0d)

/-- `isdigit`. -/
def isDigit (c : UInt8) : Bool := 0x30 ≤ c && c ≤ 0x39

/-- The number that the leading digits stand for. -/
def digitsValue (s : List UInt8) : ℕ :=
  (s.takeWhile isDigit).foldl (fun value c => 10 * value + (c.toNat - 0x30)) 0

/-- `strtoul` in base 10, for an `unsigned long` with the given largest value. Blanks and
one sign may stand before the digits, and a minus sign negates in `unsigned long`. -/
def strtoul (ulongMax : ℕ) (s : List UInt8) : ℕ :=
  let s := s.dropWhile isSpace
  let negative := s.head? == some 0x2d
  let signed := negative || s.head? == some 0x2b
  let value := digitsValue (if signed then s.drop 1 else s)
  if ulongMax < value then ulongMax
  else if negative then (ulongMax + 1 - value) % (ulongMax + 1)
  else value

/-- `fors_sign_worker_count`, for the value of `SPX_FORS_THREADS`. -/
def forsSignWorkerCount (ulongMax : ℕ) (envThreads : Option (List UInt8)) : ℕ :=
  let configured :=
    match envThreads with
    | some s => if s.headD 0 ≠ 0 then strtoul ulongMax s else 0
    | none => 0
  let workers := if 0 < configured then configured % 2 ^ 32 else 1
  let workers := if spxForsSigTrees < workers then spxForsSigTrees else workers
  if workers = 0 then 1 else workers

/-!
## Threads
-/

/-- Where the calling thread stands. -/
inductive ForsMain where
  /-- The loop that starts the workers. -/
  | spawn (t start launched : ℕ)
  /-- The loop that joins them. -/
  | join (t start launched : ℕ) (spawnFailed : Bool)
  /-- The fallback loop. -/
  | scalar (i : ℕ)
  /-- `fors_sign_done`. -/
  | hash
  | done (pk : Block)

/-- The calling thread, the workers by the loop variable and the end of each, and the
memory that they share. -/
structure ForsThreads (n : ℕ) where
  main : ForsMain
  workers : List RangeWorker
  roots : ℕ → Block
  mem : Vector UInt8 n
  /-- The trees signed so far, in order. -/
  signed : List ℕ

variable (H : HashFns) {n : ℕ} (sig : ℕ) (m : Block) (ctx : SpxCtx) (forsAddr : Addr)

/-- The body of the loops of `fors_sign_worker` and `fors_sign`. -/
def forsSignLoopTree (E : Build) (i : ℕ) (s : ForsThreads n) : ForsThreads n :=
  let sigTree := sig + i * ((spxForsHeight + 1) * spxN)
  let r := (forsSignTree E H sigTree s.mem ctx forsAddr (messageToIndices m i) i).val
  { s with
    roots := Function.update s.roots i r.1
    mem := r.2
    signed := s.signed ++ [i] }

/-- `share` for the worker `t`. -/
def forsShare (workers t start : ℕ) : ℕ :=
  let remainingTrees := spxForsSigTrees - start
  let remainingWorkers := workers - t
  (remainingTrees + remainingWorkers - 1) / remainingWorkers

/-- One step of the calling thread or of a worker. -/
inductive ForsStep (workers : ℕ) : ForsThreads n → ForsThreads n → Prop where
  /-- A worker is started. -/
  | create {s : ForsThreads n} {t start launched : ℕ}
      (hmain : s.main = .spawn t start launched) (ht : t < workers) :
      ForsStep workers s
        { s with
          main := .spawn (t + 1) (start + forsShare workers t start) (launched + 1)
          workers := s.workers ++ [⟨start, start + forsShare workers t start⟩] }
  /-- `pthread_create` fails. -/
  | createFails {s : ForsThreads n} {t start launched : ℕ}
      (hmain : s.main = .spawn t start launched) (ht : t < workers) :
      ForsStep workers s { s with main := .join 0 start launched true }
  /-- Every worker was started. -/
  | created {s : ForsThreads n} {t start launched : ℕ}
      (hmain : s.main = .spawn t start launched) (ht : ¬ t < workers) :
      ForsStep workers s { s with main := .join 0 start launched false }
  /-- The worker `k` signs its next tree. -/
  | work {s : ForsThreads n} {k : ℕ} {w : RangeWorker} (E : Build)
      (hk : s.workers[k]? = some w) (hw : w.next < w.stop) :
      ForsStep workers s
        { forsSignLoopTree H sig m ctx forsAddr E w.next s with
          workers := s.workers.set k w.advance }
  /-- `pthread_join` returns when the worker `t` has returned. -/
  | join {s : ForsThreads n} {t start launched : ℕ} {spawnFailed : Bool} {w : RangeWorker}
      (hmain : s.main = .join t start launched spawnFailed) (ht : t < launched)
      (hk : s.workers[t]? = some w) (hw : ¬ w.next < w.stop) :
      ForsStep workers s { s with main := .join (t + 1) start launched spawnFailed }
  /-- All workers are joined. -/
  | joined {s : ForsThreads n} {t start launched : ℕ} {spawnFailed : Bool}
      (hmain : s.main = .join t start launched spawnFailed) (ht : ¬ t < launched) :
      ForsStep workers s
        { s with
          main := if !spawnFailed && start == spxForsSigTrees then .hash else .scalar start }
  /-- The calling thread signs a tree. -/
  | scalar {s : ForsThreads n} {i : ℕ} (E : Build) (hmain : s.main = .scalar i)
      (hi : i < spxForsSigTrees) :
      ForsStep workers s
        { forsSignLoopTree H sig m ctx forsAddr E i s with main := .scalar (i + 1) }
  /-- The fallback loop ends. -/
  | scalarDone {s : ForsThreads n} {i : ℕ} (hmain : s.main = .scalar i)
      (hi : ¬ i < spxForsSigTrees) :
      ForsStep workers s { s with main := .hash }
  /-- The roots are hashed. -/
  | hash {s : ForsThreads n} (hmain : s.main = .hash) :
      ForsStep workers s
        { s with
          main := .done (thash H ((List.range spxForsSigTrees).map s.roots) ctx
            (setType (copyKeypairAddr zeroAddr forsAddr) addrTypeForsPk)).val }

/-- The state in which the scalar path begins. -/
def forsSignStart (E : Build) (workers : ℕ) (mem : Vector UInt8 n) : ForsThreads n where
  main := if 1 < workers then .spawn 0 0 0 else .scalar 0
  workers := []
  roots := E.uninit
  mem := mem
  signed := []

end BitcoinPqc
