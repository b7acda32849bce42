import BitcoinPqc.Correctness.Sha512

/-!
# Runs of the incremental functions

A run initialises a state, absorbs pieces of a message, each a buffer of which some whole
blocks are taken, and finishes with what is left. The digest is that of the whole message,
for every number of pieces and every way to cut the message into them.
-/

namespace BitcoinPqc

/-- A buffer and the number of blocks to take from it. -/
abbrev Piece : Type := List UInt8 × ℕ

/-- What is taken from the pieces, for blocks of `b` bytes. -/
def takenBytes (b : ℕ) (pieces : List Piece) : List UInt8 :=
  (pieces.map fun p => p.1.take (b * p.2)).flatten

/-- A run with `sha256_inc_init`, `sha256_inc_blocks` for each piece and
`sha256_inc_finalize`. -/
def sha256Run (compress : Vector UInt32 8 → Vector UInt8 64 → Vector UInt32 8)
    (pieces : List Piece) (last : List UInt8) : Vector UInt8 32 :=
  sha256IncFinalize compress
    (pieces.foldl (fun state p => sha256IncBlocks compress state p.1 p.2) sha256IncInit) last

/-- A run with `sha512_inc_init`, `sha512_inc_blocks` for each piece and
`sha512_inc_finalize`. -/
def sha512Run (compress : Vector UInt64 8 → Vector UInt8 128 → Vector UInt64 8)
    (pieces : List Piece) (last : List UInt8) : Vector UInt8 64 :=
  sha512IncFinalize compress
    (pieces.foldl (fun state p => sha512IncBlocks compress state p.1 p.2) sha512IncInit) last

theorem takenBytes_cons (b : ℕ) (p : Piece) (pieces : List Piece) :
    takenBytes b (p :: pieces) = p.1.take (b * p.2) ++ takenBytes b pieces := rfl

/-- The pieces of a run can be put back in front of the input that is finished. -/
theorem sha256IncFinalize_foldl
    {compress : Vector UInt32 8 → Vector UInt8 64 → Vector UInt32 8} {pieces : List Piece}
    (hpieces : ∀ p ∈ pieces, 64 * p.2 ≤ p.1.length) (state : Vector UInt8 40)
    (last : List UInt8) :
    sha256IncFinalize compress
        (pieces.foldl (fun state p => sha256IncBlocks compress state p.1 p.2) state) last =
      sha256IncFinalize compress state (takenBytes 64 pieces ++ last) := by
  induction pieces generalizing state with
  | nil => rfl
  | cons p pieces ih =>
      have hp := hpieces p (List.mem_cons_self ..)
      rw [List.foldl_cons, ih (fun q hq => hpieces q (List.mem_cons_of_mem _ hq)),
        sha256IncFinalize_blocks _ hp, takenBytes_cons, List.append_assoc]

theorem sha512IncFinalize_foldl
    {compress : Vector UInt64 8 → Vector UInt8 128 → Vector UInt64 8} {pieces : List Piece}
    (hpieces : ∀ p ∈ pieces, 128 * p.2 ≤ p.1.length) (state : Vector UInt8 72)
    (last : List UInt8) :
    sha512IncFinalize compress
        (pieces.foldl (fun state p => sha512IncBlocks compress state p.1 p.2) state) last =
      sha512IncFinalize compress state (takenBytes 128 pieces ++ last) := by
  induction pieces generalizing state with
  | nil => rfl
  | cons p pieces ih =>
      have hp := hpieces p (List.mem_cons_self ..)
      rw [List.foldl_cons, ih (fun q hq => hpieces q (List.mem_cons_of_mem _ hq)),
        sha512IncFinalize_blocks _ hp, takenBytes_cons, List.append_assoc]

/-- Every run computes the digest of the whole message. The length fields hold the length of
messages of less than `2 ^ 61` and of less than `2 ^ 64` bytes. -/
theorem sha2_run_eq_sha2
    (compress256 : Vector UInt32 8 → Vector UInt8 64 → Vector UInt32 8)
    (compress512 : Vector UInt64 8 → Vector UInt8 128 → Vector UInt64 8)
    (pieces : List Piece) (last : List UInt8) :
    ((∀ p ∈ pieces, 64 * p.2 ≤ p.1.length) →
        (takenBytes 64 pieces ++ last).length < 2 ^ 61 →
          sha256Run compress256 pieces last =
            sha256Of compress256 (takenBytes 64 pieces ++ last)) ∧
      ((∀ p ∈ pieces, 128 * p.2 ≤ p.1.length) →
        (takenBytes 128 pieces ++ last).length < 2 ^ 64 →
          sha512Run compress512 pieces last =
            sha512Of compress512 (takenBytes 128 pieces ++ last)) := by
  constructor
  · intro hpieces hlen
    rw [sha256Run, sha256IncFinalize_foldl hpieces]
    exact sha256_eq hlen
  · intro hpieces hlen
    rw [sha512Run, sha512IncFinalize_foldl hpieces]
    exact sha512_eq hlen

/-- A run of one piece, of which SHA-256 takes two blocks and SHA-512 one, and three bytes
behind it. -/
theorem sha2_run_eq_sha2_zeros :
    sha256Run sha256Compress [(List.replicate 130 0, 2)] [1, 2, 3] =
        sha256Of sha256Compress (takenBytes 64 [(List.replicate 130 0, 2)] ++ [1, 2, 3]) ∧
      sha512Run sha512Compress [(List.replicate 130 0, 1)] [1, 2, 3] =
        sha512Of sha512Compress (takenBytes 128 [(List.replicate 130 0, 1)] ++ [1, 2, 3]) :=
  ⟨(sha2_run_eq_sha2 sha256Compress sha512Compress [(List.replicate 130 0, 2)] [1, 2, 3]).1
      (by simp) (by simp [takenBytes]),
    (sha2_run_eq_sha2 sha256Compress sha512Compress [(List.replicate 130 0, 1)] [1, 2, 3]).2
      (by simp) (by simp [takenBytes])⟩

end BitcoinPqc
