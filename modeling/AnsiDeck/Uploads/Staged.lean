import Mathlib.Algebra.Group.Nat.Defs
import AnsiDeck.RunLog

/-!
# Uploads in chunks: the staged file

A worker sends a run's artifacts, or one output of a refresh, in chunks with their offset. The API
writes each to a file it stages (`_append_artifacts`, `_append_output`), under the job's row lock;
at the end it takes the file if its size and hash are what the worker says. The two handlers
differ in their limit and in that an output is only taken in its stage of the refresh.
-/

namespace AnsiDeck

namespace Uploads

structure Request where
  offset : Nat
  chunk : Bytes

/-- Where the chunk ends. -/
def Request.stop (r : Request) : Nat := r.offset + r.chunk.length

inductive Answer
  /-- 410. -/
  | gone
  /-- 409 "Not an output of this refresh now". -/
  | notNow
  /-- 409 with the offset to resend from. -/
  | gap (expectedOffset : Nat)
  /-- 413. -/
  | tooLarge
  | accepted (offset : Nat)
  deriving DecidableEq

/-- What the handlers check before they write, in order: `none` when the chunk is taken. `owned` is
whether the claim still owns the job, and `size` the staged file's. -/
def refusal (owned allowed : Bool) (limit size : Nat) (r : Request) : Option Answer :=
  if !owned then some .gone
  else if !allowed then some .notNow
  else if size < r.offset then some (.gap size)
  else if limit < r.stop then some .tooLarge
  else none

inductive Endpoint
  /-- `/runs/{id}/artifacts`, with the setting `run_artifact_max_mb`. -/
  | artifacts (maxMb : Nat)
  /-- `/refreshes/{id}/output`, with `inventory_max_output_mb`. -/
  | output (maxMb : Nat)

/-- A tar can be a little larger than its files, never twice their size. -/
def Endpoint.limit : Endpoint → Nat
  | .artifacts maxMb => maxMb * 2 * 1024 * 1024 + 2 ^ 20
  | .output maxMb => maxMb * 1024 * 1024

def Endpoint.refusal (e : Endpoint) (owned partAllowed : Bool) (size : Nat) (r : Request) :
    Option Answer :=
  match e with
  | .artifacts _ => Uploads.refusal owned true e.limit size r
  | .output _ => Uploads.refusal owned partAllowed e.limit size r

/-! ## The check at the end -/

/-- `_read_part` -/
def readPart (sha256 : Bytes → Digest) (staged : Option Bytes) (size : Nat)
    (digest : Option Digest) : Option Bytes :=
  let raw := staged.getD []
  if raw.length ≠ size ∨ some (sha256 raw) ≠ digest then none else some raw

/-- `_keep_artifacts`: whether the tar arrived intact. A file that is missing has size -1. -/
def intact (sha256 : Bytes → Digest) (staged : Option Bytes) (tarBytes : Nat)
    (digest : Option Digest) : Bool :=
  match staged with
  | some raw => raw.length = tarBytes && some (sha256 raw) = digest
  | none => false

theorem size_of_readPart {sha256 : Bytes → Digest} {staged : Option Bytes} {size : Nat}
    {digest : Option Digest} {raw : Bytes} (h : readPart sha256 staged size digest = some raw) :
    raw = staged.getD [] ∧ raw.length = size := by
  simp only [readPart] at h
  split at h
  · exact absurd h (by simp)
  · rename_i hok
    obtain rfl := Option.some.inj h
    exact ⟨rfl, Classical.not_not.1 fun hne => hok (.inl hne)⟩

theorem size_of_intact {sha256 : Bytes → Digest} {staged : Option Bytes} {size : Nat}
    {digest : Option Digest} (h : intact sha256 staged size digest = true) :
    ∃ raw, staged = some raw ∧ raw.length = size := by
  cases staged with
  | none => exact absurd h (by simp [intact])
  | some raw =>
    simp only [intact, Bool.and_eq_true, decide_eq_true_eq] at h
    exact ⟨raw, rfl, h.1⟩

/-- The check takes the body itself. -/
theorem readPart_self (sha256 : Bytes → Digest) (body : Bytes) :
    readPart sha256 (some body) body.length (some (sha256 body)) = some body := by
  simp [readPart]

theorem intact_self (sha256 : Bytes → Digest) (body : Bytes) :
    intact sha256 (some body) body.length (some (sha256 body)) = true := by
  simp [intact]

/-! ## Writing a chunk -/

theorem eq_take_of_begins {file body : Bytes} (h : file <+: body) : file = body.take file.length :=
  List.prefix_iff_eq_take.1 h

/-- Bytes of the body written at their own place leave a prefix of the body. -/
theorem writeAt_body {file body piece : Bytes} {offset : Nat} (hfile : file <+: body)
    (hle : offset ≤ file.length) (hpiece : piece <+: body.drop offset) :
    writeAt offset piece file = body.take (max file.length (offset + piece.length)) := by
  obtain ⟨rest, hrest⟩ := hpiece
  have hfront : file.take offset = body.take offset := by
    rw [eq_take_of_begins hfile, List.take_take, Nat.min_eq_left hle]
  have hpiece' : body.take offset ++ piece = body.take (offset + piece.length) := by
    rw [List.take_add, ← hrest, List.take_left]
  rw [writeAt_of_le hle, hfront, hpiece']
  rcases Nat.le_total file.length (offset + piece.length) with hlong | hshort
  · rw [List.drop_of_length_le hlong, List.append_nil, Nat.max_eq_right hlong]
  · rw [Nat.max_eq_left hshort]
    have hback : file.drop (offset + piece.length) =
        (body.drop (offset + piece.length)).take (file.length - (offset + piece.length)) := by
      conv_lhs => rw [eq_take_of_begins hfile]
      rw [List.drop_take]
    rw [hback, ← List.take_add, Nat.add_sub_cancel' hshort]

end Uploads

end AnsiDeck
