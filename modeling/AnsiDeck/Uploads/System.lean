import AnsiDeck.Lib.System
import AnsiDeck.Uploads.Staged

/-!
# One upload: the worker's loop, the API and the requests between them

The worker sends its body from the offset it was last told, one chunk at a time
(`_upload_artifacts`, `_upload_part`). A request may reach the API any number of times, at any time
after it was sent, or never, and so may its answer. A handler holds the job's row lock from its
check to its answer; it writes in pieces of any size and may stop anywhere on the way.

The job may end at any time, and the staged file be taken over (moved or removed, by a report that
may still be rolled back): then the upload is `closed`. `acked` is a ghost, the furthest end offset
the API has answered.
-/

namespace AnsiDeck

namespace Uploads

/-- Where the worker is. -/
inductive Worker
  /-- At the top of its loop; past its end once the offset is the body's length. -/
  | uploading (offset : Nat)
  /-- Posted a request, by its position in `State.sent`. -/
  | waiting (request : Nat) (offset : Nat)
  | gaveUp
  deriving DecidableEq

/-- A chunk being written. -/
structure Writing where
  request : Nat
  written : Nat := 0
  truncated : Bool := false

structure State where
  /-- The claim owns the job. -/
  owned : Bool := true
  /-- The refresh is in the part's stage. -/
  partAllowed : Bool
  staged : Option Bytes := none
  writing : Option Writing := none
  sent : List Request := []
  answers : List (Nat × Answer) := []
  worker : Worker := .uploading 0
  acked : Nat := 0
  /-- The file was taken over, or the job has ended. -/
  closed : Bool := false

inductive Label
  -- the worker
  | post
  | transportError
  | receive (answer : Answer)
  | giveUp
  -- the API
  | deliver (request : Nat)
  | put (count : Nat)
  | truncate
  | answer
  | stop
  | stage (partAllowed : Bool)
  | takeOver
  | jobEnds

/-- The worker takes an answer. -/
def react : Answer → Worker
  | .accepted offset => .uploading offset
  | .gap expectedOffset => .uploading expectedOffset
  | .gone | .notNow | .tooLarge => .gaveUp

def State.size (s : State) : Nat := (s.staged.getD []).length

section

variable (endpoint : Endpoint) (chunkBytes : Nat) (body : Bytes)

def step (s : State) : Label → Option State
  | .post => match s.worker with
    | .uploading offset =>
      if offset < body.length then
        some { s with
          sent := s.sent ++ [⟨offset, (body.drop offset).take chunkBytes⟩]
          worker := .waiting s.sent.length offset }
      else none
    | _ => none
  | .transportError => match s.worker with
    | .waiting _ offset => some { s with worker := .uploading offset }
    | _ => none
  | .receive answer => match s.worker with
    | .waiting request _ =>
      if (request, answer) ∈ s.answers then some { s with worker := react answer } else none
    | _ => none
  | .giveUp => some { s with worker := .gaveUp }
  | .deliver request => match s.writing, s.sent[request]? with
    | none, some r => match endpoint.refusal s.owned s.partAllowed s.size r with
      | some answer => some { s with answers := (request, answer) :: s.answers }
      | none => some { s with staged := some (s.staged.getD []), writing := some { request } }
    | _, _ => none
  | .put count => match s.writing with
    | some w => match s.sent[w.request]? with
      | some r =>
        if !w.truncated ∧ w.written + count ≤ r.chunk.length then
          some { s with
            staged := s.staged.map
              (writeAt (r.offset + w.written) ((r.chunk.drop w.written).take count))
            writing := some { w with written := w.written + count } }
        else none
      | none => none
    | none => none
  | .truncate => match s.writing with
    | some w => match s.sent[w.request]? with
      | some r =>
        if w.written = r.chunk.length then
          some { s with
            staged := s.staged.map (AnsiDeck.truncate r.stop)
            writing := some { w with truncated := true } }
        else none
      | none => none
    | none => none
  | .answer => match s.writing with
    | some w => match s.sent[w.request]? with
      | some r =>
        if w.truncated then
          some { s with
            writing := none
            answers := (w.request, .accepted r.stop) :: s.answers
            acked := max s.acked r.stop }
        else none
      | none => none
    | none => none
  | .stop => if s.writing.isSome then some { s with writing := none } else none
  | .stage partAllowed => some { s with partAllowed }
  | .takeOver =>
    if s.writing.isNone then some { s with staged := none, closed := true } else none
  | .jobEnds => if s.writing.isNone then some { s with owned := false, closed := true } else none

variable {endpoint chunkBytes body} {s t : State}

/-! What a step of the API was, where it took place. -/

theorem deliver_cases {i : Nat} (h : step endpoint chunkBytes body s (.deliver i) = some t) :
    s.writing = none ∧ ∃ r, s.sent[i]? = some r ∧
      ((∃ answer, endpoint.refusal s.owned s.partAllowed s.size r = some answer ∧
          t = { s with answers := (i, answer) :: s.answers }) ∨
        (endpoint.refusal s.owned s.partAllowed s.size r = none ∧
          t = { s with staged := some (s.staged.getD []), writing := some { request := i } })) := by
  simp only [step] at h
  split at h
  · rename_i r hidle hr
    refine ⟨hidle, r, hr, ?_⟩
    split at h
    · rename_i answer hanswer
      exact .inl ⟨answer, hanswer, (Option.some.inj h).symm⟩
    · rename_i hnone
      exact .inr ⟨hnone, (Option.some.inj h).symm⟩
  · exact absurd h (by simp)

theorem put_cases {count : Nat} (h : step endpoint chunkBytes body s (.put count) = some t) :
    ∃ w r, s.writing = some w ∧ s.sent[w.request]? = some r ∧ w.truncated = false ∧
      w.written + count ≤ r.chunk.length ∧
      t = { s with
        staged := s.staged.map
          (writeAt (r.offset + w.written) ((r.chunk.drop w.written).take count))
        writing := some { w with written := w.written + count } } := by
  simp only [step] at h
  split at h
  · rename_i w hw
    split at h
    · rename_i r hr
      split at h
      · rename_i hguard
        exact ⟨w, r, hw, hr, by simpa using hguard.1, hguard.2, (Option.some.inj h).symm⟩
      · exact absurd h (by simp)
    · exact absurd h (by simp)
  · exact absurd h (by simp)

theorem truncate_cases (h : step endpoint chunkBytes body s .truncate = some t) :
    ∃ w r, s.writing = some w ∧ s.sent[w.request]? = some r ∧ w.written = r.chunk.length ∧
      t = { s with
        staged := s.staged.map (AnsiDeck.truncate r.stop)
        writing := some { w with truncated := true } } := by
  simp only [step] at h
  split at h
  · rename_i w hw
    split at h
    · rename_i r hr
      split at h
      · rename_i hguard
        exact ⟨w, r, hw, hr, hguard, (Option.some.inj h).symm⟩
      · exact absurd h (by simp)
    · exact absurd h (by simp)
  · exact absurd h (by simp)

theorem answer_cases (h : step endpoint chunkBytes body s .answer = some t) :
    ∃ w r, s.writing = some w ∧ s.sent[w.request]? = some r ∧ w.truncated = true ∧
      t = { s with
        writing := none
        answers := (w.request, .accepted r.stop) :: s.answers
        acked := max s.acked r.stop } := by
  simp only [step] at h
  split at h
  · rename_i w hw
    split at h
    · rename_i r hr
      split at h
      · rename_i hguard
        exact ⟨w, r, hw, hr, hguard, (Option.some.inj h).symm⟩
      · exact absurd h (by simp)
    · exact absurd h (by simp)
  · exact absurd h (by simp)

variable (endpoint chunkBytes body)

/-- Nothing was sent yet. -/
def Init (s : State) : Prop := s = { partAllowed := s.partAllowed }

/-- The upload of `body` to an endpoint. -/
def system : Lib.System State Label where
  init := Init
  step := step endpoint chunkBytes body

end

/-- `_REFRESH_CHUNK_BYTES` -/
def refreshChunkBytes : Nat := 2 * 1024 * 1024

end Uploads

end AnsiDeck
