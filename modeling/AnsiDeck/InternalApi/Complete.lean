import AnsiDeck.InternalApi.Runs
import AnsiDeck.Uploads.Staged

/-!
# Completing a run, with everything it records

`/complete` in full: the outcome, what the run's ssh learned and refused, what its network was
refused, and its artifacts. It changes the row in one transaction, and in the middle of it takes
the uploaded tar over, which no rollback undoes. The worker posts the same body until it gets an
answer, so an attempt may meet what others left behind.
-/

namespace AnsiDeck

namespace Completion

structure HostKeyProblem where
  host : String
  problem : String
  name : Option String := none
  keyType : Option String := none
  presented : Option String := none
  deriving DecidableEq

structure ArtifactFile where
  path : String
  size : Nat
  deriving DecidableEq

/-- The run's artifacts as uploaded, or why they weren't kept. -/
structure ArtifactsIn where
  files : List ArtifactFile := []
  bytes : Nat := 0
  tarBytes : Nat := 0
  sha256 : Option Digest := none
  error : Option String := none

structure EgressRefused where
  address : String
  protocol : String
  port : Nat
  deriving DecidableEq

structure CompleteIn extends InternalApi.CompleteIn where
  hostCounts : Option (List (String × Int)) := none
  learnedHostKeys : Option (List String) := none
  hostKeyProblems : Option (List HostKeyProblem) := none
  artifacts : Option ArtifactsIn := none
  egressRefused : Option (List EgressRefused) := none

/-- The files of a run's artifacts: the staged tar and the one that is kept. -/
structure Files where
  part : Option Bytes
  kept : Option Bytes

structure HostCounts where
  total : Option Int := none
  ok : Option Int := none
  changed : Option Int := none
  failed : Option Int := none
  unreachable : Option Int := none

/-- The `artifacts_*` columns. -/
structure Artifacts where
  files : Option (List ArtifactFile) := none
  bytes : Option Nat := none
  tarBytes : Option Nat := none
  sha256 : Option Digest := none
  error : Option String := none

/-- What the handler works on: the run's row, the columns of it that only this handler sets, and
the files. -/
structure Draft where
  run : Run
  counts : HostCounts := {}
  hostKeysLearned : Option Nat := none
  hostKeyProblems : Option (List HostKeyProblem) := none
  egressRefused : Option (List EgressRefused) := none
  artifacts : Artifacts := {}
  files : Files

def Draft.withFiles (d : Draft) (files : Files) : Draft := { d with files }

structure Settings where
  runArtifactMaxFiles : Nat
  runArtifactMaxMb : Nat

section

variable (hashToken : Token → Digest) (sha256 : Bytes → Digest) (settings : Settings) (now : Time)
  (claimToken : Token) (body : CompleteIn)
  -- What `record_learned` stores for these lines, by the inventory's hosts and keys, if it does;
  -- the outer `none` is a savepoint that was rolled back.
  (learn : Run → List String → Option (Option Nat))

/-! ## The handler's steps -/

/-- `host_counts`, column by column. -/
def setCounts (counts : HostCounts) (given : List (String × Int)) : HostCounts where
  total := given.lookup "hosts_total" <|> counts.total
  ok := given.lookup "hosts_ok" <|> counts.ok
  changed := given.lookup "hosts_changed" <|> counts.changed
  failed := given.lookup "hosts_failed" <|> counts.failed
  unreachable := given.lookup "hosts_unreachable" <|> counts.unreachable

def recordOutcome (d : Draft) : Draft :=
  { d with
    run := (InternalApi.complete hashToken now d.run claimToken body.toCompleteIn).run
    counts := setCounts d.counts (body.hostCounts.getD []) }

def maxProblems : Nat := 100

/-- The reason a run without one gets for its host key problems. -/
def problemsReason (problems : List HostKeyProblem) : String :=
  let hosts := (problems.map HostKeyProblem.host).dedup.mergeSort fun a b => !decide (b < a)
  let more := if hosts.length > 5 then s!" and {hosts.length - 5} more" else ""
  let shown := ", ".intercalate (hosts.take 5) ++ more
  let what := if problems.any (·.problem = "changed") then "changed for"
    else "verification failed for"
  clip 500 s!"SSH host key {what} {shown}"

/-- `record_problems` -/
def recordProblems (problems : List HostKeyProblem) (d : Draft) : Draft :=
  if problems = [] then d
  else
    let problems := problems.take maxProblems
    let reason := if d.run.statusReason.getD "" = "" then some (problemsReason problems)
      else d.run.statusReason
    { d with
      run := { d.run with statusReason := reason }
      hostKeyProblems := some problems }

/-- `_host_keys` -/
def recordHostKeys (d : Draft) : Draft :=
  match learn d.run (body.learnedHostKeys.getD []) with
  | some learned =>
    recordProblems (body.hostKeyProblems.getD []) { d with hostKeysLearned := learned }
  | none => d

def recordEgress (d : Draft) : Draft :=
  match body.egressRefused with
  | some (r :: rest) => { d with egressRefused := some (r :: rest) }
  | _ => d

/-- Why the tar is not kept, if it isn't. -/
def artifactsError (part : Option Bytes) (artifacts : ArtifactsIn) : Option String :=
  if artifacts.error.isSome then artifacts.error
  else if !Uploads.intact sha256 part artifacts.tarBytes artifacts.sha256 then
    some "the artifacts didn't arrive intact"
  else if settings.runArtifactMaxFiles < artifacts.files.length ∨
      settings.runArtifactMaxMb * 1024 * 1024 < artifacts.bytes then
    some "the artifacts are over this server's limits"
  else none

/-- `_keep_artifacts` -/
def keepArtifacts (artifacts : ArtifactsIn) (d : Draft) : Draft :=
  match artifactsError sha256 settings d.files.part artifacts with
  | some error =>
    { d with
      artifacts := { d.artifacts with error := some (clip 300 error) }
      files := { d.files with part := none } }
  | none =>
    { d with
      artifacts := { d.artifacts with
        files := some artifacts.files
        bytes := some artifacts.bytes
        tarBytes := some artifacts.tarBytes
        sha256 := artifacts.sha256 }
      files := { part := none, kept := d.files.part } }

def recordArtifacts (d : Draft) : Draft :=
  match body.artifacts with
  | some artifacts => keepArtifacts sha256 settings artifacts d
  | none => d

/-- The handler's steps on an accepted body, in order. What comes after them and before the commit
is about notifications and metrics only. -/
def steps : List (Draft → Draft) :=
  [recordOutcome hashToken now claimToken body, recordHostKeys body learn, recordEgress body,
    recordArtifacts sha256 settings body]

/-- The claim owns the run and every event is logged. -/
def accepted (run : Run) : Bool :=
  (InternalApi.complete hashToken now run claimToken body.toCompleteIn).answer = .done

/-- An attempt that got through this many steps. -/
def attempt (count : Nat) (run : Run) (files : Files) : Draft :=
  if accepted hashToken now claimToken body run then
    ((steps hashToken sha256 settings now claimToken body learn).take count).foldl
      (fun d f => f d) { run, files }
  else { run, files }

/-- What an attempt that is rolled back after this many steps leaves: the files. -/
def rolledBack (run : Run) (files : Files) (count : Nat) : Files :=
  (attempt hashToken sha256 settings now claimToken body learn count run files).files

/-- What an attempt that commits records. -/
def complete (run : Run) (files : Files) : Draft :=
  attempt hashToken sha256 settings now claimToken body learn 4 run files

/-- The files after attempts that were rolled back, each after so many of its steps. -/
def retried (run : Run) (files : Files) (attempts : List Nat) : Files :=
  attempts.foldl (rolledBack hashToken sha256 settings now claimToken body learn run) files

end

/-! ## What an attempt leaves behind -/

variable {hashToken : Token → Digest} {sha256 : Bytes → Digest} {settings : Settings} {now : Time}
  {claimToken : Token} {body : CompleteIn} {learn : Run → List String → Option (Option Nat)}

/-- The steps before the artifacts. -/
def recorded (hashToken : Token → Digest) (now : Time) (claimToken : Token) (body : CompleteIn)
    (learn : Run → List String → Option (Option Nat)) (d : Draft) : Draft :=
  recordEgress body (recordHostKeys body learn (recordOutcome hashToken now claimToken body d))

theorem recordProblems_files (problems : List HostKeyProblem) (d : Draft) (files : Files) :
    recordProblems problems (d.withFiles files) = (recordProblems problems d).withFiles files := by
  unfold recordProblems
  split <;> rfl

theorem recordHostKeys_files (d : Draft) (files : Files) :
    recordHostKeys body learn (d.withFiles files) =
      (recordHostKeys body learn d).withFiles files := by
  unfold recordHostKeys Draft.withFiles
  dsimp only
  split
  · rename_i learned _
    exact recordProblems_files _ { d with hostKeysLearned := learned } files
  · rfl

theorem recordEgress_files (d : Draft) (files : Files) :
    recordEgress body (d.withFiles files) = (recordEgress body d).withFiles files := by
  unfold recordEgress
  split <;> rfl

/-- What is recorded before the artifacts does not depend on the files. -/
theorem recorded_files (d : Draft) (files : Files) :
    recorded hashToken now claimToken body learn (d.withFiles files) =
      (recorded hashToken now claimToken body learn d).withFiles files := by
  unfold recorded
  rw [← recordEgress_files, ← recordHostKeys_files]
  rfl

theorem recorded_artifacts (d : Draft) :
    (recorded hashToken now claimToken body learn d).artifacts = d.artifacts := by
  have hegress : ∀ d : Draft, (recordEgress body d).artifacts = d.artifacts := by
    intro d
    unfold recordEgress
    split <;> rfl
  have hproblems : ∀ problems (d : Draft), (recordProblems problems d).artifacts = d.artifacts := by
    intro problems d
    unfold recordProblems
    split <;> rfl
  have hkeys : ∀ d : Draft, (recordHostKeys body learn d).artifacts = d.artifacts := by
    intro d
    unfold recordHostKeys
    split
    · exact hproblems _ _
    · rfl
  rw [recorded, hegress, hkeys]
  rfl

theorem complete_eq {run : Run} (hacc : accepted hashToken now claimToken body run = true)
    (files : Files) :
    complete hashToken sha256 settings now claimToken body learn run files =
      recordArtifacts sha256 settings body
        (recorded hashToken now claimToken body learn { run, files }) := by
  rw [complete, attempt, if_pos hacc]
  rfl

/-- An attempt that does not come to the artifacts leaves the files alone. -/
theorem rolledBack_of_lt {run : Run} {files : Files} {count : Nat} (h : count < 4) :
    rolledBack hashToken sha256 settings now claimToken body learn run files count = files := by
  have hkeys : ∀ d : Draft, (recordHostKeys body learn d).files = d.files := by
    intro d
    have heq : recordHostKeys body learn d = (recordHostKeys body learn d).withFiles d.files :=
      recordHostKeys_files d d.files
    have hfiles := congrArg Draft.files heq
    exact hfiles
  have hegress : ∀ d : Draft, (recordEgress body d).files = d.files := by
    intro d
    have heq : recordEgress body d = (recordEgress body d).withFiles d.files :=
      recordEgress_files d d.files
    have hfiles := congrArg Draft.files heq
    exact hfiles
  rw [rolledBack, attempt]
  split
  case isFalse => rfl
  match count with
  | 0 => rfl
  | 1 => rfl
  | 2 => exact hkeys _
  | 3 => exact (hegress _).trans (hkeys _)
  | n + 4 => omega

theorem rolledBack_of_le {run : Run} {files : Files} {count : Nat} (h : 4 ≤ count) :
    rolledBack hashToken sha256 settings now claimToken body learn run files count =
      (complete hashToken sha256 settings now claimToken body learn run files).files := by
  rw [rolledBack, complete, attempt, attempt, List.take_of_length_le h]
  rfl

/-- The row as it is recorded, but for the artifacts. -/
def base (hashToken : Token → Digest) (now : Time) (claimToken : Token) (body : CompleteIn)
    (learn : Run → List String → Option (Option Nat)) (run : Run) : Draft :=
  recorded hashToken now claimToken body learn { run, files := ⟨none, none⟩ }

theorem complete_of_artifacts {artifacts : ArtifactsIn} {run : Run}
    (hacc : accepted hashToken now claimToken body run = true)
    (ha : body.artifacts = some artifacts) (files : Files) :
    complete hashToken sha256 settings now claimToken body learn run files =
      keepArtifacts sha256 settings artifacts
        ((base hashToken now claimToken body learn run).withFiles files) := by
  have heq : recorded hashToken now claimToken body learn { run, files } =
      (base hashToken now claimToken body learn run).withFiles files :=
    recorded_files { run, files := ⟨none, none⟩ } files
  rw [complete_eq hacc, heq, recordArtifacts, ha]

/-- Refused artifacts: the same for every staged tar that is refused for the same reason. -/
theorem keepArtifacts_refused {artifacts : ArtifactsIn} {error : String} {files : Files}
    (he : artifactsError sha256 settings files.part artifacts = some error) (d : Draft) :
    keepArtifacts sha256 settings artifacts (d.withFiles files) =
      { d with
        artifacts := { d.artifacts with error := some (clip 300 error) }
        files := ⟨none, files.kept⟩ } := by
  have he' : artifactsError sha256 settings (d.withFiles files).files.part artifacts =
      some error := he
  rw [keepArtifacts, he']
  rfl

/-- A tar that is gone did not arrive intact. -/
theorem artifactsError_none {artifacts : ArtifactsIn} (he : artifacts.error = none) :
    artifactsError sha256 settings none artifacts =
      some "the artifacts didn't arrive intact" := by
  simp [artifactsError, he, Uploads.intact]

theorem artifactsError_lost {artifacts : ArtifactsIn} {part : Option Bytes}
    (h : artifacts.error.isSome = true ∨
      Uploads.intact sha256 part artifacts.tarBytes artifacts.sha256 = false) :
    ∃ error, artifactsError sha256 settings part artifacts = some error ∧
      artifactsError sha256 settings none artifacts = some error := by
  cases he : artifacts.error with
  | some error => exact ⟨error, by simp [artifactsError, he], by simp [artifactsError, he]⟩
  | none =>
    have hintact : Uploads.intact sha256 part artifacts.tarBytes artifacts.sha256 = false := by
      simpa [he] using h
    refine ⟨"the artifacts didn't arrive intact", ?_, artifactsError_none he⟩
    simp [artifactsError, he, hintact]

/-- An intact tar is not refused for the reason a missing one is. -/
theorem artifactsError_intact {artifacts : ArtifactsIn} {part : Option Bytes}
    (he : artifacts.error = none)
    (hintact : Uploads.intact sha256 part artifacts.tarBytes artifacts.sha256 = true) :
    artifactsError sha256 settings part artifacts = none ∨
      artifactsError sha256 settings part artifacts =
        some "the artifacts are over this server's limits" := by
  simp only [artifactsError, he, hintact]
  split
  · exact absurd ‹_› (by simp)
  split
  · exact absurd ‹_› (by simp)
  split
  · exact .inr rfl
  · exact .inl rfl

/-- The error a completion records. -/
theorem complete_error {artifacts : ArtifactsIn} {run : Run}
    (hacc : accepted hashToken now claimToken body run = true)
    (ha : body.artifacts = some artifacts) (files : Files) :
    (complete hashToken sha256 settings now claimToken body learn run files).artifacts.error =
      (artifactsError sha256 settings files.part artifacts).map (clip 300) := by
  rw [complete_of_artifacts hacc ha]
  cases herror : artifactsError sha256 settings files.part artifacts with
  | some error => rw [keepArtifacts_refused herror]; rfl
  | none =>
    have herror' : artifactsError sha256 settings
        ((base hashToken now claimToken body learn run).withFiles files).files.part artifacts =
          none := herror
    rw [keepArtifacts, herror']
    exact congrArg Artifacts.error (recorded_artifacts _)

/-! ## Retries -/

/-- An attempt takes the staged tar away, or leaves the files as they are. -/
theorem rolledBack_part {artifacts : ArtifactsIn} {run : Run}
    (hacc : accepted hashToken now claimToken body run = true)
    (ha : body.artifacts = some artifacts) (files : Files) {count : Nat} (h : 4 ≤ count) :
    (rolledBack hashToken sha256 settings now claimToken body learn run files count).part =
    none := by
  rw [rolledBack_of_le h, complete_of_artifacts hacc ha, keepArtifacts]
  split <;> rfl

theorem retried_part {artifacts : ArtifactsIn} {run : Run}
    (hacc : accepted hashToken now claimToken body run = true)
    (ha : body.artifacts = some artifacts) {attempts : List Nat} : ∀ files : Files,
    files.part = none ∨ (∃ count ∈ attempts, 4 ≤ count) →
      (retried hashToken sha256 settings now claimToken body learn run files attempts).part =
        none := by
  induction attempts with
  | nil =>
    intro files h
    rcases h with h | ⟨count, hmem, -⟩
    · exact h
    · exact absurd hmem (by simp)
  | cons count rest ih =>
    intro files h
    refine ih _ ?_
    by_cases hcount : 4 ≤ count
    · exact .inl (rolledBack_part hacc ha files hcount)
    · rw [rolledBack_of_lt (Nat.lt_of_not_le hcount)]
      rcases h with h | ⟨k, hk, hle⟩
      · exact .inl h
      · rcases List.mem_cons.1 hk with rfl | hk
        · exact absurd hle hcount
        · exact .inr ⟨k, hk, hle⟩

theorem retried_of_lt (run : Run) (files : Files) {attempts : List Nat}
    (h : ∀ count ∈ attempts, count < 4) :
    retried hashToken sha256 settings now claimToken body learn run files attempts = files := by
  induction attempts with
  | nil => rfl
  | cons count rest ih =>
    rw [retried, List.foldl_cons, rolledBack_of_lt (h count (by simp))]
    exact ih fun k hk => h k (by simp [hk])

/-- Attempts that refuse the artifacts for a reason that stays. -/
theorem retried_refused {artifacts : ArtifactsIn} {error : String} {run : Run}
    (hacc : accepted hashToken now claimToken body run = true)
    (ha : body.artifacts = some artifacts) {attempts : List Nat}
    (hnone : artifactsError sha256 settings none artifacts = some error) :
    ∀ files : Files, artifactsError sha256 settings files.part artifacts = some error →
      let after := retried hashToken sha256 settings now claimToken body learn run files attempts
      after.kept = files.kept ∧ artifactsError sha256 settings after.part artifacts =
        some error := by
  induction attempts with
  | nil => exact fun files h => ⟨rfl, h⟩
  | cons count rest ih =>
    intro files h
    by_cases hcount : count < 4
    · have hstep := ih files h
      rw [retried, List.foldl_cons, rolledBack_of_lt hcount]
      exact hstep
    · have hfiles : rolledBack hashToken sha256 settings now claimToken body learn run files count =
          ⟨none, files.kept⟩ := by
        rw [rolledBack_of_le (Nat.le_of_not_lt hcount), complete_of_artifacts hacc ha,
          keepArtifacts_refused h]
      rw [retried, List.foldl_cons, hfiles]
      exact ih ⟨none, files.kept⟩ hnone

/-- **What a run records after attempts that were rolled back is what one attempt records, exactly
when** none of them took an intact tar away: each stopped before the artifacts, or the worker kept
none, or the tar was not what it says. -/
theorem complete_retried_iff {artifacts : ArtifactsIn} {run : Run} {files : Files}
    {attempts : List Nat} (hacc : accepted hashToken now claimToken body run = true)
    (ha : body.artifacts = some artifacts) :
    complete hashToken sha256 settings now claimToken body learn run
        (retried hashToken sha256 settings now claimToken body learn run files attempts) =
      complete hashToken sha256 settings now claimToken body learn run files ↔
    (∀ count ∈ attempts, count < 4) ∨ artifacts.error.isSome = true ∨
      Uploads.intact sha256 files.part artifacts.tarBytes artifacts.sha256 = false := by
  constructor
  · intro h
    refine Classical.byContradiction fun hno => ?_
    obtain ⟨hlate, hkept⟩ := not_or.1 hno
    obtain ⟨herror, hintact⟩ := not_or.1 hkept
    have he : artifacts.error = none := by simpa using herror
    have hpart : (retried hashToken sha256 settings now claimToken body learn run files
        attempts).part = none := retried_part hacc ha files (.inr (by simpa using hlate))
    have hlost := congrArg (fun d : Draft => d.artifacts.error) h
    simp only [complete_error hacc ha, hpart, artifactsError_none he, Option.map_some] at hlost
    have hcases : artifactsError sha256 settings files.part artifacts = none ∨
        artifactsError sha256 settings files.part artifacts =
          some "the artifacts are over this server's limits" :=
      artifactsError_intact he (by simpa using hintact)
    rcases hcases with hkeep | hlimits
    · rw [hkeep] at hlost
      exact absurd hlost (by simp)
    · rw [hlimits] at hlost
      exact absurd hlost (by decide)
  · rintro (hearly | hrefused)
    · rw [retried_of_lt run files hearly]
    · obtain ⟨error, hnow, hnone⟩ : ∃ error,
          artifactsError sha256 settings files.part artifacts = some error ∧
            artifactsError sha256 settings none artifacts = some error :=
        artifactsError_lost hrefused
      let after := retried hashToken sha256 settings now claimToken body learn run files attempts
      obtain ⟨hkept, hlater⟩ : after.kept = files.kept ∧
          artifactsError sha256 settings after.part artifacts = some error :=
        retried_refused hacc ha hnone files hnow
      rw [complete_of_artifacts hacc ha, complete_of_artifacts hacc ha,
        keepArtifacts_refused hnow, keepArtifacts_refused hlater, hkept]

/-- A run whose worker reports a tar of two bytes. -/
def tar : ArtifactsIn :=
  { files := [⟨"report.txt", 1⟩], bytes := 1, tarBytes := 2, sha256 := some "" }

def reported : CompleteIn := { lastSeq := 0, status := .success, artifacts := some tar }

def running : Run :=
  { inventoryId := none, status := .running, queuedAt := 0, claimTokenHash := some "claim" }

theorem complete_retried_iff_once :
    complete id (fun _ => "") ⟨10, 10⟩ 5 "claim" reported (fun _ _ => some none) running
        (retried id (fun _ => "") ⟨10, 10⟩ 5 "claim" reported (fun _ _ => some none) running
          ⟨some [1, 2], none⟩ [4]) =
      complete id (fun _ => "") ⟨10, 10⟩ 5 "claim" reported (fun _ _ => some none) running
        ⟨some [1, 2], none⟩ ↔
    (∀ count ∈ [4], count < 4) ∨ tar.error.isSome = true ∨
      Uploads.intact (fun _ => "") (some [1, 2]) tar.tarBytes tar.sha256 = false :=
  complete_retried_iff rfl rfl

/-- The transaction is rolled back after the tar was taken over, and the retry finds none. -/
theorem complete_retried_loses : ¬ ∀ (body : CompleteIn) (run : Run) (files : Files)
    (attempts : List Nat) (settings : Settings), body.artifacts.isSome = true →
      accepted id 5 "claim" body run = true →
      complete id (fun _ => "") settings 5 "claim" body (fun _ _ => some none) run
          (retried id (fun _ => "") settings 5 "claim" body (fun _ _ => some none) run files
            attempts) =
        complete id (fun _ => "") settings 5 "claim" body (fun _ _ => some none) run files := by
  intro h
  have heq := h reported running ⟨some [1, 2], none⟩ [4] ⟨10, 10⟩ rfl rfl
  have herror := congrArg (fun d : Draft => d.artifacts.error.isSome) heq
  exact absurd herror (by decide)

end Completion

end AnsiDeck
