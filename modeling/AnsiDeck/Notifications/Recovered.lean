import Mathlib.Data.List.Sort
import AnsiDeck.Lib.Table
import AnsiDeck.Models

/-!
# "Recovered"

`app.notifications.events.run_finished`: which event a run that ends is reported as. A success
after a failure of the same thing is a recovery, and the same thing is looked up by ids. But only a
group of the inventory's own has an id: a run whose target is a group of a dynamic source has a
name and no id, like a run of the whole inventory, and so has one whose group was deleted.
`== None` is `IS NULL`, so the runs of deleted inventories are one inventory's to the look-up.

What the notification says of the run decides nothing and is left out.
-/

namespace AnsiDeck

namespace Notifications

open Lib (Table)

/-- A run, with the project it counts for. -/
structure ProjectRun extends Run where
  projectId : Nat

abbrev Runs := Table RunId ProjectRun

inductive RunEvent
  | failed
  | recovered
  deriving DecidableEq

/-- `_FINISHED`. -/
def isFinished : RunStatus → Bool
  | .success | .failed | .timedOut => true
  | .queued | .running | .cancelled => false

def wentWrong : RunStatus → Bool
  | .failed | .timedOut => true
  | .queued | .running | .success | .cancelled => false

/-- The `WHERE` of the look-up. -/
def isPrevious (id : RunId) (run : ProjectRun) (other : RunId) (row : ProjectRun) : Bool :=
  other ≠ id && row.projectId = run.projectId && row.playbookId = run.playbookId &&
    row.inventoryId = run.inventoryId && row.groupId = run.groupId && isFinished row.status &&
    row.finishedAt.isSome

def finishedAt (row : RunId × ProjectRun) : Nat := row.2.finishedAt.getD 0

/-- `ORDER BY finished_at DESC, id DESC`: `a` comes no later than `b`. -/
def later (a b : RunId × ProjectRun) : Prop :=
  finishedAt b < finishedAt a ∨ finishedAt b = finishedAt a ∧ b.1 ≤ a.1

instance : DecidableRel later := fun a b =>
  inferInstanceAs (Decidable (finishedAt b < finishedAt a ∨
    finishedAt b = finishedAt a ∧ b.1 ≤ a.1))

def previousFailed (runs : Runs) (id : RunId) (run : ProjectRun) : Bool :=
  (((runs.rows (isPrevious id run)).insertionSort later).head?).any fun row =>
  wentWrong row.2.status

/-- The event of a run whose final status is set; an id that is null, or 0, is falsy. -/
def runFinished (runs : Runs) (id : RunId) (run : ProjectRun) : Option RunEvent :=
  if wentWrong run.status then some .failed
  else if run.status = .success ∧ run.playbookId.any (· ≠ 0) ∧
    previousFailed runs id run = true then
    some .recovered
  else none

/-! ## The same thing -/

/-- What a run's row says its target is. -/
inductive Target
  | whole
  | group (id : Nat)
  /-- A group that has only a name: of a dynamic source, or deleted since. -/
  | named (name : String)
  deriving DecidableEq

def ProjectRun.target (run : ProjectRun) : Target :=
  match run.groupId with
  | some id => .group id
  | none =>
    match run.groupName with
    | some name => .named name
    | none => .whole

/-- A playbook or an inventory that is gone is nobody's. -/
def SameThing (run row : ProjectRun) : Prop :=
  row.projectId = run.projectId ∧ row.playbookId = run.playbookId ∧ run.playbookId.isSome = true ∧
    row.inventoryId = run.inventoryId ∧ run.inventoryId.isSome = true ∧ row.target = run.target

instance (run row : ProjectRun) : Decidable (SameThing run row) :=
  inferInstanceAs (Decidable (_ ∧ _))

/-- A run other than this one that finished. -/
def Finished (runs : Runs) (id : RunId) (row : RunId × ProjectRun) : Prop :=
  row.1 ≠ id ∧ runs.get? row.1 = some row.2 ∧ isFinished row.2.status = true ∧
    row.2.finishedAt.isSome = true

/-- The last of the runs with `p` that finished. -/
def Latest (runs : Runs) (id : RunId) (p : ProjectRun → Prop) (row : RunId × ProjectRun) : Prop :=
  (Finished runs id row ∧ p row.2) ∧ ∀ row', Finished runs id row' → p row'.2 → later row row'

/-- The last run of the same thing went wrong. -/
def Recovers (runs : Runs) (id : RunId) (run : ProjectRun) : Prop :=
  ∃ row, Latest runs id (SameThing run) row ∧ wentWrong row.2.status = true

/-- A run with the same ids. -/
def SameIds (run row : ProjectRun) : Prop :=
  row.projectId = run.projectId ∧ row.playbookId = run.playbookId ∧
    row.inventoryId = run.inventoryId ∧ row.groupId = run.groupId

/-- The last run with the same ids is of the same thing, or went wrong just when the last one of the
same thing did. -/
def Told (runs : Runs) (id : RunId) (run : ProjectRun) : Prop :=
  run.playbookId.isSome = true → ∀ row, Latest runs id (SameIds run) row →
    SameThing run row.2 ∨ (wentWrong row.2.status = true ↔ Recovers runs id run)

/-! ## The look-up -/

theorem later_total (a b : RunId × ProjectRun) : later a b ∨ later b a := by
  rcases Nat.lt_trichotomy (finishedAt a) (finishedAt b) with h | h | h
  · exact .inr (.inl h)
  · rcases Nat.le_total a.1 b.1 with hid | hid
    · exact .inr (.inr ⟨h, hid⟩)
    · exact .inl (.inr ⟨h.symm, hid⟩)
  · exact .inl (.inl h)

theorem later_trans {a b c : RunId × ProjectRun} (hab : later a b)
    (hbc : later b c) : later a c := by
  rcases hab with hab | ⟨hab, hid⟩
  · rcases hbc with hbc | ⟨hbc, -⟩
    · exact .inl (Nat.lt_trans hbc hab)
    · exact .inl (hbc ▸ hab)
  · rcases hbc with hbc | ⟨hbc, hid'⟩
    · exact .inl (hab ▸ hbc)
    · exact .inr ⟨hbc.trans hab, Nat.le_trans hid' hid⟩

theorem id_eq_of_later {a b : RunId × ProjectRun} (hab : later a b)
    (hba : later b a) : a.1 = b.1 := by
  rcases hab with hab | ⟨hab, hid⟩
  · rcases hba with hba | ⟨hba, -⟩
    · exact absurd hab (Nat.lt_asymm hba)
    · exact absurd hab (by rw [hba]; exact Nat.lt_irrefl _)
  · rcases hba with hba | ⟨-, hid'⟩
    · exact absurd hba (by rw [hab]; exact Nat.lt_irrefl _)
    · exact Nat.le_antisymm hid' hid

def Target.id? : Target → Option Nat
  | .group id => some id
  | .whole | .named _ => none

theorem id?_target (run : ProjectRun) : run.target.id? = run.groupId := by
  rw [ProjectRun.target]
  cases run.groupId with
  | some id => rfl
  | none =>
    cases run.groupName with
    | some name => rfl
    | none => rfl

theorem SameThing.sameIds {run row : ProjectRun} (h : SameThing run row) : SameIds run row := by
  obtain ⟨hproject, hplaybook, -, hinventory, -, htarget⟩ := h
  refine ⟨hproject, hplaybook, hinventory, ?_⟩
  rw [← id?_target, htarget, id?_target]

theorem Latest.unique {runs : Runs} {id : RunId} {p : ProjectRun → Prop} {a b : RunId × ProjectRun}
    (ha : Latest runs id p a) (hb : Latest runs id p b) : a = b := by
  have hid : a.1 = b.1 := id_eq_of_later (ha.2 b hb.1.1 hb.1.2) (hb.2 a ha.1.1 ha.1.2)
  have hrow : some a.2 = some b.2 := by
    rw [← ha.1.1.2.1, ← hb.1.1.2.1, hid]
  exact Prod.ext hid (Option.some.inj hrow)

theorem mem_previous {runs : Runs} {id : RunId} {run : ProjectRun} {row : RunId × ProjectRun} :
    row ∈ runs.rows (isPrevious id run) ↔ Finished runs id row ∧ SameIds run row.2 := by
  obtain ⟨other, row⟩ := row
  rw [Table.mem_rows]
  simp only [isPrevious, Finished, SameIds, Bool.and_eq_true, decide_eq_true_eq]
  tauto

instance : Std.Total later := ⟨later_total⟩

instance : IsTrans (RunId × ProjectRun) later := ⟨fun _ _ _ => later_trans⟩

/-- The first in order is the last that finished. -/
theorem head_sorted {runs : Runs} {id : RunId} {run : ProjectRun} {row : RunId × ProjectRun}
    (h : ((runs.rows (isPrevious id run)).insertionSort later).head? = some row) :
    Latest runs id (SameIds run) row := by
  obtain ⟨rest, hsorted⟩ : ∃ rest, (runs.rows (isPrevious id run)).insertionSort later =
      row :: rest := by
    cases hs : (runs.rows (isPrevious id run)).insertionSort later with
    | nil =>
      rw [hs] at h
      cases h
    | cons row' rest =>
      rw [hs] at h
      cases h
      exact ⟨rest, rfl⟩
  have hmem : ∀ row', row' ∈ row :: rest ↔ Finished runs id row' ∧
      SameIds run row'.2 := fun row' => by
    rw [← hsorted, List.mem_insertionSort, mem_previous]
  have hpairs := List.pairwise_insertionSort later (runs.rows (isPrevious id run))
  rw [hsorted] at hpairs
  refine ⟨(hmem row).1 (List.mem_cons_self ..), fun row' hfinished hsame => ?_⟩
  rcases List.mem_cons.1 ((hmem row').2 ⟨hfinished, hsame⟩) with rfl | hrest
  · exact or_self_iff.1 (later_total row' row')
  · exact List.rel_of_pairwise_cons hpairs hrest

theorem previousFailed_iff {runs : Runs} {id : RunId} {run : ProjectRun} :
    previousFailed runs id run = true ↔
      ∃ row, Latest runs id (SameIds run) row ∧ wentWrong row.2.status = true := by
  rw [previousFailed, Option.any_eq_true]
  constructor
  · rintro ⟨row, hrow, hwrong⟩
    exact ⟨row, head_sorted hrow, hwrong⟩
  · rintro ⟨row, hlatest, hwrong⟩
    cases hs : ((runs.rows (isPrevious id run)).insertionSort later).head? with
    | none =>
      have hnil := List.head?_eq_none_iff.1 hs
      have hmem := mem_previous.2 hlatest.1
      rw [← List.mem_insertionSort later, hnil] at hmem
      cases hmem
    | some row' =>
      obtain rfl := (head_sorted hs).unique hlatest
      exact ⟨row', rfl, hwrong⟩

/-- The last run with the same ids, where it is of the same thing, is the last of the same thing. -/
theorem Latest.sameThing {runs : Runs} {id : RunId} {run : ProjectRun} {row : RunId × ProjectRun}
    (h : Latest runs id (SameIds run) row) (hsame : SameThing run row.2) :
    Latest runs id (SameThing run) row :=
  ⟨⟨h.1.1, hsame⟩, fun row' hfinished hsame' => h.2 row' hfinished hsame'.sameIds⟩

/-- Where any run of the same thing finished, one with the same ids is the last. -/
theorem exists_latest {runs : Runs} {id : RunId} {run : ProjectRun} {row : RunId × ProjectRun}
    (hfinished : Finished runs id row) (hsame : SameIds run row.2) :
    ∃ last, Latest runs id (SameIds run) last := by
  cases hs : ((runs.rows (isPrevious id run)).insertionSort later).head? with
  | none =>
    have hmem := mem_previous.2 ⟨hfinished, hsame⟩
    rw [← List.mem_insertionSort later, List.head?_eq_none_iff.1 hs] at hmem
    cases hmem
  | some last => exact ⟨last, head_sorted hs⟩

/-- A success is reported as a recovery just when the last run of the same thing went wrong, if and
only if the run looked up tells that. -/
theorem recovered_iff (runs : Runs) (id : RunId) (run : ProjectRun)
    (hstatus : run.status = .success)
    (hid : run.playbookId ≠ some 0) :
    (runFinished runs id run = some .recovered ↔ Recovers runs id run) ↔ Told runs id run := by
  have hemits : runFinished runs id run = some .recovered ↔ run.playbookId.isSome = true ∧
      ∃ row, Latest runs id (SameIds run) row ∧ wentWrong row.2.status = true := by
    rw [runFinished, hstatus, ← previousFailed_iff]
    cases hplaybook : run.playbookId with
    | none => simp [wentWrong]
    | some p =>
      have hp : p ≠ 0 := fun h => hid (by rw [hplaybook, h])
      simp [wentWrong, hp]
  rw [hemits]
  constructor
  · rintro h hplaybook row hrow
    by_cases hsame : SameThing run row.2
    · exact .inl hsame
    · refine .inr (Iff.trans ?_ h)
      constructor
      · exact fun hwrong => ⟨hplaybook, row, hrow, hwrong⟩
      · rintro ⟨-, row', hrow', hwrong⟩
        rwa [hrow.unique hrow']
  · intro htold
    constructor
    · rintro ⟨hplaybook, row, hrow, hwrong⟩
      rcases htold hplaybook row hrow with hsame | hiff
      · exact ⟨row, hrow.sameThing hsame, hwrong⟩
      · exact hiff.1 hwrong
    · rintro ⟨own, hown, hwrong⟩
      have hplaybook := hown.1.2.2.2.1
      obtain ⟨row, hrow⟩ := exists_latest hown.1.1 hown.1.2.sameIds
      refine ⟨hplaybook, row, hrow, ?_⟩
      rcases htold hplaybook row hrow with hsame | hiff
      · rwa [(hrow.sameThing hsame).unique hown]
      · exact hiff.2 ⟨own, hown, hwrong⟩

/-- A run of the group of a dynamic source. -/
def sourceRun (group : String) (status : RunStatus) (finished : Option Time) : ProjectRun where
  projectId := 1
  inventoryId := some 1
  playbookId := some 1
  groupName := some group
  status := status
  queuedAt := 0
  finishedAt := finished

/-- A success on one group after a failure on another. -/
def otherGroup : Runs := (∅ : Runs).put 1 (sourceRun "db" .failed (some 5))

theorem finished_otherGroup {row : RunId × ProjectRun} (h : Finished otherGroup 2 row) :
    row.2 = sourceRun "db" .failed (some 5) := by
  obtain ⟨-, hget, -⟩ := h
  rw [otherGroup, Table.get?_put] at hget
  split at hget
  · exact (Option.some.inj hget).symm
  · rw [Table.get?_empty] at hget
    cases hget

theorem other_group_recovers :
    runFinished otherGroup 2 (sourceRun "web" .success none) = some .recovered ∧
      ¬ Recovers otherGroup 2 (sourceRun "web" .success none) := by
  refine ⟨by decide +kernel, ?_⟩
  rintro ⟨row, ⟨⟨hfinished, hsame⟩, -⟩, -⟩
  rw [finished_otherGroup hfinished] at hsame
  exact absurd hsame (by decide)

theorem recovered_web :
    (runFinished otherGroup 2 (sourceRun "db" .success none) = some .recovered ↔
        Recovers otherGroup 2 (sourceRun "db" .success none)) ↔
      Told otherGroup 2 (sourceRun "db" .success none) :=
  recovered_iff otherGroup 2 (sourceRun "db" .success none) rfl (by decide)

end Notifications

end AnsiDeck
