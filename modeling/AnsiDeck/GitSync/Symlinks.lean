import AnsiDeck.Lib.Dict
import AnsiDeck.Lib.Posix
import Mathlib.Algebra.Order.Ring.Nat

/-!
# Symlinks of a git tree

`app.git_sync.inspect_tree`: what a sync checks of a commit's tree before it may become current,
with `_inside`, which judges each symlink by its path and its target. A listing is what
`git ls-tree -r` printed, each symlink with the target that `git cat-file` gave for it.

A checkout of the tree is a part of some file system, below the directory it was made in. A link
that `_inside` lets pass climbs no higher than that directory, and it climbs before it names
anything: whatever the names lead to, through however many links, stays below.
-/

namespace AnsiDeck

namespace GitSync

open Lib (Dict)
open Lib.Posix

def nul : Char := Char.ofNat 0

/-- The loop of `_inside`: a `..` after a name. -/
def laterDotdot : Bool → List Path → Bool
  | _, [] => false
  | seenName, part :: parts =>
    if part = dotdot then
      if seenName then true else laterDotdot seenName parts
    else laterDotdot true parts

/-- `_inside`. -/
def inside (linkPath target : Path) : Bool :=
  if startsWithSlash target || target.contains nul then false
  else
    let parts := (split target).filter fun p => !(p == [] || p == dot)
    if laterDotdot false parts then false
    else
      let resolved := normpath (join (dirname linkPath) target)
      resolved != dotdot && !(dotdot ++ ['/']).isPrefixOf resolved && !startsWithSlash resolved

/-! ## The tree of a commit -/

/-- An entry of the listing: `-` for the size of what has none. -/
inductive Listed
  | submodule (path : Path)
  | symlink (path target : Path) (size : Option Nat)
  | file (path : Path) (oid : String) (size : Nat)
  deriving DecidableEq

def Listed.size : Listed → Nat
  | .submodule _ => 0
  | .symlink _ _ size => size.getD 0
  | .file _ _ size => size

/-- What sync checks before a commit may become current. -/
structure Tree where
  /-- Path, object id and size of regular files. -/
  files : Dict Path (String × Nat)
  fileCount : Nat
  totalBytes : Nat
  warnings : List String

structure TreeLimits where
  gitMaxFiles : Nat
  gitMaxSnapshotMb : Nat

def filesOf (listing : List Listed) : Dict Path (String × Nat) :=
  .ofList (listing.filterMap fun e =>
    match e with
    | .file path oid size => some (path, oid, size)
    | _ => none)

def linksOf (listing : List Listed) : Dict Path Path :=
  .ofList (listing.filterMap fun e =>
    match e with
    | .symlink path target _ => some (path, target)
    | _ => none)

def submoduleWarnings (listing : List Listed) : List String :=
  listing.filterMap fun e =>
    match e with
    | .submodule path =>
      some s!"submodule {String.ofList path} is not fetched (it is an empty directory)"
    | _ => none

def requirements : List Path :=
  ["requirements.yml", "roles/requirements.yml", "collections/requirements.yml"].map String.toList

def requirementsWarnings (files : Dict Path (String × Nat)) : List String :=
  (requirements.filter files.contains).map fun path =>
    s!"{String.ofList path} is not installed automatically: install its roles and "
      ++ "collections on the Galaxy page"

/-- `inspect_tree`, over what git listed. -/
def inspectTree (limits : TreeLimits) (listing : List Listed) : Except String Tree :=
  let count := listing.length
  let total := (listing.map Listed.size).sum
  if count > limits.gitMaxFiles then
    .error s!"the repository has more than {limits.gitMaxFiles} files"
  else if total > limits.gitMaxSnapshotMb * 1024 * 1024 then
    .error s!"the files add up to more than {limits.gitMaxSnapshotMb} MB"
  else
    match (linksOf listing).entries.find? fun e => !inside e.1 e.2 with
    | some (path, target) =>
      .error s!"symlink {String.ofList path} points outside the repository ({String.ofList target})"
    | none =>
      let files := filesOf listing
      .ok ⟨files, count, total, submoduleWarnings listing ++ requirementsWarnings files⟩

/-! ## What `_inside` lets pass -/

theorem leads_of_laterDotdot {comps : List Path}
    (h : laterDotdot false (comps.filter fun p => !(p == [] || p == dot)) = false) :
    Leads comps := by
  have hseen : ∀ comps : List Path,
      laterDotdot true (comps.filter fun p => !(p == [] || p == dot)) = false → dotdot ∉ comps := by
    intro comps
    induction comps with
    | nil => simp
    | cons comp comps ih =>
      intro h
      by_cases hskip : comp = [] ∨ comp = dot
      · rw [List.filter_cons_of_neg (by simpa [or_iff_not_imp_left] using hskip)] at h
        refine List.not_mem_cons_of_ne_of_not_mem ?_ (ih h)
        rintro rfl
        exact absurd hskip (by decide)
      · rw [List.filter_cons_of_pos (by simpa using hskip), laterDotdot] at h
        split at h
        · exact absurd h (by simp)
        · next hdots => exact List.not_mem_cons_of_ne_of_not_mem (Ne.symm hdots) (ih h)
  induction comps with
  | nil => trivial
  | cons comp comps ih =>
    unfold Leads
    by_cases hskip : comp = [] ∨ comp = dot
    · rw [List.filter_cons_of_neg (by simpa [or_iff_not_imp_left] using hskip)] at h
      rw [if_pos (or_assoc.mp (Or.inl hskip))]
      exact ih h
    · rw [List.filter_cons_of_pos (by simpa using hskip), laterDotdot] at h
      split at h
      · next hdots =>
        rw [if_pos (Or.inr (Or.inr hdots))]
        exact ih (by simpa using h)
      · next hdots =>
        rw [if_neg (by simpa [← or_assoc, hdots] using hskip)]
        exact hseen comps h

/-- A link that passes is relative, and climbs no higher than the root of the tree. -/
theorem climbs_of_inside {name : Path} {place : Place} {target : Path} (hname : IsName name)
    (hplace : ∀ n ∈ place, IsName n) (h : inside (pathOf (name :: place)) target = true) :
    startsWithSlash target = false ∧ Climbs place.length (split target) := by
  have hnames : ∀ n ∈ place.reverse, IsName n := fun n hn => hplace n (by simpa using hn)
  unfold inside at h
  split at h
  · exact absurd h (by simp)
  next hrelative =>
  obtain ⟨hrelative, -⟩ : startsWithSlash target = false ∧ nul ∉ target := by
    simpa using hrelative
  dsimp only at h
  split at h
  · exact absurd h (by simp)
  next hlater =>
  refine ⟨hrelative, ?_⟩
  have hleads := leads_of_laterDotdot (by simpa using hlater)
  have hdotdot : dotdot ∉ place := fun hmem => (hplace _ hmem).notDotdot rfl
  -- the text that is judged is that of the components the kernel walks
  have hdirname : dirname (pathOf (name :: place)) = joined place.reverse := by
    rw [pathOf, List.reverse_cons]
    exact dirname_joined hnames hname
  have hcollapse : collapse false [] (split (join (joined place.reverse) target))
      = collapse false place (split target) := by
    rw [split_join hnames hrelative, collapse_names hnames]
    simp
  rw [hdirname] at h
  rcases collapse_climbs hdotdot hleads with hclimbs | ⟨kept, hbottom⟩
  · exact hclimbs
  · have hup := normpath_bottom (startsWithSlash_join hnames hrelative) (hcollapse.trans hbottom)
    rcases hup with heq | hprefix
    · simp [heq] at h
    · rw [List.isPrefixOf_iff_prefix.mpr hprefix] at h
      simp at h

/-- The links below `root` pass. -/
def LinksInside (fs : FileSystem) (root : Place) : Prop :=
  ∀ name place target, fs.entry (name :: (place ++ root)) = some (.symlink target) →
    inside (pathOf (name :: place)) target = true

theorem confined_of_inside {fs : FileSystem} {root : Place} (h : LinksInside fs root) :
    Confined fs root := by
  intro name place target hentry
  have hnames : ∀ (place' : Place) name', fs.entry (name' :: (place' ++ root)) ≠ none →
      ∀ n ∈ name' :: place', IsName n := by
    intro place'
    induction place' with
    | nil =>
      intro name' hsome n hn
      rw [List.mem_singleton.mp hn]
      exact fs.isName name' _ hsome
    | cons above place' ih =>
      intro name' hsome n hn
      have hparent := fs.parent name' _ hsome
      rcases List.mem_cons.mp hn with rfl | hmem
      · exact fs.isName n _ hsome
      · exact ih above (by rw [List.cons_append] at hparent; simp [hparent]) n hmem
  have hall := hnames place name (by simp [hentry])
  exact climbs_of_inside (hall name (by simp)) (fun n hn => hall n (by simp [hn]))
    (h name place target hentry)

/-- The checkout of a tree that may become current: its links are the listed ones. -/
theorem linksInside_of_inspectTree {fs : FileSystem} {root : Place} {limits : TreeLimits}
    {listing : List Listed} {tree : Tree} (hok : inspectTree limits listing = .ok tree)
    (hlisted : ∀ name place target, fs.entry (name :: (place ++ root)) = some (.symlink target) →
      (pathOf (name :: place), target) ∈ (linksOf listing).entries) : LinksInside fs root := by
  intro name place target hentry
  unfold inspectTree at hok
  dsimp only at hok
  split at hok
  · exact absurd hok (by simp)
  split at hok
  · exact absurd hok (by simp)
  split at hok
  · exact absurd hok (by simp)
  next hnone =>
  have hall := List.find?_eq_none.mp hnone _ (hlisted name place target hentry)
  simpa using hall

/-- **A path without `..` stays in a tree whose symlinks pass, through any number of them.** -/
theorem walk_stays_inside {fs : FileSystem} {root : Place} (hlinks : LinksInside fs root)
    {path : Path} (hrelative : startsWithSlash path = false) (hdots : dotdot ∉ split path)
    {w : Walk} (hr : (walk fs root path).Reachable w) : root <:+ w.here := by
  have hconfined := confined_of_inside hlinks
  exact hconfined.stays hrelative hdots hr

/-! `srv/a/up -> ../b/loop` and `srv/b/loop -> ..`: the second leads `a/up/f` back to `srv/f`. -/

def srv : Place := [['s', 'r', 'v']]

def loopEntries : List (Place × Entry) :=
  [(srv, .directory), (['a'] :: srv, .directory), (['b'] :: srv, .directory),
    (['f'] :: srv, .file),
    (['u', 'p'] :: ['a'] :: srv, .symlink ['.', '.', '/', 'b', '/', 'l', 'o', 'o', 'p']),
    (['l', 'o', 'o', 'p'] :: ['b'] :: srv, .symlink ['.', '.'])]

def loopTree : FileSystem := .ofEntries loopEntries (by decide)

/-- `_inside` of what a list of entries says. -/
def linkPasses (root : Place) (e : Place × Entry) : Bool :=
  match e.2 with
  | .symlink target => inside (pathOf (e.1.take (e.1.length - root.length))) target
  | _ => true

theorem loopTree_linksInside : LinksInside loopTree srv := by
  intro name place target hentry
  have hall : ∀ e ∈ loopEntries, linkPasses srv e = true := by decide
  have hpasses := hall _ (mem_of_lookupEntry hentry)
  simpa [linkPasses, srv] using hpasses

def loopSteps : List Unit := List.replicate 7 ()

theorem loop_stays_inside :
    ∃ w : Walk, w.here = ['f'] :: srv ∧ w.left = [] ∧ srv <:+ w.here :=
  ⟨_, rfl, rfl, @walk_stays_inside loopTree srv loopTree_linksInside
    ['a', '/', 'u', 'p', '/', 'f'] rfl (by decide) _
    (Lib.System.ReachableBy.of_isSome rfl loopSteps rfl)⟩

end GitSync

end AnsiDeck
