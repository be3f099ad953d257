import AnsiDeck.Lib.System
import Mathlib.Data.List.DropRight

/-!
# Paths, and how the kernel walks them

The functions of Python's `posixpath` on relative and absolute paths, and the resolution of a path
over a file system with symbolic links: one component a step, a link's target put before what is
left, `..` leading to the parent of the directory the walk has really come to. A path is the list
of its characters (bytes that are no UTF-8 decode to characters of their own).

`Climbs n` is what bounds a walk from above: at most `n` leading `..`, and none after a name.
-/

namespace Lib

namespace Posix

abbrev Path := List Char

/-- `path.split("/")`. -/
def split (path : Path) : List Path := path.splitOn '/'

/-- `"/".join(names)`. -/
def joined (names : List Path) : Path := ['/'].intercalate names

def dot : Path := ['.']

def dotdot : Path := ['.', '.']

def startsWithSlash (path : Path) : Bool := path.head? == some '/'

def rstripSlashes (path : Path) : Path := path.rdropWhile (· == '/')

/-- `posixpath.dirname`. -/
def dirname (path : Path) : Path :=
  let head := path.rdropWhile (· != '/')
  if head.all (· == '/') then head else rstripSlashes head

/-- `posixpath.join`, of two paths. -/
def join (a b : Path) : Path :=
  if startsWithSlash b || a.isEmpty then b
  else if a.getLast? == some '/' then a ++ b
  else a ++ '/' :: b

/-- The loop of `posixpath.normpath`, over what it has kept so far, the last first. -/
def collapse (absolute : Bool) : List Path → List Path → List Path
  | kept, [] => kept
  | kept, comp :: comps =>
    if comp = [] ∨ comp = dot then collapse absolute kept comps
    else if comp ≠ dotdot ∨ (absolute = false ∧ kept = []) ∨ kept.head? = some dotdot then
      collapse absolute (comp :: kept) comps
    else collapse absolute kept.tail comps

/-- Two leading slashes are kept, any other number of them is one. -/
def leadingSlashes (path : Path) : Nat :=
  match path.takeWhile (· == '/') with
  | [] => 0
  | [_, _] => 2
  | _ => 1

/-- `posixpath.normpath`. -/
def normpath (path : Path) : Path :=
  let slashes := leadingSlashes path
  let kept := List.replicate slashes '/' ++ joined (collapse (slashes != 0) [] (split path)).reverse
  if kept.isEmpty then dot else kept

/-! ## File systems -/

/-- What a directory may hold a name for: no `/`, not empty, not one of the dots. -/
structure IsName (name : Path) : Prop where
  noSlash : '/' ∉ name
  nonempty : name ≠ []
  notDot : name ≠ dot
  notDotdot : name ≠ dotdot

instance (name : Path) : Decidable (IsName name) :=
  decidable_of_iff ('/' ∉ name ∧ name ≠ [] ∧ name ≠ dot ∧ name ≠ dotdot)
    ⟨fun h => ⟨h.1, h.2.1, h.2.2.1, h.2.2.2⟩, fun h => ⟨h.1, h.2, h.3, h.4⟩⟩

inductive Entry
  | directory
  | file
  | symlink (target : Path)
  deriving DecidableEq

/-- The place of a directory, a file or a link: the names that lead to it from the root of the file
system, the last first. -/
abbrev Place := List Path

/-- A file system: what is at each place. -/
structure FileSystem where
  entry : Place → Option Entry
  /-- Its root is a directory, and so is whatever holds something. -/
  root : entry [] = some .directory
  parent : ∀ name place, entry (name :: place) ≠ none → entry place = some .directory
  isName : ∀ name place, entry (name :: place) ≠ none → IsName name

/-- What is at a place, where `entries` says what is at each but the root. -/
def lookupEntry (entries : List (Place × Entry)) : Place → Option Entry
  | [] => some .directory
  | name :: place => entries.lookup (name :: place)

theorem mem_of_lookupEntry {entries : List (Place × Entry)} {name : Path} {place : Place}
    {e : Entry} (h : lookupEntry entries (name :: place) = some e) :
    (name :: place, e) ∈ entries := by
  obtain ⟨front, back, heq, -⟩ := List.lookup_eq_some_iff.mp h
  simp [heq]

/-- The file system of a list of entries, each with its directory. -/
def FileSystem.ofEntries (entries : List (Place × Entry))
    (h : ∀ e ∈ entries, (∀ name ∈ e.1.head?, IsName name) ∧
      lookupEntry entries e.1.tail = some .directory) : FileSystem where
  entry := lookupEntry entries
  root := rfl
  parent name place hsome := by
    obtain ⟨e, he⟩ := Option.ne_none_iff_exists'.mp hsome
    exact (h _ (mem_of_lookupEntry he)).2
  isName name place hsome := by
    obtain ⟨e, he⟩ := Option.ne_none_iff_exists'.mp hsome
    exact (h _ (mem_of_lookupEntry he)).1 name rfl

/-- A path being resolved: where the walk has come to, and the components that are left. -/
structure Walk where
  here : Place
  left : List Path

variable (fs : FileSystem)

/-- One component. The walk ends (`none`) where none is left, below what is no directory, and at a
name that is not there. -/
def step (walk : Walk) : Option Walk :=
  match walk.left with
  | [] => none
  | comp :: left =>
    if fs.entry walk.here ≠ some .directory then none
    else if comp = [] ∨ comp = dot then some ⟨walk.here, left⟩
    -- the root is its own parent
    else if comp = dotdot then some ⟨walk.here.tail, left⟩
    else
      match fs.entry (comp :: walk.here) with
      | none => none
      | some (.symlink target) =>
        some ⟨if startsWithSlash target then [] else walk.here, split target ++ left⟩
      | some _ => some ⟨comp :: walk.here, left⟩

/-- The walk that begins in the directory `cwd` and resolves `path`. -/
def walk (cwd : Place) (path : Path) : System Walk Unit where
  init := (· = ⟨if startsWithSlash path then [] else cwd, split path⟩)
  step := fun w _ => step fs w

/-- At most `n` leading `..`, and none after a name. -/
def Climbs : Nat → List Path → Prop
  | _, [] => True
  | n, comp :: comps =>
    if comp = [] ∨ comp = dot then Climbs n comps
    else if comp = dotdot then 0 < n ∧ Climbs (n - 1) comps
    else dotdot ∉ comps

/-- No `..` after a name. -/
def Leads : List Path → Prop
  | [] => True
  | comp :: comps =>
    if comp = [] ∨ comp = dot ∨ comp = dotdot then Leads comps else dotdot ∉ comps

/-! ## A walk that does not climb stays -/

section Confined

variable {fs} {root : Place}

theorem climbs_of_notMem {comps : List Path} (h : dotdot ∉ comps) (n : Nat) : Climbs n comps := by
  induction comps with
  | nil => trivial
  | cons comp comps ih =>
    rw [List.mem_cons, not_or] at h
    unfold Climbs
    split
    · exact ih h.2
    · rw [if_neg (Ne.symm h.1)]
      exact h.2

theorem Climbs.append {n : Nat} {comps left : List Path} (h : Climbs n comps)
    (hleft : dotdot ∉ left) : Climbs n (comps ++ left) := by
  induction comps generalizing n with
  | nil => exact climbs_of_notMem hleft n
  | cons comp comps ih =>
    rw [List.cons_append]
    unfold Climbs at h ⊢
    split
    · next hskip =>
      rw [if_pos hskip] at h
      exact ih h
    · next hskip =>
      rw [if_neg hskip] at h
      split
      · next hdots =>
        rw [if_pos hdots] at h
        exact ⟨h.1, ih h.2⟩
      · next hdots =>
        rw [if_neg hdots] at h
        exact List.not_mem_append h hleft

/-- No link below `root` leads out of it: none is absolute, and none climbs above `root` before it
names anything. -/
def Confined (fs : FileSystem) (root : Place) : Prop :=
  ∀ name place target, fs.entry (name :: (place ++ root)) = some (.symlink target) →
    startsWithSlash target = false ∧ Climbs place.length (split target)

/-- Below `root`, with no way above it in what is left. -/
def Below (root : Place) (w : Walk) : Prop :=
  ∃ place, w.here = place ++ root ∧ Climbs place.length w.left

theorem below_step {w w' : Walk} (hconfined : Confined fs root) (h : Below root w)
    (hs : step fs w = some w') : Below root w' := by
  obtain ⟨here, left⟩ := w
  obtain ⟨place, hhere, hclimbs⟩ := h
  simp only at hhere hclimbs
  subst hhere
  cases left with
  | nil => exact absurd hs (by simp [step])
  | cons comp left =>
    unfold Climbs at hclimbs
    simp only [step] at hs
    split at hs
    · exact absurd hs (by simp)
    split at hs
    · next hskip =>
      obtain rfl := Option.some.inj hs
      rw [if_pos hskip] at hclimbs
      exact ⟨place, rfl, hclimbs⟩
    next hskip =>
    rw [if_neg hskip] at hclimbs
    split at hs
    · next hdots =>
      obtain rfl := Option.some.inj hs
      rw [if_pos hdots] at hclimbs
      cases place with
      | nil => exact absurd hclimbs.1 (Nat.lt_irrefl 0)
      | cons name place => exact ⟨place, rfl, hclimbs.2⟩
    next hdots =>
    rw [if_neg hdots] at hclimbs
    split at hs
    · exact absurd hs (by simp)
    · next target hentry =>
      obtain rfl := Option.some.inj hs
      obtain ⟨hrelative, htarget⟩ := hconfined comp place target hentry
      refine ⟨place, ?_, htarget.append hclimbs⟩
      rw [hrelative]
      rfl
    · obtain rfl := Option.some.inj hs
      exact ⟨comp :: place, rfl, climbs_of_notMem hclimbs _⟩

/-- **Resolving a path without `..` never leaves a tree whose links are confined to it.** -/
theorem Confined.stays (hconfined : Confined fs root) {path : Path}
    (hrelative : startsWithSlash path = false) (hdots : dotdot ∉ split path) {w : Walk}
    (hr : (walk fs root path).Reachable w) : root <:+ w.here := by
  have hinv : System.Inductive (walk fs root path) anyStep (Below root) :=
    { init := by
        rintro w rfl
        refine ⟨[], ?_, climbs_of_notMem hdots _⟩
        rw [hrelative]
        rfl
      step := fun w _ w' hw _ hs => below_step hconfined hw hs }
  obtain ⟨place, hhere, -⟩ := hinv.of_reachable hr
  exact ⟨place, hhere.symm⟩

end Confined

/-! ## `join` and `normpath` of names -/

section Names

variable {names : List Path}

/-- The path of a place, from the root of the file system or from a directory above. -/
def pathOf (place : Place) : Path := joined place.reverse

theorem joined_concat (hnames : names ≠ []) (name : Path) :
    joined (names ++ [name]) = joined names ++ '/' :: name := by
  unfold joined
  induction names with
  | nil => exact absurd rfl hnames
  | cons first names ih =>
    cases names with
    | nil => simp
    | cons second names =>
      have := ih (by simp)
      simp only [List.cons_append, List.intercalate_cons_cons] at this ⊢
      rw [this]
      simp

theorem IsName.getLast {name : Path} (h : IsName name) :
    ∃ front last, name = front ++ [last] ∧ last ≠ '/' := by
  have hlast := List.dropLast_append_getLast h.nonempty
  refine ⟨name.dropLast, name.getLast h.nonempty, hlast.symm, ?_⟩
  intro heq
  exact h.noSlash (heq ▸ List.getLast_mem h.nonempty)

/-- The last character of a path of names is no slash. -/
theorem joined_getLast (h : ∀ name ∈ names, IsName name) (hnames : names ≠ []) :
    ∃ front last, joined names = front ++ [last] ∧ last ≠ '/' := by
  obtain ⟨init, name, rfl⟩ := (List.eq_nil_or_concat' names).resolve_left hnames
  obtain ⟨front, last, rfl, hlast⟩ := (h name (by simp)).getLast
  by_cases hinit : init = []
  · exact ⟨front, last, by simp [hinit, joined], hlast⟩
  · exact ⟨joined init ++ '/' :: front, last, by rw [joined_concat hinit]; simp, hlast⟩

theorem joined_head (h : ∀ name ∈ names, IsName name) (rest : Path) (hnames : names ≠ []) :
    startsWithSlash (joined names ++ rest) = false := by
  cases names with
  | nil => exact absurd rfl hnames
  | cons name names =>
    have hname := h name (by simp)
    obtain ⟨first, others, rfl⟩ := List.exists_cons_of_ne_nil hname.nonempty
    have hfirst : first ≠ '/' := fun heq => hname.noSlash (by simp [heq])
    cases names <;> simp [joined, startsWithSlash, hfirst]

theorem dirname_joined (h : ∀ name ∈ names, IsName name) {name : Path} (hname : IsName name) :
    dirname (joined (names ++ [name])) = joined names := by
  have hslash : ∀ c ∈ name, (c != '/') = true := by
    intro c hc
    simpa using fun heq : c = '/' => hname.noSlash (heq ▸ hc)
  by_cases hnames : names = []
  · have : name.rdropWhile (· != '/') = [] := List.rdropWhile_eq_nil_iff.mpr hslash
    simp [hnames, joined, dirname, this]
  · obtain ⟨front, last, hjoined, hlast⟩ := joined_getLast h hnames
    have hdrop : (joined names ++ '/' :: name).rdropWhile (· != '/') = joined names ++ ['/'] := by
      have hrev : ∀ c ∈ name.reverse, (c != '/') = true := fun c hc => hslash c (by simpa using hc)
      rw [List.rdropWhile, List.reverse_append, List.reverse_cons, List.append_assoc,
        List.dropWhile_append_of_pos hrev]
      simp
    rw [joined_concat hnames]
    unfold dirname rstripSlashes
    dsimp only
    rw [hdrop, hjoined, if_neg (by simp [hlast]), List.rdropWhile_concat_pos _ _ _ (by simp),
      List.rdropWhile_concat_neg _ _ _ (by simpa using hlast)]

theorem split_join (h : ∀ name ∈ names, IsName name) {path : Path}
    (hrelative : startsWithSlash path = false) :
    split (join (joined names) path) = names ++ split path := by
  by_cases hnames : names = []
  · subst hnames
    simp [join, joined, hrelative]
  · obtain ⟨front, last, hjoined, hlast⟩ := joined_getLast h hnames
    have hsplit : split (joined names) = names :=
      List.splitOn_intercalate '/' (fun name hname => (h name hname).noSlash) hnames
    have hjoin : join (joined names) path = joined names ++ '/' :: path := by
      simp [join, hrelative, hjoined, hlast]
    rw [hjoin]
    unfold split at hsplit ⊢
    rw [List.splitOn_append_cons_self, hsplit]

theorem startsWithSlash_join (h : ∀ name ∈ names, IsName name) {path : Path}
    (hrelative : startsWithSlash path = false) :
    startsWithSlash (join (joined names) path) = false := by
  by_cases hnames : names = []
  · simp [hnames, join, joined, hrelative]
  · obtain ⟨front, last, hjoined, hlast⟩ := joined_getLast h hnames
    have hjoin : join (joined names) path = joined names ++ '/' :: path := by
      simp [join, hrelative, hjoined, hlast]
    rw [hjoin]
    exact joined_head h _ hnames

theorem collapse_names (h : ∀ name ∈ names, IsName name) (kept comps : List Path) :
    collapse false kept (names ++ comps) = collapse false (names.reverse ++ kept) comps := by
  induction names generalizing kept with
  | nil => rfl
  | cons name names ih =>
    have hname := h name (by simp)
    rw [List.cons_append, collapse, if_neg (by simp [hname.nonempty, hname.notDot]),
      if_pos (Or.inl hname.notDotdot), ih (fun n hn => h n (by simp [hn]))]
    simp

/-- A `..` at the bottom is there to stay. -/
theorem collapse_bottom (kept comps : List Path) :
    ∃ kept', collapse false (kept ++ [dotdot]) comps = kept' ++ [dotdot] := by
  induction comps generalizing kept with
  | nil => exact ⟨kept, rfl⟩
  | cons comp comps ih =>
    unfold collapse
    split
    · exact ih kept
    split
    · exact ih (comp :: kept)
    · next hpop =>
      cases kept with
      | nil => exact absurd (Or.inr (Or.inr rfl)) hpop
      | cons _ kept => exact ih kept

/-- How a normalised path says that it leads above. -/
def LeadsUp (path : Path) : Prop := path = dotdot ∨ dotdot ++ ['/'] <+: path

theorem normpath_bottom {path : Path} {kept : List Path} (hrelative : startsWithSlash path = false)
    (h : collapse false [] (split path) = kept ++ [dotdot]) : LeadsUp (normpath path) := by
  have hslashes : leadingSlashes path = 0 := by
    unfold leadingSlashes
    cases path with
    | nil => rfl
    | cons c path =>
      have hc : c ≠ '/' := by simpa [startsWithSlash] using hrelative
      simp [hc]
  have hnorm : normpath path = joined (dotdot :: kept.reverse) := by
    unfold normpath
    rw [hslashes]
    simp only [bne_self_eq_false, h, List.reverse_append, List.reverse_singleton,
      List.replicate_zero, List.nil_append, List.singleton_append]
    have : joined (dotdot :: kept.reverse) ≠ [] := by
      cases kept.reverse <;> simp [joined, dotdot]
    simp [this]
  rw [hnorm]
  cases hkept : kept.reverse with
  | nil => exact Or.inl (by simp [joined])
  | cons name others => exact Or.inr ⟨joined (name :: others), by simp [joined]⟩

/-- More `..` than there are names before them, and the path leads up. -/
theorem collapse_climbs {kept comps : List Path} (hkept : dotdot ∉ kept) (hleads : Leads comps) :
    Climbs kept.length comps ∨ ∃ kept', collapse false kept comps = kept' ++ [dotdot] := by
  induction comps generalizing kept with
  | nil => exact Or.inl trivial
  | cons comp comps ih =>
    unfold Leads at hleads
    unfold Climbs collapse
    by_cases hskip : comp = [] ∨ comp = dot
    · rw [if_pos hskip, if_pos hskip]
      rw [if_pos (or_assoc.mp (Or.inl hskip))] at hleads
      exact ih hkept hleads
    rw [if_neg hskip, if_neg hskip]
    by_cases hdots : comp = dotdot
    · subst hdots
      rw [if_pos (Or.inr (Or.inr rfl))] at hleads
      rw [if_pos rfl]
      cases kept with
      | nil =>
        rw [if_pos (Or.inr (Or.inl ⟨rfl, rfl⟩))]
        exact Or.inr (collapse_bottom [] comps)
      | cons name kept =>
        rw [List.mem_cons, not_or] at hkept
        rw [if_neg (by simpa using Ne.symm hkept.1)]
        rcases ih hkept.2 hleads with hclimbs | hbottom
        · exact Or.inl ⟨by simp, by simpa using hclimbs⟩
        · exact Or.inr hbottom
    · rw [if_neg hdots]
      rw [if_neg (by simpa [← or_assoc, hdots] using hskip)] at hleads
      exact Or.inl hleads

end Names

end Posix

end Lib
