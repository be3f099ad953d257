import AnsiDeck.Lib.RegexLocal
import AnsiDeck.Lib.Trace

/-!
# What a search hides, said without its expression

A `Kind` says where a thing stands in a text and which stretches of it are hidden. A text is read
from left to right (`Reads`): a thing where one begins, and one character where none does. Several
kinds are hidden one after the other, each in what the ones before have left (`Remains`). A pattern
that `Finds` the things of a kind makes just these edits, so a statement about a chain of patterns
can be made about the kinds instead (`remains_iff`).
-/

namespace Lib

/-- A stretch of a text, hidden or not. -/
structure Stretch (α : Type) where
  text : List α
  hidden : Bool

namespace Stretch

variable {α : Type}

def leave (w : List α) : Stretch α := ⟨w, false⟩

def hide (w : List α) : Stretch α := ⟨w, true⟩

end Stretch

namespace Search

open Edit (Cell apply cells chars cut inserted keep trace)

open Stretch (hide leave)

variable {α γ : Type}

def textOf (ss : List (Stretch α)) : List α := ss.flatMap Stretch.text

/-- The marker in the place of each hidden stretch. -/
def editsOf (ss : List (Stretch α)) : List Edit :=
  ss.flatMap fun s => if s.hidden then [cut s.text.length] else List.replicate s.text.length keep

/-- The text with each hidden stretch as one hole. -/
def holesOf (ss : List (Stretch α)) : List (Option α) :=
  ss.flatMap fun s => if s.hidden then [none] else s.text.map some

/-- Whether a thing stands between what is before it, the last character first, and what is behind
it. -/
abbrev Kind (α : Type) := List α → List (Stretch α) → List α → Prop

/-- No thing begins there. -/
def Free (kind : Kind α) (before rest : List α) : Prop :=
  ∀ thing after, kind before thing after → rest ≠ textOf thing ++ after

/-- The text from a place on, in stretches. -/
inductive Reads (kind : Kind α) : List α → List α → List (Stretch α) → Prop
  | nil {before : List α} : Reads kind before [] []
  | other {before : List α} {c : α} {rest : List α} {ss : List (Stretch α)} :
    Free kind before (c :: rest) → Reads kind (c :: before) rest ss →
    Reads kind before (c :: rest) (leave [c] :: ss)
  | thing {before after : List α} {thing ss : List (Stretch α)} :
    kind before thing after → Reads kind ((textOf thing).reverse ++ before) after ss →
    Reads kind before (textOf thing ++ after) (thing ++ ss)

/-- What is left of a text when its things are hidden, one kind after the other. -/
inductive Remains (mark : List α) : List (Kind α) → List (Cell α) → List (Cell α) → Prop
  | nil {cs : List (Cell α)} : Remains mark [] cs cs
  | cons {kind : Kind α} {kinds : List (Kind α)} {ss : List (Stretch α)} {cs out : List (Cell α)} :
    Reads kind [] (chars cs) ss → Remains mark kinds (apply (inserted mark) (editsOf ss) cs) out →
    Remains mark (kind :: kinds) cs out

@[simp] theorem textOf_nil : textOf ([] : List (Stretch α)) = [] := rfl

@[simp] theorem textOf_cons (s : Stretch α) (ss : List (Stretch α)) :
    textOf (s :: ss) = s.text ++ textOf ss := List.flatMap_cons

@[simp] theorem text_leave (w : List α) : (leave w).text = w := rfl

@[simp] theorem text_hide (w : List α) : (hide w).text = w := rfl

@[simp] theorem editsOf_nil : editsOf ([] : List (Stretch α)) = [] := rfl

@[simp] theorem editsOf_leave (w : List α) (ss : List (Stretch α)) :
    editsOf (leave w :: ss) = List.replicate w.length keep ++ editsOf ss := List.flatMap_cons

@[simp] theorem editsOf_hide (w : List α) (ss : List (Stretch α)) :
    editsOf (hide w :: ss) = cut w.length :: editsOf ss := List.flatMap_cons

theorem editsOf_append (ss ts : List (Stretch α)) : editsOf (ss ++ ts) = editsOf ss ++ editsOf ts :=
  List.flatMap_append

theorem remains_append {mark : List α} {kinds kinds' : List (Kind α)} {cs out : List (Cell α)} :
    Remains mark (kinds ++ kinds') cs out ↔
      ∃ mid, Remains mark kinds cs mid ∧ Remains mark kinds' mid out := by
  induction kinds generalizing cs with
  | nil =>
    constructor
    · exact fun h => ⟨cs, .nil, h⟩
    · rintro ⟨mid, ⟨⟩, h⟩
      exact h
  | cons kind kinds ih =>
    constructor
    · intro h
      cases h with
      | cons hreads hremains =>
        obtain ⟨mid, hmid, hout⟩ := ih.1 hremains
        exact ⟨mid, .cons hreads hmid, hout⟩
    · rintro ⟨mid, hmid, hout⟩
      cases hmid with
      | cons hreads hremains => exact .cons hreads (ih.2 ⟨mid, hremains, hout⟩)

theorem Reads.textOf_eq {kind : Kind α} {before text : List α} {ss : List (Stretch α)}
    (h : Reads kind before text ss) : text = textOf ss := by
  induction h with
  | nil => rfl
  | other _ _ ih =>
    rw [textOf_cons, ← ih]
    rfl
  | @thing _ _ thing ss _ _ ih =>
    rw [ih]
    exact List.flatMap_append.symm

theorem apply_editsOf (ss : List (Stretch α)) :
    apply [none] (editsOf ss) ((textOf ss).map some) = holesOf ss := by
  induction ss with
  | nil => rfl
  | cons s ss ih =>
    obtain ⟨w, hidden⟩ := s
    have hholes : holesOf (⟨w, hidden⟩ :: ss) =
        (if hidden then [none] else w.map some) ++ holesOf ss := List.flatMap_cons
    rw [hholes, ← ih, textOf_cons, List.map_append]
    cases hidden with
    | true =>
      have hedits : editsOf (⟨w, true⟩ :: ss) = cut w.length :: editsOf ss := editsOf_hide w ss
      rw [hedits, apply, List.drop_left' (List.length_map _)]
      rfl
    | false =>
      have hedits : editsOf (⟨w, false⟩ :: ss) = List.replicate (w.map some).length keep ++
          editsOf ss := by
        rw [List.length_map]
        exact editsOf_leave w ss
      rw [hedits, Edit.apply_append _ _ _ _ _ (Edit.span_keeps _), Edit.apply_keeps]
      rfl

/-! ## Edits that hide the things of a kind -/

/-- The edits hide the things of a kind, and every text can be read for them. -/
structure HidesThings (edits : List α → List Edit) (kind : Kind α) : Prop where
  exists_reads : ∀ text, ∃ ss, Reads kind [] text ss
  edits_eq : ∀ text ss, Reads kind [] text ss → edits text = editsOf ss

theorem remains_iff {mark : List α} {es : List (List α → List Edit)} {kinds : List (Kind α)}
    (h : List.Forall₂ HidesThings es kinds) :
    ∀ cs out, Remains mark kinds cs out ↔ out = trace mark es cs := by
  induction h with
  | nil =>
    intro cs out
    constructor
    · rintro ⟨⟩
      rfl
    · rintro rfl
      exact .nil
  | @cons edits kind es kinds hkind _ ih =>
    intro cs out
    rw [Edit.trace_cons]
    constructor
    · intro h
      cases h with
      | cons hreads hremains => rw [hkind.edits_eq _ _ hreads]; exact (ih _ _).1 hremains
    · intro h
      obtain ⟨ss, hreads⟩ := hkind.exists_reads (chars cs)
      refine .cons hreads ((ih _ _).2 ?_)
      rw [h, hkind.edits_eq _ _ hreads]

/-- Where nothing stands, nothing is hidden. -/
theorem hides_of_none {kind : Kind α} (h : ∀ before thing after, ¬ kind before thing after) :
    HidesThings (fun text => List.replicate text.length keep) kind := by
  have hreads : ∀ rest before, ∃ ss, Reads kind before rest ss := by
    intro rest
    induction rest with
    | nil => exact fun before => ⟨[], .nil⟩
    | cons c rest ih =>
      intro before
      obtain ⟨ss, hss⟩ := ih (c :: before)
      exact ⟨_, .other (fun thing after hkind => absurd hkind (h _ _ _)) hss⟩
  have hedits : ∀ {before rest ss}, Reads kind before rest ss →
      List.replicate rest.length keep = editsOf ss := by
    intro before rest ss hss
    induction hss with
    | nil => rfl
    | other _ _ ih =>
      rw [editsOf_leave, ← ih]
      rfl
    | thing hkind _ _ => exact absurd hkind (h _ _ _)
  exact ⟨fun text => hreads text [], fun _ _ => hedits⟩

end Search

/-! ## Patterns that find the things of a kind -/

namespace Pattern

open Edit (keep)

open Search (Free HidesThings Kind Reads editsOf textOf)

variable {α γ : Type} {r : Pattern α γ} {each : Regex.Match α γ → List Edit} {kind : Kind α}

/-- The matches of a pattern are the things of a kind: no two begin at one place. -/
structure Finds (r : Pattern α γ) (each : Regex.Match α γ → List Edit) (kind : Kind α) : Prop where
  sound : ∀ {before rest m}, r.regex.matchAt before rest = some m →
    ∃ thing after, kind before thing after ∧ rest = textOf thing ++ after ∧
      m.text = textOf thing ∧ each m = editsOf thing
  complete : ∀ {before thing after}, kind before thing after →
    r.regex.matchAt before (textOf thing ++ after) ≠ none
  sharp : ∀ {before thing after thing' after'}, kind before thing after →
    kind before thing' after' →
    textOf thing ++ after = textOf thing' ++ after' → thing = thing'

theorem editsFrom_none {before : List α} {c : α} {rest : List α}
    (h : r.regex.matchAt before (c :: rest) = none) :
    r.editsFrom each before (c :: rest) 0 = keep :: r.editsFrom each (c :: before) rest 0 := by
  simp [editsFrom, h]

theorem editsFrom_some {before rest : List α} {m : Regex.Match α γ}
    (h : r.regex.matchAt before (m.text ++ rest) = some m) :
    r.editsFrom each before (m.text ++ rest) 0 =
      each m ++ r.editsFrom each (m.text.reverse ++ before) rest 0 := by
  cases htext : m.text with
  | nil =>
    obtain ⟨-, hne, -⟩ := text_of_matchAt h
    exact absurd htext hne
  | cons c w =>
    rw [htext] at h
    rw [List.cons_append] at h ⊢
    have hlen : m.text.length - 1 = w.length := by simp [htext]
    rw [editsFrom, h]
    simp only [hlen, editsFrom_skip, List.reverse_cons, List.append_assoc, List.singleton_append]

namespace Finds

variable (h : r.Finds each kind)
include h

theorem matchAt_of_kind {before after : List α} {thing : List (Stretch α)}
    (hkind : kind before thing after) :
    ∃ m, r.regex.matchAt before (textOf thing ++ after) = some m ∧ m.text = textOf thing ∧
      each m = editsOf thing := by
  obtain ⟨m, hm⟩ := Option.ne_none_iff_exists'.1 (h.complete hkind)
  obtain ⟨thing', after', hkind', hrest, htext, hedits⟩ := h.sound hm
  obtain rfl := h.sharp hkind hkind' hrest
  exact ⟨m, hm, htext, hedits⟩

theorem free_of_none {before rest : List α} (hm : r.regex.matchAt before rest = none) :
    Free kind before rest := by
  rintro thing after hkind rfl
  exact h.complete hkind hm

theorem none_of_free {before rest : List α} (hfree : Free kind before rest) :
    r.regex.matchAt before rest = none := by
  by_contra hm
  obtain ⟨m, hm⟩ := Option.ne_none_iff_exists'.1 hm
  obtain ⟨thing, after, hkind, hrest, -⟩ := h.sound hm
  exact hfree thing after hkind hrest

theorem exists_reads (before rest : List α) : ∃ ss, Reads kind before rest ss := by
  induction before, rest using sub_induction r with
  | nil before => exact ⟨[], .nil⟩
  | keep before c rest hm ih =>
    obtain ⟨ss, hss⟩ := ih
    exact ⟨_, .other (h.free_of_none hm) hss⟩
  | found before m rest hm ih =>
    obtain ⟨thing, after, hkind, hrest, htext, -⟩ := h.sound hm
    rw [htext] at hrest ih ⊢
    obtain rfl := List.append_cancel_left hrest
    obtain ⟨ss, hss⟩ := ih
    exact ⟨_, .thing hkind hss⟩

theorem editsFrom_of_reads {before rest : List α} {ss : List (Stretch α)}
    (hss : Reads kind before rest ss) : r.editsFrom each before rest 0 = editsOf ss := by
  induction hss with
  | nil => rfl
  | other hfree _ ih =>
    rw [editsFrom_none (h.none_of_free hfree), ih]
    rfl
  | thing hkind _ ih =>
    obtain ⟨m, hm, htext, hedits⟩ := h.matchAt_of_kind hkind
    rw [← htext] at hm ih ⊢
    rw [editsFrom_some hm, ih, hedits, Search.editsOf_append]

theorem hides : HidesThings (r.edits each) kind :=
  ⟨fun text => h.exists_reads [] text, fun _ _ hss => h.editsFrom_of_reads hss⟩

end Finds

end Pattern

end Lib
