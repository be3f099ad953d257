import AnsiDeck.InventorySources.Parse

/-!
# Groups that contain themselves

`_refuse_cycles` walks down from every group in turn. Its loops end on any groups whose children are
groups, and raise just when some group reaches itself through its children, with the name of one
that does (`refuseCycles_iff`).
-/

namespace AnsiDeck

namespace InventorySources

namespace Parse

open Lib (Dict Str str)
open Lib.CycleSearch (Contains)
open Relation (TransGen)

theorem mem_childrenOf {groups : Dict Str SourceGroup} {name child : Str}
    (h : child ∈ childrenOf groups name) : ∃ group, (name, group) ∈ groups.entries ∧
      child ∈ group.children := by
  unfold childrenOf at h
  cases hget : groups.get? name with
  | none =>
    rw [hget] at h
    cases h
  | some group =>
    rw [hget] at h
    exact ⟨group, Dict.get?_eq_some.1 hget, h⟩

/-- Every child is a group. -/
def Closed (groups : Dict Str SourceGroup) : Prop :=
  ∀ e ∈ groups.entries, ∀ c ∈ e.2.children, c ∈ groups.keys

theorem Closed.keys {groups : Dict Str SourceGroup} (h : Closed groups) (v c : Str)
    (hc : Contains (childrenOf groups) v c) : v ∈ groups.keys ∧ c ∈ groups.keys := by
  obtain ⟨group, hgroup, hc⟩ := mem_childrenOf hc
  exact ⟨List.mem_map_of_mem hgroup, h _ hgroup c hc⟩

variable {env : Env}

/-- What `_refuse_cycles` raises about a group. -/
def containsItself (env : Env) (child : Str) : Raised :=
  .sourceError (str "group " ++ env.repr child ++ str " contains itself")

/-- The loops of `_refuse_cycles` end so. -/
def Ends (env : Env) (groups : Dict Str SourceGroup) (result : Except Raised Unit) : Prop :=
  ∃ found, Lib.CycleSearch.Searches (childrenOf groups) (fun _ => none) groups.keys found ∧
    result = found.mapError (containsItself env)

theorem refuseCycles_eq (env : Env) (groups : Dict Str SourceGroup) :
    refuseCycles env groups =
      (Lib.CycleSearch.search (childrenOf groups) groups.keys).mapError (containsItself env) := by
  rw [refuseCycles]
  cases Lib.CycleSearch.search (childrenOf groups) groups.keys with
  | ok _ => rfl
  | error child => rfl

theorem refuseCycles_eq_ok_iff {groups : Dict Str SourceGroup} (h : Closed groups) :
    refuseCycles env groups = .ok () ↔ ∀ v, ¬ TransGen (Contains (childrenOf groups)) v v := by
  rw [← Lib.CycleSearch.search_eq_ok_iff h.keys, refuseCycles_eq]
  cases Lib.CycleSearch.search (childrenOf groups) groups.keys with
  | ok _ => exact ⟨fun _ => rfl, fun _ => rfl⟩
  | error child => exact ⟨fun hs => (by cases hs), fun hs => (by cases hs)⟩

theorem ends_iff {groups : Dict Str SourceGroup} (h : Closed groups) (result : Except Raised Unit) :
    Ends env groups result ↔ result = refuseCycles env groups := by
  have hsearch := Lib.CycleSearch.searches_search h.keys
  rw [refuseCycles_eq]
  constructor
  · rintro ⟨found, hfound, rfl⟩
    rw [hsearch.unique hfound]
  · exact fun hresult => ⟨_, hsearch, hresult⟩

/-- **Cycles are refused, and nothing else.** -/
theorem refuseCycles_iff (env : Env) (groups : Dict Str SourceGroup) (h : Closed groups) :
    (∀ result, Ends env groups result ↔ result = refuseCycles env groups) ∧
      ((∃ raised, refuseCycles env groups = .error raised) ↔
        ∃ group ∈ groups.keys, TransGen (Contains (childrenOf groups)) group group) ∧
      ∀ raised, refuseCycles env groups = .error raised →
        ∃ child ∈ groups.keys, TransGen (Contains (childrenOf groups)) child child ∧
          raised = containsItself env child := by
  have hraised : ∀ raised, refuseCycles env groups = .error raised →
      ∃ child ∈ groups.keys, TransGen (Contains (childrenOf groups)) child child ∧
        raised = containsItself env child := by
    intro raised hs
    rw [refuseCycles_eq] at hs
    cases hsearch : Lib.CycleSearch.search (childrenOf groups) groups.keys with
    | ok _ =>
      rw [hsearch] at hs
      cases hs
    | error child =>
      rw [hsearch] at hs
      cases hs
      have hcycle := Lib.CycleSearch.search_eq_error h.keys hsearch
      obtain ⟨c, hc, -⟩ := TransGen.head'_iff.1 hcycle
      exact ⟨child, (h.keys child c hc).1, hcycle, rfl⟩
  refine ⟨ends_iff h, ⟨fun ⟨raised, hs⟩ => ?_, fun ⟨group, _, hcycle⟩ => ?_⟩, hraised⟩
  · obtain ⟨child, hkey, hcycle, -⟩ := hraised raised hs
    exact ⟨child, hkey, hcycle⟩
  · cases hs : refuseCycles env groups with
    | ok _ => exact absurd hcycle ((refuseCycles_eq_ok_iff h).1 hs group)
    | error raised => exact ⟨raised, rfl⟩

/-- Plain names, and room enough. -/
def plain : Env where
  maxOutputMb := 32
  maxHosts := 20000
  maxGroups := 5000
  ansible := ⟨fun name => some (name, none), fun pattern => pattern.contains 91⟩
  repr s := 39 :: s ++ [39]
  recursion := 900

/-- `site` contains `web` and `db`, which share a group; below none of them are `red` and `blue`,
which contain each other. -/
def knot : Dict Str SourceGroup :=
  .ofList [(str "site", ⟨[], [str "web", str "db"], ∅⟩), (str "web", ⟨[], [str "hosts"], ∅⟩),
    (str "db", ⟨[], [str "hosts"], ∅⟩), (str "hosts", ⟨[], [], ∅⟩),
    (str "red", ⟨[], [str "blue"], ∅⟩), (str "blue", ⟨[], [str "red"], ∅⟩)]

theorem refuseCycles_iff_knot :
    refuseCycles plain knot = .error (containsItself plain (str "red")) ∧
    ∃ group ∈ knot.keys, TransGen (Contains (childrenOf knot)) group group := by
  have hclosed : Closed knot := by
    unfold Closed
    decide
  have hrefused : refuseCycles plain knot = .error (containsItself plain (str "red")) := by decide
  exact ⟨hrefused, (refuseCycles_iff plain knot hclosed).2.1.1 ⟨_, hrefused⟩⟩

end Parse

end InventorySources

end AnsiDeck
