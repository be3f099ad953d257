import AnsiDeck.Galaxy.Requirements

/-!
# Which requirements are accepted

With local sources off, an entry that is accepted is remote (`RemoteCollection`, `RemoteRole`)
unless the name that was matched ends in a line break. `Trips` are the entries whose check raises
another exception than `RequirementsError`.
-/

namespace AnsiDeck

namespace Galaxy

namespace Requirements

open Lib (Str str)
open Lib.Urlsplit (urlsplit)

variable (py : Python)

/-! ## Remote entries -/

/-- An https URL with a host and without user, password, white space or comma. -/
def IsHttpsUrl (git : Bool) (value : Str) : Prop :=
  ∃ parts, urlsplit py.unicode py.nfkc (candidate git value) = some parts ∧
    parts.scheme = str "https" ∧ isBlank (parts.hostname py.unicode) = false ∧
    isBlank parts.userinfo.1 = true ∧ isBlank parts.userinfo.2 = true ∧
    ∀ c ∈ value, py.unicode.isSpace c = false ∧ c ≠ 44

def ctypeOf (entries : Entries) : Yaml := (get entries "type").getD (.str (str "galaxy"))

def nameOf (entries : Entries) : Yaml := (get entries "name").getD .null

def srcOf (entries : Entries) : Yaml := (get entries "src").getD .null

/-- The name of a collection, as its type wants it: `fqcn` of type galaxy, else a URL. -/
def RemoteName (fqcn : Str → Bool) (ctype : Yaml) (name : Str) : Prop :=
  isText ctype "galaxy" = true ∧ fqcn name = true ∨
    isText ctype "url" = true ∧ IsHttpsUrl py false name ∨
    isText ctype "git" = true ∧ IsHttpsUrl py true name

def RemoteCollection (fqcn : Str → Bool) : Yaml → Prop
  | .str s => fqcn s = true
  | .map entries =>
    unknownKeys entries ["name", "version", "type", "source"] = [] ∧
      (∃ name, get entries "name" = some (.str name) ∧
        RemoteName py fqcn (ctypeOf entries) name) ∧
      ∀ source, get entries "source" = some source →
        ∃ s, source = .str s ∧ IsHttpsUrl py false s
  | _ => False

/-- The `src`, or the name without one. -/
def target (name src : Yaml) : Option Str :=
  match src with
  | .null => name.str?
  | _ => src.str?

def RemoteRole (role : Str → Bool) : Yaml → Prop
  | .str s => role s = true ∨ IsHttpsUrl py true s
  | .map entries =>
    unknownKeys entries ["name", "src", "version", "scm"] = [] ∧
      (∃ s, target (nameOf entries) (srcOf entries) = some s ∧
        (role s = true ∨ IsHttpsUrl py true s)) ∧
      ∀ scm, get entries "scm" = some scm → isText scm "git" = true
  | _ => False

/-! ## What else is raised -/

/-- Another exception than `RequirementsError`. -/
def Escapes {α : Type} (x : Except Raised α) : Prop := x = .error .value

def BadUrl (git : Bool) (value : Str) : Prop :=
  urlsplit py.unicode py.nfkc (candidate git value) = none

/-- A key that is not allowed can't be printed. -/
def BadKey (entries : Entries) (allowed : List String) : Prop :=
  ∃ k ∈ unknownKeys entries allowed, k.prints = false

def VersionFine (entries : Entries) : Prop :=
  ∀ v, get entries "version" = some v → ∃ s, v = .str s ∧ matchesDollar isVersion s = true

/-- A collection whose name or type is an integer too long to print, or has one in it, or one of
whose keys is; or whose name or source is a URL that `urlsplit` doesn't take. -/
def CollectionTrips : Yaml → Prop
  | .map entries =>
    (nameOf entries).prints = false ∨ BadKey entries ["name", "version", "type", "source"] ∨
      unknownKeys entries ["name", "version", "type", "source"] = [] ∧ VersionFine entries ∧
        ∃ name, get entries "name" = some (.str name) ∧ name ≠ [] ∧
          ((ctypeOf entries).prints = false ∨
            isText (ctypeOf entries) "url" = true ∧ BadUrl py false name ∨
            isText (ctypeOf entries) "git" = true ∧ BadUrl py true name ∨
            RemoteName py (matchesDollar isFqcn) (ctypeOf entries) name ∧
              ∃ s, get entries "source" = some (.str s) ∧ BadUrl py false s)
  | _ => False

def BadRoleUrl (s : Str) : Prop :=
  matchesDollar isGalaxyRole s = false ∧
    ((str "https://").isPrefixOf s || (str "git+https://").isPrefixOf s) = true ∧ BadUrl py true s

def RoleTrips : Yaml → Prop
  | .str s => BadRoleUrl py s
  | .map entries =>
    (orElse (nameOf entries) (srcOf entries)).prints = false ∨
      BadKey entries ["name", "src", "version", "scm"] ∨
      unknownKeys entries ["name", "src", "version", "scm"] = [] ∧ VersionFine entries ∧
        (∃ s, orElse (nameOf entries) (srcOf entries) = .str s ∧ s ≠ []) ∧
        ∃ s, target (nameOf entries) (srcOf entries) = some s ∧ BadRoleUrl py s
  | _ => False

variable {py}

/-! ## Raising -/

section

variable {α β : Type}

theorem escapes_bind {x : Except Raised α} {f : α → Except Raised β} :
    Escapes (x >>= f) ↔ Escapes x ∨ ∃ a, x = .ok a ∧ Escapes (f a) := by
  cases x with
  | error e => simp [Escapes, bind, Except.bind]
  | ok a => simp [Escapes, bind, Except.bind]

theorem escapes_then {x : Check} {f : Unit → Except Raised β} :
    Escapes (x >>= f) ↔ Escapes x ∨ x = .ok () ∧ Escapes (f ()) := by
  rw [escapes_bind]
  refine or_congr_right ⟨?_, fun h => ⟨(), h⟩⟩
  rintro ⟨⟨⟩, h⟩
  exact h

theorem not_escapes_ok (a : α) : ¬ Escapes (.ok a : Except Raised α) := by
  intro h
  cases h

theorem not_escapes_refuse (message : Str) : ¬ Escapes (refuse message) := by
  intro h
  cases h

end

theorem escapes_repr {v : Yaml} : Escapes (repr py v) ↔ v.prints = false := by
  rw [repr]
  cases v.prints with
  | true => simp [Escapes]
  | false => simp [Escapes]

/-- What a message begins with makes no difference. -/
theorem escapes_repr_bind {β : Type} {v : Yaml} {f : Str → Except Raised β} {P : Prop}
    (h : ∀ shown, Escapes (f shown) ↔ P) : Escapes (repr py v >>= f) ↔ v.prints = false ∨ P := by
  rw [escapes_bind, escapes_repr]
  cases hprints : v.prints with
  | true =>
    have hrepr : repr py v = .ok (py.repr v) := if_pos hprints
    simp [hrepr, h]
  | false => simp

theorem escapes_checkHttpsUrl {value what : Str} {git : Bool} :
    Escapes (checkHttpsUrl py value what git) ↔ BadUrl py git value := by
  rw [checkHttpsUrl, BadUrl]
  cases hparts : urlsplit py.unicode py.nfkc (candidate git value) with
  | none => simp [Escapes]
  | some parts =>
    simp only [reduceCtorEq, iff_false]
    split
    · exact not_escapes_refuse _
    · split
      · exact not_escapes_refuse _
      · exact not_escapes_ok _

theorem checkHttpsUrl_eq_ok {value what : Str} {git : Bool} :
    checkHttpsUrl py value what git = .ok () ↔ IsHttpsUrl py git value := by
  rw [checkHttpsUrl, IsHttpsUrl]
  cases hparts : urlsplit py.unicode py.nfkc (candidate git value) with
  | none => simp
  | some parts =>
    simp only [Option.some.injEq, exists_eq_left', refuse]
    split
    · next h =>
      simp only [reduceCtorEq, false_iff]
      rintro ⟨hscheme, hhost, -, -, hplain⟩
      simp only [Bool.or_eq_true, decide_eq_true_eq, List.any_eq_true] at h
      rcases h with (h | h) | ⟨c, hc, h⟩
      · exact h hscheme
      · rw [hhost] at h
        cases h
      · obtain ⟨hspace, hcomma⟩ := hplain c hc
        rw [hspace] at h
        simp [hcomma] at h
    · next h =>
      simp only [Bool.or_eq_true, decide_eq_true_eq, List.any_eq_true, not_or, not_exists, not_and,
        Bool.not_eq_true, ne_eq, Decidable.not_not] at h
      obtain ⟨⟨hscheme, hhost⟩, hplain⟩ := h
      split
      · next hcreds =>
        simp only [reduceCtorEq, false_iff]
        rintro ⟨-, -, huser, hpassword, -⟩
        simp [huser, hpassword] at hcreds
      · next hcreds =>
        simp only [Bool.or_eq_true, Bool.not_eq_true', not_or, Bool.not_eq_false] at hcreds
        exact ⟨fun _ => ⟨hscheme, hhost, hcreds.1, hcreds.2, hplain⟩, fun _ => rfl⟩

theorem escapes_checkVersion {entries : Entries} {what : Str} :
    ¬ Escapes (checkVersion py entries what) := by
  rw [checkVersion]
  split
  · exact not_escapes_ok _
  · split
    · exact not_escapes_ok _
    · exact not_escapes_refuse _
  · exact not_escapes_refuse _

theorem checkVersion_eq_ok {entries : Entries} {what : Str} :
    checkVersion py entries what = .ok () ↔ VersionFine entries := by
  rw [checkVersion, VersionFine]
  split
  · next hnone => simp [hnone]
  · next version hversion =>
    by_cases h : matchesDollar isVersion version = true
    · simp [hversion, h]
    · simp [hversion, h, refuse]
  · next v hstr hsome =>
    simp only [refuse, reduceCtorEq, false_iff, not_forall]
    refine ⟨v, hsome, ?_⟩
    rintro ⟨s, rfl, -⟩
    exact hstr s rfl

theorem escapes_refuseKeys {unknown : List Yaml} {message : Str → Str} :
    Escapes (refuseKeys py unknown message) ↔ ∃ k ∈ unknown, k.prints = false := by
  rw [refuseKeys]
  split
  · next hnil => simp [hnil, not_escapes_ok]
  · split
    · next hall =>
      rw [List.all_eq_true] at hall
      refine iff_of_false (not_escapes_refuse _) ?_
      rintro ⟨k, hk, hprints⟩
      rw [hall k hk] at hprints
      cases hprints
    · next hall =>
      refine iff_of_true rfl ?_
      simpa using hall

theorem refuseKeys_eq_ok {unknown : List Yaml} {message : Str → Str} :
    refuseKeys py unknown message = .ok () ↔ unknown = [] := by
  rw [refuseKeys]
  split
  · next hnil => simp [hnil]
  · next hne =>
    simp only [hne, iff_false]
    split
    · simp [refuse]
    · simp

theorem prints_of_isText {v : Yaml} {text : String} (h : isText v text = true) :
    v.prints = true := by
  cases v with
  | str s => rfl
  | _ => simp [isText, Yaml.str?] at h

/-- Two texts are one. -/
theorem isText_unique {v : Yaml} {a b : String} (ha : isText v a = true) (hne : str a ≠ str b) :
    isText v b = false := by
  rw [isText, decide_eq_true_eq] at ha
  rw [isText, ha, decide_eq_false_iff_not, Option.some.injEq]
  exact hne

theorem escapes_checkType {name what : Str} {ctype : Yaml} :
    Escapes (checkType py name what ctype) ↔ ctype.prints = false ∨
      isText ctype "url" = true ∧ BadUrl py false name ∨
      isText ctype "git" = true ∧ BadUrl py true name := by
  rw [checkType]
  by_cases hgalaxy : isText ctype "galaxy" = true
  · have hurl := isText_unique hgalaxy (b := "url") (by decide)
    have hgit := isText_unique hgalaxy (b := "git") (by decide)
    rw [if_pos hgalaxy, prints_of_isText hgalaxy, hurl, hgit]
    simp only [Bool.false_eq_true, false_and, or_self, iff_false, Bool.true_eq_false]
    split
    · exact not_escapes_ok _
    · exact not_escapes_refuse _
  · rw [if_neg hgalaxy]
    by_cases hurl : isText ctype "url" = true
    · have hgit := isText_unique hurl (b := "git") (by decide)
      rw [hurl, hgit, Bool.or_false, if_pos rfl, escapes_checkHttpsUrl, prints_of_isText hurl]
      simp
    · by_cases hgit : isText ctype "git" = true
      · rw [hgit, Bool.or_true, if_pos rfl, escapes_checkHttpsUrl, prints_of_isText hgit]
        simp [hurl]
      · have hneither : ¬ (isText ctype "url" || isText ctype "git") = true := by
          simp [hurl, hgit]
        rw [if_neg hneither, escapes_bind, escapes_repr]
        simp [hurl, hgit, not_escapes_refuse]

theorem checkType_eq_ok {name what : Str} {ctype : Yaml} :
    checkType py name what ctype = .ok () ↔ RemoteName py (matchesDollar isFqcn) ctype name := by
  rw [checkType, RemoteName]
  by_cases hgalaxy : isText ctype "galaxy" = true
  · have hurl := isText_unique hgalaxy (b := "url") (by decide)
    have hgit := isText_unique hgalaxy (b := "git") (by decide)
    rw [if_pos hgalaxy]
    simp [hgalaxy, hurl, hgit, refuse]
  · rw [if_neg hgalaxy]
    by_cases hurl : isText ctype "url" = true
    · have hgit := isText_unique hurl (b := "git") (by decide)
      rw [hurl, hgit, Bool.or_false, if_pos rfl, checkHttpsUrl_eq_ok]
      simp [hgalaxy]
    · by_cases hgit : isText ctype "git" = true
      · rw [hgit, Bool.or_true, if_pos rfl, checkHttpsUrl_eq_ok]
        simp [hgalaxy, hurl]
      · have hneither : ¬ (isText ctype "url" || isText ctype "git") = true := by
          simp [hurl, hgit]
        rw [if_neg hneither, Lib.Except.bind_eq_ok]
        simp [hgalaxy, hurl, hgit, refuse]

theorem escapes_checkSource {entries : Entries} {what : Str} :
    Escapes (checkSource py entries what) ↔
      ∃ s, get entries "source" = some (.str s) ∧ BadUrl py false s := by
  rw [checkSource]
  split
  · next hnone => simp [hnone, not_escapes_ok]
  · next source hsource => simp [hsource, escapes_checkHttpsUrl]
  · next v hstr hsome =>
    refine iff_of_false (not_escapes_refuse _) ?_
    rintro ⟨s, hs, -⟩
    rw [hsome] at hs
    exact hstr s (Option.some.inj hs)

theorem checkSource_eq_ok {entries : Entries} {what : Str} :
    checkSource py entries what = .ok () ↔ ∀ source, get entries "source" = some source →
      ∃ s, source = .str s ∧ IsHttpsUrl py false s := by
  rw [checkSource]
  split
  · next hnone => simp [hnone]
  · next source hsource => simp [hsource, checkHttpsUrl_eq_ok]
  · next v hstr hsome =>
    simp only [refuse, reduceCtorEq, false_iff, not_forall]
    refine ⟨v, hsome, ?_⟩
    rintro ⟨s, rfl, -⟩
    exact hstr s rfl

/-! ## Collections -/

/-- A collection mapping, once its name was printed. -/
theorem escapes_named {entries : Entries} {what : Str} :
    Escapes (checkNamed py false entries what) ↔
      ∃ name, get entries "name" = some (.str name) ∧ name ≠ [] ∧ VersionFine entries ∧
        ((ctypeOf entries).prints = false ∨
          isText (ctypeOf entries) "url" = true ∧ BadUrl py false name ∨
          isText (ctypeOf entries) "git" = true ∧ BadUrl py true name ∨
          RemoteName py (matchesDollar isFqcn) (ctypeOf entries) name ∧
            ∃ s, get entries "source" = some (.str s) ∧ BadUrl py false s) := by
  rw [checkNamed]
  split
  · next name hname =>
    by_cases hnil : name = []
    · rw [if_pos hnil]
      refine iff_of_false (not_escapes_refuse _) ?_
      rintro ⟨name', hname', hne, -⟩
      rw [hname, Option.some.injEq, Yaml.str.injEq] at hname'
      exact hne (hname' ▸ hnil)
    · simp only [if_neg hnil, Bool.false_eq_true, if_false, escapes_then, escapes_checkVersion,
        checkVersion_eq_ok, escapes_checkType, checkType_eq_ok, escapes_checkSource, hname,
        Option.some.injEq, Yaml.str.injEq, false_or, or_assoc, exists_eq_left']
      exact ⟨fun h => ⟨hnil, h⟩, fun h => h.2⟩
  · next hname =>
    refine iff_of_false (not_escapes_refuse _) ?_
    rintro ⟨name, h, -⟩
    exact hname name h

theorem escapes_validateCollection {e : Yaml} :
    Escapes (validateCollection py false e) ↔ CollectionTrips py e := by
  cases e with
  | str s =>
    simp only [validateCollection, CollectionTrips, iff_false]
    split
    · exact not_escapes_refuse _
    · exact not_escapes_ok _
  | map entries =>
    simp only [validateCollection, CollectionTrips]
    refine escapes_repr_bind fun shown => ?_
    rw [escapes_then, checkKeys, escapes_refuseKeys, refuseKeys_eq_ok, escapes_named]
    refine or_congr_right (and_congr_right fun _ => ?_)
    constructor
    · rintro ⟨name, hname, hne, hversion, h⟩
      exact ⟨hversion, name, hname, hne, h⟩
    · rintro ⟨hversion, name, hname, hne, h⟩
      exact ⟨name, hname, hne, hversion, h⟩
  | _ => exact iff_of_false (not_escapes_refuse _) id

theorem remote_of_validateCollection {e : Yaml} (h : validateCollection py false e = .ok ()) :
    RemoteCollection py (matchesDollar isFqcn) e := by
  cases e with
  | str s =>
    simp only [validateCollection, Bool.not_false, Bool.true_and] at h
    split at h
    · cases h
    · next hfqcn =>
      rw [RemoteCollection]
      simpa using hfqcn
  | map entries =>
    simp only [validateCollection] at h
    obtain ⟨shown, -, h⟩ := Lib.Except.bind_eq_ok.1 h
    obtain ⟨⟨⟩, hkeys, h⟩ := Lib.Except.bind_eq_ok.1 h
    rw [checkNamed] at h
    split at h
    · next name hname =>
      split at h
      · cases h
      · simp only [Bool.false_eq_true, if_false] at h
        obtain ⟨⟨⟩, -, h⟩ := Lib.Except.bind_eq_ok.1 h
        obtain ⟨⟨⟩, htype, hsource⟩ := Lib.Except.bind_eq_ok.1 h
        exact ⟨refuseKeys_eq_ok.1 hkeys, ⟨name, hname, checkType_eq_ok.1 htype⟩,
          checkSource_eq_ok.1 hsource⟩
    · cases h
  | _ => cases h

/-! ## Roles -/

theorem escapes_checkRoleSrc {src what : Str} :
    Escapes (checkRoleSrc py src what) ↔ BadRoleUrl py src := by
  rw [checkRoleSrc, BadRoleUrl]
  by_cases hrole : matchesDollar isGalaxyRole src = true
  · rw [if_pos hrole]
    simp [hrole, not_escapes_ok]
  · rw [if_neg hrole]
    split
    · next hscheme => simp [hrole, hscheme, escapes_checkHttpsUrl]
    · next hscheme => simp [hscheme, not_escapes_refuse]

theorem remote_of_checkRoleSrc {src what : Str} (h : checkRoleSrc py src what = .ok ()) :
    matchesDollar isGalaxyRole src = true ∨ IsHttpsUrl py true src := by
  rw [checkRoleSrc] at h
  split at h
  · next hrole => exact .inl hrole
  · split at h
    · exact .inr (checkHttpsUrl_eq_ok.1 h)
    · cases h

theorem escapes_checkRoleTarget {what : Str} {name src : Yaml} :
    Escapes (checkRoleTarget py what name src) ↔
      ∃ s, target name src = some s ∧ BadRoleUrl py s := by
  cases src with
  | null =>
    cases name with
    | str s => simp [checkRoleTarget, target, Yaml.str?, escapes_checkRoleSrc]
    | _ => simp [checkRoleTarget, target, Yaml.str?, not_escapes_ok]
  | str s =>
    simp only [checkRoleTarget, target, Yaml.str?, Option.some.injEq, exists_eq_left', escapes_then,
      escapes_checkRoleSrc, or_iff_left_iff_imp, and_imp]
    intro _ h
    split at h
    · exact absurd h (not_escapes_ok _)
    · split at h
      · exact absurd h (not_escapes_ok _)
      · exact absurd h (not_escapes_refuse _)
    · exact absurd h (not_escapes_refuse _)
  | _ => simp [checkRoleTarget, target, Yaml.str?, not_escapes_refuse]

theorem escapes_checkScm {entries : Entries} {what : Str} : ¬ Escapes (checkScm entries what) := by
  rw [checkScm]
  split
  · exact not_escapes_ok _
  · exact not_escapes_refuse _

theorem checkScm_eq_ok {entries : Entries} {what : Str} (h : checkScm entries what = .ok ()) :
    ∀ scm, get entries "scm" = some scm → isText scm "git" = true := by
  intro scm hscm
  rw [checkScm, hscm] at h
  split at h
  · next hgit => exact hgit
  · cases h

theorem escapes_targeted {entries : Entries} {what : Str} :
    Escapes (checkTargeted py false entries what) ↔
      (∃ s, orElse (nameOf entries) (srcOf entries) = .str s ∧ s ≠ []) ∧
        ∃ s, target (nameOf entries) (srcOf entries) = some s ∧ BadRoleUrl py s := by
  rw [checkTargeted, ← nameOf, ← srcOf]
  split
  · next s hs =>
    by_cases hnil : s = []
    · rw [if_pos hnil]
      refine iff_of_false (not_escapes_refuse _) ?_
      rintro ⟨⟨s', hs', hne⟩, -⟩
      rw [hs, Yaml.str.injEq] at hs'
      exact hne (hs' ▸ hnil)
    · simp only [if_neg hnil, Bool.false_eq_true, if_false, escapes_then, escapes_checkRoleTarget,
        escapes_checkScm, and_false, or_false, hs, Yaml.str.injEq, exists_eq_left']
      exact ⟨fun h => ⟨hnil, h⟩, fun h => h.2⟩
  · next hs =>
    refine iff_of_false (not_escapes_refuse _) ?_
    rintro ⟨⟨s, h, -⟩, -⟩
    exact hs s h

theorem escapes_validateRole {e : Yaml} : Escapes (validateRole py false e) ↔ RoleTrips py e := by
  cases e with
  | str s =>
    simp only [validateRole, RoleTrips]
    exact escapes_checkRoleSrc
  | map entries =>
    simp only [validateRole, RoleTrips]
    refine escapes_repr_bind fun shown => ?_
    rw [escapes_then, checkKeys, escapes_refuseKeys, refuseKeys_eq_ok, escapes_then,
      checkVersion_eq_ok, escapes_targeted]
    simp only [escapes_checkVersion, false_or]
    rfl
  | _ => exact iff_of_false (not_escapes_refuse _) id

theorem remote_of_checkRoleTarget {what : Str} {name src : Yaml} {s : Str}
    (hor : orElse name src = .str s) (h : checkRoleTarget py what name src = .ok ()) :
    ∃ s, target name src = some s ∧
      (matchesDollar isGalaxyRole s = true ∨ IsHttpsUrl py true s) := by
  cases src with
  | null =>
    cases name with
    | str name => exact ⟨name, rfl, remote_of_checkRoleSrc h⟩
    | _ =>
      rw [orElse] at hor
      split at hor
      · cases hor
      · cases hor
  | str src =>
    obtain ⟨⟨⟩, hsrc, -⟩ := Lib.Except.bind_eq_ok.1 h
    exact ⟨src, rfl, remote_of_checkRoleSrc hsrc⟩
  | _ => cases h

theorem remote_of_validateRole {e : Yaml} (h : validateRole py false e = .ok ()) :
    RemoteRole py (matchesDollar isGalaxyRole) e := by
  cases e with
  | str s => exact remote_of_checkRoleSrc h
  | map entries =>
    simp only [validateRole] at h
    obtain ⟨shown, -, h⟩ := Lib.Except.bind_eq_ok.1 h
    obtain ⟨⟨⟩, hkeys, h⟩ := Lib.Except.bind_eq_ok.1 h
    obtain ⟨⟨⟩, -, h⟩ := Lib.Except.bind_eq_ok.1 h
    rw [checkTargeted, ← nameOf, ← srcOf] at h
    split at h
    · next s hs =>
      split at h
      · cases h
      · simp only [Bool.false_eq_true, if_false] at h
        obtain ⟨⟨⟩, htarget, hscm⟩ := Lib.Except.bind_eq_ok.1 h
        exact ⟨refuseKeys_eq_ok.1 hkeys, remote_of_checkRoleTarget hs htarget, checkScm_eq_ok hscm⟩
    · cases h
  | _ => cases h

/-! ## Line breaks -/

def EndsInNewline (s : Str) : Prop := s.getLast? = some 10

instance (s : Str) : Decidable (EndsInNewline s) := inferInstanceAs (Decidable (_ = _))

/-- The name of a collection and the source of a role that are matched. -/
def matched : Bool → Yaml → Option Str
  | _, .str s => some s
  | false, .map entries => (nameOf entries).str?
  | true, .map entries => target (nameOf entries) (srcOf entries)
  | _, _ => none

/-- A pattern whose matches hold no line break, but for `$`. -/
theorem matchesDollar_iff {whole : Str → Bool} (hwhole : ∀ s, whole s = true → 10 ∉ s) {s : Str}
    (h : matchesDollar whole s = true) : whole s = true ↔ ¬ EndsInNewline s := by
  constructor
  · intro hs hlast
    exact hwhole s hs (List.mem_of_getLast? hlast)
  · intro hlast
    rw [matchesDollar, Bool.or_eq_true, Bool.and_eq_true, decide_eq_true_eq] at h
    rcases h with h | ⟨h, -⟩
    · exact h
    · exact absurd h hlast

theorem not_newline_isPart {s : Str} (h : isPart s = true) : 10 ∉ s := by
  intro hmem
  have hall := List.all_eq_true.1 (Bool.and_eq_true_iff.1 h).2 10 hmem
  exact absurd hall (by decide)

theorem not_newline_isWordWith {others s : Str} (hothers : 10 ∉ others)
    (h : isWordWith others s = true) : 10 ∉ s := by
  intro hmem
  have hall := List.all_eq_true.1 (Bool.and_eq_true_iff.1 h).2 10 hmem
  have hname : isNameChar 10 = false := by decide
  rw [hname, Bool.false_or, decide_eq_true_eq] at hall
  exact hothers hall

/-- Neither part holds a line break, nor does the dot between them. -/
theorem not_newline_parts {s a b : Str} (h : Str.partition (str ".") s = some (a, b))
    (ha : 10 ∉ a) (hb : 10 ∉ b) : 10 ∉ s := by
  rw [Str.partition_eq_some h, List.mem_append, List.mem_append, not_or, not_or]
  exact ⟨⟨ha, by decide⟩, hb⟩

theorem not_newline_isFqcn (s : Str) (h : isFqcn s = true) : 10 ∉ s := by
  rw [isFqcn] at h
  split at h
  · next hparts =>
    obtain ⟨ha, hb⟩ := Bool.and_eq_true_iff.1 h
    exact not_newline_parts hparts (not_newline_isPart ha) (not_newline_isPart hb)
  · cases h

theorem not_newline_isGalaxyRole (s : Str) (h : isGalaxyRole s = true) : 10 ∉ s := by
  rw [isGalaxyRole] at h
  split at h
  · next hparts =>
    obtain ⟨ha, hb⟩ := Bool.and_eq_true_iff.1 h
    exact not_newline_parts hparts (not_newline_isWordWith (by decide) ha)
      (not_newline_isWordWith (by decide) hb)
  · cases h

theorem IsHttpsUrl.not_newline {git : Bool} {value : Str} (h : IsHttpsUrl py git value) :
    ¬ EndsInNewline value := by
  intro hlast
  obtain ⟨-, -, -, -, -, -, hplain⟩ := h
  have hspace := (hplain 10 (List.mem_of_getLast? hlast)).1
  rw [py.unicode.isSpace_ascii 10 (by decide)] at hspace
  exact absurd hspace (by decide)

theorem RemoteName.iff_not_newline {ctype : Yaml} {name : Str}
    (h : RemoteName py (matchesDollar isFqcn) ctype name) :
    RemoteName py isFqcn ctype name ↔ ¬ EndsInNewline name := by
  rcases h with ⟨hgalaxy, h⟩ | h
  · have hurl := isText_unique hgalaxy (b := "url") (by decide)
    have hgit := isText_unique hgalaxy (b := "git") (by decide)
    rw [← matchesDollar_iff not_newline_isFqcn h]
    simp [RemoteName, hgalaxy, hurl, hgit]
  · refine iff_of_true (.inr h) ?_
    rcases h with ⟨-, h⟩ | ⟨-, h⟩
    · exact h.not_newline
    · exact h.not_newline

/-- An accepted collection is remote if its name does not end in a line break. -/
theorem remoteCollection_iff {e : Yaml} (h : RemoteCollection py (matchesDollar isFqcn) e) :
    RemoteCollection py isFqcn e ↔ ∀ s, matched false e = some s → ¬ EndsInNewline s := by
  cases e with
  | str s =>
    simp only [RemoteCollection, matched, Option.some.injEq, forall_eq'] at h ⊢
    exact matchesDollar_iff not_newline_isFqcn h
  | map entries =>
    obtain ⟨hkeys, ⟨name, hname, hremote⟩, hsource⟩ := h
    simp only [RemoteCollection, matched, nameOf, hname, Option.getD_some, Yaml.str?,
      Option.some.injEq, Yaml.str.injEq, forall_eq', exists_eq_left', hkeys, true_and,
      ← hremote.iff_not_newline]
    exact ⟨fun h => h.1, fun h => ⟨h, hsource⟩⟩
  | _ => exact h.elim

theorem remoteRole_iff {e : Yaml} (h : RemoteRole py (matchesDollar isGalaxyRole) e) :
    RemoteRole py isGalaxyRole e ↔ ∀ s, matched true e = some s → ¬ EndsInNewline s := by
  have hone : ∀ s, matchesDollar isGalaxyRole s = true ∨ IsHttpsUrl py true s →
      ((isGalaxyRole s = true ∨ IsHttpsUrl py true s) ↔ ¬ EndsInNewline s) := by
    intro s hs
    constructor
    · rintro (hrole | hurl)
      · exact fun hlast => not_newline_isGalaxyRole s hrole (List.mem_of_getLast? hlast)
      · exact hurl.not_newline
    · intro hlast
      exact hs.imp_left fun hrole => (matchesDollar_iff not_newline_isGalaxyRole hrole).2 hlast
  cases e with
  | str s =>
    simp only [RemoteRole, matched, Option.some.injEq, forall_eq'] at h ⊢
    exact hone s h
  | map entries =>
    obtain ⟨hkeys, ⟨s, hs, hremote⟩, hscm⟩ := h
    simp only [RemoteRole, matched, hs, Option.some.injEq, forall_eq', exists_eq_left', hkeys,
      true_and, ← hone s hremote]
    exact ⟨fun h => h.1, fun h => ⟨h, hscm⟩⟩
  | _ => exact h.elim

/-! ## Documents -/

/-- A collection (`false`) or a role (`true`) of a document. -/
abbrev Entry := Bool × Yaml

variable (py) in
def checkEntry : Entry → Check
  | (false, e) => validateCollection py false e
  | (true, e) => validateRole py false e

variable (py) in
def Trips : Entry → Prop
  | (false, e) => CollectionTrips py e
  | (true, e) => RoleTrips py e

variable (py) in
def Remote : Entry → Prop
  | (false, e) => RemoteCollection py isFqcn e
  | (true, e) => RemoteRole py isGalaxyRole e

theorem escapes_checkEntry {e : Entry} : Escapes (checkEntry py e) ↔ Trips py e := by
  obtain ⟨role, e⟩ := e
  cases role with
  | false => exact escapes_validateCollection
  | true => exact escapes_validateRole

theorem remote_iff {e : Entry} (h : checkEntry py e = .ok ()) :
    Remote py e ↔ ∀ s, matched e.1 e.2 = some s → ¬ EndsInNewline s := by
  obtain ⟨role, e⟩ := e
  cases role with
  | false => exact remoteCollection_iff (remote_of_validateCollection h)
  | true => exact remoteRole_iff (remote_of_validateRole h)

/-- A loop ends at the first check that raises. -/
theorem escapes_forM {α : Type} {f : α → Check} {l : List α} :
    Escapes (l.forM f) ↔ ∃ before e after, l = before ++ e :: after ∧
      (∀ e' ∈ before, f e' = .ok ()) ∧ Escapes (f e) := by
  induction l with
  | nil =>
    refine iff_of_false (not_escapes_ok ()) ?_
    rintro ⟨before, e, after, h, -⟩
    simp at h
  | cons a l ih =>
    show Escapes (f a >>= fun _ => l.forM f) ↔ _
    rw [escapes_then, ih]
    constructor
    · rintro (h | ⟨ha, before, e, after, rfl, hbefore, h⟩)
      · exact ⟨[], a, l, rfl, fun _ he => absurd he List.not_mem_nil, h⟩
      · refine ⟨a :: before, e, after, rfl, fun e' he' => ?_, h⟩
        rcases List.mem_cons.1 he' with rfl | he'
        · exact ha
        · exact hbefore e' he'
    · rintro ⟨before, e, after, heq, hbefore, h⟩
      cases before with
      | nil =>
        obtain ⟨rfl, rfl⟩ := List.cons.inj heq
        exact .inl h
      | cons b before =>
        obtain ⟨rfl, rfl⟩ := List.cons.inj heq
        exact .inr ⟨hbefore a (List.mem_cons_self ..), before, e, after, rfl,
          fun e' he' => hbefore e' (List.mem_cons_of_mem _ he'), h⟩

theorem forM_eq_ok {α : Type} {f : α → Check} {l : List α} :
    l.forM f = .ok () ↔ ∀ e ∈ l, f e = .ok () := by
  induction l with
  | nil => simp [pure, Except.pure]
  | cons a l ih =>
    show (f a >>= fun _ => l.forM f) = _ ↔ _
    rw [Lib.Except.bind_eq_ok, List.forall_mem_cons, ← ih]
    constructor
    · rintro ⟨⟨⟩, h⟩
      exact h
    · exact fun h => ⟨(), h⟩

/-- The entries of a document in the order they are checked. -/
def entriesOf (collections roles : List Yaml) : List Entry :=
  collections.map (Prod.mk false) ++ roles.map (Prod.mk true)

theorem forM_entriesOf (collections roles : List Yaml) :
    (do collections.forM (validateCollection py false); roles.forM (validateRole py false))
      = (entriesOf collections roles).forM (checkEntry py) := by
  simp only [entriesOf, List.forM_eq_forM, List.forM_append, List.forM_map]
  rfl

variable (py) in
/-- No other exception is raised, and what is accepted is remote. -/
def Sound (x : Except Raised (List Yaml × List Yaml)) : Prop :=
  ¬ Escapes x ∧ ∀ collections roles, x = .ok (collections, roles) →
    (∀ e ∈ collections, RemoteCollection py isFqcn e) ∧ ∀ e ∈ roles, RemoteRole py isGalaxyRole e

variable (py) in
/-- No entry that is reached, which is one with no refused entry before it, trips its check, and if
all are accepted no name that was matched ends in a line break. -/
def EntriesHold (entries : List Entry) : Prop :=
  (∀ before e after, entries = before ++ e :: after → (∀ e' ∈ before, checkEntry py e' = .ok ()) →
    ¬ Trips py e) ∧
  ((∀ e ∈ entries, checkEntry py e = .ok ()) → ∀ e ∈ entries, ∀ s, matched e.1 e.2 = some s →
    ¬ EndsInNewline s)

variable (py) in
/-- The top-level keys can be printed, and if they are those allowed, with two lists that are not
too long, the entries hold. -/
def Holds : Yaml → Prop
  | .map entries =>
    ¬ BadKey entries ["collections", "roles"] ∧
      (unknownKeys entries ["collections", "roles"] = [] → ∀ collections roles,
        listAt entries "collections" = .list collections → listAt entries "roles" = .list roles →
          collections.length + roles.length ≤ maxEntries →
            EntriesHold py (entriesOf collections roles))
  | _ => True

theorem sound_refused {message : Str} : Sound py (.error (.requirements message)) := by
  refine ⟨fun h => ?_, fun collections roles h => ?_⟩
  · cases h
  · cases h

theorem sound_then {x : Check} {f : Unit → Except Raised (List Yaml × List Yaml)} :
    Sound py (x >>= f) ↔ ¬ Escapes x ∧ (x = .ok () → Sound py (f ())) := by
  rw [Sound, Sound, escapes_then]
  constructor
  · rintro ⟨hescapes, hok⟩
    refine ⟨fun h => hescapes (.inl h), fun hx => ⟨fun h => hescapes (.inr ⟨hx, h⟩), ?_⟩⟩
    intro collections roles h
    exact hok collections roles (Lib.Except.bind_eq_ok.2 ⟨(), hx, h⟩)
  · rintro ⟨hescapes, hok⟩
    constructor
    · rintro (h | ⟨hx, h⟩)
      · exact hescapes h
      · exact (hok hx).1 h
    · intro collections roles h
      obtain ⟨⟨⟩, hx, h⟩ := Lib.Except.bind_eq_ok.1 h
      exact (hok hx).2 collections roles h

theorem sound_ok {collections roles : List Yaml} : Sound py (.ok (collections, roles)) ↔
    ∀ e ∈ entriesOf collections roles, Remote py e := by
  rw [entriesOf, List.forall_mem_append, List.forall_mem_map, List.forall_mem_map]
  constructor
  · exact fun h => h.2 collections roles rfl
  · intro h
    refine ⟨not_escapes_ok _, fun collections' roles' heq => ?_⟩
    cases heq
    exact h

theorem sound_entries {collections roles : List Yaml} :
    Sound py ((entriesOf collections roles).forM (checkEntry py) >>=
        fun _ => pure (collections, roles)) ↔ EntriesHold py (entriesOf collections roles) := by
  have hpure : Sound py (pure (collections, roles)) ↔ _ := sound_ok
  rw [sound_then, escapes_forM, forM_eq_ok, EntriesHold, hpure]
  refine and_congr ?_ (forall_congr' fun hok => ?_)
  · simp only [escapes_checkEntry, not_exists, not_and]
  · exact forall₂_congr fun e he => remote_iff (hok e he)

theorem sound_checkLists {c r : Yaml} : Sound py (checkLists py false c r) ↔
    ∀ collections roles, c = .list collections → r = .list roles →
      collections.length + roles.length ≤ maxEntries →
        EntriesHold py (entriesOf collections roles) := by
  rw [checkLists.eq_def]
  split
  · next collections roles =>
    simp only [Yaml.list.injEq]
    by_cases hlength : maxEntries < collections.length + roles.length
    · rw [if_pos hlength]
      refine iff_of_true sound_refused ?_
      rintro collections' roles' rfl rfl hle
      exact absurd hlength (Nat.not_lt.2 hle)
    · have hloops : (do
          collections.forM (validateCollection py false)
          roles.forM (validateRole py false)
          pure (collections, roles)) = ((entriesOf collections roles).forM (checkEntry py) >>=
            fun _ => (pure (collections, roles) : Except Raised _)) := by
        rw [← forM_entriesOf]
        simp only [bind_assoc]
      rw [if_neg hlength, hloops, sound_entries]
      constructor
      · rintro h collections' roles' rfl rfl -
        exact h
      · exact fun h => h collections roles rfl rfl (Nat.not_lt.1 hlength)
  · next hlists =>
    refine iff_of_true sound_refused fun collections roles hc hr => ?_
    exact absurd hr (hlists collections roles hc)

/-- With local sources off, the checks of a document raise `RequirementsError` and nothing else, and
accept remote entries only, just when the document holds. -/
theorem validateRequirements_sound (py : Python) (doc : Yaml) :
    Sound py (validateRequirements py false doc) ↔ Holds py doc := by
  cases doc with
  | map entries =>
    rw [validateRequirements, sound_then, checkTopLevel, escapes_refuseKeys, refuseKeys_eq_ok,
      sound_checkLists]
    rfl
  | null =>
    refine iff_of_true (sound_ok.2 ?_) trivial
    exact fun e he => absurd he List.not_mem_nil
  | _ => exact iff_of_true sound_refused trivial

/-! ## What gets through -/

/-- The interpreter, for text of ASCII; the messages' values are left out. -/
def python : Python := ⟨.ascii, id, fun _ => [], fun _ => []⟩

/-- One collection, and nothing else. -/
def oneCollection (e : Yaml) : Yaml := .map [(.str (str "collections"), .list [e])]

/-- `- "community.general\n"` is accepted. -/
theorem newline_accepted :
    ¬ Sound python (validateRequirements python false
      (oneCollection (.str (str "community.general\n")))) := by
  have hok : validateRequirements python false (oneCollection (.str (str "community.general\n")))
      = .ok ([.str (str "community.general\n")], []) := rfl
  rw [hok, sound_ok]
  intro h
  have hremote : isFqcn (str "community.general\n") = true := h _ (List.mem_cons_self ..)
  exact absurd hremote (by decide)

/-- Of `- {name: "https://[x", type: url}` the check raises `ValueError`. -/
theorem bracket_raises :
    ¬ Sound python (validateRequirements python false (oneCollection
      (.map [(.str (str "name"), .str (str "https://[x")),
        (.str (str "type"), .str (str "url"))]))) :=
  fun h => h.1 rfl

/-- Of `- name: 0xff...f`, with 4000 digits, it raises `ValueError` as well. -/
theorem long_name_raises :
    ¬ Sound python (validateRequirements python false (oneCollection
      (.map [(.str (str "name"), .int (16 ^ 4000 - 1))]))) := by
  have hprints : (Yaml.int (16 ^ 4000 - 1)).prints = false := by decide +kernel
  intro h
  obtain ⟨-, hlists⟩ := (validateRequirements_sound _ _).1 h
  have hentries := hlists rfl _ [] rfl rfl (by decide)
  exact hentries.1 [] _ [] rfl (fun _ he => absurd he List.not_mem_nil) (.inl hprints)

end Requirements

end Galaxy

end AnsiDeck
