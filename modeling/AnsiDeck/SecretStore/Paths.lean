import AnsiDeck.Lib.Posix
import AnsiDeck.Lib.Url

/-!
# The secret store's paths

`app.secret_store`: a project's secrets and its SSH roles by the paths that are requested for them.
Every setting and every name is text of any kind (a lone surrogate, which has no encoding, makes
the request raise). What the HTTP client makes of a URL is a parameter: a request only goes out
when that is the path exactly as it was built.

A path is below its project's subtree because the parts before the project are the same for every
project, wherever their dot segments and slashes lead, and the parts after it are plain.
-/

namespace AnsiDeck

namespace SecretStore

open Lib.Url

abbrev ProjectId := Nat

def maxSegments : Nat := 16

def maxPath : Nat := 400

/-- `SEGMENT.fullmatch`. -/
def isSegment : Text → Bool
  | [] => false
  | c :: rest => (c.isAlphanum || c = '_') && rest.length ≤ 99 &&
      rest.all fun c => c.isAlphanum || c = '_' || c = '.' || c = '-'

/-- The path's segments, if it is valid. -/
def checkPath (path : Text) : Option (List Text) :=
  let segments := path.splitOn '/'
  if path = [] || maxPath < path.length || maxSegments < segments.length ||
      !segments.all isSegment then none
  else some segments

/-- `str(int(project_id))`. -/
def digits (project : ProjectId) : Text := Nat.toDigits 10 project

/-- `f"{prefix}-{int(project_id)}-{role}"`. -/
def sshRoleName (pathPrefix : Text) (project : ProjectId) (role : Text) : Text :=
  pathPrefix ++ '-' :: digits project ++ '-' :: role

def apiPath (segments : List Text) : Text :=
  "/v1/".toList ++ ['/'].intercalate (segments.map quote)

/-- The path of `read_data` and `create`. -/
def dataPath (mount pathPrefix : Text) (project : ProjectId) (segments : List Text) : Text :=
  apiPath ([mount, "data".toList, pathPrefix, digits project] ++ segments)

/-- The path of `sign_ssh`. -/
def signPath (mount pathPrefix : Text) (project : ProjectId) (role : Text) : Text :=
  apiPath [mount, "sign".toList, sshRoleName pathPrefix project role]

/-- The raw path of a request as it is built; `base` is the path of the store's URL. -/
def built (base path : Text) : Octets := utf8 (Lib.Posix.rstripSlashes base ++ path)

/-- `_request`: the raw path that goes out, where `client` is what the HTTP client makes of it. -/
def request (client : Text → Octets) (base path : Text) : Option Octets :=
  if client path = built base path then some (client path) else none

/-- `read_data`, up to its answer. -/
def readData (client : Text → Octets) (base mount pathPrefix : Text) (project : ProjectId)
    (path : Text) : Option Octets := do
  let segments ← checkPath path
  request client base (dataPath mount pathPrefix project segments)

/-- `sign_ssh`, up to its answer. -/
def signSsh (client : Text → Octets) (base mount pathPrefix : Text) (project : ProjectId)
    (role : Text) : Option Octets :=
  if isSegment mount && isSegment role then
    request client base (signPath mount pathPrefix project role)
  else none

/-- Where a server finds a project's secrets. -/
def subtree (collapse : Bool) (base mount pathPrefix : Text) (project : ProjectId) : List Octets :=
  served collapse (built base (dataPath mount pathPrefix project []))

/-! ## Names -/

theorem isSegment_cons {name : Text} (h : isSegment name = true) :
    ∃ c rest, name = c :: rest ∧ c ≠ '.' ∧ ∀ d ∈ name, unreserved d = true := by
  cases name with
  | nil => exact absurd h (by simp [isSegment])
  | cons c rest =>
    simp only [isSegment, Bool.and_eq_true, List.all_eq_true] at h
    obtain ⟨⟨hfirst, -⟩, hrest⟩ := h
    refine ⟨c, rest, rfl, ?_, ?_⟩
    · rintro rfl
      exact absurd hfirst (by decide)
    · intro d hd
      rcases List.mem_cons.mp hd with rfl | hd
      · simp only [unreserved, Bool.or_eq_true]
        simp only [Bool.or_eq_true] at hfirst
        exact .inl (.inl (.inl hfirst))
      · have := hrest d hd
        simp only [unreserved, Bool.or_eq_true] at this ⊢
        exact .inl this

theorem isSegment_plain {name : Text} (h : isSegment name = true) : Plain (utf8 name) := by
  obtain ⟨c, rest, rfl, hdot, hfree⟩ := isSegment_cons h
  exact plain_of_unreserved hfree hdot

theorem checkPath_eq_some {path : Text} {segments : List Text}
    (h : checkPath path = some segments) :
    segments = path.splitOn '/' ∧ segments ≠ [] ∧ ∀ s ∈ segments, isSegment s = true := by
  unfold checkPath at h
  dsimp only at h
  split at h
  · exact absurd h (by simp)
  · rename_i hvalid
    obtain rfl := Option.some.inj h
    simp only [Bool.or_eq_true, not_or, Bool.not_eq_true', Bool.not_eq_false,
      List.all_eq_true] at hvalid
    exact ⟨rfl, List.splitOn_ne_nil _ _, hvalid.2⟩

theorem digits_unreserved {project : ProjectId} : ∀ c ∈ digits project, unreserved c = true := by
  intro c hc
  have hdigit := Nat.isDigit_of_mem_toDigits (by decide) (by decide) hc
  simp [unreserved, Char.isAlphanum, hdigit]

theorem digits_inj {p q : ProjectId} (h : digits p = digits q) : p = q := by
  have hback := congrArg (Nat.ofDigitChars 10 · 0) h
  dsimp only [digits] at hback
  rwa [Nat.ofDigitChars_ten_toDigits, Nat.ofDigitChars_ten_toDigits] at hback

theorem digits_plain (project : ProjectId) : Plain (utf8 (digits project)) := by
  have hne : digits project ≠ [] := Nat.toDigits_ne_nil
  obtain ⟨c, rest, heq⟩ := List.exists_cons_of_ne_nil hne
  have hfree := @digits_unreserved project
  have hdigit : c.isDigit = true :=
    Nat.isDigit_of_mem_toDigits (by decide) (by decide) (heq ▸ List.mem_cons_self)
  rw [heq] at hfree ⊢
  refine plain_of_unreserved hfree ?_
  rintro rfl
  exact absurd hdigit (by decide)

/-! ## Where a path is served -/

/-- What a server makes of a list of names, below the API's root. -/
theorem served_apiPath (collapse : Bool) (base : Text) {names : List Text} (h : names ≠ []) :
    served collapse (built base (apiPath names))
      = clean collapse (served collapse (built base "/v1".toList)).reverse
          (names.flatMap fun name => (utf8 name).splitOn slash) := by
  have hbytes : built base (apiPath names)
      = built base "/v1".toList ++ slash :: utf8 (['/'].intercalate (names.map quote)) := by
    have htext : Lib.Posix.rstripSlashes base ++ apiPath names
        = (Lib.Posix.rstripSlashes base ++ "/v1".toList) ++
          '/' :: ['/'].intercalate (names.map quote) := by
      rw [List.append_assoc]
      rfl
    rw [built, htext, utf8_append]
    rfl
  rw [hbytes, served_slash, splitOn_decode_quoted h]

/-- Where all projects' subtrees are. -/
def projectsRoot (collapse : Bool) (base mount pathPrefix : Text) : List Octets :=
  clean collapse (served collapse (built base "/v1".toList)).reverse
    ([mount, "data".toList, pathPrefix].flatMap fun name => (utf8 name).splitOn slash)

theorem served_dataPath (collapse : Bool) (base mount pathPrefix : Text) (project : ProjectId)
    {segments : List Text} (h : ∀ s ∈ segments, isSegment s = true) :
    served collapse (built base (dataPath mount pathPrefix project segments))
      = projectsRoot collapse base mount pathPrefix ++
        utf8 (digits project) :: segments.map utf8 := by
  have hplain : ∀ name ∈ digits project :: segments, Plain (utf8 name) := by
    intro name hname
    rcases List.mem_cons.mp hname with rfl | hname
    · exact digits_plain project
    · exact isSegment_plain (h name hname)
  have hparts : ∀ s ∈ (digits project :: segments).map utf8, Kept s := by
    intro s hs
    obtain ⟨name, hname, rfl⟩ := List.mem_map.mp hs
    exact (hplain name hname).toKept
  have hnames : [mount, "data".toList, pathPrefix, digits project] ++ segments
      = [mount, "data".toList, pathPrefix] ++ digits project :: segments := rfl
  rw [dataPath, hnames, served_apiPath collapse base (by simp), List.flatMap_append,
    splitOn_plain hplain, clean_append, clean_kept collapse hparts, List.reverse_reverse]
  rfl

theorem subtree_eq (collapse : Bool) (base mount pathPrefix : Text) (project : ProjectId) :
    subtree collapse base mount pathPrefix project
      = projectsRoot collapse base mount pathPrefix ++ [utf8 (digits project)] :=
  served_dataPath collapse base mount pathPrefix project fun _ h => absurd h (by simp)

/-- What follows the project in the path is the path that was asked for. -/
theorem dataPath_eq (mount pathPrefix : Text) (project : ProjectId) {path : Text}
    {segments : List Text} (h : checkPath path = some segments) :
    dataPath mount pathPrefix project segments
      = dataPath mount pathPrefix project [] ++ '/' :: path := by
  obtain ⟨hsplit, hne, hall⟩ := checkPath_eq_some h
  have hquote : segments.map quote = segments := by
    refine (List.map_congr_left fun s hs => ?_).trans (List.map_id segments)
    obtain ⟨c, rest, -, -, hfree⟩ := isSegment_cons (hall s hs)
    exact quote_of_unreserved hfree
  have hpath : ['/'].intercalate segments = path := by
    rw [hsplit]
    exact List.intercalate_splitOn '/'
  obtain ⟨s, rest, rfl⟩ := List.exists_cons_of_ne_nil hne
  rw [dataPath, apiPath, List.map_append, hquote, ← hpath]
  simp [dataPath, apiPath, List.intercalate_cons_of_ne_nil]

theorem request_eq_some {client : Text → Octets} {base path : Text} {raw : Octets}
    (h : request client base path = some raw) : raw = built base path := by
  unfold request at h
  split at h
  · rename_i heq
    exact (Option.some.inj h).symm.trans heq
  · exact absurd h (by simp)

/-! ## Isolation -/

theorem projects_differ (collapse : Bool) (base mount pathPrefix : Text) {p q : ProjectId}
    (hne : p ≠ q) (rest : List Octets) :
    ¬ subtree collapse base mount pathPrefix q <+:
      subtree collapse base mount pathPrefix p ++ rest := by
  rw [subtree_eq, subtree_eq, List.append_assoc, List.prefix_append_right_inj]
  rintro ⟨tail, htail⟩
  have hhead := (List.cons.inj htail).1
  exact hne (digits_inj (utf8_inj_of_unreserved digits_unreserved digits_unreserved hhead)).symm

theorem sshRoleName_inj {pathPrefix : Text} {p q : ProjectId} {role role' : Text}
    (h : sshRoleName pathPrefix p role = sshRoleName pathPrefix q role') : p = q ∧
    role = role' := by
  have hdash : ∀ project, '-' ∉ digits project := by
    intro project hmem
    have hdigit := Nat.isDigit_of_mem_toDigits (by decide) (by decide) hmem
    exact absurd hdigit (by decide)
  have htail : digits p ++ '-' :: role = digits q ++ '-' :: role' := by
    unfold sshRoleName at h
    rw [List.append_assoc, List.append_assoc] at h
    exact (List.cons.inj (List.append_cancel_left h)).2
  -- the project's digits reach up to the first dash
  have hsplit := congrArg (List.splitOn '-') htail
  rw [List.splitOn_append_cons_self_of_not_mem (hdash p),
    List.splitOn_append_cons_self_of_not_mem (hdash q)] at hsplit
  have hproject := (List.cons.inj hsplit).1
  rw [hproject] at htail
  exact ⟨digits_inj hproject, (List.cons.inj (List.append_cancel_left htail)).2⟩

/-- The part of a role's name behind the prefix. -/
def roleEnd (project : ProjectId) (role : Text) : Text := '-' :: digits project ++ '-' :: role

theorem roleEnd_unreserved {project : ProjectId} {role : Text} (h : isSegment role = true) :
    ∀ c ∈ roleEnd project role, unreserved c = true := by
  obtain ⟨-, -, -, -, hfree⟩ := isSegment_cons h
  intro c hc
  rcases List.mem_append.mp hc with hc | hc
  · rcases List.mem_cons.mp hc with rfl | hc
    · rfl
    · exact digits_unreserved c hc
  · rcases List.mem_cons.mp hc with rfl | hc
    · rfl
    · exact hfree c hc

/-- It stands at the end of the last segment, which has a dash and so is no dot segment. -/
theorem served_signPath (collapse : Bool) (base mount pathPrefix : Text) :
    ∃ front last, ∀ project role, isSegment role = true →
      served collapse (built base (signPath mount pathPrefix project role))
        = front ++ [last ++ utf8 (roleEnd project role)] := by
  obtain ⟨front, last, hprefix, -⟩ := @splitOn_append (utf8 pathPrefix) [] List.not_mem_nil
  refine ⟨clean collapse (served collapse (built base "/v1".toList)).reverse
    (([mount, "sign".toList].flatMap fun name => (utf8 name).splitOn slash) ++ front), last, ?_⟩
  intro project role hrole
  obtain ⟨front', last', hprefix', hname⟩ := @splitOn_append (utf8 pathPrefix) _
    (slash_notMem_of_unreserved (@roleEnd_unreserved project role hrole))
  obtain ⟨rfl, hlast⟩ := List.append_inj' (hprefix'.symm.trans hprefix) rfl
  obtain rfl := (List.cons.inj hlast).1
  have hdash : (45 : UInt8) ∈ last' ++ utf8 (roleEnd project role) :=
    List.mem_append_right _ List.mem_cons_self
  have hkept : ∀ s ∈ [last' ++ utf8 (roleEnd project role)], Kept s := by
    intro s hs
    obtain rfl := List.mem_singleton.mp hs
    refine ⟨List.ne_nil_of_mem hdash, ?_, ?_⟩
    · intro heq
      rw [heq] at hdash
      exact absurd hdash (by decide)
    · intro heq
      rw [heq] at hdash
      exact absurd hdash (by decide)
  have hbytes : utf8 (sshRoleName pathPrefix project role)
      = utf8 pathPrefix ++ utf8 (roleEnd project role) := by
    rw [sshRoleName, List.append_assoc, utf8_append]
    rfl
  have hnames : ([mount, "sign".toList, sshRoleName pathPrefix project role].flatMap
        fun name => (utf8 name).splitOn slash)
      = (([mount, "sign".toList].flatMap fun name => (utf8 name).splitOn slash) ++ front') ++
        [last' ++ utf8 (roleEnd project role)] := by
    have hsplit : [mount, "sign".toList, sshRoleName pathPrefix project role]
        = [mount, "sign".toList] ++ [sshRoleName pathPrefix project role] := rfl
    rw [hsplit, List.flatMap_append, List.flatMap_singleton, hbytes, hname, List.append_assoc]
  rw [signPath, served_apiPath collapse base (by simp), hnames, clean_append,
    clean_kept collapse hkept, List.reverse_reverse]

/-- Requests to sign for different projects, or with different roles, are served differently. -/
theorem served_signPath_inj (collapse : Bool) (base mount : Text) {pathPrefix : Text}
    {p q : ProjectId} {role role' : Text} (hrole : isSegment role = true)
    (hrole' : isSegment role' = true)
    (h : served collapse (built base (signPath mount pathPrefix p role))
      = served collapse (built base (signPath mount pathPrefix q role'))) : p = q ∧
        role = role' := by
  obtain ⟨front, last, hserved⟩ := served_signPath collapse base mount pathPrefix
  rw [hserved p role hrole, hserved q role' hrole'] at h
  have hlast := (List.cons.inj (List.append_cancel_left h)).1
  have hend := utf8_inj_of_unreserved (roleEnd_unreserved hrole) (roleEnd_unreserved hrole')
    (List.append_cancel_left hlast)
  refine @sshRoleName_inj [] p q role role' ?_
  exact hend

/-- **Projects are kept apart in the secret store.** What is requested for a project's path is
below the project's subtree with the path unchanged, as it is built, as it goes out and as it is
served; it is neither a path of another project nor below its subtree; and no two projects' roles,
or two roles of one project, have a name in common. -/
theorem isolated (collapse : Bool) (base mount pathPrefix : Text) {p q : ProjectId} (hne : p ≠ q)
    {path path' : Text} {segments segments' : List Text} (h : checkPath path = some segments)
    (h' : checkPath path' = some segments') :
    let raw := built base (dataPath mount pathPrefix p segments)
    let raw' := built base (dataPath mount pathPrefix q segments')
    dataPath mount pathPrefix p segments = dataPath mount pathPrefix p [] ++ '/' :: path ∧
      served collapse raw = subtree collapse base mount pathPrefix p ++ segments.map utf8 ∧
      segments ≠ [] ∧
      raw ≠ raw' ∧ served collapse raw ≠ served collapse raw' ∧
      ¬ subtree collapse base mount pathPrefix q <+: served collapse raw ∧
      (∀ client sent, readData client base mount pathPrefix p path = some sent → sent = raw) ∧
      (∀ {p q role role'}, sshRoleName pathPrefix p role = sshRoleName pathPrefix q role' →
        p = q ∧ role = role') ∧
      ∀ {p q role role'}, isSegment role = true → isSegment role' = true →
        served collapse (built base (signPath mount pathPrefix p role))
            = served collapse (built base (signPath mount pathPrefix q role')) →
          p = q ∧ role = role' := by
  obtain ⟨-, hnil, hall⟩ := checkPath_eq_some h
  obtain ⟨-, -, hall'⟩ := checkPath_eq_some h'
  have hbelow : ∀ project segments, (∀ s ∈ segments, isSegment s = true) →
      served collapse (built base (dataPath mount pathPrefix project segments))
        = subtree collapse base mount pathPrefix project ++ segments.map utf8 := by
    intro project segments hall
    rw [served_dataPath collapse base mount pathPrefix project hall, subtree_eq,
      List.append_assoc]
    rfl
  have hapart : ¬ subtree collapse base mount pathPrefix q <+:
      served collapse (built base (dataPath mount pathPrefix p segments)) := by
    rw [hbelow p segments hall]
    exact projects_differ collapse base mount pathPrefix hne _
  have hserved : served collapse (built base (dataPath mount pathPrefix p segments))
      ≠ served collapse (built base (dataPath mount pathPrefix q segments')) := by
    intro heq
    rw [heq, hbelow q segments' hall'] at hapart
    exact hapart (List.prefix_append _ _)
  refine ⟨dataPath_eq mount pathPrefix p h, hbelow p segments hall, hnil,
    fun heq => hserved (congrArg _ heq), hserved, hapart, ?_, sshRoleName_inj,
    served_signPath_inj collapse base mount⟩
  intro client sent hsent
  rw [readData, h] at hsent
  exact request_eq_some hsent

/-- Both projects ask for `db/main`, with a prefix that holds a slash and a dot segment. -/
theorem isolated_seven_and_eight :
    let base := "/bao/".toList
    let mount := "secret".toList
    let pathPrefix := "team/../ansideck".toList
    let raw := built base (dataPath mount pathPrefix 7 ["db".toList, "main".toList])
    let raw' := built base (dataPath mount pathPrefix 8 ["db".toList, "main".toList])
    served true raw = subtree true base mount pathPrefix 7 ++
      [utf8 "db".toList, utf8 "main".toList] ∧
      raw ≠ raw' ∧ served true raw ≠ served true raw' ∧
      ¬ subtree true base mount pathPrefix 8 <+: served true raw := by
  obtain ⟨-, hbelow, -, hraw, hserved, hapart, -⟩ := @isolated true "/bao/".toList "secret".toList
    "team/../ansideck".toList 7 8 (by decide) "db/main".toList "db/main".toList
    ["db".toList, "main".toList] ["db".toList, "main".toList] (by decide) (by decide)
  exact ⟨hbelow, hraw, hserved, hapart⟩

end SecretStore

end AnsiDeck
