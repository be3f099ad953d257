import AnsiDeck.Access.ApiKeys

/-!
# Projects, their members and their playbooks

The handlers of `routers.projects` and `routers.playbooks`: each answers, and commits what it
changed. What the database assigns (an id) is an argument. A handler that raises changes nothing.

The files of a deleted project's runs are not modelled, nor are the git sources that keep a playbook
in step with its repository.
-/

namespace AnsiDeck

namespace Access

open Lib (Dict Str Table str)
open Permission

structure MemberOut where
  userId : UserId
  username : String
  isActive : Bool
  role : String
  deriving DecidableEq

structure ProjectOut where
  id : ProjectId
  project : Project
  /-- The caller's role here (only a list shows it). -/
  myRole : Option String := none
  deriving DecidableEq

structure PlaybookOut where
  id : Nat
  playbook : Playbook
  /-- A list leaves the content out. -/
  content : Option String
  deriving DecidableEq

/-- `order_by` of a text column, in the database's collation. -/
def orderBy {α : Type} (le : String → String → Bool) (column : α → String)
    (rows : List α) : List α :=
  rows.mergeSort fun a b => le (column a) (column b)

variable (cfg : Settings) (le : String → String → Bool) (db : Database) (actor : Principal)

/-! ## Members -/

def memberOut (id : UserId) (user : User) (role : String) : MemberOut :=
  { userId := id, username := user.username, isActive := user.isActive, role := role }

/-- `_guard_own_membership`. -/
def guardOwnMembership (target : UserId) : Answered Unit :=
  if actor.id = some target ∧ isGlobalAdmin actor = false then
    .error ⟨400, "You cannot change your own membership"⟩
  else .ok ()

def listMembers (projectId : ProjectId) : Answered (List MemberOut) := do
  let _ ← requireProjectPermission db actor projectId membersManage
  let rows := (db.members.rows fun key _ => key.1 == projectId).filterMap fun row =>
    (db.users.get? row.1.2).map fun user => memberOut row.1.2 user row.2
  return orderBy le MemberOut.username rows

/-- `_upsert_member`. -/
def upsertMember (projectId : ProjectId) (target : UserId) (user : User) (role : String) :
    Answered (MemberOut × Database) := do
  let _ ← requireProjectPermission db actor projectId membersManage
  guardOwnMembership actor target
  if db.members.get? (projectId, target) = some role then return (memberOut target user role, db)
  else
    return (memberOut target user role,
      { db with members := db.members.put (projectId, target) role })

def userByName (username : String) : Option (UserId × User) :=
  (db.users.rows fun _ user => user.username == username).head?

def addMemberByUsername (projectId : ProjectId) (username : String) (role : Role) :
    Answered (MemberOut × Database) := do
  let _ ← requireProjectPermission db actor projectId membersManage
  match userByName db username with
  | none => .error ⟨404, "User not found"⟩
  | some (target, user) => upsertMember db actor projectId target user (Role.value role)

/-- `set_member`: a project admin changes an existing member's role here, and adds people by
username. Global admins may add by id. -/
def setMember (projectId : ProjectId) (userId : UserId) (role : Role) :
    Answered (MemberOut × Database) := do
  let _ ← requireProjectPermission db actor projectId membersManage
  if isGlobalAdmin actor = false ∧ db.members.get? (projectId, userId) = none then
    .error ⟨404, "Membership not found"⟩
  else
    match db.users.get? userId with
    | none => .error ⟨404, "User not found"⟩
    | some user => upsertMember db actor projectId userId user (Role.value role)

def removeMember (projectId : ProjectId) (userId : UserId) : Answered Database := do
  let _ ← requireProjectPermission db actor projectId membersManage
  guardOwnMembership actor userId
  match db.members.get? (projectId, userId) with
  | none => .error ⟨404, "Membership not found"⟩
  | some _ => .ok { db with members := db.members.remove (projectId, userId) }

/-! ## Projects -/

/-- `_load_project`. -/
def loadProject (projectId : ProjectId) : Answered Project :=
  match db.projects.get? projectId with
  | none => .error ⟨404, "Project not found"⟩
  | some project => .ok project

def listProjects : List ProjectOut :=
  let roles := userProjectRoles db.members actor
  let rows := db.projects.rows fun id _ => isGlobalAdmin actor || roles.contains id
  orderBy le (fun out => out.project.name) (rows.map fun row =>
    { id := row.1, project := row.2,
      myRole := if isGlobalAdmin actor then some "admin" else roles.get? row.1 })

/-- The unique name. -/
def nameTaken (projectId : ProjectId) (name : String) : Bool :=
  db.projects.any fun id project => id != projectId && project.name == name

def createProject (projectId : ProjectId) (name : String) (description : Option String) :
    Answered (ProjectOut × Database) :=
  if nameTaken db projectId (cfg.strip name) then .error ⟨400, "Project name already exists"⟩
  else
    let project := { name := cfg.strip name, description := description, createdAt := db.now }
    .ok ({ id := projectId, project := project },
      { db with projects := db.projects.put projectId project })

def updateProject (projectId : ProjectId) (name description : Option String) :
    Answered (ProjectOut × Database) := do
  let project ← loadProject db projectId
  let project := { project with
    name := (name.map cfg.strip).getD project.name
    description := description.or project.description }
  if nameTaken db projectId project.name then .error ⟨400, "Project name already exists"⟩
  else
    return ({ id := projectId, project := project },
      { db with projects := db.projects.put projectId project })

def itemCount (projectId : ProjectId) (kind : Kind) : Nat :=
  db.items.count fun key item => key.1 == kind && item.projectId == projectId

/-- What a project still has, by what it is called. -/
def contents (projectId : ProjectId) : List (String × Nat) :=
  [("playbooks", db.playbooks.count fun _ playbook => playbook.projectId == projectId),
    ("inventories", itemCount db projectId .inventory),
    ("credentials", itemCount db projectId .credential),
    ("vault passwords", itemCount db projectId .vaultPassword),
    ("git sources", itemCount db projectId .gitSource)]

/-- `delete_project`: its memberships and keys go with it (`ON DELETE CASCADE`). -/
def deleteProject (projectId : ProjectId) : Answered Database := do
  let _ ← loadProject db projectId
  let remaining := (contents db projectId).filter fun count => count.2 != 0
  if remaining ≠ [] then
    let listing := ", ".intercalate (remaining.map fun count => s!"{count.2} {count.1}")
    .error ⟨409, s!"Project still has {listing}. Delete or move them first."⟩
  else
    return { db with
      projects := db.projects.remove projectId
      members := db.members.deleteWhere fun key _ => key.1 == projectId
      keys := db.keys.deleteWhere fun _ key => key.projectId == projectId }

/-! ## Playbooks -/

/-- `_to_detail`. -/
def detail (id : Nat) (playbook : Playbook) : PlaybookOut :=
  { id := id, playbook := playbook, content := some playbook.content }

/-- `_summary`, which has everything but the content. -/
def summary (id : Nat) (playbook : Playbook) : PlaybookOut :=
  { id := id, playbook := { playbook with content := "" }, content := none }

/-- `_read_only`. -/
def readOnly (source : GitInfo) : HTTPException :=
  ⟨409, "This playbook is synced from git source " ++ cfg.repr (str source.name) ++
    ": change it in the repository"⟩

/-- `_validate_yaml`, of what was sent. -/
def validateYaml (content : Option String) : Answered Unit :=
  match content.bind cfg.yamlError with
  | some message => .error ⟨400, s!"Invalid YAML: {message}"⟩
  | none => .ok ()

def scopedPlaybook (id : Nat) (permission : Permission) : Answered Playbook :=
  getScoped db actor (db.playbooks.get? id) Playbook.projectId permission "Playbook not found"

def listPlaybooks (projectId : Option ProjectId) : Answered (List PlaybookOut) := do
  let ids ← readableProjectIds db actor contentRead projectId
  let rows := db.playbooks.rows fun _ playbook => ids.all fun ids => ids.contains playbook.projectId
  return orderBy le (fun out => out.playbook.name) (rows.map fun row => summary row.1 row.2)

def createPlaybook (id : Nat) (projectId : Option ProjectId) (name content : String) :
    Answered (PlaybookOut × Database) := do
  let projectId ← resolveWriteProject db actor contentWrite projectId
  validateYaml cfg (some content)
  -- the project is gone again
  if db.projects.get? projectId = none then .error ⟨500, "Internal Server Error"⟩
  else
    let playbook := { projectId := projectId, name := name, content := content }
    return (detail id playbook, { db with playbooks := db.playbooks.put id playbook })

def getPlaybook (id : Nat) : Answered PlaybookOut := do
  let playbook ← scopedPlaybook db actor id contentRead
  return detail id playbook

def updatePlaybook (id : Nat) (name content : Option String) :
    Answered (PlaybookOut × Database) := do
  let playbook ← scopedPlaybook db actor id contentWrite
  match playbook.source with
  | some source => .error (readOnly cfg source)
  | none =>
    validateYaml cfg content
    let playbook := { playbook with
      content := content.getD playbook.content
      name := name.getD playbook.name }
    return (detail id playbook, { db with playbooks := db.playbooks.put id playbook })

/-- `delete_playbook`: a synced one only once it is gone upstream. -/
def deletePlaybook (id : Nat) : Answered Database := do
  let playbook ← scopedPlaybook db actor id contentWrite
  match playbook.source with
  | some source =>
    if playbook.missingAt = none then .error (readOnly cfg source)
    else return { db with playbooks := db.playbooks.remove id }
  | none => return { db with playbooks := db.playbooks.remove id }

end Access

end AnsiDeck
