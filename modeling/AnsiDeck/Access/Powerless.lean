import AnsiDeck.Access.Effects

/-!
# What a request without power over a project leaves

What a principal who administers neither everything nor the project can write leaves every user's
standing, the projects, and the project's members and keys.
-/

namespace AnsiDeck

namespace Access

open Lib (Dict Str Table)
open Permission

variable {cfg : Settings} {le : String → String → Bool} {p : ProjectId}

/-- A principal who administers neither. -/
structure Powerless (members : Members) (user : Principal) (p : ProjectId) : Prop where
  global : isGlobalAdmin user = false
  role : (userProjectRoles members user).get? p ≠ some "admin"

/-! ## What a powerless principal's requests leave -/

/-- What `_load` and the guard go by in a user's row. -/
def standing (user : User) : String × Role × Bool := (user.username, user.role, user.isActive)

/-- A key of the project. -/
def keyOf (db : Database) (p : ProjectId) (id : ApiKeyId) : Option ApiKey :=
  (db.keys.get? id).filter fun key => key.projectId = p

/-- Every user's standing, the projects, and the project's members and keys are as they were. -/
structure Kept (p : ProjectId) (db db' : Database) : Prop where
  now : db.now = db'.now
  users : ∀ id, (db'.users.get? id).map standing = (db.users.get? id).map standing
  projects : ∀ id, db'.projects.get? id = db.projects.get? id
  members : ∀ id, db'.members.get? (p, id) = db.members.get? (p, id)
  keys : ∀ id, keyOf db' p id = keyOf db p id

theorem Kept.refl (db : Database) : Kept p db db :=
  ⟨rfl, fun _ => rfl, fun _ => rfl, fun _ => rfl, fun _ => rfl⟩

theorem Kept.trans {db db' db'' : Database} (h : Kept p db db') (h' : Kept p db' db'') :
    Kept p db db'' where
  now := h.now.trans h'.now
  users id := (h'.users id).trans (h.users id)
  projects id := (h'.projects id).trans (h.projects id)
  members id := (h'.members id).trans (h.members id)
  keys id := (h'.keys id).trans (h.keys id)

theorem Kept.playbooks {db : Database} (playbooks : Table Nat Playbook) :
    Kept p db { db with playbooks := playbooks } :=
  ⟨rfl, fun _ => rfl, fun _ => rfl, fun _ => rfl, fun _ => rfl⟩

theorem keyOf_eq_none {db : Database} {id : ApiKeyId}
    (h : ∀ key, db.keys.get? id = some key → key.projectId ≠ p) : keyOf db p id = none := by
  unfold keyOf
  cases hget : db.keys.get? id with
  | none => rfl
  | some key => simp [Option.filter, h key hget]

/-- A key of another project is inserted or changed. -/
theorem Kept.key {db : Database} {id : ApiKeyId} {key : ApiKey} (hkey : key.projectId ≠ p)
    (hold : ∀ key, db.keys.get? id = some key → key.projectId ≠ p) :
    Kept p db { db with keys := db.keys.put id key } := by
  refine { Kept.refl db with keys := fun i => ?_ }
  by_cases hi : i = id
  · subst hi
    rw [keyOf_eq_none hold]
    refine keyOf_eq_none fun other hget => ?_
    rw [Table.get?_put_self] at hget
    obtain rfl := Option.some.inj hget
    exact hkey
  · unfold keyOf
    rw [Table.get?_put_of_ne _ _ hi]

/-- A member of another project comes, goes or gets another role. -/
theorem Kept.member {db : Database} {members : Members}
    (h : ∀ id, members.get? (p, id) = db.members.get? (p, id)) :
    Kept p db { db with members := members } :=
  { Kept.refl db with members := h }

variable {db db' : Database} {user : Principal} {q : ProjectId} {call : Call}

/-- What a powerless principal may manage is another project. -/
theorem Powerless.other (hpow : Powerless db.members user p) {permission : Permission}
    (hmanaging : permission ∈ managing) (h : Allowed db user permission q) : q ≠ p := by
  rintro rfl
  exact hpow.role (role_of_managing hmanaging hpow.global h)

theorem kept_effect (hpow : Powerless db.members user p) (hrequired : call.required ∉ globalOnly)
    (hunused : call.unused db = true) (h : Effect cfg db user call db') : Kept p db db' := by
  have hfresh : ∀ fresh, call.newToken = some fresh → db.keys.get? fresh.id = none := by
    intro fresh hcall
    cases call <;> cases hcall <;> exact Option.isNone_iff_eq_none.1 hunused
  cases h with
  | nothing => exact .refl db
  | member hallowed =>
    have hq := hpow.other (by simp [managing]) hallowed
    exact .member fun id => Table.get?_put_of_ne _ _ fun heq => hq (Prod.mk.inj heq).1.symm
  | memberGone hallowed =>
    have hq := hpow.other (by simp [managing]) hallowed
    refine .member fun id => ?_
    rw [Table.get?_remove, if_neg fun heq => hq (Prod.mk.inj heq).1.symm]
  | playbookMade | playbook | playbookGone => exact .playbooks _
  | key hget hevolves hallowed =>
    have hq := hpow.other (by simp [managing]) hallowed
    refine .key (by rwa [hevolves.projectId]) fun other hother => ?_
    rw [hget] at hother
    exact Option.some.inj hother ▸ hq
  | keyMade hcall _ hallowed =>
    refine .key (hpow.other (by simp [managing]) hallowed) fun other hother => ?_
    rw [hfresh _ hcall] at hother
    cases hother
  | keyRotated hcall hget hevolves _ hproject hallowed =>
    have hq := hpow.other (by simp [managing]) hallowed
    have hold : Kept p db _ := .key (by rwa [hevolves.projectId]) fun other hother => by
      rw [hget] at hother
      exact Option.some.inj hother ▸ hq
    refine hold.trans (.key (by rwa [hproject]) fun other hother => ?_)
    rcases Table.get?_put_cases hother with ⟨-, rfl⟩ | ⟨-, hother⟩
    · rwa [hevolves.projectId]
    · rw [hfresh _ hcall] at hother
      cases hother
  | global hcall => exact absurd hcall hrequired

end Access

end AnsiDeck
