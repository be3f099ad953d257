import AnsiDeck.SecretStore.Moves

/-!
# A secret is never lost

Every row that stands for a secret resolves to it, from its own column or from the store. Nothing a
handler does before it locks the row again counts on the row: what it wrote to the store stays there
whatever happens, and under the lock the row is either as it was, and then its ciphertext is the one
whose secret was written, or it is let alone.
-/

namespace AnsiDeck

namespace SecretStore

open Lib (Dict Table)
open Lib.System (Path Inductive Reachable)
open Lib.Url (Text)

variable {κ τ : Type} {f : Fernet κ τ} {validKey : Text → Bool}

/-! ## Rows -/

/-- A secret that a row of this kind may stand for, in its column or in the store. -/
def Fits (kind : Option CredentialKind) : Secret → Prop
  | .env vars => kind = some .env ∧ envProblem vars = none
  | .value text => kind ≠ some .env ∧ text ≠ []

/-- A reference has a key unless its row takes every key of the secret. -/
def Shaped (kind : Option CredentialKind) (key : Option Text) : Prop :=
  kind = some .env ↔ key = none

/-- What a row that stands for a secret keeps to. -/
structure Good (f : Fernet κ τ) (keys : List κ) (store : Store) (row : Row τ) (secret : Secret) :
    Prop where
  resolves : resolve f keys store row = some secret
  fits : Fits row.kind secret
  shaped : row.storePath.isSome = true → Shaped row.kind row.storeKey

theorem readReference_env {store : Store} {kind : Option CredentialKind} {project : ProjectId}
    {path : Text} {key : Option Text} {secret : Secret} (hkind : kind = some .env) :
    readReference store kind project path key = some secret ↔ ∃ data version,
      readAllVersioned store project path = .ok (data, version) ∧ envProblem data = none ∧
        secret = .env data := by
  unfold readReference
  rw [if_pos hkind]
  cases hread : readAllVersioned store project path with
  | error e => simp
  | ok read =>
    obtain ⟨data, version⟩ := read
    cases hproblem : envProblem data with
    | some problem => simp [hproblem]
    | none =>
      simp [hproblem]
      grind

theorem readReference_value {store : Store} {kind : Option CredentialKind} {project : ProjectId}
    {path : Text} {key : Option Text} {secret : Secret} (hkind : kind ≠ some .env) :
    readReference store kind project path key = some secret ↔ ∃ k value version, key = some k ∧
      readVersioned store project path k = .ok (value, version) ∧ secret = .value value := by
  unfold readReference
  rw [if_neg hkind]
  cases key with
  | none => simp
  | some k =>
    cases hread : readVersioned store project path k with
    | error e => simp [hread]
    | ok read =>
      obtain ⟨value, version⟩ := read
      simp [hread]
      grind

theorem readReference_mono {store store' : Store} (h : store.Grows store')
    {kind : Option CredentialKind} {project : ProjectId} {path : Text} {key : Option Text}
    {secret : Secret} (hr : readReference store kind project path key = some secret) :
    readReference store' kind project path key = some secret := by
  by_cases hkind : kind = some .env
  · obtain ⟨data, version, hread, hgood, hsecret⟩ := (readReference_env hkind).mp hr
    exact (readReference_env hkind).mpr ⟨data, version, h.readAll hread, hgood, hsecret⟩
  · obtain ⟨k, value, version, hkey, hread, hsecret⟩ := (readReference_value hkind).mp hr
    exact (readReference_value hkind).mpr ⟨k, value, version, hkey, h.read hread, hsecret⟩

/-- A reference only ever gives what a row of its kind may stand for. -/
theorem fits_of_readReference {store : Store} {kind : Option CredentialKind} {project : ProjectId}
    {path : Text} {key : Option Text} {secret : Secret}
    (h : readReference store kind project path key = some secret) : Fits kind secret := by
  by_cases hkind : kind = some .env
  · obtain ⟨data, version, -, hgood, rfl⟩ := (readReference_env hkind).mp h
    exact ⟨hkind, hgood⟩
  · obtain ⟨k, value, version, -, hread, rfl⟩ := (readReference_value hkind).mp h
    exact ⟨hkind, (readVersioned_eq_ok.mp hread).2.1⟩

theorem resolve_mono {keys keys' : List κ} (hkeys : ∀ key ∈ keys, key ∈ keys')
    {store store' : Store} (hstore : store.Grows store') {row : Row τ} {secret : Secret}
    (h : resolve f keys store row = some secret) : resolve f keys' store' row = some secret := by
  unfold resolve at h ⊢
  split at h
  · obtain ⟨token, htoken, hdecrypt⟩ := Option.bind_eq_some_iff.mp h
    exact Option.bind_eq_some_iff.mpr ⟨token, htoken, f.decryptAny_mono hkeys hdecrypt⟩
  · exact readReference_mono hstore h

theorem Good.mono {keys keys' : List κ} (hkeys : ∀ key ∈ keys, key ∈ keys')
    {store store' : Store} (hstore : store.Grows store') {row : Row τ} {secret : Secret}
    (h : Good f keys store row secret) : Good f keys' store' row secret where
  resolves := resolve_mono hkeys hstore h.resolves
  fits := h.fits
  shaped := h.shaped

/-- A row whose reference can be read. -/
theorem Good.of_reference {keys : List κ} {store : Store} {row : Row τ} {path : Text}
    {secret : Secret} (hpath : row.storePath = some path)
    (hread : readReference store row.kind row.project path row.storeKey = some secret)
    (hshaped : Shaped row.kind row.storeKey) : Good f keys store row secret where
  resolves := by
    unfold resolve
    rw [hpath]
    exact hread
  fits := fits_of_readReference hread
  shaped := fun _ => hshaped

/-- A row whose own column holds the secret. -/
theorem Good.of_column {keys : List κ} {store : Store} {row : Row τ} {token : τ} {secret : Secret}
    (hpath : row.storePath = none) (htoken : row.encrypted = some token)
    (hdecrypt : f.decryptAny keys token = some secret) (hfits : Fits row.kind secret) :
    Good f keys store row secret where
  resolves := by
    unfold resolve
    rw [hpath, htoken]
    exact hdecrypt
  fits := hfits
  shaped h := absurd h (by rw [hpath]; simp)

/-! ## What the handlers make of a row -/

/-- What the check lets through can be read. -/
theorem check_reads {store : Store} {id : RowId} {kind : Option CredentialKind}
    {project : ProjectId} {path : Text} {key : Option Text}
    (h : check validKey store id project path key = true) (hshaped : Shaped kind key) :
    ∃ secret, readReference store kind project path key = some secret := by
  cases hkey : key with
  | none =>
    have hkind : kind = some .env := hshaped.mpr hkey
    cases id with
    | credential n =>
      rw [hkey] at h
      rw [hkind]
      exact Option.isSome_iff_exists.mp h
    | vaultPassword n =>
      rw [hkey] at h
      exact absurd h (by simp [check])
  | some k =>
    have hkind : kind ≠ some .env := by
      intro hkind
      have := hshaped.mp hkind
      rw [hkey] at this
      exact absurd this (by simp)
    cases hread : readVersioned store project path k with
    | error e =>
      rw [hkey] at h
      cases id <;> exact absurd h (by simp [check, hread])
    | ok read =>
      exact ⟨.value read.1, (readReference_value hkind).mpr ⟨k, read.1, read.2, rfl, hread, rfl⟩⟩

/-- What a move took from the row: the secret of its ciphertext, in the shape it is written in. -/
structure Carries (f : Fernet κ τ) (m : Move τ) : Prop where
  path : (checkPath m.path).isSome = true
  key : ∀ key, m.key = some key → isSegment key = true
  shaped : Shaped m.kind m.key
  data : ∃ keys secret, m.ciphertext.bind (f.decryptAny keys) = some secret ∧
    values m.key secret = some m.data

theorem beginMove_eq_some {keys : List κ} {id : RowId} {row : Row τ} {payload : MoveToStore}
    {m : Move τ} (h : beginMove f keys id row payload = some m) :
    m.id = id ∧ m.kind = row.kind ∧ m.project = row.project ∧ row.kind ≠ some .sshCert ∧
      Carries f m := by
  unfold beginMove at h
  split at h
  · exact absurd h (by simp)
  · next hthere =>
    split at h
    · exact absurd h (by simp)
    · dsimp only at h
      generalize hkey : (if row.kind = some .env then none
        else some (payload.storeKey.getD (defaultKey id))) = key at h
      split at h
      · exact absurd h (by simp)
      · next hvalid =>
        obtain ⟨secret, hsecret, h⟩ := Option.bind_eq_some_iff.mp h
        obtain ⟨data, hdata, h⟩ := Option.bind_eq_some_iff.mp h
        obtain rfl := (Option.some.inj h).symm
        simp only [Bool.or_eq_true, not_or] at hthere hvalid
        refine ⟨rfl, rfl, rfl, by simpa using hthere.1, ?_⟩
        refine ⟨by simpa [Option.isSome_iff_ne_none] using hvalid.1, ?_, ?_, keys, secret, hsecret,
          hdata⟩
        · rintro k rfl
          simpa using hvalid.2
        · rw [← hkey]
          show row.kind = some .env ↔ _
          split
          · next henv => exact ⟨fun _ => rfl, fun _ => henv⟩
          · next henv => exact ⟨fun h => absurd h henv, fun h => absurd h (by simp)⟩

/-- **Reading back what a move wrote gives the secret of the row's ciphertext.** -/
theorem Carries.reads {m : Move τ} (h : Carries f m) {store : Store} {version : Nat}
    (hwritten : store.get? (m.project, m.path) = some ⟨version, some m.data⟩) {keys : List κ}
    {secret : Secret} (hsecret : m.ciphertext.bind (f.decryptAny keys) = some secret)
    (hfits : Fits m.kind secret) :
    readReference store m.kind m.project m.path m.key = some secret := by
  have hread := readAllVersioned_eq_ok.mpr ⟨h.path, hwritten⟩
  obtain ⟨keys', secret', hsecret', hvalues⟩ := h.data
  have hsame : secret' = secret := by
    obtain ⟨token, htoken, hd⟩ := Option.bind_eq_some_iff.mp hsecret
    obtain ⟨token', htoken', hd'⟩ := Option.bind_eq_some_iff.mp hsecret'
    obtain rfl := Option.some.inj (htoken'.symm.trans htoken)
    obtain ⟨k, -, hk⟩ := f.decryptAny_eq_some.mp hd
    obtain ⟨k', -, hk'⟩ := f.decryptAny_eq_some.mp hd'
    exact f.genuine k k' _ secret secret' hk hk'
  subst hsame
  cases secret' with
  | env vars =>
    obtain ⟨hkind, hgood⟩ := hfits
    rw [h.shaped.mp hkind] at hvalues
    obtain rfl := Option.some.inj hvalues
    exact (readReference_env hkind).mpr ⟨m.data, version, hread, hgood, rfl⟩
  | value text =>
    obtain ⟨hkind, hne⟩ := hfits
    obtain ⟨key, hkey, hdata⟩ := Option.map_eq_some_iff.mp hvalues
    refine (readReference_value hkind).mpr ⟨key, text, version, hkey, ?_, rfl⟩
    refine readVersioned_eq_ok.mpr ⟨h.key key hkey, hne, m.data, hread, ?_⟩
    rw [← hdata]
    exact Dict.get?_empty_set_self key (some text)

/-- Re-encrypting a row keeps its secret, under the keys it was done with. -/
theorem reencrypted_good {keys keys' : List κ} (hkeys : ∀ key ∈ keys', key ∈ keys) {random : Nat}
    {store : Store} {row row' : Row τ} {secret : Secret} (h : Good f keys store row secret)
    (hr : reencrypted f keys' random row = some row') : Good f keys store row' secret := by
  unfold reencrypted at hr
  split at hr
  · obtain rfl := Option.some.inj hr
    exact h
  · next token htoken =>
    split at hr
    · obtain rfl := Option.some.inj hr
      exact h
    · obtain ⟨token', hrotate, rfl⟩ := Option.map_eq_some_iff.mp hr
      obtain ⟨secret', current, hany, hcurrent, rfl⟩ := f.rotate_eq_some hrotate
      cases hpath : row.storePath with
      | some path =>
        have hread := h.resolves
        unfold resolve at hread
        rw [hpath] at hread
        exact .of_reference rfl hread (h.shaped (by rw [hpath]; rfl))
      | none =>
        have hcolumn := h.resolves
        unfold resolve at hcolumn
        rw [hpath, htoken] at hcolumn
        have hsame := f.decryptAny_mono hkeys hany
        obtain rfl := Option.some.inj (hcolumn.symm.trans hsame)
        refine .of_column rfl rfl ?_ h.fits
        exact f.decryptAny_eq_some.mpr ⟨current, hkeys current hcurrent, f.decrypt_encrypt _ _ _⟩

theorem reencrypted_kind {keys : List κ} {random : Nat} {row row' : Row τ}
    (hr : reencrypted f keys random row = some row') :
    row'.kind = row.kind ∧ row'.project = row.project := by
  unfold reencrypted at hr
  split at hr
  · obtain rfl := Option.some.inj hr
    exact ⟨rfl, rfl⟩
  · split at hr
    · obtain rfl := Option.some.inj hr
      exact ⟨rfl, rfl⟩
    · obtain ⟨token', -, rfl⟩ := Option.map_eq_some_iff.mp hr
      exact ⟨rfl, rfl⟩

/-! ## The handlers at work -/

/-- What a handler knows of the row it read: it is the same project's and of the same kind as long
as it is there. -/
structure Knows (s : State κ τ) (id : RowId) (kind : Option CredentialKind)
    (project : ProjectId) : Prop where
  given : id ∈ s.ids
  same : ∀ row, s.rows.get? id = some row → row.kind = kind ∧ row.project = project
  secret : kind ≠ some .sshCert

/-- What may take a row's place: it stands for a secret, and for the same one unless a reference was
edited. -/
def Replaces (f : Fernet κ τ) (s : State κ τ) (same : Prop) (id : RowId) (row : Row τ) : Prop :=
  ∃ old, s.rows.get? id = some old ∧ row.kind = old.kind ∧ row.project = old.project ∧
    (row.kind ≠ some .sshCert → ∃ secret secret', Good f s.keys s.store old secret ∧
      Good f s.keys s.store row secret' ∧ (same → secret' = secret))

/-- The move's secret is in the store. -/
def Written (store : Store) (m : Move τ) (version : Nat) : Prop :=
  store.get? (m.project, m.path) = some ⟨version, some m.data⟩

/-- What a handler relies on. -/
def Sound (f : Fernet κ τ) (s : State κ τ) : Work κ τ → Prop
  | .adding _ row => ∃ secret, Good f s.keys s.store row secret
  | .looking m | .creating m => Knows s m.id m.kind m.project ∧ Carries f m
  | .readingBack m version =>
    Knows s m.id m.kind m.project ∧ Carries f m ∧ Written s.store m version
  | .locking m => Knows s m.id m.kind m.project ∧ Carries f m ∧ ∃ version, Written s.store m version
  | .moved id row => Replaces f s True id row
  | .checking e => Knows s e.id e.kind e.project ∧ Shaped e.kind e.key
  | .checked e => Knows s e.id e.kind e.project ∧ Shaped e.kind e.key ∧
      ∃ secret, readReference s.store e.kind e.project e.path e.key = some secret
  | .edited id row => Replaces f s False id row
  | .rotating keys _ done => (∀ key ∈ keys, key ∈ s.keys) ∧ ∀ e ∈ done, Replaces f s True e.1 e.2

structure Inv (f : Fernet κ τ) (s : State κ τ) : Prop where
  rows : ∀ id row, s.rows.get? id = some row → row.kind ≠ some .sshCert →
    ∃ secret, Good f s.keys s.store row secret
  given : ∀ id row, s.rows.get? id = some row → id ∈ s.ids
  works : ∀ op work, s.txs.get? op = some work → Sound f s work
  apart : s.txs.Pairs fun w w' => ∀ id ∈ w.locks, id ∉ w'.locks

/-- What time does: keys, secrets and ids only come, and a row stays of its kind and project. -/
structure Later (s s' : State κ τ) : Prop where
  keys : ∀ key ∈ s.keys, key ∈ s'.keys
  store : s.store.Grows s'.store
  ids : ∀ id ∈ s.ids, id ∈ s'.ids
  rows : ∀ id ∈ s.ids, ∀ row', s'.rows.get? id = some row' →
    ∃ row, s.rows.get? id = some row ∧ row'.kind = row.kind ∧ row'.project = row.project

theorem Later.of_rows {s s' : State κ τ} (hkeys : ∀ key ∈ s.keys, key ∈ s'.keys)
    (hstore : s.store.Grows s'.store) (hids : ∀ id ∈ s.ids, id ∈ s'.ids)
    (hrows : s'.rows = s.rows) :
    Later s s' where
  keys := hkeys
  store := hstore
  ids := hids
  rows _ _ row' h := ⟨row', by rw [← hrows]; exact h, rfl, rfl⟩

theorem Knows.later {s s' : State κ τ} (hl : Later s s') {id : RowId}
    {kind : Option CredentialKind} {project : ProjectId} (h : Knows s id kind project) :
    Knows s' id kind project where
  given := hl.ids id h.given
  same row' hrow' := by
    obtain ⟨row, hrow, hkind, hproject⟩ := hl.rows id h.given row' hrow'
    have hsame := h.same row hrow
    exact ⟨hkind.trans hsame.1, hproject.trans hsame.2⟩
  secret := h.secret

theorem Replaces.later {s s' : State κ τ} (hl : Later s s') {same : Prop} {id : RowId}
    {row : Row τ} (hid : s'.rows.get? id = s.rows.get? id) (h : Replaces f s same id row) :
    Replaces f s' same id row := by
  obtain ⟨old, hold, hkind, hproject, hgood⟩ := h
  refine ⟨old, hid.trans hold, hkind, hproject, ?_⟩
  intro hsecret
  obtain ⟨secret, secret', hgold, hgrow, hsame⟩ := hgood hsecret
  exact ⟨secret, secret', hgold.mono hl.keys hl.store, hgrow.mono hl.keys hl.store, hsame⟩

/-- **A handler's reliance survives what others do, as long as nobody touches what it locked.** -/
theorem Sound.later {s s' : State κ τ} (hl : Later s s') {work : Work κ τ}
    (hlocks : ∀ id ∈ work.locks, s'.rows.get? id = s.rows.get? id) (h : Sound f s work) :
    Sound f s' work := by
  cases work with
  | adding id row =>
    obtain ⟨secret, hgood⟩ := h
    exact ⟨secret, hgood.mono hl.keys hl.store⟩
  | looking m => exact ⟨h.1.later hl, h.2⟩
  | creating m => exact ⟨h.1.later hl, h.2⟩
  | readingBack m version => exact ⟨h.1.later hl, h.2.1, hl.store _ _ h.2.2⟩
  | locking m =>
    obtain ⟨hknows, hcarries, version, hwritten⟩ := h
    exact ⟨hknows.later hl, hcarries, version, hl.store _ _ hwritten⟩
  | moved id row => exact Replaces.later hl (hlocks id (by simp [Work.locks, Work.changed])) h
  | checking e => exact ⟨h.1.later hl, h.2⟩
  | checked e =>
    obtain ⟨hknows, hshaped, secret, hread⟩ := h
    exact ⟨hknows.later hl, hshaped, secret, readReference_mono hl.store hread⟩
  | edited id row => exact Replaces.later hl (hlocks id (by simp [Work.locks, Work.changed])) h
  | rotating keys todo done =>
    refine ⟨fun key hkey => hl.keys key (h.1 key hkey), ?_⟩
    intro e he
    exact (h.2 e he).later hl (hlocks e.1 (List.mem_map_of_mem he))

/-- It does not rely on the others. -/
theorem Sound.txs {s : State κ τ} {work : Work κ τ} (h : Sound f s work)
    (txs : Table Nat (Work κ τ)) : Sound f { s with txs := txs } work := by
  have hl : Later s { s with txs := txs } :=
    .of_rows (fun _ h => h) (.refl _) (fun _ h => h) rfl
  exact h.later hl fun _ _ => rfl

/-- What a handler has locked is a row. -/
theorem Sound.locked {s : State κ τ} {work : Work κ τ} (h : Sound f s work) {e : RowId × Row τ}
    (he : e ∈ work.changed) : ∃ same, Replaces f s same e.1 e.2 := by
  cases work with
  | moved id row =>
    obtain rfl := List.mem_singleton.mp he
    exact ⟨True, h⟩
  | edited id row =>
    obtain rfl := List.mem_singleton.mp he
    exact ⟨False, h⟩
  | rotating keys todo done => exact ⟨True, h.2 e he⟩
  | _ => exact absurd he (by simp [Work.changed])

/-! ## The invariant, kept -/

theorem Inv.dropped {s : State κ τ} (h : Inv f s) (op : Nat) : Inv f (drop s op) where
  rows := h.rows
  given := h.given
  works k work hk := (h.works k work (Table.get?_remove_eq_some.mp hk).2).txs _
  apart := h.apart.remove op

/-- A handler begins, or goes on. -/
theorem Inv.put {s : State κ τ} (h : Inv f s) {op : Nat} {work : Work κ τ}
    (hsound : Sound f s work)
    (hfree : ∀ id ∈ work.locks, ∀ k other, s.txs.get? k = some other → k ≠ op → id ∉ other.locks) :
    Inv f (setWork s op work) where
  rows := h.rows
  given := h.given
  works k w hk := by
    rcases Table.get?_put_cases hk with ⟨-, rfl⟩ | ⟨-, hold⟩
    · exact hsound.txs _
    · exact (h.works k w hold).txs _
  apart := h.apart.put fun k other hk hne =>
    ⟨fun id hid => hfree id hid k other hk hne, fun id hid hmine =>
      hfree id hmine k other hk hne hid⟩

/-- A handler that has locked nothing. -/
theorem Inv.putFree {s : State κ τ} (h : Inv f s) {op : Nat} {work : Work κ τ}
    (hsound : Sound f s work) (hlocks : work.changed = []) : Inv f (setWork s op work) := by
  refine h.put hsound ?_
  intro id hid
  exact absurd hid (by simp [Work.locks, hlocks])

theorem Inv.begun {s s' : State κ τ} (h : Inv f s) {op : Nat} {work : Work κ τ}
    (hstart : start s op work = some s') (hsound : Sound f s work) (hlocks : work.changed = []) :
    Inv f s' := by
  obtain ⟨-, hstart⟩ := Option.ite_none_right_eq_some.mp hstart
  obtain rfl := Option.some.inj hstart
  exact h.putFree hsound hlocks

/-- What a handler reads of a row. -/
theorem Inv.knows {s : State κ τ} (h : Inv f s) {id : RowId} {row : Row τ}
    (hrow : s.rows.get? id = some row) (hcert : row.kind ≠ some .sshCert) :
    Knows s id row.kind row.project where
  given := h.given id row hrow
  same row' hrow' := by
    obtain rfl := Option.some.inj (hrow'.symm.trans hrow)
    exact ⟨rfl, rfl⟩
  secret := hcert

/-- The database or the store changes, and the handlers in `txs` go on. -/
theorem Inv.later {s s' : State κ τ} (h : Inv f s) (hl : Later s s')
    (hrows : ∀ id row, s'.rows.get? id = some row → row.kind ≠ some .sshCert →
      ∃ secret, Good f s'.keys s'.store row secret)
    (hgiven : ∀ id row, s'.rows.get? id = some row → id ∈ s'.ids)
    (htxs : ∀ op work, s'.txs.get? op = some work → s.txs.get? op = some work ∧
      ∀ id ∈ work.locks, s'.rows.get? id = s.rows.get? id) : Inv f s' where
  rows := hrows
  given := hgiven
  works op work hop := (h.works op work (htxs op work hop).1).later hl (htxs op work hop).2
  apart k k' w w' hk hk' hne := h.apart k k' w w' (htxs k w hk).1 (htxs k' w' hk').1 hne

/-- Nothing happens to the rows. -/
theorem Inv.grows {s s' : State κ τ} (h : Inv f s) (hkeys : ∀ key ∈ s.keys, key ∈ s'.keys)
    (hstore : s.store.Grows s'.store) (hids : ∀ id ∈ s.ids, id ∈ s'.ids)
    (hrows : s'.rows = s.rows) (htxs : s'.txs = s.txs) : Inv f s' := by
  refine h.later (.of_rows hkeys hstore hids hrows) ?_ ?_ ?_
  · intro id row hrow hkind
    rw [hrows] at hrow
    obtain ⟨secret, hgood⟩ := h.rows id row hrow hkind
    exact ⟨secret, hgood.mono hkeys hstore⟩
  · intro id row hrow
    rw [hrows] at hrow
    exact hids id (h.given id row hrow)
  · intro op work hop
    rw [htxs] at hop
    exact ⟨hop, fun id _ => by rw [hrows]⟩

/-! ## Steps that leave the rows alone -/

structure Quiet (s s' : State κ τ) : Prop where
  keys : ∀ key ∈ s.keys, key ∈ s'.keys
  store : s.store.Grows s'.store
  ids : ∀ id ∈ s.ids, id ∈ s'.ids
  rows : s'.rows = s.rows

theorem Quiet.later {s s' : State κ τ} (h : Quiet s s') : Later s s' :=
  .of_rows h.keys h.store h.ids h.rows

theorem Quiet.dropped (s : State κ τ) (op : Nat) : Quiet s (drop s op) :=
  ⟨fun _ h => h, .refl _, fun _ h => h, rfl⟩

theorem Quiet.put (s : State κ τ) (op : Nat) (work : Work κ τ) : Quiet s (setWork s op work) :=
  ⟨fun _ h => h, .refl _, fun _ h => h, rfl⟩

theorem Quiet.begun {s s' : State κ τ} {op : Nat} {work : Work κ τ}
    (h : start s op work = some s') : Quiet s s' := by
  obtain ⟨-, h⟩ := Option.ite_none_right_eq_some.mp h
  obtain rfl := Option.some.inj h
  exact .put s op work

theorem readStep_quiet {s s' : State κ τ} {op : Nat} {work : Work κ τ} (h : Inv f s)
    (hop : s.txs.get? op = some work) (hstep : readStep s op work = some s') :
    Inv f s' ∧ Quiet s s' := by
  have hsound := h.works op work hop
  cases work with
  | looking m =>
    simp only [readStep] at hstep
    split at hstep
    · obtain rfl := Option.some.inj hstep
      exact ⟨h.putFree hsound rfl, .put s op _⟩
    · obtain rfl := Option.some.inj hstep
      exact ⟨h.dropped op, .dropped s op⟩
  | readingBack m version =>
    simp only [readStep] at hstep
    split at hstep
    · split at hstep
      · obtain rfl := Option.some.inj hstep
        exact ⟨h.putFree ⟨hsound.1, hsound.2.1, version, hsound.2.2⟩ rfl, .put s op _⟩
      · obtain rfl := Option.some.inj hstep
        exact ⟨h.dropped op, .dropped s op⟩
    · obtain rfl := Option.some.inj hstep
      exact ⟨h.dropped op, .dropped s op⟩
  | _ => exact absurd hstep (by simp [readStep])

/-- The store takes a new secret, and the handler gets to know it or not. -/
theorem storeStep_quiet {s s' : State κ τ} {op : Nat} {answered : Bool} {work : Work κ τ}
    (h : Inv f s) (hop : s.txs.get? op = some work)
    (hstep : storeStep s op answered work = some s') : Inv f s' ∧ Quiet s s' := by
  have hsound := h.works op work hop
  cases work with
  | creating m =>
    simp only [storeStep] at hstep
    split at hstep
    · obtain rfl := Option.some.inj hstep
      exact ⟨h.dropped op, .dropped s op⟩
    · next store version hcreate =>
      obtain ⟨hfree, hstore⟩ := createSecret_eq_ok hcreate
      have hgrows : s.store.Grows store := hstore ▸ .put hfree _
      have hquiet : Quiet s { s with store := store } :=
        ⟨fun _ h => h, hgrows, fun _ h => h, rfl⟩
      have hinv : Inv f { s with store := store } :=
        h.grows hquiet.keys hgrows hquiet.ids rfl rfl
      split at hstep
      · obtain rfl := Option.some.inj hstep
        refine ⟨hinv.putFree ?_ rfl, hquiet.keys, hgrows, hquiet.ids, rfl⟩
        have hwritten : Written store m version := by
          unfold Written
          rw [hstore, Table.get?_put_self]
        exact ⟨hsound.1.later hquiet.later, hsound.2, hwritten⟩
      · obtain rfl := Option.some.inj hstep
        exact ⟨hinv.dropped op, hquiet.keys, hgrows, hquiet.ids, rfl⟩
  | _ => exact absurd hstep (by simp [storeStep])

theorem checkStep_quiet {s s' : State κ τ} {op : Nat} {work : Work κ τ} (h : Inv f s)
    (hop : s.txs.get? op = some work) (hstep : checkStep validKey s op work = some s') :
    Inv f s' ∧ Quiet s s' := by
  have hsound := h.works op work hop
  cases work with
  | checking e =>
    simp only [checkStep] at hstep
    split at hstep
    · next hcheck =>
      obtain rfl := Option.some.inj hstep
      exact ⟨h.putFree ⟨hsound.1, hsound.2, check_reads hcheck hsound.2⟩ rfl, .put s op _⟩
    · obtain rfl := Option.some.inj hstep
      exact ⟨h.dropped op, .dropped s op⟩
  | _ => exact absurd hstep (by simp [checkStep])

theorem not_locked {s : State κ τ} {id : RowId} (h : locked s id = false) {k : Nat}
    {other : Work κ τ} (hk : s.txs.get? k = some other) : id ∉ other.locks := by
  have := Table.any_eq_false_iff.mp h k other hk
  simpa using this

/-- **A row that is as it was may take the reference to what was written.** -/
theorem Carries.replaces {s : State κ τ} (h : Inv f s) {m : Move τ} (hc : Carries f m)
    (hknows : Knows s m.id m.kind m.project) {version : Nat} (hw : Written s.store m version)
    {row : Row τ} (hrow : s.rows.get? m.id = some row) (hpath : row.storePath = none)
    (hsame : row.encrypted = m.ciphertext) : Replaces f s True m.id (m.moved row) := by
  refine ⟨row, hrow, rfl, rfl, ?_⟩
  intro hkind
  obtain ⟨secret, hgood⟩ := h.rows m.id row hrow hkind
  obtain ⟨hk, hp⟩ := hknows.same row hrow
  refine ⟨secret, secret, hgood, ?_, fun _ => rfl⟩
  have hcolumn := hgood.resolves
  unfold resolve at hcolumn
  rw [hpath, hsame] at hcolumn
  have hread := hc.reads hw hcolumn (hk ▸ hgood.fits)
  refine .of_reference rfl ?_ ?_
  · show readReference s.store row.kind row.project m.path m.key = some secret
    rw [hk, hp]
    exact hread
  · show Shaped row.kind m.key
    rw [hk]
    exact hc.shaped

theorem lockStep_quiet [DecidableEq τ] {s s' : State κ τ} {op : Nat} {work : Work κ τ} (h : Inv f s)
    (hop : s.txs.get? op = some work) (hstep : lockStep s op work = some s') :
    Inv f s' ∧ Quiet s s' := by
  have hsound := h.works op work hop
  cases work with
  | locking m =>
    simp only [lockStep] at hstep
    split at hstep
    · exact absurd hstep (by simp)
    · next hfree =>
      split at hstep
      · obtain rfl := Option.some.inj hstep
        exact ⟨h.dropped op, .dropped s op⟩
      · next row hrow =>
        split at hstep
        · obtain rfl := Option.some.inj hstep
          exact ⟨h.dropped op, .dropped s op⟩
        · next hunchanged =>
          obtain rfl := Option.some.inj hstep
          simp only [not_or, not_not] at hunchanged
          obtain ⟨hknows, hcarries, version, hwritten⟩ := hsound
          have hreplaces : Replaces f s True m.id (m.moved row) :=
            hcarries.replaces h hknows hwritten hrow
              (by simpa using hunchanged.1) hunchanged.2
          refine ⟨h.put hreplaces ?_, .put s op _⟩
          intro id hid k other hk _
          obtain rfl := List.mem_singleton.mp hid
          exact not_locked (by simpa using hfree) hk
  | checked e =>
    simp only [lockStep] at hstep
    split at hstep
    · exact absurd hstep (by simp)
    · next hfree =>
      split at hstep
      · obtain rfl := Option.some.inj hstep
        exact ⟨h.dropped op, .dropped s op⟩
      · next row hrow =>
        split at hstep
        · obtain rfl := Option.some.inj hstep
          exact ⟨h.dropped op, .dropped s op⟩
        · obtain rfl := Option.some.inj hstep
          obtain ⟨hknows, hshaped, secret', hread⟩ := hsound
          obtain ⟨hk, hp⟩ := hknows.same row hrow
          have hreplaces : Replaces f s False e.id (e.edited row) := by
            refine ⟨row, hrow, rfl, rfl, ?_⟩
            intro hkind
            obtain ⟨secret, hgood⟩ := h.rows e.id row hrow hkind
            refine ⟨secret, secret', hgood, .of_reference rfl ?_ ?_, False.elim⟩
            · show readReference s.store row.kind row.project e.path e.key = some secret'
              rw [hk, hp]
              exact hread
            · show Shaped row.kind e.key
              rw [hk]
              exact hshaped
          refine ⟨h.put hreplaces ?_, .put s op _⟩
          intro id hid k other hk _
          obtain rfl := List.mem_singleton.mp hid
          exact not_locked (by simpa using hfree) hk
  | _ => exact absurd hstep (by simp [lockStep])

theorem rotateStep_quiet {s s' : State κ τ} {op : Nat} {random : Nat} {work : Work κ τ}
    (h : Inv f s) (hop : s.txs.get? op = some work)
    (hstep : rotateStep f s op random work = some s') : Inv f s' ∧ Quiet s s' := by
  have hsound := h.works op work hop
  cases work with
  | rotating keys todo done =>
    cases todo with
    | nil => exact absurd hstep (by simp [rotateStep])
    | cons id todo =>
      simp only [rotateStep] at hstep
      split at hstep
      · exact absurd hstep (by simp)
      · next hfree =>
        split at hstep
        · obtain rfl := Option.some.inj hstep
          refine ⟨h.put hsound ?_, .put s op _⟩
          intro i hi k other hk hne
          exact h.apart op k _ other hop hk hne i hi
        · next row hrow =>
          split at hstep
          · obtain rfl := Option.some.inj hstep
            exact ⟨h.dropped op, .dropped s op⟩
          · next row' hrow' =>
            obtain rfl := Option.some.inj hstep
            have hkind := reencrypted_kind hrow'
            have hreplaces : Replaces f s True id row' := by
              refine ⟨row, hrow, hkind.1, hkind.2, ?_⟩
              intro hsecret
              obtain ⟨secret, hgood⟩ := h.rows id row hrow (hkind.1 ▸ hsecret)
              exact ⟨secret, secret, hgood, reencrypted_good hsound.1 hgood hrow', fun _ => rfl⟩
            refine ⟨h.put ⟨hsound.1, ?_⟩ ?_, .put s op _⟩
            · intro e he
              rcases List.mem_append.mp he with he | he
              · exact hsound.2 e he
              · obtain rfl := List.mem_singleton.mp he
                exact hreplaces
            · intro i hi k other hk hne
              simp only [Work.locks, Work.changed, List.map_append, List.mem_append] at hi
              rcases hi with hi | hi
              · exact h.apart op k _ other hop hk hne i hi
              · obtain rfl := List.mem_singleton.mp hi
                exact not_locked (by simpa using hfree) hk
  | _ => exact absurd hstep (by simp [rotateStep])

/-! ## Steps that change the rows -/

theorem get?_flush {changed : List (RowId × Row τ)} {rows : Table RowId (Row τ)} {id : RowId}
    {row : Row τ} (h : (flush rows changed).get? id = some row) :
    rows.get? id = some row ∨ (id, row) ∈ changed := by
  induction changed generalizing rows with
  | nil => exact .inl h
  | cons e changed ih =>
    rcases ih h with hput | hmem
    · rcases Table.get?_put_cases hput with ⟨rfl, rfl⟩ | ⟨-, hold⟩
      · exact .inr List.mem_cons_self
      · exact .inl hold
    · exact .inr (List.mem_cons_of_mem e hmem)

theorem get?_flush_of_not_mem {changed : List (RowId × Row τ)} {rows : Table RowId (Row τ)}
    {id : RowId} (h : id ∉ changed.map Prod.fst) : (flush rows changed).get? id = rows.get? id := by
  induction changed generalizing rows with
  | nil => rfl
  | cons e changed ih =>
    simp only [List.map_cons, List.mem_cons, not_or] at h
    exact (ih h.2).trans (Table.get?_put_of_ne rows e.2 h.1)

/-- What a step makes of the rows that were ever given an id. -/
structure Outcome (f : Fernet κ τ) (s s' : State κ τ) (changed : List (RowId × Row τ)) : Prop where
  inv : Inv f s'
  later : Later s s'
  rows : ∀ id ∈ s.ids, ∀ row, s'.rows.get? id = some row →
    s.rows.get? id = some row ∨ (id, row) ∈ changed

theorem Outcome.of_quiet {s s' : State κ τ} (h : Inv f s' ∧ Quiet s s') : Outcome f s s' [] where
  inv := h.1
  later := h.2.later
  rows id _ row hrow := .inl (by rw [← h.2.rows]; exact hrow)

theorem commitStep_outcome {s s' : State κ τ} {op : Nat} {work : Work κ τ} (h : Inv f s)
    (hop : s.txs.get? op = some work) (hstep : commitStep s op work = some s') :
    Outcome f s s' work.changed := by
  obtain ⟨-, hstep⟩ := Option.ite_none_right_eq_some.mp hstep
  obtain rfl := Option.some.inj hstep
  have hsound := h.works op work hop
  have hlater : Later s (drop { s with rows := flush s.rows work.changed } op) := by
    refine ⟨fun _ h => h, .refl _, fun _ h => h, ?_⟩
    intro id _ row' hrow'
    rcases get?_flush hrow' with hrow | hmem
    · exact ⟨row', hrow, rfl, rfl⟩
    · obtain ⟨same, old, hold, hkind, hproject, -⟩ := hsound.locked hmem
      exact ⟨old, hold, hkind, hproject⟩
  refine ⟨h.later hlater ?_ ?_ ?_, hlater, fun id _ row hrow => get?_flush hrow⟩
  · intro id row hrow hkind
    rcases get?_flush hrow with hold | hmem
    · exact h.rows id row hold hkind
    · obtain ⟨same, old, -, -, -, hgood⟩ := hsound.locked hmem
      obtain ⟨secret, secret', -, hnew, -⟩ := hgood hkind
      exact ⟨secret', hnew⟩
  · intro id row hrow
    rcases get?_flush hrow with hold | hmem
    · exact h.given id row hold
    · obtain ⟨same, old, hold, -⟩ := hsound.locked hmem
      exact h.given id old hold
  · intro k other hk
    obtain ⟨hne, hk⟩ := Table.get?_remove_eq_some.mp hk
    refine ⟨hk, fun id hid => get?_flush_of_not_mem ?_⟩
    exact h.apart k op other work hk hop (Ne.symm hne) id hid

/-- A new row, under an id of its own. -/
theorem insertRow_outcome {s s' : State κ τ} {id : RowId} {row : Row τ} (h : Inv f s)
    (hgood : row.kind ≠ some .sshCert → ∃ secret, Good f s.keys s.store row secret)
    (hstep : insertRow s id row = some s') : Outcome f s s' [] := by
  obtain ⟨hnew, hstep⟩ := Option.ite_none_left_eq_some.mp hstep
  obtain rfl := Option.some.inj hstep
  have hnew : id ∉ s.ids := by simpa using hnew
  have hold : ∀ id' ∈ s.ids, (s.rows.put id row).get? id' = s.rows.get? id' := by
    intro id' hid'
    refine Table.get?_put_of_ne _ _ ?_
    rintro rfl
    exact hnew hid'
  have hlater : Later s { s with rows := s.rows.put id row, ids := id :: s.ids } := by
    refine ⟨fun _ h => h, .refl _, fun _ h => List.mem_cons_of_mem id h, ?_⟩
    intro id' hid' row' hrow'
    exact ⟨row', (hold id' hid').symm.trans hrow', rfl, rfl⟩
  refine ⟨h.later hlater ?_ ?_ ?_, hlater, ?_⟩
  · intro id' row' hrow' hkind
    rcases Table.get?_put_cases hrow' with ⟨-, rfl⟩ | ⟨-, hthere⟩
    · exact hgood hkind
    · exact h.rows id' row' hthere hkind
  · intro id' row' hrow'
    rcases Table.get?_put_cases hrow' with ⟨rfl, -⟩ | ⟨-, hthere⟩
    · exact List.mem_cons_self
    · exact List.mem_cons_of_mem id (h.given id' row' hthere)
  · intro op work hop
    refine ⟨hop, fun id' hid' => hold id' ?_⟩
    obtain ⟨e, he, rfl⟩ := List.mem_map.mp hid'
    obtain ⟨same, old, hthere, -⟩ := (h.works op work hop).locked he
    exact h.given e.1 old hthere
  · intro id' hid' row' hrow'
    exact .inl ((hold id' hid').symm.trans hrow')

theorem delete_outcome {s : State κ τ} {id : RowId} (h : Inv f s) (hfree : locked s id = false) :
    Outcome f s { s with rows := s.rows.remove id } [] := by
  have hlater : Later s { s with rows := s.rows.remove id } := by
    refine ⟨fun _ h => h, .refl _, fun _ h => h, ?_⟩
    intro id' _ row' hrow'
    exact ⟨row', (Table.get?_remove_eq_some.mp hrow').2, rfl, rfl⟩
  refine ⟨h.later hlater ?_ ?_ ?_, hlater, ?_⟩
  · intro id' row' hrow' hkind
    exact h.rows id' row' (Table.get?_remove_eq_some.mp hrow').2 hkind
  · intro id' row' hrow'
    exact h.given id' row' (Table.get?_remove_eq_some.mp hrow').2
  · intro op work hop
    refine ⟨hop, fun id' hid' => ?_⟩
    rw [Table.get?_remove, if_neg]
    rintro rfl
    exact not_locked hfree hop hid'
  · intro id' _ row' hrow'
    exact .inl (Table.get?_remove_eq_some.mp hrow').2

/-! ## Every step -/

/-- What is encrypted when a row is created can be read as long as it is there. -/
theorem newRow_good {keys : List κ} {key : κ} (hkey : key ∈ keys) {store : Store} {id : RowId}
    {kind : Option CredentialKind} {project : ProjectId} {random : Nat} {secret : Secret}
    (hempty : validKey [] = false) (h : accepts validKey id kind secret = true) :
    Good f keys store (newRow f kind project key random secret) secret := by
  refine .of_column rfl rfl
    (f.decryptAny_eq_some.mpr ⟨key, hkey, f.decrypt_encrypt key random secret⟩) ?_
  show Fits kind secret
  unfold accepts at h
  split at h
  · refine ⟨by simp, ?_⟩
    rintro rfl
    rw [hempty] at h
    exact absurd h (by simp)
  · exact ⟨rfl, Option.isNone_iff_eq_none.mp h⟩
  · exact ⟨by simp, of_decide_eq_true h⟩
  · exact absurd h (by simp)

theorem newReference_eq_some {id : RowId} {kind : Option CredentialKind} {project : ProjectId}
    {path : Text} {storeKey : Option Text} {row : Row τ}
    (h : newReference τ id kind project path storeKey = some row) :
    row.kind = kind ∧ row.project = project ∧ row.storePath = some path ∧
      Shaped kind row.storeKey := by
  unfold newReference at h
  split at h
  · obtain ⟨-, h⟩ := Option.ite_none_right_eq_some.mp h
    obtain rfl := Option.some.inj h
    exact ⟨rfl, rfl, rfl, by simp [Shaped]⟩
  · obtain rfl := Option.some.inj h
    exact ⟨rfl, rfl, rfl, by simp [Shaped]⟩
  · obtain rfl := Option.some.inj h
    exact ⟨rfl, rfl, rfl, by simp [Shaped]⟩
  · exact absurd h (by simp)

theorem beginEdit_eq_some {id : RowId} {row : Row τ} {payload : ReferenceUpdate} {e : Edit}
    (h : beginEdit id row payload = some e) :
    e.id = id ∧ e.kind = row.kind ∧ e.project = row.project ∧ row.kind ≠ some .sshCert ∧
      ((row.storePath.isSome = true → Shaped row.kind row.storeKey) → Shaped e.kind e.key) := by
  unfold beginEdit at h
  split at h
  · exact absurd h (by simp)
  · next hcert =>
    split at h
    · exact absurd h (by simp)
    · obtain ⟨before, hbefore, rfl⟩ := Option.map_eq_some_iff.mp h
      refine ⟨rfl, rfl, rfl, hcert, fun hshaped => ?_⟩
      have hrow := hshaped (by rw [hbefore]; rfl)
      show row.kind = some .env ↔ _
      dsimp only
      split
      · next henv => exact ⟨fun _ => rfl, fun _ => henv⟩
      · next henv =>
        refine ⟨fun h => absurd h henv, fun h => ?_⟩
        exact hrow.mpr (Option.or_eq_none_iff.mp h).2

/-- The rows that a step writes over. -/
def overwritten (s : State κ τ) : Label κ → List (RowId × Row τ)
  | .commit op => match s.txs.get? op with
    | some work => work.changed
    | none => []
  | _ => []

/-- Whether the step is the one that a handler has its effect with. -/
def Label.succeeds : Label κ → Bool
  | .create _ _ _ _ _ _ | .createCert _ _ | .insert _ | .commit _ | .delete _ => true
  | _ => false

variable [DecidableEq κ] [DecidableEq τ]

/-- **Until a handler has its effect, the rows stay as they are.** -/
theorem step_quiet {s s' : State κ τ} {l : Label κ} (h : Inv f s)
    (hstep : step f validKey s l = some s') (hl : l.succeeds = false) :
    Inv f s' ∧ Quiet s s' := by
  cases l with
  | listKey key =>
    obtain rfl := Option.some.inj hstep
    have hkeys : ∀ k ∈ s.keys, k ∈ key :: s.keys := fun _ h => List.mem_cons_of_mem key h
    exact ⟨h.grows hkeys (.refl _) (fun _ h => h) rfl rfl, hkeys, .refl _, fun _ h => h, rfl⟩
  | appears project path data =>
    simp only [step] at hstep
    split at hstep
    · next store version hcreate =>
      obtain rfl := Option.some.inj hstep
      obtain ⟨hfree, hstore⟩ := createSecret_eq_ok hcreate
      have hgrows : s.store.Grows store := hstore ▸ .put hfree _
      exact ⟨h.grows (fun _ h => h) hgrows (fun _ h => h) rfl rfl, fun _ h => h, hgrows,
        fun _ h => h, rfl⟩
    · exact absurd hstep (by simp)
  | refer op id kind project path storeKey =>
    obtain ⟨row, hrow, hstep⟩ := Option.bind_eq_some_iff.mp hstep
    obtain ⟨hcheck, hstep⟩ := Option.ite_none_right_eq_some.mp hstep
    obtain ⟨hkind, hproject, hpath, hshaped⟩ := newReference_eq_some hrow
    obtain ⟨secret, hread⟩ := check_reads hcheck hshaped
    have hgood : Good f s.keys s.store row secret :=
      .of_reference hpath (by rw [hkind, hproject]; exact hread) (by rw [hkind]; exact hshaped)
    exact ⟨h.begun hstep ⟨secret, hgood⟩ rfl, .begun hstep⟩
  | move op id keys payload =>
    obtain ⟨row, hrow, hstep⟩ := Option.bind_eq_some_iff.mp hstep
    obtain ⟨m, hm, hstep⟩ := Option.bind_eq_some_iff.mp hstep
    obtain ⟨hid, hkind, hproject, hcert, hcarries⟩ := beginMove_eq_some hm
    have hknows : Knows s m.id m.kind m.project := by
      rw [hid, hkind, hproject]
      exact h.knows hrow hcert
    exact ⟨h.begun hstep ⟨hknows, hcarries⟩ rfl, .begun hstep⟩
  | read op =>
    obtain ⟨work, hop, hstep⟩ := Option.bind_eq_some_iff.mp hstep
    exact readStep_quiet h hop hstep
  | store op answered =>
    obtain ⟨work, hop, hstep⟩ := Option.bind_eq_some_iff.mp hstep
    exact storeStep_quiet h hop hstep
  | edit op id payload =>
    obtain ⟨row, hrow, hstep⟩ := Option.bind_eq_some_iff.mp hstep
    obtain ⟨e, he, hstep⟩ := Option.bind_eq_some_iff.mp hstep
    obtain ⟨hid, hkind, hproject, hcert, hshaped⟩ := beginEdit_eq_some he
    have hknows : Knows s e.id e.kind e.project := by
      rw [hid, hkind, hproject]
      exact h.knows hrow hcert
    obtain ⟨secret, hgood⟩ := h.rows id row hrow hcert
    exact ⟨h.begun hstep ⟨hknows, hshaped hgood.shaped⟩ rfl, .begun hstep⟩
  | check op =>
    obtain ⟨work, hop, hstep⟩ := Option.bind_eq_some_iff.mp hstep
    exact checkStep_quiet h hop hstep
  | lock op =>
    obtain ⟨work, hop, hstep⟩ := Option.bind_eq_some_iff.mp hstep
    exact lockStep_quiet h hop hstep
  | reencrypt op keys =>
    obtain ⟨hkeys, hstep⟩ := Option.ite_none_right_eq_some.mp hstep
    refine ⟨h.begun hstep ⟨by simpa using hkeys, ?_⟩ rfl, .begun hstep⟩
    intro e he
    exact absurd he (by simp)
  | rotate op random =>
    obtain ⟨work, hop, hstep⟩ := Option.bind_eq_some_iff.mp hstep
    exact rotateStep_quiet h hop hstep
  | fail op =>
    obtain ⟨work, hop, rfl⟩ := Option.map_eq_some_iff.mp hstep
    exact ⟨h.dropped op, .dropped s op⟩
  | create => exact absurd hl (by simp [Label.succeeds])
  | createCert => exact absurd hl (by simp [Label.succeeds])
  | insert => exact absurd hl (by simp [Label.succeeds])
  | commit => exact absurd hl (by simp [Label.succeeds])
  | delete => exact absurd hl (by simp [Label.succeeds])

theorem step_outcome (hempty : validKey [] = false) {s s' : State κ τ} {l : Label κ} (h : Inv f s)
    (hstep : step f validKey s l = some s') : Outcome f s s' (overwritten s l) := by
  cases l with
  | create id kind project key random secret =>
    obtain ⟨⟨hkey, haccepts⟩, hstep⟩ := Option.ite_none_right_eq_some.mp hstep
    exact insertRow_outcome h
      (fun _ => ⟨secret, newRow_good (by simpa using hkey) hempty haccepts⟩) hstep
  | createCert id project =>
    exact insertRow_outcome h (fun hkind => absurd rfl hkind) hstep
  | insert op =>
    simp only [step] at hstep
    split at hstep
    · next id row hop =>
      have hgood : ∃ secret, Good f s.keys s.store row secret := h.works op _ hop
      have hout := insertRow_outcome (h.dropped op) (fun _ => hgood) hstep
      exact ⟨hout.inv, ⟨hout.later.keys, hout.later.store, hout.later.ids, hout.later.rows⟩,
        hout.rows⟩
    · exact absurd hstep (by simp)
  | commit op =>
    obtain ⟨work, hop, hstep⟩ := Option.bind_eq_some_iff.mp hstep
    have hout := commitStep_outcome h hop hstep
    simpa only [overwritten, hop] using hout
  | delete id =>
    obtain ⟨⟨-, hfree⟩, hstep⟩ := Option.ite_none_right_eq_some.mp hstep
    obtain rfl := Option.some.inj hstep
    exact delete_outcome h hfree
  | _ => exact .of_quiet (step_quiet h hstep rfl)

/-! ## Every run -/

theorem inductive_inv (hempty : validKey [] = false) :
    Inductive (system f validKey) Lib.anyStep (Inv f) where
  init := by
    rintro s ⟨store, rfl⟩
    refine ⟨?_, ?_, ?_, Table.pairs_empty _⟩
    · intro id row hrow
      exact absurd hrow (by simp)
    · intro id row hrow
      exact absurd hrow (by simp)
    · intro op work hop
      exact absurd hop (by simp)
  step _ _ _ h _ hstep := (step_outcome hempty h hstep).inv

/-- No edit of the row's reference is committed. -/
def Unedited (id : RowId) (s : State κ τ) : Label κ → Prop
  | .commit op => ∀ row, s.txs.get? op ≠ some (.edited id row)
  | _ => True

omit [DecidableEq κ] [DecidableEq τ] in
/-- Only an edit makes another secret of a row. -/
theorem replaces_of_unedited {s : State κ τ} (h : Inv f s) {l : Label κ} {id : RowId} {row : Row τ}
    (hunedited : Unedited id s l) (hmem : (id, row) ∈ overwritten s l) :
    Replaces f s True id row := by
  cases l with
  | commit op =>
    simp only [overwritten] at hmem
    split at hmem
    · next work hop =>
      have hsound := h.works op work hop
      cases work with
      | moved id' row' =>
        obtain ⟨rfl, rfl⟩ := Prod.mk.inj (List.mem_singleton.mp hmem)
        exact hsound
      | edited id' row' =>
        obtain ⟨rfl, rfl⟩ := Prod.mk.inj (List.mem_singleton.mp hmem)
        exact absurd hop (hunedited row)
      | rotating keys todo done => exact hsound.2 _ hmem
      | _ => exact absurd hmem (by simp [Work.changed])
    · exact absurd hmem (by simp)
  | _ => exact absurd hmem (by simp [overwritten])

/-- The row stands for this secret, if it is still there. -/
def StandsFor (f : Fernet κ τ) (id : RowId) (secret : Secret) (s : State κ τ) : Prop :=
  id ∈ s.ids ∧ ∀ row, s.rows.get? id = some row →
    row.kind ≠ some .sshCert ∧ resolve f s.keys s.store row = some secret

theorem StandsFor.step (hempty : validKey [] = false) {s s' : State κ τ} {l : Label κ} {id : RowId}
    {secret : Secret} (hinv : Inv f s) (h : StandsFor f id secret s) (hunedited : Unedited id s l)
    (hstep : step f validKey s l = some s') : StandsFor f id secret s' := by
  have hout := step_outcome hempty hinv hstep
  refine ⟨hout.later.ids id h.1, ?_⟩
  intro row' hrow'
  rcases hout.rows id h.1 row' hrow' with hrow | hmem
  · obtain ⟨hkind, hresolve⟩ := h.2 row' hrow
    exact ⟨hkind, resolve_mono hout.later.keys hout.later.store hresolve⟩
  · obtain ⟨old, hold, hkind, -, hgood⟩ := replaces_of_unedited hinv hunedited hmem
    obtain ⟨hcert, hresolve⟩ := h.2 old hold
    have hcert' : row'.kind ≠ some .sshCert := hkind ▸ hcert
    obtain ⟨secret₀, secret', hgold, hgnew, hsame⟩ := hgood hcert'
    obtain rfl := Option.some.inj (hgold.resolves.symm.trans hresolve)
    obtain rfl := hsame trivial
    exact ⟨hcert', resolve_mono hout.later.keys hout.later.store hgnew.resolves⟩

/-- **A secret is never lost**: it can be read from its column or at its reference, and stays the
same until an edit of the reference is committed. A handler that has not had its effect has not
touched a row, and nothing in the store is overwritten. -/
theorem never_lost (hempty : validKey [] = false) {s : State κ τ}
    (h : Reachable (system f validKey) s) :
    (∀ id row, s.rows.get? id = some row → row.kind ≠ some .sshCert →
      ∃ secret, resolve f s.keys s.store row = some secret ∧
        ∀ s', Path (system f validKey) (Unedited id) s s' → ∀ row', s'.rows.get? id = some row' →
          resolve f s'.keys s'.store row' = some secret) ∧
    ∀ l s', (system f validKey).step s l = some s' →
      (l.succeeds = false → s'.rows = s.rows) ∧
      (∀ op, l = .commit op → s'.txs.get? op = none) ∧
      ∀ at_ entry, s.store.get? at_ = some entry → s'.store.get? at_ = some entry := by
  have hinv := (inductive_inv hempty).of_reachable h
  refine ⟨?_, ?_⟩
  · intro id row hrow hkind
    obtain ⟨secret, hgood⟩ := hinv.rows id row hrow hkind
    refine ⟨secret, hgood.resolves, ?_⟩
    intro s' hpath row' hrow'
    have hstands : StandsFor f id secret s := by
      refine ⟨hinv.given id row hrow, ?_⟩
      intro other hother
      obtain rfl := Option.some.inj (hother.symm.trans hrow)
      exact ⟨hkind, hgood.resolves⟩
    have hlater : StandsFor f id secret s' :=
      hpath.stable (I := Inv f) (P := StandsFor f id secret)
        (fun t l t' ht _ hstep => (step_outcome hempty ht hstep).inv)
        (fun t l t' ht hs hok hstep => hs.step hempty ht hok hstep) hinv hstands
    exact (hlater.2 row' hrow').2
  · intro l s' hstep
    refine ⟨fun hl => (step_quiet hinv hstep hl).2.rows, ?_, ?_⟩
    · rintro op rfl
      obtain ⟨work, -, hcommit⟩ := Option.bind_eq_some_iff.mp hstep
      obtain ⟨-, hcommit⟩ := Option.ite_none_right_eq_some.mp hcommit
      obtain rfl := Option.some.inj hcommit
      exact (Table.get?_remove _ _ _).trans (if_pos rfl)
    · exact (step_outcome hempty hinv hstep).later.store

/-- A key and the secret it encrypted, in the open. -/
def plain : Fernet Nat (Nat × Nat × Secret) where
  encrypt key random secret := (key, random, secret)
  decrypt key token := if token.1 = key then some token.2.2 else none
  decrypt_encrypt key random secret := if_pos rfl
  genuine key key' token secret secret' h h' := by
    obtain ⟨-, h⟩ := Option.ite_none_right_eq_some.mp h
    obtain ⟨-, h'⟩ := Option.ite_none_right_eq_some.mp h'
    exact Option.some.inj (h'.symm.trans h)

/-- A vault password is created, its key is replaced, it is re-encrypted while it is moved, and
moved again. -/
def movedTwice : List (Label Nat) :=
  [.listKey 1, .create (.vaultPassword 3) none 7 1 0 (.value "hunter2".toList), .listKey 2,
   .move 0 (.vaultPassword 3) [2, 1] ⟨"db".toList, none⟩, .read 0, .store 0 true,
   .reencrypt 1 [2, 1], .rotate 1 5, .commit 1,
   .read 0, .lock 0,
   .move 2 (.vaultPassword 3) [2, 1] ⟨"db2".toList, none⟩, .read 2, .store 2 true, .read 2, .lock 2,
   .commit 2]

theorem never_lost_moved_twice :
    let s := ((system plain fun _ => false).run Lib.anyStep {} movedTwice).get rfl
    ∃ row secret, s.rows.get? (.vaultPassword 3) = some row ∧ row.storePath = some "db2".toList ∧
      resolve plain s.keys s.store row = some secret ∧
      ∀ s', Path (system plain fun _ => false) (Unedited (.vaultPassword 3)) s s' →
        ∀ row', s'.rows.get? (.vaultPassword 3) = some row' →
          resolve plain s'.keys s'.store row' = some secret := by
  intro s
  have hinit : (system plain fun _ => false).init {} := ⟨∅, rfl⟩
  have h := @never_lost _ _ plain (fun _ => false) _ _ rfl s (.of_isSome hinit movedTwice rfl)
  obtain ⟨secret, hnow, hlater⟩ := h.1 (.vaultPassword 3) _ rfl (by decide)
  exact ⟨_, secret, rfl, rfl, hnow, hlater⟩

end SecretStore

end AnsiDeck
