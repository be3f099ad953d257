import AnsiDeck.HostKeyScans.System

/-!
# One running scan an inventory

A claim's statement sees no running scan of the inventory, but not the scan that another claim is
just about to commit as running; nothing makes the later of the two fail. As long as no claim
picks a scan while another claim of the same inventory is in flight, no inventory has two running
scans. Otherwise both commits may still come, and then it has.
-/

namespace AnsiDeck

namespace HostKeyScans

open Lib (Table)

variable {lease : Nat}

/-- No inventory has two running scans. -/
def OneRunning (s : State) : Prop :=
  ∀ k k' a b, s.scans.get? k = some a → s.scans.get? k' = some b →
    a.inventoryId = b.inventoryId → a.status = .running → b.status = .running → k = k'

/-- Whether a claim in flight has picked a scan of the inventory. -/
def claiming (s : State) (inventory : InventoryId) : Bool :=
  s.txs.any fun _ work => match work with
    | .claim id _ _ => (s.scans.get? id).any fun scan => scan.inventoryId = inventory
    | _ => false

/-- No claim picks a scan of an inventory that another claim in flight has picked one of. -/
def Apart (s : State) : Label → Prop
  | .claim _ _ id _ => (s.scans.get? id).any (fun scan => claiming s scan.inventoryId) = false
  | _ => True

instance (s : State) (a : Label) : Decidable (Apart s a) :=
  match a with
  | .claim _ _ id _ =>
    inferInstanceAs (Decidable ((s.scans.get? id).any (fun scan => claiming s scan.inventoryId)
      = false))
  | .tick _ | .enqueue _ _ | .look _ | .insert _ _ _ | .commit _ | .rollback _
  | .finish _ _ _ _ _ | .prune _ => inferInstanceAs (Decidable True)

/-! ## What the transactions in flight rely on -/

/-- What one relies on. -/
def Sound (scans : Table ScanId HostKeyScan) : Work → Prop
  | .inserted id row => scans.get? id = none ∧ row.status = .queued ∧ row.finishedAt = none
  | .claim id _ _ => ∃ row, scans.get? id = some row ∧ row.status = .queued ∧
      ∀ k other, scans.get? k = some other → other.inventoryId = row.inventoryId →
        other.status ≠ .running
  | _ => True

/-- How two of them differ. -/
def Differ (scans : Table ScanId HostKeyScan) : Work → Work → Prop
  | .inserted id _, .inserted id' _ => id ≠ id'
  | .claim id _ _, .claim id' _ _ => ∀ a b, scans.get? id = some a → scans.get? id' = some b →
      a.inventoryId ≠ b.inventoryId
  | _, _ => True

structure Inv (s : State) : Prop where
  one : OneRunning s
  unfinished : ∀ k scan, s.scans.get? k = some scan → scan.status = .queued → scan.finishedAt = none
  sound : ∀ tx work, s.txs.get? tx = some work → Sound s.scans work
  differ : s.txs.Pairs (Differ s.scans)

theorem Differ.symm {scans : Table ScanId HostKeyScan} {w w' : Work} (h : Differ scans w w') :
    Differ scans w' w := by
  cases w with
  | inserted id row =>
    cases w' with
    | inserted id' row' => exact Ne.symm h
    | _ => trivial
  | claim id started by_ =>
    cases w' with
    | claim id' started' by' => exact fun a b ha hb => (h b a hb ha).symm
    | _ => trivial
  | _ => cases w' <;> trivial

/-- A transaction begins, or goes on. -/
theorem Inv.put {s : State} (h : Inv s) {tx : Nat} {work : Work} (hsound : Sound s.scans work)
    (hdiffer : ∀ k other, s.txs.get? k = some other → k ≠ tx → Differ s.scans work other) :
    Inv (setWork s tx work) where
  one := h.one
  unfinished := h.unfinished
  sound := by
    intro k w hk
    rcases Table.get?_put_cases hk with ⟨-, rfl⟩ | ⟨-, hold⟩
    · exact hsound
    · exact h.sound k w hold
  differ := h.differ.put fun k other hk hne =>
    ⟨hdiffer k other hk hne, (hdiffer k other hk hne).symm⟩

/-- A transaction ends with nothing to commit. -/
theorem Inv.drop {s : State} (h : Inv s) (tx : Nat) : Inv { s with txs := s.txs.remove tx } where
  one := h.one
  unfinished := h.unfinished
  sound k w hk := h.sound k w (Table.get?_remove_eq_some.mp hk).2
  differ := h.differ.remove tx

/-! ## Changes of the table -/

/-- What a change of the table leaves alone for a transaction in flight. -/
def Stays (scans scans' : Table ScanId HostKeyScan) : Work → Prop
  | .inserted id _ => scans.get? id = none → scans'.get? id = none
  | .claim id _ _ => scans'.get? id = scans.get? id ∧
      ∀ row, scans.get? id = some row → ∀ k other, scans'.get? k = some other →
        other.inventoryId = row.inventoryId → other.status = .running → scans.get? k = some other
  | _ => True

theorem Sound.stays {scans scans' : Table ScanId HostKeyScan} {w : Work} (h : Sound scans w)
    (hs : Stays scans scans' w) : Sound scans' w := by
  cases w with
  | inserted id row => exact ⟨hs h.1, h.2⟩
  | claim id started by_ =>
    obtain ⟨row, hrow, hqueued, hfree⟩ := h
    refine ⟨row, hs.1.trans hrow, hqueued, ?_⟩
    intro k other hk hinv hrunning
    exact hfree k other (hs.2 row hrow k other hk hinv hrunning) hinv hrunning
  | _ => trivial

theorem Differ.stays {scans scans' : Table ScanId HostKeyScan} {w w' : Work}
    (h : Differ scans w w') (hs : Stays scans scans' w) (hs' : Stays scans scans' w') :
    Differ scans' w w' := by
  cases w with
  | inserted id row => cases w' <;> exact h
  | claim id started by_ =>
    cases w' with
    | claim id' started' by' =>
      intro a b ha hb
      exact h a b (hs.1.symm.trans ha) (hs'.1.symm.trans hb)
    | _ => trivial
  | _ => cases w' <;> trivial

theorem Inv.rescan {s : State} (h : Inv s) {scans : Table ScanId HostKeyScan}
    {txs : Table Nat Work} (htxs : ∀ tx w, txs.get? tx = some w → s.txs.get? tx = some w)
    (hone : OneRunning { s with scans := scans, txs := txs })
    (hunfinished : ∀ k scan, scans.get? k = some scan → scan.status = .queued →
      scan.finishedAt = none)
    (hstays : ∀ tx w, txs.get? tx = some w → Stays s.scans scans w) :
    Inv { s with scans := scans, txs := txs } where
  one := hone
  unfinished := hunfinished
  sound tx w hw := (h.sound tx w (htxs tx w hw)).stays (hstays tx w hw)
  differ k k' w w' hw hw' hne :=
    (h.differ k k' w w' (htxs k w hw) (htxs k' w' hw') hne).stays (hstays k w hw) (hstays k' w' hw')

theorem not_locked {s : State} {id : ScanId} (h : locked s id = false) {tx : Nat} {started : Time}
    {id' : ScanId} {by_ : Claimant} (htx : s.txs.get? tx = some (.claim id' started by_)) :
    id' ≠ id := by
  rintro rfl
  have hno := Table.any_eq_false_iff.mp h tx _ htx
  exact absurd hno (by simp [Work.locks])

/-- The commit of a claim: its scan becomes running, and is the inventory's only one. -/
theorem Inv.commitClaim {s : State} (h : Inv s) {tx : Nat} {id : ScanId} {started : Time}
    {by_ : Claimant} (htx : s.txs.get? tx = some (.claim id started by_)) :
    Inv { s with
      scans := s.scans.modify id (claimedScan lease started by_)
      txs := s.txs.remove tx } := by
  obtain ⟨row, hrow, hqueued, hfree⟩ := h.sound tx _ htx
  have hget : ∀ k, (s.scans.modify id (claimedScan lease started by_)).get? k
      = if k = id then some (claimedScan lease started by_ row) else s.scans.get? k := by
    intro k
    rw [Table.get?_modify, hrow]
    rfl
  refine h.rescan (fun k w hk => (Table.get?_remove_eq_some.mp hk).2) ?_ ?_ ?_
  · intro k k' a b hk hk' hinv ha hb
    dsimp only at hk hk'
    rw [hget] at hk hk'
    split at hk
    · rename_i hkid
      split at hk'
      · rename_i hkid'
        exact hkid.trans hkid'.symm
      · obtain rfl := Option.some.inj hk
        exact absurd hb (hfree k' b hk' hinv.symm)
    · split at hk'
      · obtain rfl := Option.some.inj hk'
        exact absurd ha (hfree k a hk hinv)
      · exact h.one k k' a b hk hk' hinv ha hb
  · intro k scan hk hst
    rw [hget] at hk
    split at hk
    · obtain rfl := Option.some.inj hk
      exact absurd hst (by simp [claimedScan])
    · exact h.unfinished k scan hk hst
  · intro k w hk
    obtain ⟨hne, hw⟩ := Table.get?_remove_eq_some.mp hk
    cases w with
    | inserted id' row' =>
      intro hnone
      have hid : id' ≠ id := by
        rintro rfl
        exact absurd (hrow.symm.trans hnone) (by simp)
      rw [hget, if_neg hid]
      exact hnone
    | claim id' started' by' =>
      obtain ⟨row', hrow', hqueued', -⟩ := h.sound k _ hw
      have hinv : row.inventoryId ≠ row'.inventoryId :=
        h.differ tx k _ _ htx hw hne row row' hrow hrow'
      have hid : id' ≠ id := by
        rintro rfl
        obtain rfl := Option.some.inj (hrow.symm.trans hrow')
        exact hinv rfl
      refine ⟨by rw [hget, if_neg hid], ?_⟩
      intro r hr j other hj hsame hrunning
      obtain rfl := Option.some.inj (hrow'.symm.trans hr)
      rw [hget] at hj
      split at hj
      · obtain rfl := Option.some.inj hj
        exact absurd hsame hinv
      · exact hj
    | _ => trivial

/-- The commit of a new scan. -/
theorem Inv.commitInserted {s : State} (h : Inv s) {tx : Nat} {id : ScanId} {row : HostKeyScan}
    (htx : s.txs.get? tx = some (.inserted id row)) :
    Inv { s with scans := s.scans.put id row, txs := s.txs.remove tx } := by
  obtain ⟨hnone, hqueued, hunf⟩ := h.sound tx _ htx
  have hold : ∀ k scan, (s.scans.put id row).get? k = some scan → scan.status = .running →
      s.scans.get? k = some scan := by
    intro k scan hk hrunning
    rcases Table.get?_put_cases hk with ⟨-, rfl⟩ | ⟨-, hold⟩
    · exact absurd (hqueued.symm.trans hrunning) (by simp)
    · exact hold
  refine h.rescan (fun k w hk => (Table.get?_remove_eq_some.mp hk).2) ?_ ?_ ?_
  · intro k k' a b hk hk' hinv ha hb
    exact h.one k k' a b (hold k a hk ha) (hold k' b hk' hb) hinv ha hb
  · intro k scan hk hst
    rcases Table.get?_put_cases hk with ⟨-, rfl⟩ | ⟨-, hold⟩
    · exact hunf
    · exact h.unfinished k scan hold hst
  · intro k w hk
    obtain ⟨hne, hw⟩ := Table.get?_remove_eq_some.mp hk
    cases w with
    | inserted id' row' =>
      intro hnone'
      have hid : id ≠ id' := h.differ tx k _ _ htx hw hne
      rw [Table.get?_put_of_ne _ _ hid.symm]
      exact hnone'
    | claim id' started' by' =>
      obtain ⟨row', hrow', -⟩ := h.sound k _ hw
      have hid : id' ≠ id := by
        rintro rfl
        exact absurd (hrow'.symm.trans hnone) (by simp)
      refine ⟨Table.get?_put_of_ne _ _ hid, ?_⟩
      intro r _ j other hj _ hrunning
      exact hold j other hj hrunning
    | _ => trivial

/-- A scan ends, or ended ones are pruned: nothing new runs, and what is claimed stays. -/
theorem Inv.fewer {s : State} (h : Inv s) {scans : Table ScanId HostKeyScan}
    (hback : ∀ k scan, scans.get? k = some scan → scan.status = .queued ∨ scan.status = .running →
      s.scans.get? k = some scan)
    (hnone : ∀ k, s.scans.get? k = none → scans.get? k = none)
    (hclaimed : ∀ tx id started by_, s.txs.get? tx = some (.claim id started by_) →
      scans.get? id = s.scans.get? id) :
    Inv { s with scans := scans } := by
  refine @Inv.rescan s h scans s.txs (fun _ _ hk => hk) ?_ ?_ ?_
  · intro k k' a b hk hk' hinv ha hb
    exact h.one k k' a b (hback k a hk (.inr ha)) (hback k' b hk' (.inr hb)) hinv ha hb
  · intro k scan hk hst
    exact h.unfinished k scan (hback k scan hk (.inl hst)) hst
  · intro k w hk
    cases w with
    | inserted id row => exact hnone id
    | claim id started by_ =>
      refine ⟨hclaimed k id started by_ hk, ?_⟩
      intro row _ j other hj _ hrunning
      exact hback j other hj (.inr hrunning)
    | _ => trivial

/-! ## Steps -/

/-- A claim within the guard. -/
theorem Inv.claim {s : State} (h : Inv s) {tx : Nat} {started : Time} {id : ScanId}
    {by_ : Claimant} {scan : HostKeyScan} (hscan : s.scans.get? id = some scan)
    (helig : eligible s scan = true) (hapart : claiming s scan.inventoryId = false) :
    Inv (setWork s tx (.claim id started by_)) := by
  simp only [eligible, Bool.and_eq_true, decide_eq_true_eq, Bool.not_eq_true'] at helig
  obtain ⟨hqueued, hfree⟩ := helig
  refine h.put ⟨scan, hscan, hqueued, ?_⟩ ?_
  · intro k other hk hinv hrunning
    have hno := Table.any_eq_false_iff.mp hfree k other hk
    exact absurd hno (by simp [hinv, hrunning])
  · intro k other hk _
    cases other with
    | claim id' started' by' =>
      intro a b ha hb hinv
      obtain rfl := Option.some.inj (hscan.symm.trans ha)
      have hno := Table.any_eq_false_iff.mp hapart k _ hk
      exact absurd hno (by simp [hb, hinv])
    | _ => trivial

theorem inv_inductive : (system lease).Inductive Apart Inv where
  init := by
    rintro s rfl
    exact ⟨fun k k' a b hk => absurd hk (by simp), fun k scan hk => absurd hk (by simp),
      fun tx w hw => absurd hw (by simp), Table.pairs_empty _⟩
  step := by
    intro s a s' h hok hs
    cases a with
    | tick seconds =>
      obtain rfl := Option.some.inj hs
      exact ⟨h.one, h.unfinished, h.sound, h.differ⟩
    | enqueue tx request =>
      obtain ⟨-, hs⟩ := Option.ite_none_right_eq_some.mp hs
      obtain rfl := Option.some.inj hs
      exact h.put trivial fun _ _ _ _ => trivial
    | look tx =>
      simp only [system, step] at hs
      split at hs
      · split at hs
        · obtain rfl := Option.some.inj hs
          exact h.put trivial fun _ _ _ _ => trivial
        · obtain rfl := Option.some.inj hs
          exact h.put trivial fun _ _ _ _ => trivial
      · exact absurd hs (by simp)
    | insert tx started id =>
      simp only [system, step] at hs
      split at hs
      · obtain ⟨⟨-, hunused⟩, hs⟩ := Option.ite_none_right_eq_some.mp hs
        obtain rfl := Option.some.inj hs
        simp only [unused, Bool.and_eq_true, Option.isNone_iff_eq_none] at hunused
        refine h.put ⟨hunused.1, rfl, rfl⟩ ?_
        intro k other hk _
        cases other with
        | inserted id' row' =>
          have hne := Table.all_iff.mp hunused.2 k _ hk
          exact fun heq => absurd hne (by simp [heq])
        | _ => trivial
      · exact absurd hs (by simp)
    | claim tx started id by_ =>
      obtain ⟨scan, hscan, hs⟩ := Option.bind_eq_some_iff.mp hs
      obtain ⟨⟨-, -, hpicks⟩, hs⟩ := Option.ite_none_right_eq_some.mp hs
      obtain rfl := Option.some.inj hs
      simp only [picks, Bool.and_eq_true] at hpicks
      have hapart : claiming s scan.inventoryId = false := by
        have hguard : (s.scans.get? id).any (fun scan => claiming s scan.inventoryId) = false := hok
        rw [hscan] at hguard
        exact hguard
      exact h.claim hscan hpicks.1.1 hapart
    | commit tx =>
      obtain ⟨work, htx, hs⟩ := Option.bind_eq_some_iff.mp hs
      cases work with
      | found id =>
        obtain rfl := Option.some.inj hs
        exact h.drop tx
      | inserted id row =>
        obtain rfl := Option.some.inj hs
        exact h.commitInserted htx
      | claim id started by_ =>
        obtain rfl := Option.some.inj hs
        exact h.commitClaim htx
      | looking request => exact absurd hs (by simp [commitWork])
      | free request => exact absurd hs (by simp [commitWork])
    | rollback tx =>
      obtain ⟨work, -, rfl⟩ := Option.map_eq_some_iff.mp hs
      exact h.drop tx
    | finish id started status error results =>
      obtain ⟨scan, hscan, hs⟩ := Option.bind_eq_some_iff.mp hs
      obtain ⟨⟨-, hfree, hended⟩, hs⟩ := Option.ite_none_right_eq_some.mp hs
      obtain rfl := Option.some.inj hs
      rw [RunStatus.finished_eq_true] at hended
      refine h.fewer ?_ ?_ ?_
      · intro k row hk hst
        rcases Table.get?_put_cases hk with ⟨-, rfl⟩ | ⟨-, hold⟩
        · rcases hst with hst | hst
          · exact absurd hst hended.1
          · exact absurd hst hended.2
        · exact hold
      · intro k hk
        have hne : k ≠ id := by
          rintro rfl
          exact absurd (hscan.symm.trans hk) (by simp)
        rw [Table.get?_put_of_ne _ _ hne]
        exact hk
      · intro tx id' started' by' htx
        exact Table.get?_put_of_ne _ _ (not_locked hfree htx)
    | prune started =>
      obtain rfl := Option.some.inj hs
      refine h.fewer ?_ ?_ ?_
      · intro k row hk _
        exact (Table.get?_deleteWhere_eq_some.mp hk).1
      · intro k hk
        rw [Option.eq_none_iff_forall_ne_some]
        intro row hrow
        exact absurd (hk.symm.trans (Table.get?_deleteWhere_eq_some.mp hrow).1) (by simp)
      · intro tx id started' by_ htx
        obtain ⟨row, hrow, hqueued, -⟩ := h.sound tx _ htx
        have hstays : expired started row = false := by
          simp [expired, h.unfinished id row hrow hqueued]
        rw [hrow]
        exact Table.get?_deleteWhere_eq_some.mpr ⟨hrow, hstays⟩

/-! ## Outside the guard -/

/-- Two claims in flight of one inventory's scans may both commit. -/
theorem both_run {s : State} {tx tx' : Nat} {id id' : ScanId} {started started' : Time}
    {by_ by' : Claimant} {a b : HostKeyScan} (htx : s.txs.get? tx = some (.claim id started by_))
    (htx' : s.txs.get? tx' = some (.claim id' started' by')) (hne : tx ≠ tx') (hid : id ≠ id')
    (ha : s.scans.get? id = some a) (hb : s.scans.get? id' = some b)
    (hinv : a.inventoryId = b.inventoryId) :
    ∃ t, (system lease).Path Lib.anyStep s t ∧ ¬ OneRunning t := by
  have hfirst : (system lease).step s (.commit tx) = some { s with
      scans := s.scans.modify id (claimedScan lease started by_)
      txs := s.txs.remove tx } := by
    show (s.txs.get? tx).bind (commitWork lease s tx) = _
    rw [htx]
    rfl
  have hstill : (s.txs.remove tx).get? tx' = some (.claim id' started' by') :=
    Table.get?_remove_eq_some.mpr ⟨hne.symm, htx'⟩
  have hsecond : (system lease).step { s with
      scans := s.scans.modify id (claimedScan lease started by_)
      txs := s.txs.remove tx } (.commit tx') = some { s with
        scans := (s.scans.modify id (claimedScan lease started by_)).modify id'
          (claimedScan lease started' by')
        txs := (s.txs.remove tx).remove tx' } := by
    show ((s.txs.remove tx).get? tx').bind _ = _
    rw [hstill]
    rfl
  refine ⟨_, ((Lib.System.Path.refl s).tail trivial hfirst).tail trivial hsecond, ?_⟩
  intro hone
  refine hid (hone id id' (claimedScan lease started by_ a) (claimedScan lease started' by' b)
    ?_ ?_ hinv rfl rfl)
  · dsimp only
    rw [Table.get?_modify_of_ne _ _ hid, Table.get?_modify, if_pos rfl, ha]
    rfl
  · dsimp only
    rw [Table.get?_modify, if_pos rfl, Table.get?_modify_of_ne _ _ hid.symm, hb]
    rfl

/-- **One scan of an inventory runs at a time, as long as no claim picks one of its scans while
another claim of one is in flight.** A claim that does can be followed by both commits. -/
theorem one_scan_running {s : State} (hr : (system lease).ReachableBy Apart s) :
    OneRunning s ∧ ∀ a s', (system lease).step s a = some s' → ¬ Apart s a →
      ∃ t, (system lease).Path Lib.anyStep s' t ∧ ¬ OneRunning t := by
  have h : Inv s := inv_inductive.of_reachable hr
  refine ⟨h.one, ?_⟩
  intro a s' hs hbreaks
  cases a with
  | claim tx started id by_ =>
    obtain ⟨scan, hscan, hs⟩ := Option.bind_eq_some_iff.mp hs
    obtain ⟨⟨hnew, -, hpicks⟩, hs⟩ := Option.ite_none_right_eq_some.mp hs
    obtain rfl := Option.some.inj hs
    simp only [picks, Bool.and_eq_true, Bool.not_eq_true'] at hpicks
    have hclaiming : claiming s scan.inventoryId = true := by
      have hguard : ¬ (s.scans.get? id).any (fun scan => claiming s scan.inventoryId) = false :=
        hbreaks
      rw [hscan, Bool.not_eq_false] at hguard
      exact hguard
    obtain ⟨tx', work, htx', hwork⟩ := Table.any_iff.mp hclaiming
    cases work with
    | claim id' started' by' =>
      obtain ⟨other, hother, -⟩ := h.sound tx' _ htx'
      have hinv : other.inventoryId = scan.inventoryId := by
        simpa [hother] using hwork
      have hne : tx ≠ tx' := by
        rintro rfl
        rw [htx'] at hnew
        exact absurd hnew (by simp)
      have hstill : (setWork s tx (.claim id started by_)).txs.get? tx'
          = some (.claim id' started' by') := by
        rw [setWork, Table.get?_put_of_ne _ _ hne.symm]
        exact htx'
      exact both_run (Table.get?_put_self _ _ _) hstill hne (not_locked hpicks.1.2 htx').symm hscan
        hother hinv.symm
    | _ => exact absurd hwork (by simp)
  | _ => exact absurd trivial hbreaks

/-! ## Two scans -/

/-- Two overlapping calls queue a scan each, for one inventory. -/
def queuedTwice : List Label :=
  [.enqueue 1 ⟨1, "ann", []⟩, .enqueue 2 ⟨1, "bob", []⟩, .look 1, .look 2, .insert 1 0 1,
    .insert 2 0 2, .commit 1, .commit 2]

/-- The second scan is claimed once the first one ended. -/
theorem one_scan_running_in_turn :
    let s := ((system 60).run Apart {} (queuedTwice ++ [.claim 3 0 1 ⟨"w", "c1", "j1"⟩, .commit 3,
      .finish 1 0 .success none (some []), .claim 4 0 2 ⟨"w", "c2", "j2"⟩, .commit 4])).get rfl
    OneRunning s ∧ ∀ a s', (system 60).step s a = some s' → ¬ Apart s a →
      ∃ t, (system 60).Path Lib.anyStep s' t ∧ ¬ OneRunning t :=
  one_scan_running (.of_isSome rfl _ rfl)

/-- The claims overlap as well: the second one's statement does not see the first scan running. -/
theorem two_scans_running :
    ¬ ∀ s, (system 60).Reachable s → OneRunning s := by
  intro hall
  have h := hall _ (.of_isSome rfl (queuedTwice ++ [.claim 3 0 1 ⟨"w", "c1", "j1"⟩,
    .claim 4 0 2 ⟨"v", "c2", "j2"⟩, .commit 3, .commit 4]) rfl)
  exact absurd (h 1 2 _ _ rfl rfl rfl rfl rfl) (by decide)

end HostKeyScans

end AnsiDeck
