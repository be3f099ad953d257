import AnsiDeck.HostKeys.Store

/-!
# What learning cannot do

A run reports its keys from a file that its playbook may write. Whatever it reports, only new
unconfirmed keys come of it, for addresses of the run's own hosts without a key, one an address;
over any calls the keys stay one for each name and type and at most `maxKeys` an inventory. The
proof goes through `Keys.index`, what the table's unique constraint reads: learning and trusting
append to it, confirming keeps it, removing thins it out.
-/

namespace AnsiDeck

namespace HostKeys

open Lib (Str str decimal)

/-- What `uq_inventory_host_key` is about. -/
def InventoryHostKey.index (k : InventoryHostKey) : InventoryId × Str × Str :=
  (k.inventoryId, k.pair)

def Keys.index (s : Keys) : List (InventoryId × Str × Str) := s.rows.map InventoryHostKey.index

/-- One key for each inventory, name and type, and at most `maxKeys` an inventory. -/
structure Kept (s : Keys) : Prop where
  unique : s.index.Nodup
  limit : ∀ inventory, (s.of inventory).length ≤ maxKeys

/-- What a report may add to the keys. -/
structure Learned (py : Python) (s : Keys) (r : Report) (more : List InventoryHostKey) : Prop where
  inventory : ∀ k ∈ more, r.run.inventoryId = some k.inventoryId
  unconfirmed : ∀ k ∈ more, k.confirmed = false
  address : ∀ k ∈ more, ∃ hosts, r.hosts = some hosts ∧
    ∃ h ∈ hosts, (addressOf py.unicode h.1 h.2).name = some k.name
  unknown : ∀ k ∈ more, ∀ old ∈ s.of k.inventoryId, old.name ≠ k.name
  once : (more.map InventoryHostKey.name).Nodup

/-! ## The index -/

theorem length_of (s : Keys) (inventory : InventoryId) :
    (s.of inventory).length = s.index.countP fun p => p.1 = inventory := by
  rw [Keys.of, Keys.index, List.countP_map, List.countP_eq_length_filter]
  rfl

theorem mem_of {s : Keys} {inventory : InventoryId} {k : InventoryHostKey} :
    k ∈ s.of inventory ↔ k ∈ s.rows ∧ k.inventoryId = inventory := by
  simp [Keys.of]

theorem mem_index_of {s : Keys} {inventory : InventoryId} {p : Str × Str} :
    p ∈ (s.of inventory).map InventoryHostKey.pair ↔ (inventory, p) ∈ s.index := by
  simp only [List.mem_map, mem_of, Keys.index, InventoryHostKey.index, Prod.mk.injEq]
  constructor
  · rintro ⟨k, ⟨hk, hi⟩, hp⟩
    exact ⟨k, hk, hi, hp⟩
  · rintro ⟨k, hk, hi, hp⟩
    exact ⟨k, ⟨hk, hi⟩, hp⟩

/-- Fewer entries keep what was kept. -/
theorem Kept.of_sublist {s s' : Keys} (h : Kept s) (hs : s'.index.Sublist s.index) : Kept s' where
  unique := h.unique.sublist hs
  limit inventory := by
    have hle := h.limit inventory
    rw [length_of] at hle ⊢
    exact le_trans hs.countP_le hle

/-- Changes of the rows that leave the index alone. -/
theorem index_map {rows : List InventoryHostKey} {p : InventoryHostKey → Prop} [DecidablePred p]
    {f : InventoryHostKey → InventoryHostKey} (hf : ∀ k, (f k).index = k.index) :
    (rows.map fun k => if p k then f k else k).map InventoryHostKey.index =
      rows.map InventoryHostKey.index := by
  rw [List.map_map]
  apply List.map_congr_left
  intro k _
  show (if p k then f k else k).index = k.index
  split
  · exact hf k
  · rfl

/-! ## Trusting -/

theorem isKey_iff {inventory : InventoryId} {name keyType : Str} {k : InventoryHostKey} :
    isKey inventory name keyType k = true ↔ k.index = (inventory, name, keyType) := by
  simp [isKey, InventoryHostKey.index, InventoryHostKey.pair, and_assoc]

theorem modify_index {s : Keys} {c : Trust} {key : KnownHost}
    {f : InventoryHostKey → InventoryHostKey} (hf : ∀ k, (f k).index = k.index) :
    (s.modify c key f).index = s.index :=
  index_map hf

/-- A key that the inventory has stays where it is, another one comes last. -/
theorem trustKey_index (c : Trust) (s : Keys × List Change) (key : KnownHost) :
    (trustKey c s key).1.index =
      if (c.inventory, key.pair) ∈ s.1.index then s.1.index
      else s.1.index ++ [(c.inventory, key.pair)] := by
  cases hrow : s.1.rows.find? (isKey c.inventory key.name key.keyType) with
  | none =>
    have hnot : (c.inventory, key.pair) ∉ s.1.index := by
      intro hmem
      obtain ⟨k, hk, hi⟩ := List.mem_map.1 hmem
      exact List.find?_eq_none.1 hrow k hk (isKey_iff.2 hi)
    rw [if_neg hnot]
    simp only [trustKey, hrow, Keys.index, List.map_append, List.map_cons, List.map_nil]
    rfl
  | some row =>
    have hmem : (c.inventory, key.pair) ∈ s.1.index :=
      List.mem_map.2 ⟨row, List.mem_of_find?_eq_some hrow, isKey_iff.1 (List.find?_some hrow)⟩
    rw [if_pos hmem]
    simp only [trustKey, hrow]
    split
    · split
      · rfl
      · exact modify_index fun k => rfl
    · exact modify_index fun k => rfl

/-- The whole loop: nothing twice, and nothing but the keys there were and those given. -/
theorem trusted_index (c : Trust) (keys : List KnownHost) (s : Keys × List Change)
    (h : s.1.index.Nodup) :
    (keys.foldl (trustKey c) s).1.index.Nodup ∧
      ∀ p ∈ (keys.foldl (trustKey c) s).1.index,
        p ∈ s.1.index ∨ ∃ key ∈ keys, p = (c.inventory, key.pair) := by
  induction keys generalizing s with
  | nil => exact ⟨h, fun p hp => .inl hp⟩
  | cons key keys ih =>
    have hstep : (trustKey c s key).1.index.Nodup := by
      rw [trustKey_index]
      split
      · exact h
      · rename_i hnot
        exact h.append (List.nodup_singleton _) (List.disjoint_singleton.2 hnot)
    obtain ⟨hnodup, hsub⟩ := ih _ hstep
    refine ⟨hnodup, fun p hp => ?_⟩
    obtain hp | ⟨k, hk, rfl⟩ := hsub p hp
    · rw [trustKey_index] at hp
      split at hp
      · exact .inl hp
      · obtain hp | hp := List.mem_append.1 hp
        · exact .inl hp
        · exact .inr ⟨key, List.mem_cons_self, List.mem_singleton.1 hp⟩
    · exact .inr ⟨k, List.mem_cons_of_mem _ hk, rfl⟩

/-- The check before the loop counts what the loop adds. -/
theorem Kept.trust {s : Keys} (h : Kept s) {c : Trust} {keys : List KnownHost}
    {r : Keys × List Change} (hr : trust s c keys = .ok r) : Kept r.1 := by
  unfold HostKeys.trust at hr
  split at hr
  · cases hr
  rename_i hle
  cases hr
  obtain ⟨hnodup, hsub⟩ := trusted_index c keys (s, []) h.unique
  refine ⟨hnodup, fun inventory => ?_⟩
  let new := (newPairs s c.inventory keys).map fun p => (c.inventory, p)
  have hperm : List.Subperm (keys.foldl (trustKey c) (s, [])).1.index (s.index ++ new) := by
    refine hnodup.subperm fun p hp => List.mem_append.2 ?_
    obtain hp | ⟨key, hkey, rfl⟩ := hsub p hp
    · exact .inl hp
    · by_cases hold : (c.inventory, key.pair) ∈ s.index
      · exact .inl hold
      · refine .inr (List.mem_map_of_mem ?_)
        refine List.mem_filter.2 ⟨List.mem_dedup.2 (List.mem_map_of_mem hkey), ?_⟩
        simpa only [decide_eq_true_eq, mem_index_of] using hold
  rw [length_of]
  refine le_trans (hperm.countP_le _) ?_
  rw [List.countP_append, ← length_of]
  by_cases hi : inventory = c.inventory
  · subst hi
    have hnew : new.countP (fun p => p.1 = c.inventory) ≤ (newPairs s c.inventory keys).length :=
      le_trans List.countP_le_length (by simp [new])
    omega
  · have hnew : new.countP (fun p => p.1 = inventory) = 0 := by
      rw [List.countP_eq_zero]
      intro p hp
      obtain ⟨q, -, rfl⟩ := List.mem_map.1 hp
      simpa using Ne.symm hi
    have := h.limit inventory
    omega

/-! ## Learning -/

/-- `setdefault` of each entry keeps entries only. -/
theorem mem_of_mem_setdefaults {l acc : List (Str × Str)} {e : Str × Str}
    (h : e ∈ l.foldl (fun owners e => if owners.any (·.1 = e.1) then owners else owners ++ [e]) acc)
    :
    e ∈ acc ∨ e ∈ l := by
  induction l generalizing acc with
  | nil => exact .inl h
  | cons a l ih =>
    obtain hacc | hl := ih h
    · dsimp only at hacc
      split at hacc
      · exact .inl hacc
      · obtain hacc | ha := List.mem_append.1 hacc
        · exact .inl hacc
        · exact .inr (List.mem_singleton.1 ha ▸ List.mem_cons_self)
    · exact .inr (List.mem_cons_of_mem _ hl)

/-- Each owned address is some host's. -/
theorem owners_lookup (py : Python) {hosts : List (Str × Vars)} {name host : Str}
    (h : (owners py hosts).lookup name = some host) :
    ∃ e ∈ hosts, (addressOf py.unicode e.1 e.2).name = some name := by
  obtain ⟨l₁, l₂, hl, -⟩ := List.lookup_eq_some_iff.1 h
  have hmem : (name, host) ∈ owners py hosts := hl ▸ List.mem_append_right l₁ List.mem_cons_self
  obtain hnil | hmem := mem_of_mem_setdefaults hmem
  · cases hnil
  obtain ⟨e, he, haddress⟩ := List.mem_filterMap.1 hmem
  obtain ⟨_, hname, heq⟩ := Option.map_eq_some_iff.1 haddress
  cases heq
  exact ⟨e, he, hname⟩

section

variable (s : Keys) (names : List (Str × Str)) (inventory : InventoryId)

/-- The loop of `record_learned`, after the keys `more`. -/
structure Learning.Added (l : Learning) (more : List InventoryHostKey) : Prop where
  rows : l.keys.rows = s.rows ++ more
  known : ∀ name, name ∈ l.known ↔
    name ∈ (s.of inventory).map InventoryHostKey.name ∨ name ∈ more.map InventoryHostKey.name
  count : l.count = (s.of inventory).length + more.length
  limit : more = [] ∨ l.count ≤ maxKeys
  own : ∀ k ∈ more, k.inventoryId = inventory ∧ k.confirmed = false ∧
    k.name ∉ (s.of inventory).map InventoryHostKey.name ∧ (names.lookup k.name).isSome
  once : (more.map InventoryHostKey.name).Nodup

variable {s names inventory}

theorem Learning.Added.learnKey {l : Learning} {more : List InventoryHostKey}
    (h : l.Added s names inventory more) (run : RunId) (now : Time) (key : KnownHost) :
    ∃ more, (learnKey names inventory run now l key).Added s names inventory more := by
  unfold HostKeys.learnKey
  split
  · exact ⟨more, h⟩
  rename_i host hhost
  split
  · exact ⟨more, h⟩
  rename_i hnew
  obtain ⟨hknown, hcount⟩ := not_or.1 hnew
  let k := learnedKey inventory run now l.keys.nextId key
  have hfresh : key.name ∉ (s.of inventory).map InventoryHostKey.name ∧
      key.name ∉ more.map InventoryHostKey.name :=
    not_or.1 fun hin => hknown ((h.known _).2 hin)
  refine ⟨more ++ [k], ?_, ?_, ?_, ?_, ?_, ?_⟩
  · show l.keys.rows ++ [k] = s.rows ++ (more ++ [k])
    rw [h.rows, List.append_assoc]
  · intro name
    show name ∈ key.name :: l.known ↔ _
    rw [List.mem_cons, h.known, List.map_append, List.mem_append]
    show _ ↔ _ ∨ _ ∨ name ∈ [key.name]
    rw [List.mem_singleton]
    tauto
  · show l.count + 1 = _
    rw [h.count, List.length_append, List.length_singleton, Nat.add_assoc]
  · exact .inr (Nat.lt_of_not_le hcount)
  · intro k' hk'
    obtain hk' | hk' := List.mem_append.1 hk'
    · exact h.own k' hk'
    · obtain rfl := List.mem_singleton.1 hk'
      exact ⟨rfl, rfl, hfresh.1, Option.isSome_iff_exists.2 ⟨host, hhost⟩⟩
  · rw [List.map_append]
    exact h.once.append (List.nodup_singleton _) (List.disjoint_singleton.2 hfresh.2)

theorem Learning.Added.learnKeys {l : Learning} {more : List InventoryHostKey}
    (h : l.Added s names inventory more) (run : RunId) (now : Time) (keys : List KnownHost) :
    ∃ more, (keys.foldl (HostKeys.learnKey names inventory run now) l).Added s names
      inventory more := by
  induction keys generalizing l more with
  | nil => exact ⟨more, h⟩
  | cons key keys ih =>
    obtain ⟨more', h'⟩ := h.learnKey run now key
    exact ih h'

end

/-- A report adds keys, if any, to its run's inventory. -/
theorem recordLearned_cases (py : Python) (s : Keys) (r : Report) :
    (recordLearned py s r).1 = s ∨ ∃ inventory hosts l more,
      r.run.inventoryId = some inventory ∧ r.hosts = some hosts ∧
      (recordLearned py s r).1 = l.keys ∧ Learning.Added s (owners py hosts) inventory l more := by
  unfold recordLearned
  split
  · exact .inl rfl
  rename_i inventory hinventory
  split
  · exact .inl rfl
  split
  · exact .inl rfl
  dsimp only
  split
  · exact .inl rfl
  rename_i hosts hhosts
  have hstart : Learning.Added s (owners py hosts) inventory
      ⟨s, (s.of inventory).map InventoryHostKey.name, (s.of inventory).length, []⟩ [] :=
    ⟨(List.append_nil _).symm, fun name => by simp, rfl, .inl rfl, by simp, List.nodup_nil⟩
  obtain ⟨more, hmore⟩ := hstart.learnKeys r.runId r.now (parseKnownHosts py
    ((str "\n").intercalate (r.lines.take maxLearnedLines)) maxLearnedLines).1
  exact .inr ⟨inventory, hosts, _, more, hinventory, hhosts, rfl, hmore⟩

theorem recordLearned_adds (py : Python) (s : Keys) (r : Report) :
    ∃ more, (recordLearned py s r).1.rows = s.rows ++ more ∧ Learned py s r more := by
  obtain h | ⟨inventory, hosts, l, more, hinventory, hhosts, h, hadded⟩ :=
    recordLearned_cases py s r
  · refine ⟨[], by rw [h, List.append_nil], ?_⟩
    constructor <;> simp
  refine ⟨more, by rw [h, hadded.rows], ?_⟩
  refine ⟨fun k hk => ?_, fun k hk => (hadded.own k hk).2.1, fun k hk => ?_,
    fun k hk old hold => ?_, hadded.once⟩
  · rw [hinventory, (hadded.own k hk).1]
  · obtain ⟨host, hhost⟩ := Option.isSome_iff_exists.1 (hadded.own k hk).2.2.2
    exact ⟨hosts, hhosts, owners_lookup py hhost⟩
  · rw [(hadded.own k hk).1] at hold
    exact fun heq => (hadded.own k hk).2.2.1 (heq ▸ List.mem_map_of_mem hold)

theorem Kept.recordLearned {py : Python} {s : Keys} (h : Kept s) (r : Report) :
    Kept (recordLearned py s r).1 := by
  obtain hs | ⟨inventory, hosts, l, more, -, -, hs, hadded⟩ := recordLearned_cases py s r
  · rwa [hs]
  rw [hs]
  have hindex : l.keys.index = s.index ++ more.map InventoryHostKey.index := by
    rw [Keys.index, hadded.rows, List.map_append]
    rfl
  refine ⟨?_, fun i => ?_⟩
  · rw [hindex]
    refine h.unique.append ?_ ?_
    · have honce := hadded.once
      rw [show InventoryHostKey.name = (fun p => p.2.1) ∘ InventoryHostKey.index from rfl,
        ← List.map_map] at honce
      exact honce.of_map _
    · intro p hold hnew
      obtain ⟨k, hk, rfl⟩ := List.mem_map.1 hnew
      obtain ⟨hi, -, hfresh, -⟩ := hadded.own k hk
      rw [InventoryHostKey.index, hi, ← mem_index_of] at hold
      obtain ⟨old, hold, hpair⟩ := List.mem_map.1 hold
      exact hfresh (List.mem_map.2 ⟨old, hold, congrArg Prod.fst hpair⟩)
  · rw [Keys.of, hadded.rows, List.filter_append, List.length_append]
    by_cases hi : i = inventory
    · subst hi
      have hle := List.length_filter_le (fun k : InventoryHostKey => k.inventoryId = i) more
      have hcount := hadded.count
      have hold := h.limit i
      unfold Keys.of at hcount hold
      obtain rfl | hlimit := hadded.limit
      · exact hold
      · omega
    · have hnone : more.filter (fun k => k.inventoryId = i) = [] := by
        rw [List.filter_eq_nil_iff]
        intro k hk
        rw [(hadded.own k hk).1]
        simpa using Ne.symm hi
      rw [hnone]
      exact h.limit i

/-! ## Every run -/

theorem Kept.step {py : Python} {s : Keys} (h : Kept s) (call : Call) : Kept (step py s call) := by
  cases call with
  | learned report => exact h.recordLearned report
  | trust c keys =>
    cases hr : HostKeys.trust s c keys with
    | ok r =>
      rw [show HostKeys.step py s (.trust c keys) = r.1 by simp only [HostKeys.step, hr]]
      exact h.trust hr
    | error _ =>
      rw [show HostKeys.step py s (.trust c keys) = s by simp only [HostKeys.step, hr]]
      exact h
  | confirm inventory ids username now =>
    have hindex : (confirmHostKeys s inventory ids username now).index = s.index :=
      index_map fun k => rfl
    exact h.of_sublist (hindex ▸ List.Sublist.refl _)
  | remove inventory id => exact h.of_sublist (List.filter_sublist.map _)

theorem Kept.of_reachable {py : Python} {s : Keys} (h : (system py).Reachable s) : Kept s := by
  have hind : (system py).Inductive Lib.anyStep Kept := by
    refine ⟨fun s hs => ?_, fun s call t hs _ ht => ?_⟩
    · subst hs
      exact ⟨List.nodup_nil, fun _ => Nat.zero_le _⟩
    · obtain rfl := Option.some.inj ht
      exact hs.step call
  exact hind.of_reachable h

/-- A strict job's known_hosts are confirmed keys of its inventory. -/
theorem strict_confirmed {s : Keys} {run : Run} {text : Str}
    (h : jobHostKeys s run = some ("strict", text)) :
    ∃ keys : List InventoryHostKey, text = keys.flatMap line ∧
      ∀ k ∈ keys, k ∈ s.rows ∧ run.inventoryId = some k.inventoryId ∧ k.confirmed = true := by
  simp only [jobHostKeys, Option.bind_eq_bind, Option.bind_eq_some_iff] at h
  obtain ⟨mode, -, inventory, hinventory, h⟩ := h
  split at h
  · simp only [Option.some.injEq, Prod.mk.injEq] at h
    obtain ⟨rfl, rfl⟩ := h
    refine ⟨jobKeys s inventory true, rfl, fun k hk => ?_⟩
    have hk := List.mem_filter.1 ((List.perm_insertionSort keyOrder _).mem_iff.1 hk)
    obtain ⟨hrow, hi⟩ := mem_of.1 hk.1
    exact ⟨hrow, hinventory.trans (congrArg some hi.symm), by simpa using hk.2⟩
  · cases h

/-- In every state that learning, trusting, confirming and removing reach: the keys are one for each
name and type and within the limit, whatever a run reports leaves them all as they are and adds
unconfirmed ones for its hosts' addresses that have none, and a strict job gets confirmed keys. -/
theorem learned_never_replace (py : Python) {s : Keys} (h : (system py).Reachable s) :
    Kept s ∧
    (∀ r, ∃ more, (recordLearned py s r).1.rows = s.rows ++ more ∧ Learned py s r more) ∧
    ∀ run text, jobHostKeys s run = some ("strict", text) →
      ∃ keys : List InventoryHostKey, text = keys.flatMap line ∧
        ∀ k ∈ keys, k ∈ s.rows ∧ run.inventoryId = some k.inventoryId ∧ k.confirmed = true :=
  ⟨.of_reachable h, recordLearned_adds py s, fun _ _ hjob => strict_confirmed hjob⟩

/-- Plain texts, and one key. -/
def plain : Python where
  unicode := .ascii
  repr s := 39 :: s ++ [39]
  sha256 _ := [152, 170, 148, 251, 66, 188, 58, 18, 166, 3, 198, 193, 66, 47, 81, 207, 68, 57, 151,
    191, 224, 215, 173, 33, 32, 255, 171, 37, 132, 147, 54, 62]

def plainKey : Str := str "AAAAC3NzaC1lZDI1NTE5AAAAIAECAwQFBgcICQoLDA0ODxAREhMUFRYXGBkaGxwdHh8g"

/-- A key for `web1` is trusted. -/
def trustsWeb1 : Call :=
  .trust ⟨1, .paste, str "admin", 5⟩ [⟨str "web1", str "ssh-ed25519", plainKey,
    str "SHA256:mKqU+0K8OhKmA8bBQi9Rz0Q5l7/g160hIP+rJYSTNj4"⟩]

/-- A run reports the same key for both its hosts and for a name that is not its own. -/
def reportsThree : Report where
  runId := 7
  run := { inventoryId := some 1, queuedAt := 6, hostKeyChecking := some "accept_new" }
  project := 1
  inventoryProject := some 1
  lines := [str "web1,web2,db1 ssh-ed25519 " ++ plainKey]
  hosts := some [(str "web1", ∅), (str "web2", ∅)]
  now := 8

/-- `web2`'s key is learned, and a strict run still gets `web1`'s only. -/
theorem learned_never_replace_web2 :
    (∃ more, (recordLearned plain (step plain {} trustsWeb1) reportsThree).1.rows =
        (step plain {} trustsWeb1).rows ++ more ∧
      Learned plain (step plain {} trustsWeb1) reportsThree more) ∧
    (recordLearned plain (step plain {} trustsWeb1) reportsThree).1.rows.map (·.name) =
      [str "web1", str "web2"] ∧
    jobHostKeys (step plain (step plain {} trustsWeb1) (.learned reportsThree))
      { inventoryId := some 1, queuedAt := 9, hostKeyChecking := some "strict" } =
      some ("strict", str "web1 ssh-ed25519 " ++ plainKey ++ str "\n") := by
  have hreach : (system plain).Reachable (step plain {} trustsWeb1) :=
    ⟨{}, rfl, .single (a := trustsWeb1) trivial rfl⟩
  exact ⟨(learned_never_replace plain hreach).2.1 reportsThree, by decide +kernel, by
    decide +kernel⟩

end HostKeys

end AnsiDeck
