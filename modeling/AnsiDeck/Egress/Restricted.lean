import AnsiDeck.Egress.Slots

/-!
# A restricted run stays restricted

Whatever the slots' threads, the filter, nft and the processes do in whatever order: a process of a
restricted run reaches what the run's job permits, lookups aside, and nothing else, from its start
until it is gone; a process of any other job is not limited by somebody else's allowlist; and no
process of a slot's user ever reaches what is always blocked.
-/

namespace AnsiDeck

namespace Egress

open Lib (Network str)

variable {cfg : Config} {view : View} {ready : Bool} {n : Nat} {slot slot' : Slot}
  {table table' : Option SlotTable}

/-! ## The invariant of a slot -/

/-- What a job was limited to is what it asked for. -/
def Granted (cfg : Config) (ready : Bool) (job : Job) : Option Grant → Prop
  | some g => cfg.isolated = true ∧ ready = true ∧ job.kind = .run ∧ ∃ spec report,
      job.egress = some spec ∧ resolveAllowlist (resolve g.getaddrinfo) spec =
        .ok (g.allowlist, report)
  | none => job.kind = .run → job.egress = none

/-- The slot's table is the one for it. Where allowlists don't work the start may have left one. -/
def Fits (cfg : Config) (ready : Bool) (n : Nat) (table : Option SlotTable) : Option Grant → Prop
  | some g => table = some (slotRuleset (uidOf n) g.allowlist g.resolvers cfg.ipv6)
  | none => ready = true → table = none

def Owner.Ok (cfg : Config) (ready : Bool) (n : Nat) (table : Option SlotTable) : Owner → Prop
  | .earlier => True
  | .job j grant => Granted cfg ready j grant ∧ Fits cfg ready n table grant

/-- Nothing of the slot's user runs. -/
def Quiet (cfg : Config) (slot : Slot) : Prop := cfg.isolated = true → slot.procs = []

def Idle (cfg : Config) (slot : Slot) : Prop := Quiet cfg slot ∧ slot.allowlisted = false

def PhaseOk (cfg : Config) (ready : Bool) (n : Nat) (slot : Slot) (table : Option SlotTable) :
    Phase → Prop
  | .starting => slot.allowlisted = false
  | .claiming | .fetching _ => Idle cfg slot
  | .restricting job => Idle cfg slot ∧ job.kind = .run
  | .allowing job getaddrinfo allowlist => Quiet cfg slot ∧ slot.allowlisted = true ∧
      Granted cfg ready job (some ⟨getaddrinfo, allowlist, []⟩)
  | .reporting job grant => Quiet cfg slot ∧ Granted cfg ready job (some grant) ∧
      Fits cfg ready n table (some grant)
  | .preparing job grant => Quiet cfg slot ∧ Granted cfg ready job grant ∧
      Fits cfg ready n table grant
  | .running job grant => (cfg.isolated = true → ∀ owner ∈ slot.procs, owner = .job job grant) ∧
      Granted cfg ready job grant ∧ Fits cfg ready n table grant
  | .releasing | .unreleased | .lastRelease => Quiet cfg slot
  | .sweeping | .dirty | .lastSweep | .stopped => True

structure SlotOk (cfg : Config) (ready : Bool) (n : Nat) (slot : Slot) (table : Option SlotTable) :
    Prop where
  owners : ∀ owner ∈ slot.procs, owner.Ok cfg ready n table
  one : cfg.isolated = true → ∀ owner ∈ slot.procs, ∀ other ∈ slot.procs, owner = other
  /-- A table is released before the slot's next job. -/
  listed : ready = true → table ≠ none → slot.allowlisted = true
  own : ready = true → ∀ t, table = some t → t.uid = uidOf n
  isolated : slot.allowlisted = true → cfg.isolated = true
  phase : PhaseOk cfg ready n slot table slot.phase

theorem PhaseOk.goto {phase other : Phase} (h : PhaseOk cfg ready n slot table phase) :
    PhaseOk cfg ready n (slot.goto other) table phase := by
  cases phase with
  | _ => exact h

theorem SlotOk.goto (h : SlotOk cfg ready n slot table) {phase : Phase}
    (hphase : PhaseOk cfg ready n slot table phase) :
    SlotOk cfg ready n (slot.goto phase) table where
  owners := h.owners
  one := h.one
  listed := h.listed
  own := h.own
  isolated := h.isolated
  phase := hphase.goto

/-- Nothing runs, and the table has changed. -/
theorem SlotOk.ofQuiet (hquiet : slot.procs = [])
    (hlisted : ready = true → table ≠ none → slot.allowlisted = true)
    (hown : ready = true → ∀ t, table = some t → t.uid = uidOf n)
    (hisolated : slot.allowlisted = true → cfg.isolated = true)
    (hphase : PhaseOk cfg ready n slot table slot.phase) : SlotOk cfg ready n slot table where
  owners owner ho := by
    rw [hquiet] at ho
    cases ho
  one _ owner ho := by
    rw [hquiet] at ho
    cases ho
  listed := hlisted
  own := hown
  isolated := hisolated
  phase := hphase

theorem phaseOk_top {stopping dirty : Bool} (h : (cfg.isolated && dirty) = false → Idle cfg slot) :
    PhaseOk cfg ready n slot table (cfg.top stopping dirty) := by
  unfold Config.top
  cases hdirty : cfg.isolated && dirty with
  | true => cases stopping <;> trivial
  | false =>
    cases stopping with
    | true => trivial
    | false => exact h hdirty

/-- Whatever a job was doing when it ended: the slot is swept before anything else. -/
theorem SlotOk.jobEnded (h : SlotOk cfg ready n slot table) :
    SlotOk cfg ready n (jobEnded cfg view slot) table := by
  refine h.goto (phaseOk_top fun hnot => ?_)
  rw [Bool.and_true] at hnot
  refine ⟨fun hisolated => ?_, Bool.eq_false_iff.2 fun hlisted => ?_⟩
  · rw [hnot] at hisolated
    cases hisolated
  · have hisolated := h.isolated hlisted
    rw [hnot] at hisolated
    cases hisolated

/-- Processes come and go, of the same owners. -/
theorem SlotOk.procs (h : SlotOk cfg ready n slot table) {procs : List Owner}
    (hsub : ∀ owner ∈ procs, owner ∈ slot.procs) :
    SlotOk cfg ready n { slot with procs := procs } table where
  owners owner ho := h.owners owner (hsub owner ho)
  one hisolated owner ho other hother :=
    h.one hisolated owner (hsub owner ho) other (hsub other hother)
  listed := h.listed
  own := h.own
  isolated := h.isolated
  phase := by
    have hquiet : Quiet cfg slot → Quiet cfg { slot with procs := procs } := by
      intro hq hisolated
      refine List.eq_nil_iff_forall_not_mem.2 fun owner ho => ?_
      have hmem := hsub owner ho
      rw [hq hisolated] at hmem
      cases hmem
    have hphase := h.phase
    show PhaseOk cfg ready n { slot with procs := procs } table slot.phase
    cases hslot : slot.phase <;> rw [hslot] at hphase
    case starting => exact hphase
    case claiming => exact ⟨hquiet hphase.1, hphase.2⟩
    case fetching => exact ⟨hquiet hphase.1, hphase.2⟩
    case restricting => exact ⟨⟨hquiet hphase.1.1, hphase.1.2⟩, hphase.2⟩
    case allowing => exact ⟨hquiet hphase.1, hphase.2⟩
    case reporting => exact ⟨hquiet hphase.1, hphase.2⟩
    case preparing => exact ⟨hquiet hphase.1, hphase.2⟩
    case running =>
      exact ⟨fun hisolated owner ho => hphase.1 hisolated owner (hsub owner ho), hphase.2⟩
    case releasing => exact hquiet hphase
    case unreleased => exact hquiet hphase
    case lastRelease => exact hquiet hphase
    all_goals trivial

/-! ## Every step keeps it -/

theorem sweepStep_ok {clean : Bool} (h : SlotOk cfg ready n slot table)
    (hstep : sweepStep cfg view slot clean = some slot') : SlotOk cfg ready n slot' table := by
  have hphase := h.phase
  unfold sweepStep at hstep
  split at hstep
  · cases hstep
  · next hclean =>
    have hquiet : clean = true → Quiet cfg slot := by
      intro hc hisolated
      rw [hc, hisolated, Bool.true_and, Bool.true_and, Bool.not_eq_true',
        Bool.not_eq_false] at hclean
      exact List.isEmpty_iff.1 hclean
    split at hstep
    · next heq =>
      obtain rfl := Option.some.inj hstep
      rw [heq] at hphase
      refine h.goto (phaseOk_top fun hnot => ⟨fun hisolated => ?_, hphase⟩)
      rw [hisolated, Bool.true_and, Bool.not_eq_false'] at hnot
      exact hquiet hnot hisolated
    · obtain rfl := Option.some.inj hstep
      cases clean with
      | true => exact h.goto (hquiet rfl)
      | false => exact h.goto trivial
    · obtain rfl := Option.some.inj hstep
      cases clean with
      | true => exact h.goto (hquiet rfl)
      | false => exact h.goto trivial
    · cases hstep

theorem wakeStep_ok (h : SlotOk cfg ready n slot table) (hstep : wakeStep view slot = some slot') :
    SlotOk cfg ready n slot' table := by
  have hphase := h.phase
  unfold wakeStep at hstep
  split at hstep
  · obtain rfl := Option.some.inj hstep
    split
    · exact h.goto trivial
    · exact h.goto trivial
  · next heq =>
    obtain rfl := Option.some.inj hstep
    rw [heq] at hphase
    split
    · exact h.goto trivial
    · exact h.goto hphase
  · cases hstep

/-- A turn of the loop that releases a slot, which has nothing running. -/
theorem release_ok {nft : Nft} (done again : Phase) (h : SlotOk cfg ready n slot table)
    (hfilter : view.hasFilter = false → ready = false) (hquiet : Quiet cfg slot)
    (hdone : ∀ slot' table', Idle cfg slot' → PhaseOk cfg ready n slot' table' done)
    (hagain : ∀ table', PhaseOk cfg ready n slot table' again)
    (hstep : (if !slot.allowlisted then some (slot.goto done, table)
      else if !view.hasFilter then some ({ slot with phase := done, allowlisted := false }, table)
      else if !view.unlocked then none
      else match nft.apply (fun _ => none) table with
      | (true, table) => some ({ slot with phase := done, allowlisted := false }, table)
      | (false, table) => some (slot.goto again, table)) = some (slot', table')) :
    SlotOk cfg ready n slot' table' := by
  cases hlisted : slot.allowlisted with
  | false =>
    rw [hlisted, Bool.not_false, if_pos rfl] at hstep
    obtain ⟨rfl, rfl⟩ := Prod.mk.inj (Option.some.inj hstep)
    exact h.goto (hdone _ _ ⟨hquiet, hlisted⟩)
  | true =>
    have hprocs := hquiet (h.isolated hlisted)
    have hcleared : ∀ t, (ready = true → t = none) →
        SlotOk cfg ready n { slot with phase := done, allowlisted := false } t := fun t hnone =>
      .ofQuiet hprocs (fun hready hsome => absurd (hnone hready) hsome)
        (fun hready t' ht => by rw [hnone hready] at ht; cases ht) (fun h => Bool.noConfusion h)
        (hdone _ _ ⟨fun _ => hprocs, rfl⟩)
    have hkept : ∀ t, (t = none ∨ t = table) → SlotOk cfg ready n (slot.goto again) t := by
      intro t ht
      refine .ofQuiet hprocs (fun _ _ => hlisted) (fun hready t' heq => ?_) h.isolated
        (hagain t).goto
      rcases ht with rfl | rfl
      · cases heq
      · exact h.own hready t' heq
    rw [hlisted, Bool.not_true, if_neg Bool.false_ne_true] at hstep
    split at hstep
    · next hnot =>
      obtain ⟨rfl, rfl⟩ := Prod.mk.inj (Option.some.inj hstep)
      refine hcleared table fun hready => ?_
      rw [hfilter (by simpa using hnot)] at hready
      cases hready
    · split at hstep
      · cases hstep
      · cases nft with
        | done =>
          obtain ⟨rfl, rfl⟩ := Prod.mk.inj (Option.some.inj hstep)
          exact hcleared none fun _ => rfl
        | failed applied =>
          cases applied with
          | true =>
            obtain ⟨rfl, rfl⟩ := Prod.mk.inj (Option.some.inj hstep)
            exact hkept none (.inl rfl)
          | false =>
            obtain ⟨rfl, rfl⟩ := Prod.mk.inj (Option.some.inj hstep)
            exact hkept table (.inr rfl)

theorem releaseStep_ok {nft : Nft} (h : SlotOk cfg ready n slot table)
    (hfilter : view.hasFilter = false → ready = false)
    (hstep : releaseStep view slot nft table = some (slot', table')) :
    SlotOk cfg ready n slot' table' := by
  have hphase := h.phase
  unfold releaseStep at hstep
  dsimp only at hstep
  split at hstep
  · next heq =>
    rw [heq] at hphase
    exact release_ok .claiming .unreleased h hfilter hphase (fun _ _ hidle => hidle)
      (fun _ => hphase) hstep
  · next heq =>
    rw [heq] at hphase
    exact release_ok .stopped .stopped h hfilter hphase (fun _ _ _ => trivial)
      (fun _ => trivial) hstep
  · cases hstep

theorem claimStep_ok {kind : Option Kind} (h : SlotOk cfg ready n slot table)
    (hstep : claimStep cfg view slot kind = some slot') : SlotOk cfg ready n slot' table := by
  have hphase := h.phase
  unfold claimStep at hstep
  split at hstep
  · next heq =>
    rw [heq] at hphase
    split at hstep
    · obtain rfl := Option.some.inj hstep
      exact h.goto (phaseOk_top fun _ => hphase)
    · obtain rfl := Option.some.inj hstep
      exact h.goto hphase
  · cases hstep

theorem fetchStep_ok {job : Option Job} (h : SlotOk cfg ready n slot table)
    (hstep : fetchStep cfg view slot job = some slot') : SlotOk cfg ready n slot' table := by
  have hphase := h.phase
  unfold fetchStep at hstep
  split at hstep
  · next heq =>
    rw [heq] at hphase
    split at hstep
    · obtain rfl := Option.some.inj hstep
      exact h.jobEnded
    · next job =>
      split at hstep
      · cases hstep
      · split at hstep
        · next hrestricted =>
          obtain rfl := Option.some.inj hstep
          rw [Bool.and_eq_true, decide_eq_true_eq] at hrestricted
          exact h.goto ⟨hphase, hrestricted.1⟩
        · next hnot =>
          obtain rfl := Option.some.inj hstep
          refine h.goto ⟨hphase.1, fun hrun => ?_, fun hready => ?_⟩
          · rw [hrun, decide_eq_true rfl, Bool.true_and] at hnot
            simpa using hnot
          · by_contra hsome
            have hlisted := h.listed hready hsome
            rw [hphase.2] at hlisted
            cases hlisted
  · cases hstep

theorem restrictStep_ok {answer : Option Lookup} (h : SlotOk cfg ready n slot table)
    (hview : view.ready = true → ready = true)
    (hstep : restrictStep cfg view slot answer = some slot') : SlotOk cfg ready n slot' table := by
  have hphase := h.phase
  unfold restrictStep at hstep
  split at hstep
  · next job heq =>
    rw [heq] at hphase
    obtain ⟨⟨hquiet, hlisted⟩, hrun⟩ := hphase
    split at hstep
    · obtain rfl := Option.some.inj hstep
      exact h.jobEnded
    · next hnot =>
      rw [Bool.not_eq_true', Bool.not_eq_false, Bool.and_eq_true] at hnot
      split at hstep
      · next getaddrinfo spec hspec =>
        split at hstep
        · next allowlist report hresolved =>
          obtain rfl := Option.some.inj hstep
          refine .ofQuiet (hquiet hnot.1) (fun _ _ => rfl) h.own (fun _ => hnot.1) ?_
          exact ⟨hquiet, rfl, hnot.1, hview hnot.2, hrun, spec, report, hspec, hresolved⟩
        · obtain rfl := Option.some.inj hstep
          exact h.jobEnded
      · obtain rfl := Option.some.inj hstep
        exact h.jobEnded
  · cases hstep

theorem allowStep_ok {conf : Option Lib.Str} {nft : Nft} (h : SlotOk cfg ready n slot table)
    (hstep : allowStep cfg view slot (uidOf n) conf nft table = some (slot', table')) :
    SlotOk cfg ready n slot' table' := by
  have hphase := h.phase
  unfold allowStep at hstep
  dsimp only at hstep
  split at hstep
  · next job getaddrinfo allowlist heq =>
    rw [heq] at hphase
    obtain ⟨hquiet, hlisted, hgranted⟩ := hphase
    split at hstep
    · cases hstep
    · have hprocs := hquiet hgranted.1
      -- nothing runs yet, so whatever nft left is in nobody's way
      have hnew : ∀ phase, PhaseOk cfg ready n slot
          (some (slotRuleset (uidOf n) allowlist (readResolvers cfg.unicode conf) cfg.ipv6)) phase →
            SlotOk cfg ready n (slot.goto phase)
              (some (slotRuleset (uidOf n) allowlist (readResolvers cfg.unicode conf) cfg.ipv6)) :=
        fun phase hphase => .ofQuiet hprocs (fun _ _ => hlisted)
          (fun _ t ht => Option.some.inj ht ▸ rfl) h.isolated hphase.goto
      cases nft with
      | done =>
        obtain ⟨rfl, rfl⟩ := Prod.mk.inj (Option.some.inj hstep)
        exact hnew _ ⟨hquiet, hgranted, rfl⟩
      | failed applied =>
        cases applied with
        | true =>
          obtain ⟨rfl, rfl⟩ := Prod.mk.inj (Option.some.inj hstep)
          exact (hnew .stopped trivial).jobEnded
        | false =>
          obtain ⟨rfl, rfl⟩ := Prod.mk.inj (Option.some.inj hstep)
          exact h.jobEnded
  · cases hstep

theorem reportStep_ok {ok : Bool} (h : SlotOk cfg ready n slot table)
    (hstep : reportStep cfg view slot ok = some slot') : SlotOk cfg ready n slot' table := by
  have hphase := h.phase
  unfold reportStep at hstep
  split at hstep
  · next heq =>
    rw [heq] at hphase
    obtain rfl := Option.some.inj hstep
    cases ok with
    | true => exact h.goto hphase
    | false => exact h.jobEnded
  · cases hstep

theorem prepareStep_ok {ok : Bool} (h : SlotOk cfg ready n slot table)
    (hstep : prepareStep cfg view slot ok = some slot') : SlotOk cfg ready n slot' table := by
  have hphase := h.phase
  unfold prepareStep at hstep
  split at hstep
  · next heq =>
    rw [heq] at hphase
    obtain rfl := Option.some.inj hstep
    split
    · exact h.jobEnded
    · refine h.goto ⟨fun hisolated owner ho => ?_, hphase.2⟩
      rw [hphase.1 hisolated] at ho
      cases ho
  · cases hstep

theorem spawnStep_ok (h : SlotOk cfg ready n slot table) (hstep : spawnStep slot = some slot') :
    SlotOk cfg ready n slot' table := by
  have hphase := h.phase
  unfold spawnStep at hstep
  split at hstep
  · next job grant heq =>
    rw [heq] at hphase
    obtain ⟨howner, hgranted, hfits⟩ := hphase
    obtain rfl := Option.some.inj hstep
    have hall : cfg.isolated = true →
        ∀ owner ∈ Owner.job job grant :: slot.procs, owner = .job job grant := by
      intro hisolated owner ho
      rcases List.mem_cons.1 ho with rfl | hold
      · rfl
      · exact howner hisolated owner hold
    refine ⟨?_, ?_, h.listed, h.own, h.isolated, ?_⟩
    · intro owner ho
      rcases List.mem_cons.1 ho with rfl | hold
      · exact ⟨hgranted, hfits⟩
      · exact h.owners owner hold
    · intro hisolated owner ho other hother
      rw [hall hisolated owner ho, hall hisolated other hother]
    · show PhaseOk cfg ready n _ table slot.phase
      rw [heq]
      exact ⟨hall, hgranted, hfits⟩
  · cases hstep

theorem endStep_ok (h : SlotOk cfg ready n slot table)
    (hstep : endStep cfg view slot = some slot') :
    SlotOk cfg ready n slot' table := by
  unfold endStep at hstep
  split at hstep <;> first
    | exact Option.some.inj hstep ▸ h.jobEnded
    | cases hstep

/-- **One step at a slot keeps its invariant.** -/
theorem slotStep_ok {action : Action} (h : SlotOk cfg ready n slot table)
    (hview : view.ready = true → ready = true) (hfilter : view.hasFilter = false → ready = false)
    (hstep : slotStep cfg view n slot table action = some (slot', table')) :
    SlotOk cfg ready n slot' table' := by
  have hmap : ∀ {o : Option Slot}, o.map (·, table) = some (slot', table') →
      (∀ slot'', o = some slot'' → SlotOk cfg ready n slot'' table) →
        SlotOk cfg ready n slot' table' := by
    intro o ho hok
    obtain ⟨slot'', hsome, heq⟩ := Option.map_eq_some_iff.1 ho
    obtain ⟨rfl, rfl⟩ := Prod.mk.inj heq
    exact hok _ hsome
  cases action with
  | sweep clean => exact hmap hstep fun _ => sweepStep_ok h
  | wake => exact hmap hstep fun _ => wakeStep_ok h
  | release nft => exact releaseStep_ok h hfilter hstep
  | claim kind => exact hmap hstep fun _ => claimStep_ok h
  | fetch job => exact hmap hstep fun _ => fetchStep_ok h
  | restrict answer => exact hmap hstep fun _ => restrictStep_ok h hview
  | allow conf nft => exact allowStep_ok h hstep
  | report ok => exact hmap hstep fun _ => reportStep_ok h
  | prepare ok => exact hmap hstep fun _ => prepareStep_ok h
  | spawn => exact hmap hstep fun _ => spawnStep_ok h
  | finish => exact hmap hstep fun _ => endStep_ok h
  | fork i =>
    refine hmap hstep fun slot'' hfork => ?_
    obtain ⟨owner, howner, rfl⟩ := Option.map_eq_some_iff.1 hfork
    refine h.procs fun other hother => ?_
    rcases List.mem_cons.1 hother with rfl | hold
    · exact List.mem_of_getElem? howner
    · exact hold
  | exit i =>
    obtain ⟨rfl, rfl⟩ := Prod.mk.inj (Option.some.inj hstep)
    exact h.procs fun owner ho => List.mem_of_mem_eraseIdx ho

/-! ## The invariant of the worker -/

/-- Allowlists work on this worker. -/
def State.allowlistsReady (s : State) : Bool := s.filter.any (·.allowlistsReady)

structure FilterOk (cfg : Config) (net : Net) (watch : Watch) (f : Filter) : Prop where
  isolated : cfg.isolated = true
  static : f.static = cfg.static
  blocked : ∀ n ∈ cfg.static, net.Blocks cfg.ipv6 n
  /-- Unless `refresh` is at work the API's addresses are blocked. -/
  current : watch = .idle → f.healthy = true → ∀ n ∈ f.networks, net.Blocks cfg.ipv6 n

structure Inv (cfg : Config) (s : State) : Prop where
  slots : ∀ n < cfg.slots, SlotOk cfg s.allowlistsReady n (s.slots n) (s.net.slots n)
  /-- The run users that the worker doesn't use have no table. -/
  spare : s.allowlistsReady = true → ∀ n < maxSlots, cfg.slots ≤ n → s.net.slots n = none
  filter : ∀ f, s.filter = some f → FilterOk cfg s.net s.watch f

theorem Begins.inv {s : State} (h : Begins cfg s) : Inv cfg s := by
  obtain ⟨o, net, hstart⟩ := h.started
  have hreleased : s.allowlistsReady = true → cfg.isolated = true ∧ s.net.Released := by
    intro hready
    cases hfilter : s.filter with
    | none =>
      rw [State.allowlistsReady, hfilter] at hready
      cases hready
    | some f =>
      rw [hfilter] at hstart
      rw [State.allowlistsReady, hfilter] at hready
      have hspec := startUp_spec hstart
      exact ⟨hspec.1, hspec.2.2 hready⟩
  have hnone : s.allowlistsReady = true → ∀ n < cfg.slots, s.net.slots n = none :=
      fun hready n hn =>
    (hreleased hready).2 n (hn.trans_le (cfg.slots_le (hreleased hready).1))
  refine ⟨fun n hn => ?_, fun hready n hn _ => (hreleased hready).2 n hn, fun f hfilter => ?_⟩
  · obtain ⟨hphase, hlisted, howners⟩ := h.slots n
    refine ⟨fun owner ho => ?_, fun _ owner ho other hother => ?_, fun hready hsome => ?_,
      fun hready t ht => ?_, fun hl => ?_, ?_⟩
    · rw [howners owner ho]
      trivial
    · rw [howners owner ho, howners other hother]
    · exact absurd (hnone hready n hn) hsome
    · rw [hnone hready n hn] at ht
      cases ht
    · rw [hlisted] at hl
      cases hl
    · rw [hphase]
      exact hlisted
  · rw [hfilter] at hstart
    obtain ⟨hisolated, hstarted, -⟩ := startUp_spec hstart
    refine ⟨hisolated, hstarted.static, fun n hn => hstarted.blocks n ?_,
      fun _ _ => hstarted.blocks⟩
    exact List.mem_append_left _ (hstarted.static ▸ hn)

theorem found_eq_some {f f' : Filter} {lookup : Option (List Address)}
    (h : f.found lookup = some f') : ∃ addresses, f' = { f with addresses := addresses } := by
  obtain ⟨addresses, -, hif⟩ := Option.bind_eq_some_iff.1 h
  split at hif
  · cases hif
  · exact ⟨addresses, (Option.some.inj hif).symm⟩

/-- The filter changes, and the tables that the slots share. -/
theorem Inv.refilter {s : State} (h : Inv cfg s) {f : Filter} {net : Net} {watch : Watch}
    (hready : f.allowlistsReady = s.allowlistsReady) (hslots : net.slots = s.net.slots)
    (hfilter : FilterOk cfg net watch f) :
    Inv cfg { s with net := net, filter := some f, watch := watch } where
  slots n hn := by
    show SlotOk cfg f.allowlistsReady n (s.slots n) (net.slots n)
    rw [hready, hslots]
    exact h.slots n hn
  spare hr n hn hle := by
    show net.slots n = none
    rw [hslots]
    exact h.spare (hready ▸ hr) n hn hle
  filter g hg := Option.some.inj hg ▸ hfilter

theorem Inv.atSlot {s : State} (h : Inv cfg s) {n : Nat} {r : Slot × Option SlotTable}
    (hr : SlotOk cfg s.allowlistsReady n r.1 r.2) (hn : n < cfg.slots) :
    Inv cfg
      { s with
        slots := Function.update s.slots n r.1
        net := { s.net with slots := Function.update s.net.slots n r.2 } } where
  slots m hm := by
    show SlotOk cfg s.allowlistsReady m (Function.update s.slots n r.1 m)
      (Function.update s.net.slots n r.2 m)
    by_cases hsame : m = n
    · subst hsame
      rw [Function.update_self, Function.update_self]
      exact hr
    · rw [Function.update_of_ne hsame, Function.update_of_ne hsame]
      exact h.slots m hm
  spare hready m hm hle := by
    have hne : m ≠ n := fun heq => Nat.lt_irrefl n (hn.trans_le (heq ▸ hle))
    show Function.update s.net.slots n r.2 m = none
    rw [Function.update_of_ne hne]
    exact h.spare hready m hm hle
  filter f hf := by
    have hold := h.filter f hf
    exact ⟨hold.isolated, hold.static, fun n hn => (hold.blocked n hn).congr rfl,
      fun hidle hhealthy n hn => (hold.current hidle hhealthy n hn).congr rfl⟩

theorem view_ready {s : State} (h : s.view.ready = true) : s.allowlistsReady = true := by
  unfold State.view at h
  unfold State.allowlistsReady
  cases hfilter : s.filter with
  | none =>
    rw [hfilter] at h
    cases h
  | some f =>
    rw [hfilter, Option.any_some, Bool.and_eq_true] at h
    exact h.2

theorem view_hasFilter {s : State} (h : s.view.hasFilter = false) : s.allowlistsReady = false := by
  have hnone : s.filter = none := Option.isSome_eq_false_iff.1 h |> Option.isNone_iff_eq_none.1
  rw [State.allowlistsReady, hnone, Option.any_none]

/-- **One step of the worker keeps the invariant.** -/
theorem Inv.step {s t : State} {a : Label} (h : Inv cfg s) (hstep : step cfg s a = some t) :
    Inv cfg t := by
  have hready : ∀ f, s.filter = some f → f.allowlistsReady = s.allowlistsReady := by
    intro f hf
    rw [State.allowlistsReady, hf, Option.any_some]
  cases a with
  | stop =>
    obtain rfl := Option.some.inj hstep
    exact ⟨h.slots, h.spare, h.filter⟩
  | look lookup =>
    rw [Egress.step] at hstep
    split at hstep
    · next f hf hwatch =>
      split at hstep
      · exact Option.some.inj hstep ▸ h
      · next f' hfound =>
        obtain ⟨addresses, rfl⟩ := found_eq_some hfound
        obtain rfl := Option.some.inj hstep
        have hold := h.filter f hf
        exact h.refilter (hready f hf) rfl
          ⟨hold.isolated, hold.static, hold.blocked, fun hidle => by cases hidle⟩
    · cases hstep
  | unhealthy =>
    rw [Egress.step] at hstep
    split at hstep
    · next f hf hwatch =>
      obtain rfl := Option.some.inj hstep
      have hold := h.filter f hf
      exact h.refilter (hready f hf) rfl
        ⟨hold.isolated, hold.static, hold.blocked, fun hidle => by cases hidle⟩
    · cases hstep
  | install first second =>
    rw [Egress.step] at hstep
    split at hstep
    · next f hf hwatch =>
      obtain rfl := Option.some.inj hstep
      have hold := h.filter f hf
      have hinstalled := installed cfg.ipv6 f.networks first second s.net
      refine h.refilter (hready f hf) hinstalled.slots
        ⟨hold.isolated, hold.static, fun n hn => ?_, fun _ hhealthy => hinstalled.blocks hhealthy⟩
      exact hinstalled.kept n (List.mem_append_left _ (hold.static ▸ hn)) (hold.blocked n hn)
    · cases hstep
  | slot n action =>
    rw [Egress.step] at hstep
    split at hstep
    · next hn =>
      obtain ⟨r, hslot, rfl⟩ := Option.map_eq_some_iff.1 hstep
      exact h.atSlot (slotStep_ok (h.slots n hn) view_ready view_hasFilter hslot) hn
    · cases hstep

theorem inv_of_reachable {s : State} (h : (system cfg).Reachable s) : Inv cfg s :=
  Lib.System.Inductive.of_reachable ⟨fun _ => Begins.inv, fun _ _ _ h _ => h.step⟩ h

/-! ## A worker with one slot -/

def webConfig : Config :=
  { unicode := .ascii
    slots := 1
    isolated := true
    ipv6 := true
    production := true
    egressFilter := true
    allowCloudMetadata := false
    blockedNetworks := []
    slots_le := fun _ => by decide }

/-- Everything goes well. -/
def webStart : StartUp :=
  { available := true
    api := some [⟨.v4, 0x0a000002, by decide⟩]
    install := (.done, .done)
    release := .done
    apiAgain := none
    installAgain := (.done, .done)
    selfTest := true
    resolvers := []
    tests := fun _ => ⟨40000, .done, true, .done, true, .done, true, .done⟩ }

theorem webStart_starts :
    (startUp webConfig webStart ⟨none, none, fun _ => none⟩).isSome = true := rfl

def webWorker : State :=
  { net := ((startUp webConfig webStart ⟨none, none, fun _ => none⟩).get webStart_starts).2
    filter := ((startUp webConfig webStart ⟨none, none, fun _ => none⟩).get webStart_starts).1
    watch := .idle
    stopping := false
    slots := fun _ => ⟨.starting, [], false⟩ }

theorem webWorker_begins : Begins webConfig webWorker :=
  ⟨⟨webStart, _, (Option.some_get webStart_starts).symm⟩, rfl, rfl,
    fun _ => ⟨rfl, rfl, fun _ ho => nomatch ho⟩⟩

def webLookup : Lookup := fun name =>
  if name = str "web1.lan" then some (.ok [⟨.v4, 0x0a000005, by decide⟩])
  else some (.error (str "Name or service not known"))

def webSpec : Spec :=
  { hosts := [⟨str "web1", str "web1.lan", true⟩], jumpHosts := [], extras := [], warnings := [] }

def webJob : Job := { kind := .run, egress := some webSpec, project := false }

def webGrant : Grant :=
  ⟨webLookup, allowlistOf (resolve webLookup) webSpec, readResolvers .ascii none⟩

/-- A restricted run starts a process, which forks. -/
def webSteps : List Label :=
  ([.sweep true, .claim (some .run), .fetch (some webJob), .restrict (some webLookup),
    .allow none .done, .report true, .prepare true, .spawn, .fork 0] : List Action).map (.slot 0)

theorem webSteps_run : ((system webConfig).run Lib.anyStep webWorker webSteps).isSome = true := rfl

def webRunning : State := ((system webConfig).run Lib.anyStep webWorker webSteps).get webSteps_run

theorem webRunning_reachable : (system webConfig).Reachable webRunning :=
  .of_isSome webWorker_begins webSteps webSteps_run

theorem webRunning_procs : (webRunning.slots 0).procs
    = [.job webJob (some webGrant), .job webJob (some webGrant)] := rfl

def lintJob : Job := { kind := .lint, egress := none, project := false }

/-- A check starts a process. -/
def lintSteps : List Label :=
  ([.sweep true, .claim (some .lint), .fetch (some lintJob), .prepare true, .spawn] :
    List Action).map (.slot 0)

theorem lintSteps_run : ((system webConfig).run Lib.anyStep webWorker lintSteps).isSome = true :=
  rfl

def lintRunning : State :=
  ((system webConfig).run Lib.anyStep webWorker lintSteps).get lintSteps_run

theorem lintRunning_reachable : (system webConfig).Reachable lintRunning :=
  .of_isSome webWorker_begins lintSteps lintSteps_run

theorem lintRunning_procs : (lintRunning.slots 0).procs = [.job lintJob none] := rfl

/-! ## What a process reaches -/

theorem Inv.own {s : State} (h : Inv cfg s) (hready : s.allowlistsReady = true) : s.net.Own := by
  intro n hn t ht
  by_cases hused : n < cfg.slots
  · exact (h.slots n hused).own hready t ht
  · rw [h.spare hready n hn (Nat.le_of_not_lt hused)] at ht
    cases ht

/-- The processes of a restricted run have the table of their job's entries. -/
theorem Inv.restricted {s : State} (h : Inv cfg s) {n : Nat} (hn : n < cfg.slots) {job : Job}
    {grant : Option Grant} (hproc : Owner.job job grant ∈ (s.slots n).procs) {spec : Spec}
    (hrun : job.kind = .run) (hspec : job.egress = some spec) :
    ∃ g report, grant = some g ∧
      resolveAllowlist (resolve g.getaddrinfo) spec = .ok (g.allowlist, report) ∧
      ∀ p : Packet, p.version ∈ versions cfg.ipv6 →
        (s.net.passes (uidOf n) p = true ↔ s.net.rejects p = false ∧ (Dns g.resolvers p ∨
          spec.Permits (resolve g.getaddrinfo) p.version p.dst p.protocol p.port)) := by
  obtain ⟨hgranted, hfits⟩ := (h.slots n hn).owners _ hproc
  cases grant with
  | none =>
    have hnone := hgranted hrun
    rw [hspec] at hnone
    cases hnone
  | some g =>
    obtain ⟨hisolated, hready, -, spec', report, hspec', hresolved⟩ := hgranted
    obtain rfl := Option.some.inj (hspec.symm.trans hspec')
    refine ⟨g, report, rfl, hresolved, fun p hversion => ?_⟩
    rw [passes_iff (h.own hready) (hn.trans_le (cfg.slots_le hisolated)), ← resolved_lets hresolved,
      ← accepts_slotRuleset hversion]
    refine and_congr_right fun _ => ⟨fun h => h _ hfits, fun h t ht => ?_⟩
    obtain rfl := Option.some.inj (hfits.symm.trans ht)
    exact h

/-- **A process of a restricted run reaches what its job permits**, in every state: a packet of it
gets out exactly if it isn't blocked for everybody and is a lookup or to what the job's entries
have, by the lookups that the slot was limited with. -/
theorem restricted_confined {s : State} (hreach : (system cfg).Reachable s) {n : Nat}
    (hn : n < cfg.slots) {job : Job} {grant : Option Grant}
    (hproc : Owner.job job grant ∈ (s.slots n).procs) {spec : Spec} (hrun : job.kind = .run)
    (hspec : job.egress = some spec) {p : Packet} (hversion : p.version ∈ versions cfg.ipv6) :
    ∃ g report, grant = some g ∧
      resolveAllowlist (resolve g.getaddrinfo) spec = .ok (g.allowlist, report) ∧
      (s.net.passes (uidOf n) p = true ↔ s.net.rejects p = false ∧ (Dns g.resolvers p ∨
        spec.Permits (resolve g.getaddrinfo) p.version p.dst p.protocol p.port)) := by
  obtain ⟨g, report, hg, hresolved, hpasses⟩ :=
    (inv_of_reachable hreach).restricted hn hproc hrun hspec
  exact ⟨g, report, hg, hresolved, hpasses p hversion⟩

theorem restricted_confined_web :
    ∃ g report, some webGrant = some g ∧
      resolveAllowlist (resolve g.getaddrinfo) webSpec = .ok (g.allowlist, report) ∧
      (webRunning.net.passes (uidOf 0) ⟨.v4, 0x0a000005, some .tcp, 22, 22⟩ = true ↔
        webRunning.net.rejects ⟨.v4, 0x0a000005, some .tcp, 22, 22⟩ = false ∧
          (Dns g.resolvers ⟨.v4, 0x0a000005, some .tcp, 22, 22⟩ ∨
            webSpec.Permits (resolve g.getaddrinfo) .v4 0x0a000005 (some .tcp) 22)) :=
  restricted_confined webRunning_reachable Nat.zero_lt_one
    (webRunning_procs ▸ List.mem_cons_self) rfl rfl (mem_versions_v4 true)

/-- **No other job is limited by it**: on a worker where allowlists work, a packet of any other
job's process gets out exactly if it isn't blocked for everybody. -/
theorem others_unlimited {s : State} (hreach : (system cfg).Reachable s)
    (hready : s.allowlistsReady = true)
    {n : Nat} (hn : n < cfg.slots) {job : Job} {grant : Option Grant}
    (hproc : Owner.job job grant ∈ (s.slots n).procs) (hother : job.kind = .run → job.egress = none)
    (p : Packet) : s.net.passes (uidOf n) p = true ↔ s.net.rejects p = false := by
  have hinv := inv_of_reachable hreach
  obtain ⟨hgranted, hfits⟩ := (hinv.slots n hn).owners _ hproc
  have hisolated : cfg.isolated = true := by
    cases hfilter : s.filter with
    | none =>
      rw [State.allowlistsReady, hfilter] at hready
      cases hready
    | some f => exact (hinv.filter f hfilter).isolated
  cases grant with
  | some g =>
    obtain ⟨-, -, hrun, spec, -, hspec, -⟩ := hgranted
    rw [hother hrun] at hspec
    cases hspec
  | none =>
    rw [passes_iff (hinv.own hready) (hn.trans_le (cfg.slots_le hisolated)), hfits hready]
    exact ⟨And.left, fun h => ⟨h, fun t ht => by cases ht⟩⟩

theorem others_unlimited_lint :
    lintRunning.net.passes (uidOf 0) ⟨.v4, 0x0a000005, some .tcp, 22, 22⟩ = true ↔
      lintRunning.net.rejects ⟨.v4, 0x0a000005, some .tcp, 22, 22⟩ = false :=
  others_unlimited lintRunning_reachable rfl Nat.zero_lt_one
    (lintRunning_procs ▸ List.mem_cons_self) (fun h => absurd h (by decide)) _

/-- **One job a slot**: the processes of a slot's user are all of one job, whatever earlier ones
left behind when they ended. -/
theorem one_job {s : State} (hreach : (system cfg).Reachable s) (hisolated : cfg.isolated = true)
    {n : Nat} (hn : n < cfg.slots) {owner other : Owner} (howner : owner ∈ (s.slots n).procs)
    (hother : other ∈ (s.slots n).procs) : owner = other :=
  ((inv_of_reachable hreach).slots n hn).one hisolated owner howner other hother

theorem one_job_forked : Owner.job webJob (some webGrant) = .job webJob (some webGrant) :=
  one_job webRunning_reachable rfl Nat.zero_lt_one (webRunning_procs ▸ List.mem_cons_self)
    (webRunning_procs ▸ List.mem_cons_of_mem _ List.mem_cons_self)

/-- **What is blocked stays blocked**: as long as the worker has its filter no packet of a slot's
user gets to cloud metadata and the other networks that don't change, nor to the API where its
address was last installed. -/
theorem always_blocked {s : State} (hreach : (system cfg).Reachable s) {f : Filter}
    (hfilter : s.filter = some f) {n : Nat} (hn : n < cfg.slots) {network : Network}
    (hnetwork : network ∈ cfg.static ∨
      s.watch = .idle ∧ f.healthy = true ∧ network ∈ f.networks)
    {p : Packet} (hversion : p.version ∈ versions cfg.ipv6)
    (hreaches : Reaches network p.version p.dst) : s.net.passes (uidOf n) p = false := by
  have hok := (inv_of_reachable hreach).filter f hfilter
  have hblocks : s.net.Blocks cfg.ipv6 network := by
    rcases hnetwork with hstatic | ⟨hidle, hhealthy, hmem⟩
    · exact hok.blocked network hstatic
    · exact hok.current hidle hhealthy network hmem
  exact rejected (hn.trans_le (cfg.slots_le hok.isolated)) (hblocks p hversion hreaches)

/-- 169.254.0.0/16. -/
def linkLocal : Network := ⟨.v4, 16, 0xa9fe, by decide, by decide⟩

theorem always_blocked_metadata :
    webRunning.net.passes (uidOf 0) ⟨.v4, 0xa9fea9fe, some .tcp, 80, 80⟩ = false :=
  always_blocked webRunning_reachable (Option.some_get rfl).symm Nat.zero_lt_one
    (.inl (show linkLocal ∈ webConfig.static by decide)) (mem_versions_v4 true)
    (.inr ⟨fun h => absurd h.1 (by decide), rfl, by decide⟩)

end Egress

end AnsiDeck
