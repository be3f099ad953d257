import AnsiDeck.RunTemplates.KeepMasked

/-!
# A template's secrets survive its editors, who never see them

What an editor sees after saving is the mask of what they sent, whatever is stored: nothing that was
masked can be moved to where it would show. What they left as it was shown is as it was stored.
-/

namespace AnsiDeck

namespace RunTemplates

open Lib (Json Str Unicode str)
open Lib.JsonText (Keyed)

variable {t : Unicode}

/-! ## Equality with what is shown -/

/-- A number is equal to nothing that is worth nothing. -/
theorem not_any_worth {v w : Json} (hw : worth w = none) :
    ((worth v).any fun x => worth w == some x) = false := by
  rw [hw]
  cases worth v with
  | none => rfl
  | some x => rfl

/-- A text is equal to itself only. -/
theorem pyEq_str {v : Json} {s : Str} : pyEq v (.str s) = true ↔ v = .str s := by
  cases v with
  | str a => rw [pyEq, beq_iff_eq, Json.str.injEq]
  | bool b => rw [pyEq, not_any_worth rfl]; exact ⟨Bool.noConfusion, Json.noConfusion⟩
  | int n => rw [pyEq, not_any_worth rfl]; exact ⟨Bool.noConfusion, Json.noConfusion⟩
  | float x => rw [pyEq, not_any_worth rfl]; exact ⟨Bool.noConfusion, Json.noConfusion⟩
  | _ => exact ⟨Bool.noConfusion, Json.noConfusion⟩

theorem pyEqItems_length {vs ws : List Json} (h : pyEqItems vs ws = true) :
    vs.length = ws.length := by
  induction vs generalizing ws with
  | nil =>
    cases ws with
    | nil => rfl
    | cons w ws => simp [pyEqItems] at h
  | cons v vs ih =>
    cases ws with
    | nil => simp [pyEqItems] at h
    | cons w ws =>
      rw [pyEqItems, Bool.and_eq_true] at h
      rw [List.length_cons, List.length_cons, ih h.2]

theorem pyEq_arr {v : Json} {ws : List Json} (h : pyEq v (.arr ws) = true) :
    ∃ vs, v = .arr vs ∧ vs.length = ws.length := by
  cases v with
  | arr vs =>
    rw [pyEq] at h
    exact ⟨vs, rfl, pyEqItems_length h⟩
  | bool b => rw [pyEq, not_any_worth rfl] at h; exact Bool.noConfusion h
  | int n => rw [pyEq, not_any_worth rfl] at h; exact Bool.noConfusion h
  | float x => rw [pyEq, not_any_worth rfl] at h; exact Bool.noConfusion h
  | _ => exact Bool.noConfusion h

theorem pyEq_obj {v : Json} {fs : List (Str × Json)} (h : pyEq v (.obj fs) = true) :
    ∃ es, v = .obj es := by
  cases v with
  | obj es => exact ⟨es, rfl⟩
  | bool b => rw [pyEq, not_any_worth rfl] at h; exact Bool.noConfusion h
  | int n => rw [pyEq, not_any_worth rfl] at h; exact Bool.noConfusion h
  | float x => rw [pyEq, not_any_worth rfl] at h; exact Bool.noConfusion h
  | _ => exact Bool.noConfusion h

/-! ## Masks -/

theorem maskItems_eq (underSecret : Bool) (items : List Json) :
    maskItems t underSecret items = items.map (mask t underSecret) := by
  induction items with
  | nil => rfl
  | cons v items ih => rw [maskItems, ih, List.map_cons]

theorem length_maskItems (underSecret : Bool) (items : List Json) :
    (maskItems t underSecret items).length = items.length := by
  rw [maskItems_eq, List.length_map]

theorem lookup_maskEntries (underSecret : Bool) (entries : List (Str × Json)) (k : Str) :
    (maskEntries t underSecret entries).lookup k =
      (entries.lookup k).map (mask t (underSecret || Scrub.isSecretKey t k)) := by
  induction entries with
  | nil => rfl
  | cons e entries ih =>
    obtain ⟨k', v⟩ := e
    rw [maskEntries, List.lookup_cons, List.lookup_cons]
    cases hk : k == k' with
    | true =>
      rw [beq_iff_eq] at hk
      subst hk
      rfl
    | false => exact ih

/-- Whether the two are read member by member. -/
def Alike : Json → Json → Prop
  | .obj _, .obj _ => True
  | .arr vs, .arr ws => vs.length = ws.length
  | _, _ => False

/-- A value that is kept as a whole is what was sent, or a secret whose mask was sent. -/
theorem restore_cases (t : Unicode) (underSecret : Bool) {sent stored : Json}
    (h : ¬ Alike sent stored) :
    restore sent stored (mask t underSecret stored) = sent ∨
      restore sent stored (mask t underSecret stored) = stored ∧ underSecret = true ∧
        sent = .str Scrub.redacted ∧ mask t underSecret stored = .str Scrub.redacted := by
  unfold restore
  split
  · next hkept =>
    refine .inr ⟨rfl, ?_⟩
    rw [Bool.and_eq_true, Bool.not_eq_true'] at hkept
    obtain ⟨hshown, hstored⟩ := hkept
    cases stored with
    | null => exact absurd hshown (by rw [mask, hstored]; exact Bool.false_ne_true)
    | bool b => exact absurd hshown (by rw [mask, hstored]; exact Bool.false_ne_true)
    | arr ws =>
      rw [mask] at hshown
      obtain ⟨vs, rfl, hlength⟩ := pyEq_arr hshown
      rw [length_maskItems] at hlength
      exact absurd hlength h
    | obj fs =>
      rw [mask] at hshown
      obtain ⟨es, rfl⟩ := pyEq_obj hshown
      exact absurd trivial h
    | int | float | str =>
      cases underSecret with
      | false =>
        rw [mask, if_neg Bool.false_ne_true, hstored] at hshown
        cases hshown
      | true =>
        rw [mask, if_pos rfl, pyEq_str] at hshown
        exact ⟨rfl, hshown, by rw [mask, if_pos rfl]⟩
  · exact .inl rfl

theorem mask_restore {underSecret : Bool} {sent stored : Json} (h : ¬ Alike sent stored) :
    mask t underSecret (restore sent stored (mask t underSecret stored))
      = mask t underSecret sent := by
  obtain hsent | ⟨hstored, rfl, rfl, hmask⟩ := restore_cases t underSecret h
  · rw [hsent]
  · rw [hstored, hmask, mask, if_pos rfl]

theorem keepMasked_eq_restore {sent stored : Json} (shown : Json)
    (hobj : ∀ es fs, sent = .obj es → stored ≠ .obj fs)
    (harr : ∀ vs ws, sent = .arr vs → stored ≠ .arr ws) :
    keepMasked sent stored shown = restore sent stored shown ∧ ¬ Alike sent stored := by
  cases sent with
  | obj es =>
    cases stored with
    | obj fs => exact absurd rfl (hobj es fs rfl)
    | _ => exact ⟨by rw [keepMasked] <;> simp, id⟩
  | arr vs =>
    cases stored with
    | arr ws => exact absurd rfl (harr vs ws rfl)
    | _ => exact ⟨by rw [keepMasked] <;> simp, id⟩
  | _ => exact ⟨by rw [keepMasked] <;> simp, id⟩

/-- Values that are not read member by member. -/
theorem mask_keepMasked_whole {underSecret : Bool} {sent stored : Json}
    (hobj : ∀ es fs, sent = .obj es → stored ≠ .obj fs)
    (harr : ∀ vs ws, sent = .arr vs → stored ≠ .arr ws) :
    mask t underSecret (keepMasked sent stored (mask t underSecret stored))
      = mask t underSecret sent := by
  obtain ⟨heq, halike⟩ := keepMasked_eq_restore (mask t underSecret stored) hobj harr
  rw [heq]
  exact mask_restore halike

mutual

/-- **What is saved is masked to the mask of what was sent.** -/
theorem mask_keepMasked (underSecret : Bool) : ∀ sent stored : Json,
    mask t underSecret (keepMasked sent stored (mask t underSecret stored))
      = mask t underSecret sent
  | .obj sent, .obj stored => by
    rw [mask, keepMasked, mask, mask]
    exact congrArg Json.obj (mask_keepEntries underSecret sent stored)
  | .arr sent, .arr stored => by
    rw [mask, keepMasked]
    split
    · next hlength =>
      rw [mask, mask]
      exact congrArg Json.arr (mask_keepItems underSecret sent stored hlength.1)
    · next hlength =>
      rw [length_maskItems] at hlength
      have halike : ¬ Alike (.arr sent) (.arr stored) := fun halike => hlength ⟨halike, rfl⟩
      exact mask_restore halike
  | .obj _, .null | .obj _, .bool _ | .obj _, .int _ | .obj _, .float _ | .obj _, .str _
  | .obj _, .arr _ | .arr _, .null | .arr _, .bool _ | .arr _, .int _ | .arr _, .float _
  | .arr _, .str _ | .arr _, .obj _ | .null, _ | .bool _, _ | .int _, _ | .float _, _
  | .str _, _ => mask_keepMasked_whole (by simp) (by simp)

theorem mask_keepItems (underSecret : Bool) : ∀ sent stored : List Json,
    sent.length = stored.length →
    maskItems t underSecret (keepItems sent stored (maskItems t underSecret stored))
      = maskItems t underSecret sent
  | [], _, _ => by
    rw [keepItems]
    simp
  | v :: sent, [], h => by cases h
  | v :: sent, w :: stored, h => by
    rw [maskItems, keepItems, maskItems, maskItems, mask_keepMasked underSecret v w,
      mask_keepItems underSecret sent stored (Nat.succ.inj h)]

theorem mask_keepEntries (underSecret : Bool) : ∀ sent stored : List (Str × Json),
    maskEntries t underSecret (keepEntries sent stored (maskEntries t underSecret stored))
      = maskEntries t underSecret sent
  | [], _ => by rw [keepEntries]
  | (k, v) :: sent, stored => by
    rw [keepEntries, maskEntries, maskEntries, mask_keepEntries underSecret sent stored,
      lookup_maskEntries]
    cases stored.lookup k with
    | none => rfl
    | some w =>
      rw [Option.map_some]
      dsimp only
      rw [mask_keepMasked _ v w]

end

/-! ## Sending back what was shown -/

theorem lookup_of_mem {entries : List (Str × Json)} (hnodup : (entries.map Prod.fst).Nodup)
    {e : Str × Json} (he : e ∈ entries) : entries.lookup e.1 = some e.2 := by
  induction entries with
  | nil => exact absurd he (by simp)
  | cons e' entries ih =>
    rw [List.map_cons, List.nodup_cons] at hnodup
    rcases List.mem_cons.1 he with rfl | he
    · exact List.lookup_cons_self
    · have hne : (e.1 == e'.1) = false := by
        rw [beq_eq_false_iff_ne]
        exact fun heq => hnodup.1 (heq ▸ List.mem_map_of_mem he)
      rw [List.lookup_cons, hne]
      exact ih hnodup.2 he

/-- A text that was put in place of the value gives the value. -/
theorem keepMasked_text (s : Str) (stored : Json) :
    keepMasked (.str s) stored (.str s) = stored := by
  rw [(keepMasked_eq_restore _ (by simp) (by simp)).1, restore]
  split
  · rfl
  · next hsame =>
    have hself : pyEq (.str s) (.str s) = true := pyEq_str.2 rfl
    rw [hself, Bool.true_and, Bool.not_eq_true', Bool.not_eq_false] at hsame
    cases stored <;> simp_all [pyEq]

/-- A value that is shown as it is. -/
theorem keepMasked_self {stored : Json} (shown : Json) (hobj : ∀ es, stored ≠ .obj es)
    (harr : ∀ vs, stored ≠ .arr vs) : keepMasked stored stored shown = stored := by
  rw [(keepMasked_eq_restore _ (fun es _ h => absurd h (hobj es))
    fun vs _ h => absurd h (harr vs)).1, restore]
  split <;> rfl

mutual

/-- What comes back as it was masked is as it was stored. -/
theorem keepMasked_mask (underSecret : Bool) : ∀ stored : Json, Keyed stored →
    keepMasked (mask t underSecret stored) stored (mask t underSecret stored) = stored
  | .obj entries, h => by
    rw [mask, keepMasked]
    refine congrArg Json.obj (keepEntries_mask underSecret entries entries (fun e he => ?_) ?_)
    · exact lookup_of_mem (h 0 entries .here) he
    · exact fun e he k fs hat => h (k + 1) fs (.member he hat)
  | .arr items, h => by
    rw [mask, keepMasked, if_pos ⟨length_maskItems .., (length_maskItems ..).symm⟩]
    exact congrArg Json.arr (keepItems_mask underSecret items fun v hv k fs hat =>
      h (k + 1) fs (.item hv hat))
  | .null, _ => by
    rw [mask]
    exact keepMasked_self _ (by simp) (by simp)
  | .bool _, _ => by
    rw [mask]
    exact keepMasked_self _ (by simp) (by simp)
  | .int _, _ => by
    rw [mask]
    split
    · exact keepMasked_text _ _
    · exact keepMasked_self _ (by simp) (by simp)
  | .float _, _ => by
    rw [mask]
    split
    · exact keepMasked_text _ _
    · exact keepMasked_self _ (by simp) (by simp)
  | .str _, _ => by
    rw [mask]
    split
    · exact keepMasked_text _ _
    · exact keepMasked_self _ (by simp) (by simp)

theorem keepItems_mask (underSecret : Bool) : ∀ stored : List Json, (∀ v ∈ stored, Keyed v) →
    keepItems (maskItems t underSecret stored) stored (maskItems t underSecret stored) = stored
  | [], _ => by
    rw [keepItems]
    simp
  | v :: stored, h => by
    rw [maskItems, keepItems, keepMasked_mask underSecret v (h v List.mem_cons_self),
      keepItems_mask underSecret stored fun w hw => h w (List.mem_cons_of_mem v hw)]

/-- `all` is what is looked up in, `stored` what is left of it. -/
theorem keepEntries_mask (underSecret : Bool) (all : List (Str × Json)) :
    ∀ stored : List (Str × Json), (∀ e ∈ stored, all.lookup e.1 = some e.2) →
    (∀ e ∈ stored, Keyed e.2) →
    keepEntries (maskEntries t underSecret stored) all (maskEntries t underSecret all) = stored
  | [], _, _ => by rw [maskEntries, keepEntries]
  | (k, v) :: stored, hall, h => by
    rw [maskEntries, keepEntries, lookup_maskEntries, hall (k, v) List.mem_cons_self,
      Option.map_some]
    dsimp only
    rw [keepMasked_mask _ v (h (k, v) List.mem_cons_self),
      keepEntries_mask underSecret all stored (fun e he => hall e (List.mem_cons_of_mem _ he))
        fun e he => h e (List.mem_cons_of_mem _ he)]

end

/-- The names alone. -/
def names (entries : List (Str × Json)) : List (Str × Json) :=
  entries.map fun e => (e.1, .str hiddenText)

theorem lookup_names (entries : List (Str × Json)) (k : Str) :
    (names entries).lookup k = (entries.lookup k).map fun _ => .str hiddenText := by
  induction entries with
  | nil => rfl
  | cons e entries ih =>
    obtain ⟨k', v⟩ := e
    rw [names, List.map_cons, List.lookup_cons, List.lookup_cons]
    cases k == k' with
    | true => rfl
    | false => exact ih

theorem keepEntries_names (all : List (Str × Json)) : ∀ stored : List (Str × Json),
    (∀ e ∈ stored, all.lookup e.1 = some e.2) →
    keepEntries (names stored) all (names all) = stored
  | [], _ => by rw [names, List.map_nil, keepEntries]
  | (k, v) :: stored, hall => by
    have hrest := keepEntries_names all stored fun e he => hall e (List.mem_cons_of_mem _ he)
    rw [names] at hrest
    rw [names, List.map_cons, keepEntries, lookup_names, hall (k, v) List.mem_cons_self,
      Option.map_some, hrest]
    dsimp only
    rw [keepMasked_text]

/-- **An editor who sends back what they were shown changes nothing**, whether they see the extra
vars with their secrets masked or only their names. -/
theorem savedVars_shown (canSee : Bool) {stored : ExtraVars}
    (h : ∀ entries, stored = some entries → Keyed (.obj entries)) :
    savedVars t canSee (shownVars t canSee stored) stored = stored := by
  cases stored with
  | none => rfl
  | some entries =>
    have hkeyed := h entries rfl
    have hlookup : ∀ e ∈ entries, entries.lookup e.1 = some e.2 := fun e he =>
      lookup_of_mem (hkeyed 0 entries .here) he
    refine congrArg some ?_
    cases canSee with
    | true =>
      exact keepEntries_mask false entries entries hlookup fun e he k fs hat =>
        hkeyed (k + 1) fs (.member he hat)
    | false => exact keepEntries_names entries entries hlookup

/-- A password and a plain value. -/
def vars (password : String) : List (Str × Json) :=
  [(str "db_password", .str (str password)), (str "host", .str (str "db1"))]

theorem savedVars_shown_password :
    savedVars .ascii true (shownVars .ascii true (some (vars "hunter2"))) (some (vars "hunter2"))
      = some (vars "hunter2") := by
  refine savedVars_shown true fun entries h => ?_
  obtain rfl := Option.some.inj h
  refine Lib.JsonText.keyed_obj (by decide) fun e he => ?_
  obtain rfl | rfl := List.mem_pair.1 he
  all_goals exact Lib.JsonText.keyed_scalar (by simp) (by simp)

/-! ## What editors learn -/

/-- What is stored after each of some edits, of somebody who sees extra vars or not. -/
def stores (t : Unicode) : ExtraVars → List (Bool × ExtraVars) → List ExtraVars
  | _, [] => []
  | stored, (canSee, sent) :: rest =>
    savedVars t canSee sent stored :: stores t (savedVars t canSee sent stored) rest

/-- What each editor is shown then. -/
def edits (t : Unicode) : ExtraVars → List (Bool × ExtraVars) → List ExtraVars
  | _, [] => []
  | stored, (canSee, sent) :: rest =>
    shownVars t canSee (savedVars t canSee sent stored) ::
      edits t (savedVars t canSee sent stored) rest

/-- What was kept by its name alone. -/
theorem mask_keepMasked_hidden (underSecret : Bool) (sent stored : Json) :
    mask t underSecret (keepMasked sent stored (.str hiddenText)) =
      if pyEq sent (.str hiddenText) then mask t underSecret stored
          else mask t underSecret sent := by
  cases hsent : pyEq sent (.str hiddenText) with
  | true => rw [if_pos rfl, pyEq_str.1 hsent, keepMasked_text]
  | false =>
    have hrestore : restore sent stored (.str hiddenText) = sent := by
      rw [restore, hsent, Bool.false_and, if_neg Bool.false_ne_true]
    have hwhole : keepMasked sent stored (.str hiddenText) = sent := by
      cases sent <;> cases stored <;> rw [keepMasked] <;> simp [hrestore]
    rw [if_neg Bool.false_ne_true, hwhole]

theorem maskEntries_keepEntries_names {stored stored' : List (Str × Json)}
    (hsame : maskEntries t false stored = maskEntries t false stored')
    (sent : List (Str × Json)) :
    maskEntries t false (keepEntries sent stored (names stored)) =
      maskEntries t false (keepEntries sent stored' (names stored')) := by
  induction sent with
  | nil => rw [keepEntries, keepEntries]
  | cons e sent ih =>
    obtain ⟨k, v⟩ := e
    have hlookup := congrArg (List.lookup k) hsame
    rw [lookup_maskEntries, lookup_maskEntries] at hlookup
    rw [keepEntries, keepEntries, maskEntries, maskEntries, lookup_names, lookup_names, ih]
    cases hw : stored.lookup k with
    | none =>
      rw [hw, Option.map_none, eq_comm, Option.map_eq_none_iff] at hlookup
      rw [hlookup]
    | some w =>
      rw [hw, Option.map_some, eq_comm, Option.map_eq_some_iff] at hlookup
      obtain ⟨w', hw', hmask⟩ := hlookup
      rw [hw', Option.map_some, Option.map_some]
      dsimp only
      rw [mask_keepMasked_hidden, mask_keepMasked_hidden, hmask]

/-- What an editor who sees the extra vars is shown after saving. -/
theorem shownVars_savedVars (sent stored : ExtraVars) :
    shownVars t true (savedVars t true sent stored) = shownVars t true sent := by
  cases sent with
  | none => rfl
  | some sent =>
    cases stored with
    | none => rfl
    | some stored => exact congrArg some (mask_keepEntries false sent stored)

/-- The names are those of the mask. -/
theorem names_of_mask {entries entries' : List (Str × Json)}
    (h : maskEntries t false entries = maskEntries t false entries') :
    names entries = names entries' := by
  have hnames : ∀ es : List (Str × Json), names (maskEntries t false es) = names es := by
    intro es
    induction es with
    | nil => rfl
    | cons e es ih =>
      rw [names] at ih ⊢
      rw [maskEntries, List.map_cons, ih]
      rfl
  rw [← hnames entries, h, hnames]

theorem shownVars_of_mask {stored stored' : ExtraVars} (canSee : Bool)
    (h : shownVars t true stored = shownVars t true stored') :
    shownVars t canSee stored = shownVars t canSee stored' := by
  cases canSee with
  | true => exact h
  | false =>
    cases stored with
    | none =>
      cases stored' with
      | none => rfl
      | some entries' => cases h
    | some entries =>
      cases stored' with
      | none => cases h
      | some entries' => exact congrArg some (names_of_mask (Option.some.inj h))

theorem mask_savedVars {stored stored' : ExtraVars} (canSee : Bool) (sent : ExtraVars)
    (h : shownVars t true stored = shownVars t true stored') :
    shownVars t true (savedVars t canSee sent stored) =
      shownVars t true (savedVars t canSee sent stored') := by
  cases canSee with
  | true => rw [shownVars_savedVars, shownVars_savedVars]
  | false =>
    cases sent with
    | none => rfl
    | some sent =>
      cases stored with
      | none =>
        cases stored' with
        | none => rfl
        | some entries' => cases h
      | some entries =>
        cases stored' with
        | none => cases h
        | some entries' =>
          exact congrArg some (maskEntries_keepEntries_names (Option.some.inj h) sent)

/-- Whatever is sent, what is stored after each edit is alike under the mask. -/
theorem stores_of_mask {stored stored' : ExtraVars}
    (h : shownVars t true stored = shownVars t true stored') (sent : List (Bool × ExtraVars)) :
    (stores t stored sent).map (shownVars t true) =
      (stores t stored' sent).map (shownVars t true) := by
  induction sent generalizing stored stored' with
  | nil => rfl
  | cons edit sent ih =>
    obtain ⟨canSee, vars⟩ := edit
    have hsaved := mask_savedVars canSee vars h
    rw [stores, stores, List.map_cons, List.map_cons, hsaved, ih hsaved]

/-- And so is what the editors are answered. -/
theorem answers_of_mask {stored stored' : ExtraVars}
    (h : shownVars t true stored = shownVars t true stored') (sent : List (Bool × ExtraVars)) :
    edits t stored sent = edits t stored' sent := by
  induction sent generalizing stored stored' with
  | nil => rfl
  | cons edit sent ih =>
    obtain ⟨canSee, vars⟩ := edit
    have hsaved := mask_savedVars canSee vars h
    rw [edits, edits, ih hsaved, shownVars_of_mask canSee hsaved]

/-- **No edits tell two secrets apart.** Where two templates show the same with their secrets
masked, whatever is sent to both, by people who see extra vars or not, is answered the same, and
what is stored after each edit shows the same with its secrets masked. -/
theorem edits_of_mask {stored stored' : ExtraVars}
    (h : shownVars t true stored = shownVars t true stored') (sent : List (Bool × ExtraVars)) :
    edits t stored sent = edits t stored' sent ∧
      (stores t stored sent).map (shownVars t true) =
        (stores t stored' sent).map (shownVars t true) :=
  ⟨answers_of_mask h sent, stores_of_mask h sent⟩

theorem vars_mask : shownVars .ascii true (some (vars "hunter2"))
    = shownVars .ascii true (some (vars "swordfish")) := by rfl

/-- Somebody sends the mark back, and somebody else hidden values. -/
def twoEdits : List (Bool × ExtraVars) :=
  [(true, some (vars "[REDACTED]")), (false, some (vars "[HIDDEN]"))]

theorem edits_of_mask_password :
    edits .ascii (some (vars "hunter2")) twoEdits =
      edits .ascii (some (vars "swordfish")) twoEdits ∧
      (stores .ascii (some (vars "hunter2")) twoEdits).map (shownVars .ascii true) =
        (stores .ascii (some (vars "swordfish")) twoEdits).map (shownVars .ascii true) :=
  edits_of_mask vars_mask _

/-! ## Where what is stored comes from -/

/-- A step into a value. -/
inductive Step
  | key (k : Str)
  | item (i : Nat)

/-- What stands at a place. -/
def at? : Json → List Step → Option Json
  | v, [] => some v
  | .obj entries, .key k :: place => (entries.lookup k).bind fun v => at? v place
  | .arr items, .item i :: place => items[i]?.bind fun v => at? v place
  | _, _ => none

/-- Neither an object nor a list. -/
def Scalar (v : Json) : Prop := (∀ es, v ≠ .obj es) ∧ ∀ vs, v ≠ .arr vs

/-- Two values have the same members and items on the way to a place, up to it. -/
def Together : Json → Json → List Step → Prop
  | _, _, [] => True
  | .obj es, .obj fs, .key k :: place =>
    ∃ v w, es.lookup k = some v ∧ fs.lookup k = some w ∧ Together v w place
  | .arr vs, .arr ws, .item i :: place =>
    vs.length = ws.length ∧ ∃ v w, vs[i]? = some v ∧ ws[i]? = some w ∧ Together v w place
  | _, _, _ => False

theorem lookup_keepEntries (sent stored shown : List (Str × Json)) (k : Str) :
    (keepEntries sent stored shown).lookup k = (sent.lookup k).map fun v =>
      match stored.lookup k, shown.lookup k with
      | some w, some x => keepMasked v w x
      | _, _ => v := by
  induction sent with
  | nil => rw [keepEntries]; rfl
  | cons e sent ih =>
    obtain ⟨k', v⟩ := e
    rw [keepEntries, List.lookup_cons, List.lookup_cons]
    cases hk : k == k' with
    | true =>
      rw [beq_iff_eq] at hk
      subst hk
      rfl
    | false => exact ih

theorem getElem?_keepItems (underSecret : Bool) (sent stored : List Json) (i : Nat)
    (hlength : sent.length = stored.length) :
    (keepItems sent stored (maskItems t underSecret stored))[i]? =
      sent[i]?.bind fun v => stored[i]?.map fun w => keepMasked v w (mask t underSecret w) := by
  induction sent generalizing stored i with
  | nil =>
    rw [keepItems]
    · simp
    · simp
  | cons v sent ih =>
    cases stored with
    | nil => cases hlength
    | cons w stored =>
      rw [maskItems, keepItems]
      cases i with
      | zero => rfl
      | succ i => exact ih stored i (Nat.succ.inj hlength)

theorem at?_scalar {v : Json} (h : Scalar v) (step : Step) (place : List Step) :
    at? v (step :: place) = none := by
  cases v with
  | obj es => exact absurd rfl (h.1 es)
  | arr vs => exact absurd rfl (h.2 vs)
  | _ => cases step <;> rfl

/-- Only what is no container is masked to the mark. -/
theorem scalar_of_mask {underSecret : Bool} {v : Json}
    (h : mask t underSecret v = .str Scrub.redacted) : Scalar v := by
  cases v with
  | obj es =>
    rw [mask] at h
    cases h
  | arr vs =>
    rw [mask] at h
    cases h
  | _ => exact ⟨by simp, by simp⟩

/-- Where a value comes from: it was sent there, or it stood there masked and the mask was sent. -/
def FromThere (underSecret : Bool) (t : Unicode) (sent stored : Json) (place : List Step)
    (x : Json) : Prop :=
  at? sent place = some x ∨
    at? stored place = some x ∧ at? sent place = some (.str Scrub.redacted) ∧
      at? (mask t underSecret stored) place = some (.str Scrub.redacted)

/-- The three ways two values are compared. -/
theorem keepMasked_cases (t : Unicode) (underSecret : Bool) (sent stored : Json) :
    (∃ es fs, sent = .obj es ∧ stored = .obj fs) ∨
      (∃ vs ws, sent = .arr vs ∧ stored = .arr ws ∧ vs.length = ws.length) ∨
        ¬ Alike sent stored ∧ keepMasked sent stored (mask t underSecret stored)
          = restore sent stored (mask t underSecret stored) := by
  by_cases hobj : ∃ es fs, sent = .obj es ∧ stored = .obj fs
  · exact .inl hobj
  by_cases harr : ∃ vs ws, sent = .arr vs ∧ stored = .arr ws
  · obtain ⟨vs, ws, rfl, rfl⟩ := harr
    by_cases hlength : vs.length = ws.length
    · exact .inr (.inl ⟨vs, ws, rfl, rfl, hlength⟩)
    · refine .inr (.inr ⟨hlength, ?_⟩)
      rw [mask, keepMasked, if_neg fun h => hlength h.1]
  · have hwhole := keepMasked_eq_restore (mask t underSecret stored)
      (fun es fs hes hfs => hobj ⟨es, fs, hes, hfs⟩) fun vs ws hvs hws => harr ⟨vs, ws, hvs, hws⟩
    exact .inr (.inr ⟨hwhole.2, hwhole.1⟩)

/-- A value that is kept as a whole. -/
theorem fromThere_whole {underSecret : Bool} {sent stored : Json} {place : List Step} {x : Json}
    (halike : ¬ Alike sent stored)
    (h : at? (restore sent stored (mask t underSecret stored)) place = some x) :
    FromThere underSecret t sent stored place x := by
  obtain hsent | ⟨hstored, -, rfl, hmask⟩ := restore_cases t underSecret halike
  · rw [hsent] at h
    exact .inl h
  · rw [hstored] at h
    cases place with
    | nil => exact .inr ⟨h, rfl, congrArg some hmask⟩
    | cons step place =>
      rw [at?_scalar (scalar_of_mask hmask)] at h
      cases h

/-- By the place: what is read member by member on the way to it, and what is kept as a whole. -/
theorem fromThere_keepMasked {x : Json} (hx : Scalar x) (place : List Step) :
    ∀ (underSecret : Bool) (sent stored : Json),
      at? (keepMasked sent stored (mask t underSecret stored)) place = some x →
      FromThere underSecret t sent stored place x := by
  induction place with
  | nil =>
    intro underSecret sent stored h
    obtain ⟨es, fs, rfl, rfl⟩ | ⟨vs, ws, rfl, rfl, hlength⟩ | ⟨halike, hkept⟩ :=
      keepMasked_cases t underSecret sent stored
    · rw [mask, keepMasked] at h
      exact absurd (Option.some.inj h).symm (hx.1 _)
    · rw [mask, keepMasked, if_pos ⟨hlength, (length_maskItems ..).symm⟩] at h
      exact absurd (Option.some.inj h).symm (hx.2 _)
    · rw [hkept] at h
      exact fromThere_whole halike h
  | cons step place ih =>
    intro underSecret sent stored h
    obtain ⟨es, fs, rfl, rfl⟩ | ⟨vs, ws, rfl, rfl, hlength⟩ | ⟨halike, hkept⟩ :=
      keepMasked_cases t underSecret sent stored
    · rw [mask, keepMasked] at h
      cases step with
      | item i => cases h
      | key k =>
        rw [at?, lookup_keepEntries, lookup_maskEntries, Option.bind_map,
          Option.bind_eq_some_iff] at h
        obtain ⟨v, hv, h⟩ := h
        cases hw : fs.lookup k with
        | none =>
          rw [hw] at h
          exact .inl (by rw [at?, hv]; exact h)
        | some w =>
          rw [hw] at h
          obtain hsent | ⟨hstored, hmark, hmask⟩ := ih _ v w h
          · exact .inl (by rw [at?, hv]; exact hsent)
          · refine .inr ⟨by rw [at?, hw]; exact hstored, by rw [at?, hv]; exact hmark, ?_⟩
            rw [mask, at?, lookup_maskEntries, hw]
            exact hmask
    · rw [mask, keepMasked, if_pos ⟨hlength, (length_maskItems ..).symm⟩] at h
      cases step with
      | key k => cases h
      | item i =>
        rw [at?, getElem?_keepItems underSecret vs ws i hlength, Option.bind_assoc,
          Option.bind_eq_some_iff] at h
        obtain ⟨v, hv, h⟩ := h
        obtain ⟨kept, hkept, h⟩ := Option.bind_eq_some_iff.1 h
        obtain ⟨w, hw, rfl⟩ := Option.map_eq_some_iff.1 hkept
        obtain hsent | ⟨hstored, hmark, hmask⟩ := ih _ v w h
        · exact .inl (by rw [at?, hv]; exact hsent)
        · refine .inr ⟨by rw [at?, hw]; exact hstored, by rw [at?, hv]; exact hmark, ?_⟩
          rw [mask, at?, maskItems_eq, List.getElem?_map, hw]
          exact hmask
    · rw [hkept] at h
      exact fromThere_whole halike h

/-- What stands masked where the mask was sent stays. -/
theorem at?_keepMasked_of_mark (place : List Step) :
    ∀ (underSecret : Bool) (sent stored : Json), Together sent stored place →
      at? sent place = some (.str Scrub.redacted) →
      at? (mask t underSecret stored) place = some (.str Scrub.redacted) →
      at? (keepMasked sent stored (mask t underSecret stored)) place = at? stored place := by
  induction place with
  | nil =>
    intro underSecret sent stored _ hsent hmask
    obtain rfl := Option.some.inj hsent
    rw [Option.some.inj hmask, keepMasked_text]
  | cons step place ih =>
    intro underSecret sent stored htogether hsent hmask
    unfold Together at htogether
    split at htogether
    · next heq => cases heq
    · next es fs k place' heq =>
      obtain ⟨rfl, rfl⟩ := List.cons.inj heq
      obtain ⟨v, w, hv, hw, htogether⟩ := htogether
      rw [mask, at?, lookup_maskEntries, hw] at hmask
      rw [at?, hv] at hsent
      rw [mask, keepMasked, at?, lookup_keepEntries, lookup_maskEntries, hv, hw, at?, hw]
      exact ih _ v w htogether hsent hmask
    · next vs ws i place' heq =>
      obtain ⟨rfl, rfl⟩ := List.cons.inj heq
      obtain ⟨hlength, v, w, hv, hw, htogether⟩ := htogether
      rw [mask, at?, maskItems_eq, List.getElem?_map, hw] at hmask
      rw [at?, hv] at hsent
      rw [mask, keepMasked, if_pos ⟨hlength, (length_maskItems ..).symm⟩, at?,
        getElem?_keepItems underSecret vs ws i hlength, hv, hw, at?, hw]
      exact ih _ v w htogether hsent hmask
    · exact htogether.elim

/-- **Nothing stored moves.** Every value in what is saved was sent to its place, or stands there in
what was stored, masked, and the mask was sent; and where an editor left a mask as it was shown, and
the lists around it as long, what is stored there stays. It is about people who see extra vars. -/
theorem savedVars_fromThere {sent stored saved : List (Str × Json)}
    (h : savedVars t true (some sent) (some stored) = some saved) :
    (∀ place x, Scalar x → at? (.obj saved) place = some x →
      FromThere false t (.obj sent) (.obj stored) place x) ∧
    ∀ place, Together (.obj sent) (.obj stored) place →
      at? (.obj sent) place = some (.str Scrub.redacted) →
      at? (mask t false (.obj stored)) place = some (.str Scrub.redacted) →
      at? (.obj saved) place = at? (.obj stored) place := by
  have hsaved : Json.obj saved
      = keepMasked (.obj sent) (.obj stored) (mask t false (.obj stored)) := by
    rw [mask, keepMasked]
    exact congrArg Json.obj (Option.some.inj h).symm
  rw [hsaved]
  exact ⟨fun place x hx => fromThere_keepMasked hx place false _ _,
    fun place => at?_keepMasked_of_mark place false _ _⟩

theorem vars_saved : savedVars .ascii true (some (vars "[REDACTED]")) (some (vars "hunter2"))
    = some (vars "hunter2") := by rfl

theorem savedVars_fromThere_password :
    (∀ place x, Scalar x → at? (.obj (vars "hunter2")) place = some x →
      FromThere false .ascii (.obj (vars "[REDACTED]")) (.obj (vars "hunter2")) place x) ∧
    ∀ place, Together (.obj (vars "[REDACTED]")) (.obj (vars "hunter2")) place →
      at? (.obj (vars "[REDACTED]")) place = some (.str Scrub.redacted) →
      at? (mask .ascii false (.obj (vars "hunter2"))) place = some (.str Scrub.redacted) →
      at? (.obj (vars "hunter2")) place = at? (.obj (vars "hunter2")) place :=
  savedVars_fromThere vars_saved

end RunTemplates

end AnsiDeck
