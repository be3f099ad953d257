import Mathlib.Data.List.TakeWhile
import AnsiDeck.RunWorker.Modes
import AnsiDeck.Scrub.Found
import AnsiDeck.Scrub.NoLongForm
import AnsiDeck.Scrub.Reports

/-!
# Cutting before scrubbing

The stderr of a refresh's calls, the names of a script's groups and the texts of a finding are cut
to their length first and scrubbed then, so a cut through a secret leaves a piece that is none of
the forms searched for. `LeftOver` says that a report has such a piece; it has one exactly when a
piece `Escapes`, that is when some place of the cut text where nothing is hidden spells it, and no
place of the whole text does. The cut of the error at its end comes after scrubbing and leaves
nothing over.
-/

namespace AnsiDeck.Scrub

open Lib
open Lib.Edit (Apart Cell apply cells cellsFrom chars span trace)
open RunWorker (Call CallOutcome ExitCode Python callMessages inventoryResult plainPython stderrTail
  tailOf)

/-- A text cut on either side. -/
structure Cut where
  before : Text
  kept : Text
  after : Text

/-- `text[:n]` -/
def headCut (n : Nat) (text : Text) : Cut := ⟨[], text.take n, text.drop n⟩

/-- `text[-n:]` -/
def tailCut (n : Nat) (text : Text) : Cut := ⟨text.take (text.length - n), last n text, []⟩

def commonPrefix : Text → Text → Text
  | c :: text, c' :: text' => if c = c' then c :: commonPrefix text text' else []
  | _, _ => []

/-- The longest text that both end with. -/
def commonSuffix (text text' : Text) : Text := (commonPrefix text.reverse text'.reverse).reverse

/-- The last `n` bytes, decoded: a character that the cut goes through is none of what is kept. -/
def byteCut (n : Nat) (bytes : List Nat) : Cut :=
  let text := Utf.decode bytes
  let kept := commonSuffix text (Utf.decode (last n bytes))
  ⟨text.take (text.length - kept.length), kept, []⟩

namespace Cut

def whole (c : Cut) : Text := c.before ++ (c.kept ++ c.after)

/-- The cut goes through an occurrence of `v` and keeps `k` of it. -/
def Severs (c : Cut) (v k : Text) : Prop :=
  (∃ l, l ≠ [] ∧ v = l ++ k ∧ l <:+ c.before ∧ k <+: c.kept) ∨
    ∃ r, r ≠ [] ∧ v = k ++ r ∧ k <:+ c.kept ∧ r <+: c.after

/-- Eight or more characters of what the cut keeps of a secret, and not of the marker's. -/
def Piece (c : Cut) (u : Unicode) (secrets : List Text) (z : Text) : Prop :=
  plainSubstringLen ≤ z.length ∧ ¬ z <:+: redacted ∧
    ∃ v ∈ forms u secrets, ∃ k, c.Severs v k ∧ z <:+: k

end Cut

/-- The report has a piece that scrubbing the whole text would not have left. -/
def LeftOver (u : Unicode) (secrets : List Text) (c : Cut) (report : Text) : Prop :=
  ∃ z, c.Piece u secrets z ∧ z <:+: report ∧ ¬ z <:+: scrubText u secrets c.whole

/-- `z` stands in the text at a place that is among these cells in one piece. -/
def SparedIn (cs : List (Cell Nat)) (text z : Text) : Prop :=
  ∃ a b, text = a ++ (z ++ b) ∧
    (List.range' a.length z.length).map some <:+: cs.map Prod.snd

/-- `z` stands in the text at a place where nothing is hidden. -/
def Spared (u : Unicode) (secrets : List Text) (text z : Text) : Prop :=
  ∃ cs, Left u secrets text cs ∧ SparedIn cs text z

/-- A piece is reported, but not spared in the whole text. -/
def Cut.Escapes (c : Cut) (u : Unicode) (secrets : List Text) (reported : Text → Prop) : Prop :=
  ∃ z, c.Piece u secrets z ∧ reported z ∧ ¬ Spared u secrets c.whole z

/-! ## What is left of a piece -/

theorem headCut_whole (n : Nat) (text : Text) : (headCut n text).whole = text :=
  List.take_append_drop n text

theorem tailCut_whole (n : Nat) (text : Text) : (tailCut n text).whole = text := by
  show text.take _ ++ (text.drop _ ++ []) = text
  rw [List.append_nil, List.take_append_drop]

theorem commonPrefix_prefix (text text' : Text) : commonPrefix text text' <+: text := by
  fun_induction commonPrefix text text' with
  | case1 c text text' ih => exact List.cons_prefix_cons.2 ⟨rfl, ih⟩
  | case2 => exact List.nil_prefix
  | case3 => exact List.nil_prefix

theorem byteCut_whole (n : Nat) (bytes : List Nat) :
    (byteCut n bytes).whole = Utf.decode bytes := by
  let text := Utf.decode bytes
  have hsuffix : commonSuffix text (Utf.decode (last n bytes)) <:+ text := by
    rw [← List.reverse_prefix, commonSuffix, List.reverse_reverse]
    exact commonPrefix_prefix _ _
  show text.take _ ++ (commonSuffix text _ ++ []) = text
  rw [List.append_nil]
  exact List.suffix_iff_eq_append.1 hsuffix

theorem prefix_commonPrefix : ∀ {z text text' : Text},
    z <+: text → z <+: text' → z <+: commonPrefix text text'
  | [], _, _, _, _ => List.nil_prefix
  | c :: z, text, text', h, h' => by
    obtain ⟨rest, rfl⟩ := h
    obtain ⟨rest', rfl⟩ := h'
    simp only [List.cons_append, commonPrefix, if_true, List.cons_prefix_cons, true_and]
    exact prefix_commonPrefix (List.prefix_append z rest) (List.prefix_append z rest')

theorem commonPrefix_comm (text text' : Text) :
    commonPrefix text text' = commonPrefix text' text := by
  fun_induction commonPrefix text text' with
  | case1 c text text' ih => simp [commonPrefix, ih]
  | case2 c text c' text' hne => simp [commonPrefix, Ne.symm hne]
  | case3 text text' hnot =>
    cases text' with
    | nil => cases text <;> rfl
    | cons c' text' =>
      cases text with
      | nil => rfl
      | cons c text => exact absurd rfl (hnot c text c' text' rfl)

/-- What the process decodes of the end is what the cut keeps, but for at most three characters. -/
theorem byteCut_kept (n : Nat) (bytes : List Nat) :
    ∃ lost, Utf.decode (last n bytes) = lost ++ (byteCut n bytes).kept ∧ lost.length ≤ 3 := by
  obtain ⟨x, y, z, hx, hy, hlen⟩ := Utf.decode_append (bytes.take (bytes.length - n)) (last n bytes)
  rw [last, List.take_append_drop] at hx
  have hkept : (byteCut n bytes).kept <:+ Utf.decode (last n bytes) := by
    rw [byteCut, commonSuffix, commonPrefix_comm, ← List.reverse_prefix, List.reverse_reverse]
    exact commonPrefix_prefix _ _
  have hz : z.length ≤ (byteCut n bytes).kept.length := by
    have hprefix : z.reverse <+: commonPrefix (Utf.decode bytes).reverse
        (Utf.decode (last n bytes)).reverse := by
      refine prefix_commonPrefix ?_ ?_
      · rw [List.reverse_prefix, hx]
        exact List.suffix_append x z
      · rw [List.reverse_prefix, hy]
        exact List.suffix_append y z
    simpa [byteCut, commonSuffix] using hprefix.length_le
  obtain ⟨lost, hlost⟩ := hkept
  refine ⟨lost, hlost.symm, ?_⟩
  have htotal := congrArg List.length (hlost.trans hy)
  simp only [List.length_append] at htotal
  omega

/-- The piece is part of the form. -/
theorem Cut.Severs.infix {c : Cut} {v k : Text} (h : c.Severs v k) : k <:+: v := by
  rcases h with ⟨l, -, rfl, -⟩ | ⟨r, -, rfl, -⟩
  · exact (List.suffix_append l k).isInfix
  · exact (List.prefix_append k r).isInfix

/-- Forms without brackets have no piece that overlaps the marker. -/
def LongFormsSafe (u : Unicode) (secrets : List Text) : Prop :=
  ∀ v ∈ forms u secrets, plainSubstringLen ≤ v.length → MarkerSafe v

theorem Cut.Piece.apart {c : Cut} {u : Unicode} {secrets : List Text}
    (hsafe : LongFormsSafe u secrets) {z : Text} (h : c.Piece u secrets z) : Apart redacted z := by
  obtain ⟨hlong, hmarker, v, hv, k, hk, hz⟩ := h
  have hpart : z <:+: v := hz.trans hk.infix
  obtain ⟨hopen, hclose, -, -⟩ := hsafe v hv (Nat.le_trans hlong hpart.length_le)
  exact apart_redacted (fun h => hopen (hpart.subset h)) (fun h => hclose (hpart.subset h)) hmarker

theorem infix_iff_sparedIn {u : Unicode} {secrets : List Text} {text z : Text}
    {cs : List (Cell Nat)} (hcs : cs <:+: left u secrets text) (hz : Apart redacted z) :
    z <:+: chars cs ↔ SparedIn cs text z := by
  obtain ⟨p, q, hleft⟩ := hcs
  constructor
  · rintro ⟨x, y, hout⟩
    rw [List.append_assoc] at hout
    obtain ⟨before, rest, rfl, rfl, hrest⟩ := List.map_eq_append_iff.1 hout.symm
    obtain ⟨ws, after, rfl, hchars, rfl⟩ := List.map_eq_append_iff.1 hrest
    have hchars : chars ws = z := hchars
    have hsplit : left u secrets text = (p ++ before) ++ (ws ++ (after ++ q)) := by
      rw [← hleft]
      simp
    obtain ⟨a, b, rfl, hws, -, -⟩ :=
      split_left (Edit.apart_inserted (hchars.symm ▸ hz)) hsplit
    rw [hchars] at hws
    refine ⟨a, b, by rw [hchars], before.map Prod.snd, after.map Prod.snd, ?_⟩
    rw [List.map_append, List.map_append, hws, Edit.snd_cellsFrom, List.append_assoc]
  · rintro ⟨a, b, rfl, x, y, hout⟩
    rw [List.append_assoc] at hout
    obtain ⟨before, rest, rfl, rfl, hrest⟩ := List.map_eq_append_iff.1 hout.symm
    obtain ⟨ws, after, rfl, hplaces, rfl⟩ := List.map_eq_append_iff.1 hrest
    have hsplit : left u secrets (a ++ (z ++ b)) = (p ++ before) ++ (ws ++ (after ++ q)) := by
      rw [← hleft]
      simp
    obtain ⟨rfl, -, -⟩ := split_left_of_places hz.ne_nil hplaces hsplit
    exact ⟨chars before, chars after, by simp⟩

theorem infix_scrubText_iff {u : Unicode} (hu : u.Tables) {secrets : List Text} {text z : Text}
    (hz : Apart redacted z) : z <:+: scrubText u secrets text ↔ Spared u secrets text z := by
  rw [← chars_left, infix_iff_sparedIn List.infix_rfl hz]
  simp only [Spared, left_iff hu, exists_eq_left]

theorem leftOver_iff {u : Unicode} (hu : u.Tables) {secrets : List Text}
    (hsafe : LongFormsSafe u secrets) (c : Cut) {report : Text} {reported : Text → Prop}
    (hreport : ∀ z, Apart redacted z → (z <:+: report ↔ reported z)) :
    LeftOver u secrets c report ↔ c.Escapes u secrets reported := by
  refine exists_congr fun z => and_congr_right fun hpiece => ?_
  have hapart := hpiece.apart hsafe
  rw [hreport z hapart, infix_scrubText_iff hu hapart]

/-- Where only the end was cut off, a piece is in what is kept. -/
theorem Cut.Piece.infix_kept {n : Nat} {text : Text} {u : Unicode} {secrets : List Text} {z : Text}
    (h : (headCut n text).Piece u secrets z) : z <:+: text.take n := by
  obtain ⟨-, -, v, -, k, hk, hz⟩ := h
  rcases hk with ⟨l, -, -, -, hk⟩ | ⟨r, -, -, hk, -⟩
  · exact hz.trans hk.isInfix
  · exact hz.trans hk.isInfix

/-- A text that is cut and then scrubbed. -/
theorem leftOver_scrubText_iff {u : Unicode} (hu : u.Tables) {secrets : List Text}
    (hsafe : LongFormsSafe u secrets) (c : Cut) (text : Text) :
    LeftOver u secrets c (scrubText u secrets text) ↔ c.Escapes u secrets (Spared u secrets text) :=
  leftOver_iff hu hsafe c fun _ hz => infix_scrubText_iff hu hz

/-- Nothing is left over of a text that is scrubbed before it is cut. -/
theorem not_severs_scrubbed {u : Unicode} {secrets : List Text} (hsafe : LongFormsSafe u secrets)
    {c : Cut} {text : Text} (hwhole : c.whole <:+: scrubText u secrets text) {z : Text} :
    ¬ c.Piece u secrets z := by
  rintro ⟨hlong, -, v, hv, k, hk, hz⟩
  have hvlong : plainSubstringLen ≤ v.length :=
    Nat.le_trans hlong (hz.trans hk.infix).length_le
  obtain ⟨hopen, hclose, -, hpart⟩ := hsafe v hv hvlong
  refine not_infix_scrubText hv hvlong (apart_redacted hopen hclose hpart) text
    (List.IsInfix.trans ?_ hwhole)
  unfold Cut.whole
  rcases hk with ⟨l, -, rfl, ⟨x, hx⟩, ⟨y, hy⟩⟩ | ⟨r, -, rfl, ⟨x, hx⟩, ⟨y, hy⟩⟩
  · exact ⟨x, y ++ c.after, by rw [← hx, ← hy]; simp⟩
  · exact ⟨c.before ++ x, y, by rw [← hx, ← hy]; simp⟩

/-- Nor of one that is not cut at all. -/
theorem not_piece_of_nil {u : Unicode} {secrets : List Text} {c : Cut} (hbefore : c.before = [])
    (hafter : c.after = []) {z : Text} : ¬ c.Piece u secrets z := by
  rintro ⟨-, -, v, -, k, hk, -⟩
  rcases hk with ⟨l, hl, -, hlb, -⟩ | ⟨r, hr, -, -, hra⟩
  · rw [hbefore] at hlb
    exact hl (List.suffix_nil.1 hlb)
  · rw [hafter] at hra
    exact hr (List.prefix_nil.1 hra)

/-! ## The error of a refresh -/

/-- The cuts that a call's process makes in what it sends. -/
def outcomeCuts (py : Python) : CallOutcome → List Cut
  | .script (.exited _ _ stderr) =>
    [byteCut stderrTail stderr, tailCut 500 (py.unicode.strip (tailOf stderr))]
  | .script (.notAGroup name) | .script (.hosts name) | .script (.children name) =>
    [headCut 100 name]
  | .ran rc stderr _ _ _ => if rc.1 ≠ 0 then [byteCut stderrTail stderr] else []
  | _ => []

section

variable (u : Unicode) (secrets : List Text) (cuts : List Cut) (stderr : Text) (rc : Option Int)

/-- The text whose end is reported where there are no error lines. -/
def refreshCut : Cut := tailCut summaryChars (strip u.isSpace (withoutPaths u stderr))

/-- No cut leaves anything over in the error, of those before it and its own. -/
structure ErrorWhole : Prop where
  before : ∀ c ∈ cuts, ¬ LeftOver u secrets c (refreshError u secrets stderr rc)
  summary : errorLines (withoutPaths u stderr) = [] →
    ¬ LeftOver u secrets (refreshCut u stderr) (refreshError u secrets stderr rc)
  error : ¬ LeftOver u secrets (tailCut errorChars (refreshSummary u secrets stderr))
    (refreshError u secrets stderr rc)

/-- `z` is in the error: it is spared in the end of the error lines, or of the text, that is
reported; where nothing is left of them, the exit code is, and `z` is in what is said of it. -/
def ErrorShows (z : Text) : Prop :=
  ∃ cs, Left u secrets (refreshText u stderr) cs ∧
    let shown := strip (fun c => u.isSpace c.1) cs
    if shown = [] then z <:+: last errorChars (refreshFailed rc)
    else SparedIn (last errorChars shown) (refreshText u stderr) z

/-- No piece escapes into the error. -/
structure ErrorHolds : Prop where
  before : ∀ c ∈ cuts, ¬ c.Escapes u secrets (ErrorShows u secrets stderr rc)
  summary : errorLines (withoutPaths u stderr) = [] →
    ¬ (refreshCut u stderr).Escapes u secrets (ErrorShows u secrets stderr rc)

end

section

variable (u : Unicode) (secrets : List Text) (py : Python) (limit : Nat) (o : CallOutcome)

/-- No cut leaves anything over in the error of a call that fails. -/
def RefreshWhole : Prop :=
  ∀ rc stderr, o.failure py limit = some (rc, stderr) →
    ErrorWhole u secrets (outcomeCuts py o) stderr (some rc.1)

def RefreshHolds : Prop :=
  ∀ rc stderr, o.failure py limit = some (rc, stderr) →
    ErrorHolds u secrets (outcomeCuts py o) stderr (some rc.1)

end

theorem message_ne {type type' : String} {fields fields' : List (String × Lib.Json)}
    (h : Lib.str type ≠ Lib.str type') :
    RunWorker.message type fields ≠ RunWorker.message type' fields' := by
  intro heq
  simp only [RunWorker.message, Lib.Json.obj.injEq, List.cons.injEq, Prod.mk.injEq,
    Lib.Json.str.injEq] at heq
  exact h heq.1.2

theorem inventoryResult_inj {key key' stderr stderr' : Text} {rc rc' : ExitCode}
    (h : inventoryResult key rc stderr = inventoryResult key' rc' stderr') :
    key = key' ∧ rc = rc' ∧ stderr = stderr' := by
  simp only [inventoryResult, RunWorker.message, List.map_cons, List.map_nil, Lib.Json.obj.injEq,
    List.cons.injEq, Prod.mk.injEq, Lib.Json.str.injEq, Lib.Json.int.injEq] at h
  obtain ⟨-, ⟨-, hkey⟩, ⟨-, hrc⟩, ⟨-, hstderr⟩, -⟩ := h
  exact ⟨hkey, Subtype.ext hrc, hstderr⟩

/-- What the runner hears of a call that failed is what its process makes of how it failed. -/
theorem exists_failure {py : Python} {limit : Nat} {key stderr : Text} {rc : ExitCode}
    (hrc : rc.1 ≠ 0) {calls : List Call} : ∀ {failed : Bool},
    inventoryResult key rc stderr ∈ callMessages py limit calls failed →
      ∃ call ∈ calls, call.key = key ∧ call.outcome.failure py limit = some (rc, stderr) := by
  induction calls with
  | nil =>
    intro failed h
    rw [callMessages, List.mem_singleton] at h
    exact absurd h (message_ne (by decide))
  | cons call calls ih =>
    intro failed h
    have hlater : ∀ {failed}, inventoryResult key rc stderr ∈ callMessages py limit calls failed →
        ∃ call' ∈ call :: calls, call'.key = key ∧
          call'.outcome.failure py limit = some (rc, stderr) := by
      intro failed h
      obtain ⟨call', hcall', hfailure⟩ := ih h
      exact ⟨call', List.mem_cons_of_mem _ hcall', hfailure⟩
    have hfirst : ∀ {rc' : ExitCode} {stderr' : Text},
        call.outcome.failure py limit = some (rc', stderr') →
        inventoryResult key rc stderr = inventoryResult call.key rc' stderr' →
        ∃ call' ∈ call :: calls, call'.key = key ∧
          call'.outcome.failure py limit = some (rc, stderr) := by
      intro rc' stderr' hfailure heq
      obtain ⟨rfl, rfl, rfl⟩ := inventoryResult_inj heq
      exact ⟨call, List.mem_cons_self, rfl, hfailure⟩
    rw [callMessages] at h
    split at h
    · rw [List.mem_singleton] at h
      exact absurd h (message_ne (by decide))
    · cases houtcome : call.outcome with
      | raised why =>
        rw [houtcome] at h
        exact absurd (List.mem_singleton.1 h) (message_ne (by decide))
      | script problem =>
        rw [houtcome] at h
        rcases List.mem_cons.1 h with heq | h
        · have hfailure : call.outcome.failure py limit =
              some (RunWorker.codeOne, problem.text py limit) := by
            rw [houtcome]
            rfl
          exact hfirst hfailure heq
        · exact hlater h
      | ran rc' stderr' size output fails =>
        rw [houtcome] at h
        dsimp only at h
        split at h
        · next hfailed =>
          rcases List.mem_cons.1 h with heq | h
          · have hfailure : call.outcome.failure py limit = some (rc', tailOf stderr') := by
              rw [houtcome, CallOutcome.failure, if_pos hfailed]
            exact hfirst hfailure heq
          · exact hlater h
        · next hended =>
          split at h
          · next hlarge =>
            rcases List.mem_cons.1 h with heq | h
            · refine hfirst ?_ heq
              rw [houtcome, CallOutcome.failure, if_neg hended, if_pos hlarge]
            · exact hlater h
          · -- the output, and exit code 0
            rcases List.mem_append.1 h with h | h
            · obtain ⟨chunk, -, heq⟩ := List.mem_map.1 h
              have hne : RunWorker.outputMessage call.key chunk ≠ inventoryResult key rc stderr :=
                message_ne (by decide)
              exact absurd heq hne
            · cases fails with
              | some why => exact absurd (List.mem_singleton.1 h) (message_ne (by decide))
              | none =>
                rcases List.mem_cons.1 h with heq | h
                · obtain ⟨-, rfl, -⟩ := inventoryResult_inj heq
                  exact absurd hrc hended
                · exact hlater h

theorem isInfix_strip {α : Type} (p : α → Bool) (text : List α) : strip p text <:+: text := by
  have hsuffix : (strip p text).reverse <:+ (text.dropWhile p).reverse := by
    rw [strip, List.reverse_reverse]
    exact List.dropWhile_suffix p
  exact (List.reverse_suffix.1 hsuffix).isInfix.trans (List.dropWhile_suffix p).isInfix

theorem last_suffix {α : Type} (n : Nat) (text : List α) : last n text <:+ text :=
  List.drop_suffix _ _

theorem chars_last (n : Nat) (cs : List (Cell Nat)) : chars (last n cs) = last n (chars cs) := by
  rw [last, last, chars, List.map_drop, chars, List.length_map]

theorem chars_strip (p : Nat → Bool) (cs : List (Cell Nat)) :
    chars (strip (fun c => p c.1) cs) = strip p (chars cs) := by
  have hdrop : ∀ l : List (Cell Nat),
      (l.dropWhile fun c => p c.1).map Prod.fst = (l.map Prod.fst).dropWhile p := by
    intro l
    rw [List.dropWhile_map]
    rfl
  rw [strip, strip, chars, chars, List.map_reverse, hdrop, List.map_reverse, hdrop]

theorem infix_refreshError_iff {u : Unicode} (hu : u.Tables) {secrets : List Text} {stderr z : Text}
    (rc : Option Int) (hz : Apart redacted z) :
    z <:+: refreshError u secrets stderr rc ↔ ErrorShows u secrets stderr rc z := by
  let text := refreshText u stderr
  let shown := strip (fun c => u.isSpace c.1) (left u secrets text)
  have hsummary : chars shown = refreshSummary u secrets stderr := by
    rw [chars_strip, chars_left]
    rfl
  have hempty : refreshSummary u secrets stderr = [] ↔ shown = [] := by
    rw [← hsummary]
    exact List.map_eq_nil_iff
  have hshows : ErrorShows u secrets stderr rc z ↔
      if shown = [] then z <:+: last errorChars (refreshFailed rc)
      else SparedIn (last errorChars shown) text z := by
    simp only [ErrorShows, left_iff hu, exists_eq_left]
    rfl
  rw [hshows, refreshError]
  by_cases hshown : shown = []
  · rw [if_pos hshown, if_pos (hempty.2 hshown)]
  · have hinfix : last errorChars shown <:+: left u secrets text :=
      (last_suffix _ _).isInfix.trans (isInfix_strip _ _)
    rw [if_neg hshown, if_neg (mt hempty.1 hshown), ← hsummary, ← chars_last,
      infix_iff_sparedIn hinfix hz]

/-- The cut at the end of the error comes after scrubbing. -/
theorem not_leftOver_error {u : Unicode} {secrets : List Text} (hsafe : LongFormsSafe u secrets)
    (stderr report : Text) :
    ¬ LeftOver u secrets (tailCut errorChars (refreshSummary u secrets stderr)) report := by
  rintro ⟨z, hpiece, -⟩
  have hwhole : (tailCut errorChars (refreshSummary u secrets stderr)).whole <:+:
      scrubText u secrets (refreshText u stderr) := by
    rw [tailCut_whole]
    exact isInfix_strip _ _
  exact not_severs_scrubbed hsafe hwhole hpiece

theorem errorWhole_iff {u : Unicode} (hu : u.Tables) {secrets : List Text}
    (hsafe : LongFormsSafe u secrets) (cuts : List Cut) (stderr : Text) (rc : Option Int) :
    ErrorWhole u secrets cuts stderr rc ↔ ErrorHolds u secrets cuts stderr rc := by
  have hcut : ∀ c, LeftOver u secrets c (refreshError u secrets stderr rc) ↔
      c.Escapes u secrets (ErrorShows u secrets stderr rc) :=
    fun c => leftOver_iff hu hsafe c fun _ hz => infix_refreshError_iff hu rc hz
  constructor
  · intro h
    refine ⟨fun c hc => ?_, fun herrors => ?_⟩
    · rw [← hcut]
      exact h.before c hc
    · rw [← hcut]
      exact h.summary herrors
  · intro h
    refine ⟨fun c hc => ?_, fun herrors => ?_, not_leftOver_error hsafe _ _⟩
    · rw [hcut]
      exact h.before c hc
    · rw [hcut]
      exact h.summary herrors

theorem refreshWhole_iff {u : Unicode} (hu : u.Tables) {secrets : List Text}
    (hsafe : LongFormsSafe u secrets) (py : Python) (limit : Nat) (o : CallOutcome) :
    RefreshWhole u secrets py limit o ↔ RefreshHolds u secrets py limit o :=
  forall_congr' fun _ => forall_congr' fun _ => forall_congr' fun _ =>
    errorWhole_iff hu hsafe _ _ _

/-! ## The findings of a check -/

section

variable (u : Unicode) (secrets : List Text) (shown : Value → Text) (clean : Text → Text)
  (target : Text)

/-- A finding of an issue as it is reported, among those of all the issues. -/
def Reports (issues : Value) (maxFindings : Nat) (issue : Value) (g : Finding) : Prop :=
  ∃ findings total external f,
    lintFindings shown clean target issues maxFindings = .ok (findings, total, external) ∧
    f ∈ findings ∧ issue ∈ issuesOf issues ∧
    issueFinding shown clean target issue = .ok (some f) ∧ g = scrubFinding u secrets f

/-- No cut leaves anything over in the finding's texts. -/
structure FindingWhole (issue : Value) (g : Finding) : Prop where
  rule : ¬ LeftOver u secrets (headCut ruleChars (rawRule shown issue)) g.rule
  message : ¬ LeftOver u secrets (headCut messageChars (rawMessage shown clean issue)) g.message
  /-- The message is the rule, as it was cut, where there is no description. -/
  undescribed : truthy (issue.get "description") = false →
    ¬ LeftOver u secrets (headCut ruleChars (rawRule shown issue)) g.message
  details : ∀ raw details, rawDetails shown clean issue = some raw → g.details = some details →
    ¬ LeftOver u secrets (headCut detailsChars raw) details
  path : ¬ LeftOver u secrets (headCut pathChars (findingPath shown clean target issue)) g.path
  url : ∀ raw url, rawUrl issue = some raw → g.url = some url →
    ¬ LeftOver u secrets (headCut urlChars raw) url

/-- A piece escapes where a text is cut and then scrubbed. -/
def EscapesCut (c : Cut) (text : Text) : Prop := c.Escapes u secrets (Spared u secrets text)

/-- No piece escapes in any of the issue's texts; a URL is not scrubbed. -/
structure FindingHolds (issue : Value) : Prop where
  rule : ¬ EscapesCut u secrets (headCut ruleChars (rawRule shown issue)) (findingRule shown issue)
  message : ¬ EscapesCut u secrets (headCut messageChars (rawMessage shown clean issue))
    ((rawMessage shown clean issue).take messageChars)
  undescribed : truthy (issue.get "description") = false →
    ¬ EscapesCut u secrets (headCut ruleChars (rawRule shown issue))
      ((rawMessage shown clean issue).take messageChars)
  details : ∀ raw, rawDetails shown clean issue = some raw →
    ¬ EscapesCut u secrets (headCut detailsChars raw) (raw.take detailsChars)
  path : ¬ EscapesCut u secrets (headCut pathChars (findingPath shown clean target issue))
    ((findingPath shown clean target issue).take pathChars)
  url : ∀ raw, rawUrl issue = some raw →
    ∀ z, (headCut urlChars raw).Piece u secrets z → Spared u secrets raw z

end

/-- What is reported of an issue, before it is scrubbed. -/
theorem issueFinding_eq_some {shown : Value → Text} {clean : Text → Text} {target : Text}
    {issue : Value} {f : Finding} (h : issueFinding shown clean target issue = .ok (some f)) :
    f.rule = findingRule shown issue ∧
      f.message = (rawMessage shown clean issue).take messageChars ∧
      f.details = (rawDetails shown clean issue).map (·.take detailsChars) ∧
      f.path = (findingPath shown clean target issue).take pathChars ∧
      f.url = (rawUrl issue).map (·.take urlChars) := by
  unfold issueFinding at h
  dsimp only at h
  split at h
  · exact absurd h (by simp [pure, Except.pure])
  · cases hposition : findingPosition issue with
    | error e =>
      rw [hposition] at h
      exact absurd h (by simp [bind, Except.bind])
    | ok position =>
      rw [hposition] at h
      obtain rfl := (Option.some.inj (Except.ok.inj h)).symm
      exact ⟨rfl, rfl, rfl, rfl, rfl⟩

theorem findingWhole_iff {u : Unicode} (hu : u.Tables) {secrets : List Text}
    (hsafe : LongFormsSafe u secrets) {shown : Value → Text} {clean : Text → Text} {target : Text}
    {issue : Value} {f : Finding}
    (h : issueFinding shown clean target issue = .ok (some f)) :
    FindingWhole u secrets shown clean target issue (scrubFinding u secrets f) ↔
      FindingHolds u secrets shown clean target issue := by
  obtain ⟨hrule, hmessage, hdetails, hpath, hurl⟩ := issueFinding_eq_some h
  have hscrubbed : ∀ c text, LeftOver u secrets c (scrubText u secrets text) ↔
      EscapesCut u secrets c text := leftOver_scrubText_iff hu hsafe
  have hgrule : (scrubFinding u secrets f).rule = scrubText u secrets (findingRule shown issue) :=
    congrArg (scrubText u secrets) hrule
  have hgmessage : (scrubFinding u secrets f).message
      = scrubText u secrets ((rawMessage shown clean issue).take messageChars) :=
    congrArg (scrubText u secrets) hmessage
  have hgpath : (scrubFinding u secrets f).path
      = scrubText u secrets ((findingPath shown clean target issue).take pathChars) :=
    congrArg (scrubText u secrets) hpath
  have hgdetails : (scrubFinding u secrets f).details = (rawDetails shown clean issue).map
      fun raw => scrubText u secrets (raw.take detailsChars) := by
    show f.details.map _ = _
    rw [hdetails, Option.map_map]
    rfl
  have hraw : ∀ raw, LeftOver u secrets (headCut urlChars raw) (raw.take urlChars) ↔
      ¬ ∀ z, (headCut urlChars raw).Piece u secrets z → Spared u secrets raw z := by
    intro raw
    rw [not_forall, LeftOver, headCut_whole]
    refine exists_congr fun z => ?_
    constructor
    · rintro ⟨hpiece, -, hnot⟩
      rw [infix_scrubText_iff hu (hpiece.apart hsafe)] at hnot
      exact fun hall => hnot (hall hpiece)
    · intro hnot
      obtain ⟨hpiece, hnot⟩ := Classical.not_imp.1 hnot
      rw [← infix_scrubText_iff hu (hpiece.apart hsafe)] at hnot
      exact ⟨hpiece, hpiece.infix_kept, hnot⟩
  constructor
  · intro hw
    refine ⟨?_, ?_, ?_, ?_, ?_, ?_⟩
    · rw [← hscrubbed, ← hgrule]
      exact hw.rule
    · rw [← hscrubbed, ← hgmessage]
      exact hw.message
    · intro hnone
      rw [← hscrubbed, ← hgmessage]
      exact hw.undescribed hnone
    · intro raw hsome
      rw [← hscrubbed]
      exact hw.details raw _ hsome (by rw [hgdetails, hsome]; rfl)
    · rw [← hscrubbed, ← hgpath]
      exact hw.path
    · intro raw hsome
      have := hw.url raw _ hsome (by show f.url = _; rw [hurl, hsome]; rfl)
      rwa [hraw, not_not] at this
  · intro hh
    refine ⟨?_, ?_, ?_, ?_, ?_, ?_⟩
    · rw [hgrule, hscrubbed]
      exact hh.rule
    · rw [hgmessage, hscrubbed]
      exact hh.message
    · intro hnone
      rw [hgmessage, hscrubbed]
      exact hh.undescribed hnone
    · intro raw details hsome hg
      rw [hgdetails, hsome] at hg
      obtain rfl := Option.some.inj hg
      rw [hscrubbed]
      exact hh.details raw hsome
    · rw [hgpath, hscrubbed]
      exact hh.path
    · intro raw url hsome hg
      have hg : f.url = some url := hg
      rw [hurl, hsome] at hg
      obtain rfl := Option.some.inj hg
      rw [hraw, not_not]
      exact hh.url raw hsome

/-- **What a cut leaves of a secret is reported exactly when it escapes**, in the error of a refresh
and in the texts of a finding. -/
theorem no_piece_left (u : Unicode) (hu : u.Tables) (secrets : List Text)
    (hsafe : LongFormsSafe u secrets) :
    (∀ py limit o, RefreshWhole u secrets py limit o ↔ RefreshHolds u secrets py limit o) ∧
    ∀ shown clean target issues maxFindings,
      (∀ issue g, Reports u secrets shown clean target issues maxFindings issue g →
        FindingWhole u secrets shown clean target issue g) ↔
      ∀ issue g, Reports u secrets shown clean target issues maxFindings issue g →
        FindingHolds u secrets shown clean target issue := by
  refine ⟨refreshWhole_iff hu hsafe, fun shown clean target issues maxFindings => ?_⟩
  refine forall_congr' fun issue => forall_congr' fun g => forall_congr' fun hreports => ?_
  obtain ⟨-, -, -, f, -, -, -, hf, rfl⟩ := hreports
  exact findingWhole_iff hu hsafe hf

def hunter : Text := txt "hunter2-secret-token"

theorem hunter_safe : LongFormsSafe ascii [hunter] := by
  unfold LongFormsSafe
  decide +kernel

/-- A script fails, and says little. -/
def shortProblem : RunWorker.ScriptProblem :=
  .exited .list ⟨2, by decide⟩ (txt "the token is hunter2-secret-token")

def shortFailure : CallOutcome := .script shortProblem

def shortError : Text := shortProblem.text plainPython 1000

theorem shortFailure_eq :
    shortFailure.failure plainPython 1000 = some (RunWorker.codeOne, shortError) := rfl

theorem shortFailure_whole : ∀ c ∈ outcomeCuts plainPython shortFailure, c.before = [] ∧
    c.after = [] := by
  decide +kernel

/-- An error that is short enough is not cut. -/
theorem no_piece_left_short : RefreshWhole ascii [hunter] plainPython 1000 shortFailure := by
  refine ((no_piece_left ascii tables_ascii [hunter] hunter_safe).1 _ _ _).2 ?_
  intro rc stderr hfailure
  rw [shortFailure_eq] at hfailure
  obtain ⟨rfl, rfl⟩ := Prod.mk.inj (Option.some.inj hfailure)
  constructor
  · rintro c hc ⟨z, hpiece, -⟩
    obtain ⟨hbefore, hafter⟩ := shortFailure_whole c hc
    exact not_piece_of_nil hbefore hafter hpiece
  · rintro - ⟨z, hpiece, -⟩
    have hbefore : (refreshCut ascii shortError).before = [] := by decide +kernel
    exact not_piece_of_nil hbefore rfl hpiece

/-- No match of the expression begins at a blank that comes first or after another one. -/
structure SkipsBlanks (r : Expr) : Prop where
  first : ∀ rest, r.matchAt [] (32 :: rest) = none
  next : ∀ before rest, r.matchAt (32 :: before) (32 :: rest) = none

theorem SkipsBlanks.subFrom {p : Pass} (h : SkipsBlanks p.pattern.regex) (w : Text) (n m : Nat) :
    p.pattern.subFrom p.repl (List.replicate m 32) (List.replicate n 32 ++ w) 0 =
      List.replicate n 32 ++ p.pattern.subFrom p.repl (List.replicate (m + n) 32) w 0 := by
  -- on the blanks to come, for any number that have been passed
  induction n generalizing m with
  | zero => rfl
  | succ n ih =>
    have hnone : p.pattern.regex.matchAt (List.replicate m 32)
        (32 :: (List.replicate n 32 ++ w)) = none := by
      cases m with
      | zero => exact h.first _
      | succ m => exact h.next _ _
    have hrest := ih (m + 1)
    rw [List.replicate_succ, Nat.add_assoc, Nat.add_comm 1 n] at hrest
    rw [List.replicate_succ, List.cons_append, Pattern.subFrom_none hnone, List.cons_append]
    exact congrArg (32 :: ·) hrest

theorem skipsBlanks_privateKey : SkipsBlanks privateKey := ⟨fun _ => rfl, fun _ _ => rfl⟩

theorem skipsBlanks_authorization : SkipsBlanks (authorization ascii) :=
  ⟨fun _ => rfl, fun _ _ => rfl⟩

theorem skipsBlanks_urlCredentials : SkipsBlanks (urlCredentials ascii) :=
  ⟨fun _ => rfl, fun _ _ => rfl⟩

theorem skipsBlanks_awsKey : SkipsBlanks (awsKey ascii) := ⟨fun _ => rfl, fun _ _ => rfl⟩

theorem skipsBlanks_githubToken : SkipsBlanks (githubToken ascii) :=
  ⟨fun _ => rfl, fun _ _ => rfl⟩

/-- A blank is no character of a name. -/
theorem skipsBlanks_assignment : SkipsBlanks (assignment ascii) := by
  have hnone : ∀ before rest, (assignment ascii).matchAt before (32 :: rest) = none := by
    intro before rest
    by_contra hsome
    obtain ⟨m, hm⟩ := Option.ne_none_iff_exists'.1 hsome
    obtain ⟨name, quote, space, sign, space', value, after, hr, hrest⟩ :=
      reading_of_matchAt tables_ascii hm
    obtain ⟨c, name, rfl⟩ := List.exists_cons_of_ne_nil hr.name.ne_nil
    obtain ⟨rfl, -⟩ := List.cons.inj hrest
    exact absurd (hr.name.chars 32 List.mem_cons_self) (by decide +kernel)
  exact ⟨hnone [], fun before => hnone (32 :: before)⟩

theorem skipsBlanks_patterns : ∀ p ∈ patterns ascii, SkipsBlanks p.pattern.regex := by
  simp only [patterns, List.forall_mem_cons, List.not_mem_nil, false_imp_iff,
    implies_true, and_true]
  exact ⟨skipsBlanks_privateKey, skipsBlanks_authorization, skipsBlanks_urlCredentials,
    skipsBlanks_awsKey, skipsBlanks_githubToken, skipsBlanks_assignment⟩

/-- The exact secrets apart, the scrubber only has to look behind the blanks. -/
theorem scrubText_blanks {secrets : List Text} {text w : Text} {n : Nat}
    (hexact : (exactPass ascii secrets).toList.foldl (fun text p => p.run text) text =
      List.replicate n 32 ++ w)
    (hw : ∀ p ∈ patterns ascii, p.pattern.subFrom p.repl (List.replicate n 32) w 0 = w) :
    scrubText ascii secrets text = List.replicate n 32 ++ w := by
  have hrun : ∀ p ∈ patterns ascii,
      p.run (List.replicate n 32 ++ w) = List.replicate n 32 ++ w := by
    intro p hp
    have hskip := (skipsBlanks_patterns p hp).subFrom w n 0
    rwa [Nat.zero_add, hw p hp] at hskip
  rw [scrubText, passes, List.foldl_append, hexact]
  generalize patterns ascii = ps at hrun
  induction ps with
  | nil => rfl
  | cons p ps ih =>
    obtain ⟨hp, hps⟩ := List.forall_mem_cons.1 hrun
    rw [List.foldl_cons, hp]
    exact ih hps

/-- An issue whose description has the secret from its 489th character on. -/
def longIssue : Value :=
  .obj [(txt "check_name", .str (txt "jinja")),
    (txt "description", .str (List.replicate 488 32 ++ hunter)),
    (txt "location", .obj [(txt "path", .str (txt "playbook.yml"))])]

/-- Its finding, whose message is cut after twelve characters of the secret. -/
def longFinding : Finding where
  rule := txt "jinja"
  level := .warning
  message := (rawMessage (fun _ => []) id longIssue).take messageChars
  details := none
  path := txt "playbook.yml"
  line := 1
  column := none
  url := none

theorem longFinding_severed :
    (headCut messageChars (rawMessage (fun _ => []) id longIssue)).Severs hunter
      (txt "hunter2-secr") := by
  refine .inr ⟨txt "et-token", by decide, by decide, ⟨List.replicate 488 32, ?_⟩, ⟨[], ?_⟩⟩
  · decide +kernel
  · decide +kernel

theorem longFinding_scrubbed :
    txt "hunter2-secr" <:+: (scrubFinding ascii [hunter] longFinding).message := by
  have hmessage : scrubText ascii [hunter] longFinding.message =
      List.replicate 488 32 ++ txt "hunter2-secr" :=
    scrubText_blanks (by decide +kernel) (by decide +kernel)
  rw [scrubFinding]
  refine ⟨List.replicate 488 32, [], ?_⟩
  rw [hmessage, List.append_nil]

theorem longIssue_scrubbed :
    ¬ txt "hunter2-secr" <:+: scrubText ascii [hunter] (rawMessage (fun _ => []) id longIssue) := by
  have hmessage : scrubText ascii [hunter] (rawMessage (fun _ => []) id longIssue) =
      List.replicate 488 32 ++ redacted :=
    scrubText_blanks (by decide +kernel) (by decide +kernel)
  intro hleft
  rw [hmessage] at hleft
  revert hleft
  decide +kernel

/-- The message ends in those twelve characters. -/
theorem piece_left :
    ¬ ∀ (u : Unicode) (secrets : List Text), u.Tables → LongFormsSafe u secrets →
      (∀ py limit o, RefreshWhole u secrets py limit o) ∧
      ∀ shown clean target issues maxFindings issue g,
        Reports u secrets shown clean target issues maxFindings issue g →
          FindingWhole u secrets shown clean target issue g := by
  intro hall
  have hreports : Reports ascii [hunter] (fun _ => []) id (txt "playbook.yml")
    (.arr [longIssue]) 500
      longIssue (scrubFinding ascii [hunter] longFinding) :=
    ⟨[longFinding], 1, 0, longFinding, rfl, List.mem_singleton_self _, List.mem_singleton_self _,
      rfl, rfl⟩
  have hwhole := ((hall ascii [hunter] tables_ascii hunter_safe).2 _ _ _ _ _ _ _ hreports).message
  refine hwhole ⟨txt "hunter2-secr", ?_, longFinding_scrubbed, ?_⟩
  · exact ⟨by decide, by decide +kernel, hunter, by decide +kernel, _, longFinding_severed,
      List.infix_rfl⟩
  · rw [headCut_whole]
    exact longIssue_scrubbed

end AnsiDeck.Scrub
