import AnsiDeck.Lib.Except
import AnsiDeck.Lib.JsonLength
import AnsiDeck.RunWorker.Modes
import Mathlib.Algebra.Order.BigOperators.Group.List
import Mathlib.Algebra.Order.Ring.Nat

/-!
# Whether the messages fit

`run_in_worker` stops a run process that sends a longer line than `MAX_MESSAGE_BYTES`. All but two
kinds of message always fit. The list of the artifacts takes as much as the paths and the number of
the files make it, and an event without its content keeps its name, its uuid and its counter: see
`emitted_fits_iff`.
-/

namespace AnsiDeck

namespace RunWorker

open Lib (Json Str str decimal decimalInt Unicode)

open Lib.JsonText (dump dumpStr)

/-! ## What a job may be -/

/-- The settings that a job's limits come from. -/
structure Settings where
  runArtifactMaxMb : Nat
  runArtifactMaxFiles : Nat
  inventoryMaxOutputMb : Nat
  mb_mem : 1 ≤ runArtifactMaxMb ∧ runArtifactMaxMb ≤ 10240
  files_mem : 1 ≤ runArtifactMaxFiles ∧ runArtifactMaxFiles ≤ 100000
  output_mem : 1 ≤ inventoryMaxOutputMb ∧ inventoryMaxOutputMb ≤ 256

def Settings.artifacts (settings : Settings) : Limits :=
  ⟨settings.runArtifactMaxMb * 1024 * 1024, settings.runArtifactMaxFiles⟩

def Settings.maxOutputBytes (settings : Settings) : Nat :=
  settings.inventoryMaxOutputMb * 1024 * 1024

/-- What happens in a job's process, for each of the four kinds. -/
inductive Outcome
  | run (o : RunOutcome)
  | refresh (o : RefreshOutcome)
  | check (job : LintJob) (o : CheckOutcome)
  | scan (o : KeyscanOutcome)

/-- Every message of a job's process. -/
def emitted (py : Python) (settings : Settings) : Outcome → List Json
  | .run o => runMessages py (some settings.artifacts) o
  | .refresh o => refreshMessages py settings.maxOutputBytes o
  | .check job o => checkMessages py job o
  | .scan o => keyscanMessages py o

/-- A message that `run_in_worker` reads. -/
def Fits (m : Json) : Prop := (line m).length ≤ maxMessageBytes

/-! ## When the messages of a run fit -/

/-- Too large to send, and without its content too. -/
def Overflows (event : Event) : Prop :=
  maxEventBytes < (dump (.obj event)).length ∧
    maxMessageBytes < (dump (event.get "event")).length + (dump (event.get "uuid")).length
      + (dump (event.get "counter")).length + 131

/-- `os.walk` lists what is no file as well; `lstat` tells. -/
def isRegular (entry : Entry) : Bool :=
  match entry.stat with
  | .ok (regular, _) => regular
  | .error _ => false

/-- The size that counts against the limit, as `lstat` gave it; a file may be larger once it is
read. -/
def sizeOf (entry : Entry) : Nat :=
  match entry.stat with
  | .ok (true, size) => size
  | _ => 0

/-- The files that the playbook left, within the limits, and all of them can be read. -/
structure Kept (limits : Limits) (walk : List Entry) (files : List (Str × Nat)) : Prop where
  stats : ∀ entry ∈ walk, ∃ info, entry.stat = .ok info
  some_file : files ≠ []
  count : files.length ≤ limits.maxFiles
  bytes : (walk.map sizeOf).sum ≤ limits.maxBytes
  opened : List.Forall₂ (fun entry file => file.1 = entry.path ∧ entry.opened = .ok file.2)
    (walk.filter isRegular) files

/-- What the list of the files takes as JSON. -/
def listLength (files : List (Str × Nat)) : Nat :=
  (files.map fun file => (dumpStr file.1).length + (decimal file.2).length + 22).sum

/-- The list of the files fits, where it is sent. -/
def ListFits (limits : Limits) (walk : List Entry) (archive : Archive) : Prop :=
  archive.fails = none → ∀ files, Kept limits walk files →
    listLength files + (decimal (files.map Prod.snd).sum).length
      + (decimal archive.bytes.length).length + 137 ≤ maxMessageBytes

/-- Each event that is left out still fits, and so does the list of the files. -/
def RunFits (limits : Limits) (o : RunOutcome) : Prop :=
  o.prepared.isOk = true → (∀ event ∈ o.events, ¬ Overflows event) ∧
    (o.ended.isSome = true → ListFits limits o.walk o.archive)

/-- Only a run can send what is too long. -/
def OutcomeFits (settings : Settings) : Outcome → Prop
  | .run o => RunFits settings.artifacts o
  | _ => True

/-! ## Lengths of messages -/

/-- A line is as long as what `json.dumps` writes with its `type` first, and the line feed. -/
theorem length_line (type : String) (fields : List (String × Json)) :
    (line (message type fields)).length = (dumpStr (str type)).length + 11 +
      (fields.map fun f => (dumpStr (str f.1)).length + (dump f.2).length + 4).sum := by
  rw [line, List.length_append, message, Lib.JsonText.length_dump_obj (List.cons_ne_nil _ _)]
  simp only [List.map_cons, List.sum_cons, List.map_map, List.length_singleton]
  have htype : (dumpStr (str "type")).length = 6 := by decide
  rw [htype]
  show 6 + (dumpStr (str type)).length + 4 + _ + 1 = _
  have hfields : (fields.map ((fun e : Str × Json => (dumpStr e.1).length + (dump e.2).length + 4) ∘
      fun f : String × Json => (str f.1, f.2))) =
      fields.map fun f => (dumpStr (str f.1)).length + (dump f.2).length + 4 := rfl
  rw [hfields]
  omega

/-- Every character takes two escapes of six characters at most, outside the BMP. -/
theorem length_dump_str_le (s : Str) : (dump (.str s)).length ≤ 12 * s.length + 2 :=
  Lib.JsonText.length_dumpStr_le s

/-- Exit codes have three digits and a sign. -/
theorem length_dump_code_le (rc : Option ExitCode) : (dump (exitJson rc)).length ≤ 4 := by
  cases rc with
  | none => decide
  | some code =>
    have := code.2
    exact Lib.JsonText.length_decimalInt_le (by decide) (by omega)

/-- Every reason for a refusal is cut to 300 characters. -/
theorem fits_refused (why : Str) : Fits (refused why) := by
  have hreason := length_dump_str_le (why.take 300)
  have hlen := List.length_take_le 300 why
  have htype : (dumpStr (str "refused")).length = 9 := by decide
  have hkey : (dumpStr (str "reason")).length = 8 := by decide
  rw [Fits, refused, length_line, maxMessageBytes]
  simp only [List.map_cons, List.map_nil, List.sum_cons, List.sum_nil, htype, hkey]
  omega

theorem fits_started (dir : Path) : Fits (started dir) := by
  have hdir := length_dump_str_le dir.1
  have hlen := dir.2
  have htype : (dumpStr (str "started")).length = 9 := by decide
  have hkey : (dumpStr (str "private_data_dir")).length = 18 := by decide
  rw [Fits, started, length_line, maxMessageBytes]
  simp only [List.map_cons, List.map_nil, List.sum_cons, List.sum_nil, htype, hkey]
  omega

theorem fits_result {status : Str} (h : status.length ≤ 100) (rc : Option ExitCode) :
    Fits (result status rc) := by
  have hstatus := length_dump_str_le status
  have hrc := length_dump_code_le rc
  have htype : (dumpStr (str "result")).length = 8 := by decide
  have hkey : (dumpStr (str "status")).length = 8 := by decide
  have hkey' : (dumpStr (str "rc")).length = 4 := by decide
  rw [Fits, result, length_line, maxMessageBytes]
  simp only [List.map_cons, List.map_nil, List.sum_cons, List.sum_nil, htype, hkey, hkey']
  omega

/-! ## Events -/

/-- An event that is left out is written with a text of its own and the three values it keeps. -/
theorem length_leftOut (event : Event) :
    (dump (.obj (leftOut event))).length = (dump (event.get "event")).length
      + (dump (event.get "uuid")).length + (dump (event.get "counter")).length + 102 := by
  rw [leftOut, Lib.JsonText.length_dump_obj (List.cons_ne_nil _ _)]
  have hevent : (dumpStr (str "event")).length = 7 := by decide
  have huuid : (dumpStr (str "uuid")).length = 6 := by decide
  have hcounter : (dumpStr (str "counter")).length = 9 := by decide
  have hstdout : (dumpStr (str "stdout")).length = 8 := by decide
  have htext : (dump (.str (str "[AnsiDeck: event left out, it exceeded " ++ decimal maxEventBytes
      ++ str " bytes]"))).length = 56 := by decide
  simp only [List.map_cons, List.map_nil, List.sum_cons, List.sum_nil, hevent, huuid, hcounter,
    hstdout, htext]
  omega

theorem length_eventMessage (event : Event) :
    (line (eventMessage event)).length = (dump (.obj (boundedEvent event))).length + 29 := by
  have htype : (dumpStr (str "event")).length = 7 := by decide
  rw [eventMessage, length_line]
  simp only [List.map_cons, List.map_nil, List.sum_cons, List.sum_nil, htype]
  omega

/-- An event that is sent whole has room for its `type` in the 1024 characters between the two
limits. -/
theorem fits_event {event : Event} : Fits (eventMessage event) ↔ ¬ Overflows event := by
  rw [Fits, length_eventMessage, Overflows, boundedEvent]
  split
  · next hsmall =>
    have hroom : maxEventBytes + 1024 = maxMessageBytes := by decide
    refine iff_of_true (by omega) fun hbig => ?_
    omega
  · next hbig =>
    rw [length_leftOut]
    omega

/-! ## Learned host keys -/

/-- The characters of lines. -/
def total (lines : List Str) : Nat := (lines.map List.length).sum

theorem total_append (a b : List Str) : total (a ++ b) = total a + total b := by
  simp [total]

theorem total_cons (s : Str) (lines : List Str) : total (s :: lines) = s.length + total lines := rfl

/-- Lines are parts of the text: `splitlines` only takes the breaks away. -/
theorem total_splitlinesFrom (held s : Str) :
    total (Scrub.splitlinesFrom held s) ≤ held.length + s.length := by
  fun_induction Scrub.splitlinesFrom held s with
  | case1 => simp [total]
  | case2 held hne => simp [total]
  | case3 held rest ih =>
    rw [total_cons]
    simp only [List.length_cons, List.length_nil] at ih ⊢
    omega
  | case4 held c rest hcrlf hbreak ih =>
    rw [total_cons]
    simp only [List.length_cons, List.length_nil] at ih ⊢
    omega
  | case5 held c rest hcrlf hbreak ih =>
    simp only [List.length_append, List.length_cons, List.length_nil] at ih ⊢
    omega

theorem total_splitlines (s : Str) : total (Scrub.splitlines s) ≤ s.length := by
  have := total_splitlinesFrom [] s
  rwa [List.length_nil, Nat.zero_add] at this

theorem total_sublist {a b : List Str} (h : a.Sublist b) : total a ≤ total b := by
  induction h with
  | slnil => exact Nat.le_refl _
  | cons s _ ih => exact ih.trans (Nat.le_add_left ..)
  | cons_cons s _ ih => exact Nat.add_le_add_left ih _

theorem total_map_strip (u : Unicode) (lines : List Str) :
    total (lines.map u.strip) ≤ total lines := by
  induction lines with
  | nil => exact Nat.le_refl _
  | cons s lines ih =>
    have hstrip : (u.strip s).length ≤ s.length :=
      ((List.rdropWhile_prefix _ _).length_le).trans (List.dropWhile_sublist _).length_le
    exact Nat.add_le_add hstrip ih

/-- What lines take as a JSON array. -/
theorem length_dump_lines_le (lines : List Str) :
    (dump (.arr (lines.map .str))).length ≤ 12 * total lines + 4 * lines.length + 2 := by
  refine (Lib.JsonText.length_dump_arr_le _).trans (Nat.add_le_add_right ?_ 2)
  induction lines with
  | nil => exact Nat.le_refl _
  | cons s lines ih =>
    have hone := length_dump_str_le s
    have htotal : total (s :: lines) = s.length + total lines := rfl
    simp only [List.map_cons, List.sum_cons, List.length_cons] at ih ⊢
    omega

/-- The file with learned host keys is read up to a limit, and of its lines at most 200 are sent. -/
theorem fits_learned (u : Unicode) (data : Option (List Nat)) :
    ∀ m ∈ learnedMessages u data, Fits m := by
  intro m hm
  rw [learnedMessages] at hm
  split at hm
  · cases hm
  · rw [List.mem_singleton.1 hm]
    have htotal : total (readLearned u data) ≤ 64 * 1024 := by
      cases data with
      | none => exact Nat.zero_le _
      | some data =>
        calc total (readLearned u (some data))
            ≤ total ((Scrub.splitlines (Lib.Utf.decode (data.take maxLearnedBytes))).map u.strip) :=
              total_sublist ((List.take_sublist _ _).trans (List.filter_sublist ..))
          _ ≤ total (Scrub.splitlines (Lib.Utf.decode (data.take maxLearnedBytes))) :=
              total_map_strip u _
          _ ≤ (Lib.Utf.decode (data.take maxLearnedBytes)).length := total_splitlines _
          _ ≤ (data.take maxLearnedBytes).length := Lib.Utf.length_decode_le _
          _ ≤ 64 * 1024 := List.length_take_le ..
    have hcount : (readLearned u data).length ≤ 200 := by
      cases data with
      | none => exact Nat.zero_le _
      | some data => exact List.length_take_le ..
    have hlines := length_dump_lines_le (readLearned u data)
    have htype : (dumpStr (str "host_keys_learned")).length = 19 := by decide
    have hkey : (dumpStr (str "lines")).length = 7 := by decide
    rw [Fits, length_line, maxMessageBytes]
    simp only [List.map_cons, List.map_nil, List.sum_cons, List.sum_nil, htype, hkey]
    omega

/-! ## Artifacts -/

theorem length_of_mem_chunksFrom {α : Type} {n fuel : Nat} {data chunk : List α}
    (h : chunk ∈ chunksFrom n fuel data) : chunk.length ≤ n := by
  induction fuel generalizing data with
  | zero => cases h
  | succ fuel ih =>
    cases data with
    | nil => cases h
    | cons a data =>
      rcases List.mem_cons.1 h with rfl | h
      · exact List.length_take_le ..
      · exact ih h

/-- A chunk is no longer than the step of `range`. -/
theorem length_of_mem_chunks {α : Type} {n : Nat} {data chunk : List α}
    (h : chunk ∈ chunks n data) :
    chunk.length ≤ n :=
  length_of_mem_chunksFrom h

/-- Three bytes take four characters, and the last group is filled up. -/
theorem length_base64_le (bytes : List Nat) :
    3 * (Lib.Base64.encode bytes).length ≤ 4 * (bytes.length + 2) := by
  fun_induction Lib.Base64.encode bytes with
  | case1 => decide
  | case2 a => exact Nat.le_refl _
  | case3 a b => exact Nat.le_add_right 12 4
  | case4 a b c rest ih =>
    simp only [List.length_cons]
    omega

theorem fits_chunk {chunk : List Nat} (h : chunk.length ≤ artifactChunk) :
    Fits (chunkMessage chunk) := by
  have hbase64 := length_base64_le chunk
  have hdata := length_dump_str_le (Lib.Base64.encode chunk)
  have htype : (dumpStr (str "artifacts_chunk")).length = 17 := by decide
  have hkey : (dumpStr (str "data")).length = 6 := by decide
  rw [artifactChunk] at h
  rw [Fits, chunkMessage, length_line, maxMessageBytes]
  simp only [List.map_cons, List.map_nil, List.sum_cons, List.sum_nil, htype, hkey]
  omega

/-- `_collect_artifacts` failed, or a limit was passed: a short text. -/
theorem fits_artifactsError {why : Str} (h : why.length ≤ 300) :
    Fits (message "artifacts" [("error", .str why)]) := by
  have hwhy := length_dump_str_le why
  have htype : (dumpStr (str "artifacts")).length = 11 := by decide
  have hkey : (dumpStr (str "error")).length = 7 := by decide
  rw [Fits, length_line, maxMessageBytes]
  simp only [List.map_cons, List.map_nil, List.sum_cons, List.sum_nil, htype, hkey]
  omega

theorem fits_notCollected (why : Str) : Fits (notCollected why) :=
  fits_artifactsError (List.length_take_le ..)

/-- The digest is written in digits and letters, as they are. -/
theorem length_hexdigest {digest : List Nat} (h : ∀ b ∈ digest, b < 256) :
    (dumpStr (hexdigest digest)).length = 2 * digest.length + 2 := by
  have hplain : ∀ n < 16, Lib.JsonText.escapeChar (Lib.JsonText.hexChar n) =
      [Lib.JsonText.hexChar n] := by
    decide
  have hchars : ((hexdigest digest).flatMap Lib.JsonText.escapeChar).length =
      2 * digest.length := by
    induction digest with
    | nil => rfl
    | cons b digest ih =>
      have hb := h b List.mem_cons_self
      have hrest := ih fun b' hb' => h b' (List.mem_cons_of_mem _ hb')
      have hhigh := hplain (b / 16) (by omega)
      have hlow := hplain (b % 16) (by omega)
      have hcons : hexdigest (b :: digest) = Lib.JsonText.hexChar (b / 16)
          :: Lib.JsonText.hexChar (b % 16) :: hexdigest digest := rfl
      rw [hcons, List.flatMap_cons, List.flatMap_cons, hhigh, hlow, List.length_append,
        List.length_append, hrest]
      simp only [List.length_cons, List.length_nil]
      omega
  rw [dumpStr, List.length_append, List.length_cons, hchars]
  rfl

/-- The list of the files has no limit of its own, so its length is needed exactly. -/
theorem length_filesMessage (py : Python) {files : List (Str × Nat)} (h : files ≠ [])
    (archive : List Nat) :
    (line (filesMessage py files archive)).length = listLength files
      + (decimal (files.map Prod.snd).sum).length + (decimal archive.length).length + 137 := by
  have hlist : (dump (.arr (files.map fileJson))).length = listLength files := by
    rw [Lib.JsonText.length_dump_arr (by simpa using h), List.map_map, listLength]
    refine congrArg List.sum (List.map_congr_left fun file _ => ?_)
    have hpath : (dumpStr (str "path")).length = 6 := by decide
    have hsize : (dumpStr (str "size")).length = 6 := by decide
    show (dump (fileJson file)).length + 2 = _
    rw [fileJson, Lib.JsonText.length_dump_obj (List.cons_ne_nil _ _)]
    simp only [List.map_cons, List.map_nil, List.sum_cons, List.sum_nil, hpath, hsize]
    show 6 + (dumpStr file.1).length + 4 + (6 + (decimal file.2).length + 4 + 0) + 2 = _
    omega
  have hdigest : (dump (.str (hexdigest (py.sha256 archive)))).length = 66 := by
    show (dumpStr (hexdigest (py.sha256 archive))).length = 66
    rw [length_hexdigest (py.sha256_lt archive), py.length_sha256]
  have htype : (dumpStr (str "artifacts")).length = 11 := by decide
  have hfiles : (dumpStr (str "files")).length = 7 := by decide
  have hbytes : (dumpStr (str "bytes")).length = 7 := by decide
  have htar : (dumpStr (str "tar_bytes")).length = 11 := by decide
  have hsha : (dumpStr (str "sha256")).length = 8 := by decide
  rw [filesMessage, length_line]
  simp only [List.map_cons, List.map_nil, List.sum_cons, List.sum_nil, htype, hfiles, hbytes, htar,
    hsha, hlist, hdigest]
  show 11 + 11 + (7 + listLength files + 4 + (7 + (decimal (files.map Prod.snd).sum).length + 4
    + (11 + (decimal archive.length).length + 4 + (8 + 66 + 4 + 0)))) = _
  omega

/-- The checks on the way are those on all of the files. -/
theorem collectFrom_files {limits : Limits} {kept : List (Str × Nat)} {walk : List Entry} :
    ∀ {files : List Entry} {total : Nat}, files.length ≤ limits.maxFiles → total ≤ limits.maxBytes →
      (collectFrom limits walk files total = .ok (.files kept) ↔
        (∀ entry ∈ walk, ∃ info, entry.stat = .ok info) ∧ files ++ walk.filter isRegular ≠ [] ∧
          files.length + (walk.filter isRegular).length ≤ limits.maxFiles ∧
          total + (walk.map sizeOf).sum ≤ limits.maxBytes ∧
          (files ++ walk.filter isRegular).mapM openFile = .ok kept) := by
  induction walk with
  | nil =>
    intro files total hcount hbytes
    simp only [collectFrom, List.filter_nil, List.append_nil, List.map_nil, List.sum_nil,
      List.length_nil, Nat.add_zero]
    by_cases hnil : files = []
    · simp [hnil]
    · rw [if_neg hnil]
      cases files.mapM openFile with
      | error why => simp [Except.map]
      | ok opened => simp [Except.map, hnil, hcount, hbytes]
  | cons entry rest ih =>
    intro files total hcount hbytes
    cases hstat : entry.stat with
    | error why =>
      have hcollect : collectFrom limits (entry :: rest) files total = .error why := by
        rw [collectFrom, hstat]
        rfl
      rw [hcollect]
      refine iff_of_false (fun h => by cases h) fun h => ?_
      obtain ⟨info, hinfo⟩ := h.1 entry List.mem_cons_self
      rw [hstat] at hinfo
      cases hinfo
    | ok info =>
      obtain ⟨regular, size⟩ := info
      have hstats : (∀ e ∈ entry :: rest, ∃ info, e.stat = .ok info) ↔
          ∀ e ∈ rest, ∃ info, e.stat = .ok info := by
        rw [List.forall_mem_cons]
        exact and_iff_right ⟨_, hstat⟩
      cases regular with
      | false =>
        have hcollect : collectFrom limits (entry :: rest) files total
            = collectFrom limits rest files total := by
          rw [collectFrom, hstat]
          rfl
        have hregular : isRegular entry = false := by rw [isRegular, hstat]
        have hsize : sizeOf entry = 0 := by rw [sizeOf, hstat]
        rw [hcollect, ih hcount hbytes, hstats, List.filter_cons, hregular, List.map_cons,
          List.sum_cons, hsize, Nat.zero_add]
        rfl
      | true =>
        have hregular : isRegular entry = true := by rw [isRegular, hstat]
        have hsize : sizeOf entry = size := by rw [sizeOf, hstat]
        rw [hstats, List.filter_cons_of_pos hregular, List.map_cons, List.sum_cons, hsize,
          List.length_cons]
        by_cases hmany : limits.maxFiles < files.length + 1
        · have hcollect : collectFrom limits (entry :: rest) files total
              = .ok (.error (tooManyFiles limits)) := by
            rw [collectFrom, hstat]
            exact if_pos hmany
          rw [hcollect]
          exact iff_of_false (fun h => by cases h) fun h => by omega
        · by_cases hlarge : limits.maxBytes < total + size
          · have hcollect : collectFrom limits (entry :: rest) files total
                = .ok (.error (tooManyBytes limits)) := by
              rw [collectFrom, hstat]
              exact (if_neg hmany).trans (if_pos hlarge)
            rw [hcollect]
            exact iff_of_false (fun h => by cases h) fun h => by omega
          · have hcollect : collectFrom limits (entry :: rest) files total
                = collectFrom limits rest (files ++ [entry]) (total + size) := by
              rw [collectFrom, hstat]
              exact (if_neg hmany).trans (if_neg hlarge)
            rw [hcollect, ih (by simp; omega) (by omega), List.append_assoc, List.singleton_append,
              List.length_append, List.length_singleton]
            refine and_congr_right fun _ => and_congr_right fun _ =>
              and_congr ?_ (and_congr ?_ Iff.rfl)
            · omega
            · omega

/-- `_collect_artifacts` sends files exactly when it kept all that are there. -/
theorem collectArtifacts_iff {limits : Limits} {walk : List Entry} {files : List (Str × Nat)} :
    collectArtifacts limits walk = .ok (.files files) ↔ Kept limits walk files := by
  have hopen : ∀ entry : Entry, ∀ file : Str × Nat,
      openFile entry = .ok file ↔ file.1 = entry.path ∧ entry.opened = .ok file.2 := by
    intro entry file
    obtain ⟨path, size⟩ := file
    rw [openFile]
    cases entry.opened with
    | error why => simp [Except.map]
    | ok opened => simp [Except.map, eq_comm]
  have hforall : (walk.filter isRegular).mapM openFile = .ok files ↔
      List.Forall₂ (fun entry file => file.1 = entry.path ∧ entry.opened = .ok file.2)
        (walk.filter isRegular) files := by
    rw [Lib.Except.mapM_eq_ok]
    exact ⟨fun h => h.imp fun _ _ => (hopen _ _).1, fun h => h.imp fun _ _ => (hopen _ _).2⟩
  rw [collectArtifacts, collectFrom_files (Nat.zero_le _) (Nat.zero_le _), List.nil_append,
    List.length_nil, Nat.zero_add, Nat.zero_add, hforall]
  constructor
  · rintro ⟨hstats, hne, hcount, hbytes, hopened⟩
    refine ⟨hstats, fun hnil => hne ?_, ?_, hbytes, hopened⟩
    · rw [hnil] at hopened
      exact List.forall₂_nil_right_iff.1 hopened
    · rwa [← hopened.length_eq]
  · rintro ⟨hstats, hne, hcount, hbytes, hopened⟩
    refine ⟨hstats, fun hnil => hne ?_, ?_, hbytes, hopened⟩
    · rw [hnil] at hopened
      exact List.forall₂_nil_left_iff.1 hopened
    · rwa [hopened.length_eq]

/-- There are two messages about a limit. -/
theorem collectFrom_error {limits : Limits} {why : Str} {walk : List Entry} :
    ∀ {files : List Entry} {total : Nat},
      collectFrom limits walk files total = .ok (.error why) →
        why = tooManyFiles limits ∨ why = tooManyBytes limits := by
  induction walk with
  | nil =>
    intro files total h
    rw [collectFrom] at h
    split at h
    · cases h
    · cases hopened : files.mapM openFile with
      | error text =>
        rw [hopened] at h
        cases h
      | ok opened =>
        rw [hopened] at h
        cases h
  | cons entry rest ih =>
    intro files total h
    rw [collectFrom] at h
    obtain ⟨⟨regular, size⟩, -, h⟩ := Lib.Except.bind_eq_ok.1 h
    dsimp only at h
    split at h
    · exact ih h
    · split at h
      · cases h
        exact .inl rfl
      · split at h
        · cases h
          exact .inr rfl
        · exact ih h

/-- Sizes and counts in the messages are far below this. -/
theorem length_decimal_small {n : Nat} (h : n < 10 ^ 20) : (decimal n).length ≤ 20 :=
  (Lib.length_decimal_le (by decide)).2 h

/-- The limits of a job are numbers of a few digits. -/
theorem length_collectError {settings : Settings} {walk : List Entry} {why : Str}
    (h : collectArtifacts settings.artifacts walk = .ok (.error why)) : why.length ≤ 300 := by
  have hmb := settings.mb_mem
  have hfiles := settings.files_mem
  rcases collectFrom_error h with rfl | rfl
  · have hdigits := length_decimal_small (n := settings.artifacts.maxFiles) (by
      show settings.runArtifactMaxFiles < _
      omega)
    have hfirst : (str "more than ").length = 10 := rfl
    have hlast : (str " files in ARTIFACTS_DIR: none were kept").length = 39 := rfl
    rw [tooManyFiles, List.length_append, List.length_append]
    omega
  · have hbytes := length_decimal_small (n := settings.artifacts.maxBytes) (by
      show settings.runArtifactMaxMb * 1024 * 1024 < _
      omega)
    have hmegabytes := length_decimal_small (n := settings.artifacts.maxBytes / (1024 * 1024)) (by
      show settings.runArtifactMaxMb * 1024 * 1024 / (1024 * 1024) < _
      omega)
    have hfirst : (str "over ").length = 5 := rfl
    have hlast : (str " in ARTIFACTS_DIR: none were kept").length = 33 := rfl
    have hmb : (str " MB").length = 3 := rfl
    have hunit : (str " bytes").length = 6 := rfl
    rw [tooManyBytes]
    split
    · simp only [List.length_append]
      omega
    · simp only [List.length_append]
      omega

/-- The chunks of the tar and the messages of failure fit, so only the list of the files counts. -/
theorem fits_artifacts (py : Python) (settings : Settings) (walk : List Entry) (archive : Archive) :
    (∀ m ∈ artifactsMessages py settings.artifacts walk archive, Fits m) ↔
      ListFits settings.artifacts walk archive := by
  have hnone : (∀ files, collectArtifacts settings.artifacts walk ≠ .ok (.files files)) →
      ListFits settings.artifacts walk archive :=
    fun hne _ files hkept => absurd (collectArtifacts_iff.2 hkept) (hne files)
  rw [artifactsMessages]
  cases hcollect : collectArtifacts settings.artifacts walk with
  | error why =>
    exact iff_of_true (List.forall_mem_singleton.2 (fits_notCollected why))
      (hnone fun files h => by rw [hcollect] at h; cases h)
  | ok collected =>
    cases collected with
    | error why =>
      exact iff_of_true
        (List.forall_mem_singleton.2 (fits_artifactsError (length_collectError hcollect)))
        (hnone fun files h => by rw [hcollect] at h; cases h)
    | nothing =>
      exact iff_of_true (fun m hm => by cases hm)
        (hnone fun files h => by rw [hcollect] at h; cases h)
    | files files =>
      have hkept := collectArtifacts_iff.1 hcollect
      have hunique : ∀ files', Kept settings.artifacts walk files' → files' = files := by
        intro files' h
        have h := collectArtifacts_iff.2 h
        rw [hcollect] at h
        cases h
        rfl
      have hchunks : ∀ m ∈ (chunks artifactChunk archive.bytes).map chunkMessage, Fits m := by
        intro m hm
        obtain ⟨chunk, hchunk, rfl⟩ := List.mem_map.1 hm
        exact fits_chunk (length_of_mem_chunks hchunk)
      dsimp only
      rw [List.forall_mem_append]
      cases hfails : archive.fails with
      | some why =>
        exact iff_of_true ⟨hchunks, List.forall_mem_singleton.2 (fits_notCollected why)⟩
          (fun h => by rw [hfails] at h; cases h)
      | none =>
        dsimp only
        rw [List.forall_mem_singleton, Fits, length_filesMessage py hkept.some_file]
        constructor
        · rintro ⟨-, hfits⟩ - files' h
          rw [hunique files' h]
          exact hfits
        · intro h
          exact ⟨hchunks, h hfails files hkept⟩

/-! ## A run -/

theorem length_status (status : RunnerStatus) : status.text.length ≤ 100 := by
  cases status <;> decide

/-- All else that a run sends is short: the learned keys, the result, and that it has started. -/
theorem fits_run (py : Python) (settings : Settings) (o : RunOutcome) :
    (∀ m ∈ runMessages py (some settings.artifacts) o, Fits m) ↔ RunFits settings.artifacts o := by
  rw [runMessages, RunFits]
  cases hprepared : o.prepared with
  | error why =>
    exact iff_of_true (List.forall_mem_singleton.2 (fits_refused why)) (fun h => by cases h)
  | ok dir =>
    have hevents : (∀ m ∈ o.events.map eventMessage, Fits m) ↔
        ∀ event ∈ o.events, ¬ Overflows event := by
      rw [List.forall_mem_map]
      exact forall₂_congr fun event _ => fits_event
    rw [forall_prop_of_true (show (Except.ok dir : Except Str Path).isOk = true from rfl)]
    dsimp only
    rw [List.cons_append, List.forall_mem_cons, List.forall_mem_append, hevents,
      and_iff_right (fits_started dir)]
    refine and_congr_right fun _ => ?_
    cases o.ended with
    | none => exact iff_of_true (fun m hm => by cases hm) (fun h => by cases h)
    | some ended =>
      obtain ⟨status, rc⟩ := ended
      dsimp only
      rw [List.forall_mem_append, List.forall_mem_append, List.forall_mem_singleton,
        and_iff_right (fits_learned py.unicode o.learned),
        and_iff_left (fits_result (length_status status) rc), fits_artifacts]
      exact ⟨fun h _ => h, fun h => h rfl⟩

/-! ## A refresh -/

/-- Of stderr the last 16 KiB are read, and decoded with no character for more than one byte. -/
theorem length_tailOf_le (stderr : List Nat) : (tailOf stderr).length ≤ 16 * 1024 := by
  refine (Lib.Utf.length_decode_le _).trans ?_
  rw [List.length_drop, stderrTail]
  omega

theorem length_lastChars_le (n : Nat) (s : Str) : (lastChars n s).length ≤ n := by
  rw [lastChars, List.length_drop]
  omega

/-- A key is `combined`, or `s` and at most twelve digits. -/
theorem length_callKey_le {key : Str} (h : isCallKey key = true) : key.length ≤ 13 := by
  simp only [isCallKey, Bool.or_eq_true, Bool.and_eq_true, decide_eq_true_eq] at h
  rcases h with rfl | ⟨⟨⟨-, -⟩, hlen⟩, -⟩
  · decide
  · rw [List.length_tail] at hlen
    omega

theorem fits_inventoryResult {key : Str} (hkey : key.length ≤ 13) (rc : ExitCode) {stderr : Str}
    (h : stderr.length ≤ 140000) : Fits (inventoryResult key rc stderr) := by
  have hname := length_dump_str_le key
  have hstderr := length_dump_str_le stderr
  have hrc := length_dump_code_le (some rc)
  have htype : (dumpStr (str "inventory_result")).length = 18 := by decide
  have hk : (dumpStr (str "key")).length = 5 := by decide
  have hr : (dumpStr (str "rc")).length = 4 := by decide
  have hs : (dumpStr (str "stderr")).length = 8 := by decide
  rw [exitJson] at hrc
  rw [Fits, inventoryResult, length_line, maxMessageBytes]
  simp only [List.map_cons, List.map_nil, List.sum_cons, List.sum_nil, htype, hk, hr, hs]
  omega

theorem fits_output {key chunk : Str} (hkey : key.length ≤ 13) (h : chunk.length ≤ outputChunk) :
    Fits (outputMessage key chunk) := by
  have hname := length_dump_str_le key
  have hdata := length_dump_str_le chunk
  have htype : (dumpStr (str "output")).length = 8 := by decide
  have hk : (dumpStr (str "key")).length = 5 := by decide
  have hd : (dumpStr (str "data")).length = 6 := by decide
  rw [outputChunk] at h
  rw [Fits, outputMessage, length_line, maxMessageBytes]
  simp only [List.map_cons, List.map_nil, List.sum_cons, List.sum_nil, htype, hk, hd]
  omega

/-- A host's name is one argument of a process, which the kernel limits. -/
theorem length_args_le (call : ScriptCall) : call.args.length ≤ 132000 := by
  cases call with
  | list => decide
  | host name h =>
    have hfirst : (str "--host ").length = 7 := rfl
    rw [ScriptCall.args, List.length_append]
    omega

/-- Group names are quoted after a cut. -/
theorem length_groupProblem_le (py : Python) (name rest : Str) (h : rest.length ≤ 100) :
    (str "group " ++ py.repr (name.take 100) ++ rest).length ≤ 140000 := by
  have hrepr := py.length_repr (name.take 100)
  have htake := List.length_take_le 100 name
  have hfirst : (str "group ").length = 6 := rfl
  rw [List.length_append, List.length_append]
  omega

/-- The longest has the script's arguments in it, which are those of one call. -/
theorem length_scriptProblem_le (py : Python) {limit : Nat} (hlimit : limit < 10 ^ 20)
    (problem : ScriptProblem) : (problem.text py limit).length ≤ 140000 := by
  have hscript : (str "the script ").length = 11 := rfl
  cases problem with
  | shebang =>
    show (str "the script's #! line must name its interpreter by its full path").length ≤ 140000
    decide
  | exited call rc stderr =>
    have hargs := length_args_le call
    have hcode := length_dump_code_le (some rc)
    have htail := length_lastChars_le 500 (py.unicode.strip (tailOf stderr))
    have hexited : (str " exited with ").length = 13 := rfl
    have hcolon : (str ": ").length = 2 := rfl
    have hrc : (decimalInt rc.1).length ≤ 4 := hcode
    simp only [ScriptProblem.text, List.length_append]
    omega
  | tooLarge =>
    have hdigits := length_decimal_small hlimit
    have hfirst : (str "the script printed more than ").length = 29 := rfl
    have hlast : (str " bytes").length = 6 := rfl
    simp only [ScriptProblem.text, List.length_append]
    omega
  | notJson call =>
    have hargs := length_args_le call
    have hfirst : (str "what the script ").length = 16 := rfl
    have hlast : (str " printed is not JSON").length = 20 := rfl
    simp only [ScriptProblem.text, List.length_append]
    omega
  | notAnObject =>
    show (str "the script must print a JSON object").length ≤ 140000
    decide
  | notAGroup name => exact length_groupProblem_le py name _ (by decide)
  | hosts name => exact length_groupProblem_le py name _ (by decide)
  | children name => exact length_groupProblem_le py name _ (by decide)
  | tooManyHosts =>
    show (str "more than " ++ decimal scriptHostCalls
      ++ str " hosts without _meta in the output").length ≤ 140000
    decide
  | hostNotAnObject call =>
    have hargs := length_args_le call
    have hlast : (str " must print a JSON object").length = 25 := rfl
    simp only [ScriptProblem.text, List.length_append]
    omega

/-- A refresh ends at the first call that is refused, and a call that failed is followed by the
others. -/
theorem fits_calls (py : Python) {limit : Nat} (hlimit : limit < 10 ^ 20) (calls : List Call)
    (failed : Bool) : ∀ m ∈ callMessages py limit calls failed, Fits m := by
  induction calls generalizing failed with
  | nil =>
    rw [callMessages, List.forall_mem_singleton]
    refine fits_result ?_ _
    split <;> decide
  | cons call rest ih =>
    rw [callMessages]
    split
    · exact List.forall_mem_singleton.2 (fits_refused _)
    · next hcall =>
      simp only [Bool.or_eq_true, Bool.not_eq_true', not_or, Bool.not_eq_false] at hcall
      have hkey := length_callKey_le hcall.1
      cases call.outcome with
      | raised why => exact List.forall_mem_singleton.2 (fits_refused why)
      | script problem =>
        exact List.forall_mem_cons.2
          ⟨fits_inventoryResult hkey codeOne (length_scriptProblem_le py hlimit problem), ih true⟩
      | ran rc stderr size output fails =>
        have htail : (tailOf stderr).length ≤ 140000 := (length_tailOf_le stderr).trans (by decide)
        dsimp only
        split
        · exact List.forall_mem_cons.2 ⟨fits_inventoryResult hkey rc htail, ih true⟩
        · split
          · refine List.forall_mem_cons.2 ⟨fits_inventoryResult hkey codeOne ?_, ih true⟩
            have hdigits := length_decimal_small hlimit
            have hfirst : (str "the output is larger than ").length = 26 := rfl
            have hlast : (str " bytes").length = 6 := rfl
            rw [List.length_append, List.length_append]
            omega
          · rw [List.forall_mem_append]
            refine ⟨fun m hm => ?_, ?_⟩
            · obtain ⟨chunk, hchunk, rfl⟩ := List.mem_map.1 hm
              exact fits_output hkey (length_of_mem_chunks hchunk)
            · cases fails with
              | some why => exact List.forall_mem_singleton.2 (fits_refused why)
              | none =>
                exact List.forall_mem_cons.2 ⟨fits_inventoryResult hkey rc htail, ih failed⟩

theorem fits_refresh (py : Python) (settings : Settings) (o : RefreshOutcome) :
    ∀ m ∈ refreshMessages py settings.maxOutputBytes o, Fits m := by
  have houtput := settings.output_mem
  have hlimit : settings.maxOutputBytes < 10 ^ 20 := by
    show settings.inventoryMaxOutputMb * 1024 * 1024 < _
    omega
  rw [refreshMessages]
  cases o.dir with
  | error why => exact List.forall_mem_singleton.2 (fits_refused why)
  | ok dir =>
    refine List.forall_mem_cons.2 ⟨fits_started dir, ?_⟩
    cases o.home with
    | some why => exact List.forall_mem_singleton.2 (fits_refused why)
    | none => exact fits_calls py hlimit o.calls false

/-! ## A host key scan -/

/-- The lines that are kept so far are within both limits, whatever came after them. -/
structure Bounded (s : Scanned) : Prop where
  count : s.lines.length ≤ maxKeyscanLines
  le_size : total s.lines ≤ s.size
  le_max : total s.lines ≤ maxKeyscanBytes

theorem bounded_scanLines (u : Unicode) (raws : List Str) {s : Scanned} (h : Bounded s) :
    Bounded (scanLines u raws s) := by
  induction raws generalizing s with
  | nil => exact h
  | cons raw rest ih =>
    rw [scanLines]
    split
    · exact ih h
    · split
      · exact ⟨h.count, h.le_size.trans (Nat.le_add_right ..), h.le_max⟩
      · next hroom =>
        simp only [Bool.or_eq_true, decide_eq_true_eq, not_or] at hroom
        have hsize := h.le_size
        have hone : total [u.strip raw] = (u.strip raw).length := Nat.add_zero _
        refine ih ⟨?_, ?_, ?_⟩
        · rw [List.length_append, List.length_singleton]
          omega
        · rw [total_append, hone]
          exact Nat.add_le_add_right hsize _
        · rw [total_append, hone]
          omega

theorem bounded_scanPorts (u : Unicode) (scans : List (Nat × PortScan)) {s : Scanned}
    (h : Bounded s) : Bounded (scanPorts u scans s) := by
  induction scans generalizing s with
  | nil => exact h
  | cons scan rest ih =>
    obtain ⟨port, outcome⟩ := scan
    cases outcome with
    | outOfTime => exact ⟨h.count, h.le_size, h.le_max⟩
    | timedOut => exact ih ⟨h.count, h.le_size, h.le_max⟩
    | done stdout stderr =>
      have hread := bounded_scanLines u (Scrub.splitlines (Lib.Utf.decode stdout)) h
      exact ih ⟨hread.count, hread.le_size, hread.le_max⟩

/-- The lines are within the limits of the scan and the error is cut to 1000 characters. -/
theorem fits_keyscanResult {s : Scanned} (h : Bounded s) : Fits (keyscanResult s) := by
  have hlines := length_dump_lines_le s.lines
  have hcount := h.count
  have hmax := h.le_max
  have herror : (dump (if lastChars 1000 ((str "\n").intercalate s.errors) = [] then Json.null
      else .str (lastChars 1000 ((str "\n").intercalate s.errors)))).length ≤ 12002 := by
    split
    · decide
    · have := length_dump_str_le (lastChars 1000 ((str "\n").intercalate s.errors))
      have := length_lastChars_le 1000 ((str "\n").intercalate s.errors)
      omega
  have htype : (dumpStr (str "keyscan_result")).length = 16 := by decide
  have hl : (dumpStr (str "lines")).length = 7 := by decide
  have he : (dumpStr (str "error")).length = 7 := by decide
  rw [maxKeyscanLines] at hcount
  rw [maxKeyscanBytes] at hmax
  rw [Fits, keyscanResult, length_line, maxMessageBytes]
  simp only [List.map_cons, List.map_nil, List.sum_cons, List.sum_nil, htype, hl, he]
  omega

theorem fits_scan (py : Python) (o : KeyscanOutcome) : ∀ m ∈ keyscanMessages py o, Fits m := by
  rw [keyscanMessages]
  cases o.dir with
  | error why => exact List.forall_mem_singleton.2 (fits_refused why)
  | ok dir =>
    refine List.forall_mem_cons.2 ⟨fits_started dir, ?_⟩
    cases o.scan with
    | raised why => exact List.forall_mem_singleton.2 (fits_refused why)
    | ports scans =>
      have hempty : Bounded {} := ⟨Nat.zero_le _, Nat.le_refl _, Nat.zero_le _⟩
      refine List.forall_mem_cons.2 ⟨fits_keyscanResult (bounded_scanPorts _ scans hempty), ?_⟩
      exact List.forall_mem_singleton.2 (fits_result (by decide) _)

/-! ## A playbook check -/

open Lib.JsonText (ShortInts shortInts_member shortInts_item)

/-- The integers are no longer than `json.loads` takes them. -/
abbrev Read (v : Json) : Prop := ShortInts Lib.Dialect.python v

theorem read_null : Read .null :=
  Lib.JsonText.shortInts_of_ne (Lib.JsonText.scalar_of_ne (by simp) (by simp)) (by simp)

theorem read_empty : Read (.obj []) := Lib.JsonText.shortInts_obj (by simp)

/-- `dict.get`, with `None` for what isn't there. -/
theorem read_get {event : Event} (h : Read (.obj event)) (key : String) : Read (event.get key) := by
  rw [Event.get]
  cases hlookup : event.lookup (str key) with
  | none => exact read_null
  | some v =>
    obtain ⟨before, after, hevent, -⟩ := List.lookup_eq_some_iff.1 hlookup
    exact shortInts_member h (e := (str key, v)) (by simp [hevent])

theorem read_orElse {a b : Json} (ha : Read a) (hb : Read b) : Read (orElse a b) := by
  rw [orElse]
  split
  · exact ha
  · exact hb

theorem read_dictOf {v : Json} (h : Read v) : Read (.obj (dictOf v)) := by
  cases v with
  | obj entries => exact h
  | _ => exact read_empty

theorem read_getMember {v w : Json} {key : String} (h : Read v) (hw : getMember v key = .ok w) :
    Read w := by
  cases v with
  | obj entries =>
    cases hw
    exact read_get h key
  | _ => cases hw

/-- An integer as it is written. -/
def ShortInt (n : Int) : Prop := (decimalInt n).length ≤ 4301

theorem shortInt_of_read {v : Json} (h : Read v) {n : Int} (hn : intOrNone v = some n) :
    ShortInt n := by
  cases v with
  | int m =>
    cases hn
    have hmost := h 0 n .here Lib.Unicode.maxStrDigits rfl
    rw [Lib.Unicode.maxStrDigits] at hmost
    rw [ShortInt]
    cases n with
    | ofNat k => exact hmost.trans (Nat.le_succ _)
    | negSucc k => exact Nat.succ_le_succ hmost
  | _ => cases hn

/-- The line and the column are numbers that stood in the report, whichever of its three places
they are taken from. -/
theorem shortInt_position {location : Event} (h : Read (.obj location))
    {line column : Option Int} (hp : position location = .ok (line, column)) :
    (∀ n ∈ line, ShortInt n) ∧ ∀ n ∈ column, ShortInt n := by
  have hbegun : ∀ found, position.begun location = .ok found → ∀ n ∈ found, ShortInt n := by
    intro found hfound n hn
    rw [position.begun] at hfound
    cases hlines : getMember (orElse (location.get "lines") (.obj [])) "begin" with
    | error why =>
      rw [hlines] at hfound
      cases hfound
    | ok v =>
      rw [hlines] at hfound
      cases hfound
      exact shortInt_of_read (read_getMember (read_orElse (read_get h _) read_empty) hlines) hn
  rw [position] at hp
  obtain ⟨found, hfound, hp⟩ := Lib.Except.bind_eq_ok.1 hp
  have hstart : Read (orElse found (.obj [])) :=
    read_orElse (read_getMember (read_orElse (read_get h _) read_empty) hfound) read_empty
  obtain ⟨lineValue, hline, hp⟩ := Lib.Except.bind_eq_ok.1 hp
  obtain ⟨read, hread, hp⟩ := Lib.Except.bind_eq_ok.1 hp
  obtain ⟨columnValue, hcolumn, hp⟩ := Lib.Except.bind_eq_ok.1 hp
  cases hp
  refine ⟨fun n hn => ?_, fun n hn => shortInt_of_read (read_getMember hstart hcolumn) hn⟩
  cases hfirst : intOrNone lineValue with
  | none =>
    rw [hfirst] at hread
    exact hbegun _ hread n hn
  | some m =>
    rw [hfirst, position.orBegun] at hread
    split at hread
    · cases hread
      cases hn
      exact shortInt_of_read (read_getMember hstart hline) hfirst
    · exact hbegun _ hread n hn

theorem length_option_str_le {s : Option Str} {k : Nat}
    (h : ∀ text ∈ s, text.length ≤ k) (hk : 1 ≤ k) :
    (dump (optionJson .str s)).length ≤ 12 * k + 2 := by
  cases s with
  | none =>
    show 4 ≤ 12 * k + 2
    omega
  | some text =>
    have hlen := h text rfl
    have := length_dump_str_le text
    show (dump (.str text)).length ≤ _
    omega

/-- Its texts are cut, and its numbers are short. -/
structure FindingFits (f : Finding) : Prop where
  rule : f.rule.length ≤ 100
  level : f.level.length ≤ 7
  message : f.message.length ≤ 500
  details : ∀ text ∈ f.details, text.length ≤ 2000
  path : f.path.length ≤ 1024
  line : ShortInt f.line
  column : ∀ n ∈ f.column, ShortInt n
  url : ∀ text ∈ f.url, text.length ≤ 300

/-- A finding, with every text at its longest. -/
theorem length_finding_le {f : Finding} (h : FindingFits f) : (dump f.json).length ≤ 56000 := by
  have hrule := length_dump_str_le f.rule
  have hlevel := length_dump_str_le f.level
  have hmessage := length_dump_str_le f.message
  have hpath := length_dump_str_le f.path
  have hdetails := length_option_str_le h.details (by decide)
  have hurl := length_option_str_le h.url (by decide)
  have hline : (dump (.int f.line)).length ≤ 4301 := h.line
  have hcolumn : (dump (optionJson .int f.column)).length ≤ 4301 := by
    cases hc : f.column with
    | none => decide
    | some n => exact h.column n hc
  have h1 := h.rule
  have h2 := h.level
  have h3 := h.message
  have h4 := h.path
  have k1 : (dumpStr (str "rule")).length = 6 := by decide
  have k2 : (dumpStr (str "level")).length = 7 := by decide
  have k3 : (dumpStr (str "message")).length = 9 := by decide
  have k4 : (dumpStr (str "details")).length = 9 := by decide
  have k5 : (dumpStr (str "path")).length = 6 := by decide
  have k6 : (dumpStr (str "line")).length = 6 := by decide
  have k7 : (dumpStr (str "column")).length = 8 := by decide
  have k8 : (dumpStr (str "url")).length = 5 := by decide
  rw [Finding.json, Lib.JsonText.length_dump_obj (List.cons_ne_nil _ _)]
  simp only [List.map_cons, List.map_nil, List.sum_cons, List.sum_nil, k1, k2, k3,
    k4, k5, k6, k7, k8]
  omega

/-- `_finding` cuts every text it takes. -/
theorem findingFits {py : Python} {clean : Str → Str} {issue location : Event} {path : Str}
    {f : Finding} (h : Read (.obj location)) (hf : finding py clean issue location path = .ok f) :
    FindingFits f := by
  rw [finding] at hf
  obtain ⟨⟨line, column⟩, hposition, hf⟩ := Lib.Except.bind_eq_ok.1 hf
  obtain ⟨hline, hcolumn⟩ := shortInt_position h hposition
  cases hf
  refine ⟨List.length_take_le .., ?_, List.length_take_le .., fun text htext => ?_,
    List.length_take_le .., ?_, hcolumn, fun text htext => ?_⟩
  · have hlevel : ∀ severe : Bool,
        (if severe = true then str "error" else str "warning").length ≤ 7 := by
      decide
    exact hlevel _
  · dsimp only at htext
    split at htext
    · cases htext
      exact List.length_take_le ..
    · cases htext
  · have hone : ShortInt 1 := by
      show (decimalInt 1).length ≤ 4301
      decide
    cases line with
    | none => exact hone
    | some n =>
      show ShortInt (max 1 n)
      rcases Int.le_total 1 n with h | h
      · rw [Int.max_eq_right h]
        exact hline n rfl
      · rw [Int.max_eq_left h]
        exact hone
  · dsimp only at htext
    split at htext
    · split at htext
      · cases htext
        exact List.length_take_le ..
      · cases htext
    · cases htext

/-- Each issue gives one finding, or is counted as external, or is skipped. -/
theorem findingFits_readIssues {py : Python} {target : Str} {clean : Str → Str} {issues : List Json}
    (h : ∀ issue ∈ issues, Read issue) {findings : List Finding} {external : Nat}
    (hread : readIssues py target clean issues = .ok (findings, external)) :
    (∀ f ∈ findings, FindingFits f) ∧ findings.length + external ≤ issues.length := by
  induction issues generalizing findings external with
  | nil =>
    cases hread
    exact ⟨fun f hf => (by cases hf), Nat.le_refl _⟩
  | cons issue rest ih =>
    rw [List.forall_mem_cons] at h
    have hskip : readIssues py target clean rest = .ok (findings, external) →
        (∀ f ∈ findings, FindingFits f) ∧ findings.length + external ≤ (issue :: rest).length :=
      fun hrest => ⟨(ih h.2 hrest).1, (ih h.2 hrest).2.trans (Nat.le_succ _)⟩
    cases issue with
    | obj issue =>
      have hlocation : Read (.obj (dictOf (Event.get issue "location"))) :=
        read_dictOf (read_get h.1 "location")
      rw [readIssues] at hread
      dsimp only at hread
      split at hread
      · obtain ⟨⟨more, outside⟩, hrest, hread⟩ := Lib.Except.bind_eq_ok.1 hread
        cases hread
        obtain ⟨hfits, hlen⟩ := ih h.2 hrest
        have hcount : more.length + (outside + 1) ≤ rest.length + 1 := Nat.succ_le_succ hlen
        exact ⟨hfits, hcount⟩
      · obtain ⟨f, hf, hread⟩ := Lib.Except.bind_eq_ok.1 hread
        obtain ⟨⟨more, outside⟩, hrest, hread⟩ := Lib.Except.bind_eq_ok.1 hread
        cases hread
        obtain ⟨hfits, hlen⟩ := ih h.2 hrest
        have hlen : more.length + outside ≤ rest.length := hlen
        have hcount : more.length + 1 + outside ≤ rest.length + 1 := by omega
        exact ⟨List.forall_mem_cons.2 ⟨findingFits hlocation hf, hfits⟩, hcount⟩
    | _ => exact hskip hread

/-- What is sent of the findings. -/
structure FoundFits (found : List Finding × Nat × Nat) : Prop where
  findings : ∀ f ∈ found.1, FindingFits f
  count : found.1.length ≤ maxFindings
  total : found.2.1 < 10 ^ 20
  external : found.2.2 < 10 ^ 20

/-- The number of issues is bounded by the output of ansible-lint, which is. -/
theorem foundFits_lintFindings {py : Python} {issues : Issues} {target : Str} {clean : Str → Str}
    {found : List Finding × Nat × Nat}
    (h : lintFindings py issues.value target clean = .ok found) : FoundFits found := by
  have hshort : Read issues.value := Lib.JsonText.shortInts_of_loads issues.reads
  obtain ⟨⟨findings, external⟩, hfindings, h⟩ := Lib.Except.bind_eq_ok.1 h
  cases h
  have hitems : (∀ issue ∈ issuesOf issues.value, Read issue) ∧
      (issuesOf issues.value).length ≤ lintMaxOutput := by
    have hreads := issues.reads
    cases hvalue : issues.value with
    | arr items =>
      rw [hvalue] at hreads hshort
      exact ⟨fun issue hissue => shortInts_item hshort hissue,
        (Lib.JsonText.length_arr_of_loads hreads).trans issues.length_le⟩
    | _ => exact ⟨fun issue hissue => (by cases hissue), Nat.zero_le _⟩
  obtain ⟨hfits, hlen⟩ := findingFits_readIssues hitems.1 hfindings
  have hlen := hlen.trans hitems.2
  rw [lintMaxOutput] at hlen
  refine ⟨fun f hf => hfits f ?_, List.length_take_le .., ?_, ?_⟩
  · exact (List.mem_insertionSort _).1 (List.mem_of_mem_take hf)
  · show findings.length < _
    omega
  · show external < _
    omega

/-- 500 findings at most, so about 28 million characters. -/
theorem fits_lintResult (py : Python) (job : LintJob) (rc : ExitCode)
    {found : List Finding × Nat × Nat} (h : FoundFits found) (error : Option Str) :
    ∀ m ∈ lintResult py job rc found error, Fits m := by
  refine List.forall_mem_cons.2 ⟨?_, List.forall_mem_singleton.2 (fits_result ?_ _)⟩
  · have hcode : (dump (.int rc.1)).length ≤ 4 := length_dump_code_le (some rc)
    have hfindings : (dump (.arr (found.1.map Finding.json))).length ≤ 56002 * 500 + 2 := by
      refine (Lib.JsonText.length_dump_arr_le _).trans (Nat.add_le_add_right ?_ 2)
      rw [List.map_map]
      -- each finding at its longest, with the ", " behind it
      refine (List.sum_le_card_nsmul _ 56002 fun length hlength => ?_).trans ?_
      · obtain ⟨f, hf, rfl⟩ := List.mem_map.1 hlength
        exact Nat.add_le_add_right (length_finding_le (h.findings f hf)) 2
      · rw [List.length_map, Nat.nsmul_eq_mul, Nat.mul_comm]
        exact Nat.mul_le_mul_left _ h.count
    have htotal : (dump (.int found.2.1)).length ≤ 20 := length_decimal_small h.total
    have hexternal : (dump (.int found.2.2)).length ≤ 20 := length_decimal_small h.external
    have htruncated : (dump (.bool (found.1.length < found.2.1))).length ≤ 5 := by
      cases decide (found.1.length < found.2.1) <;> decide
    have hrepo : (dump (.bool job.repoConfig)).length ≤ 5 := by
      cases job.repoConfig <;> decide
    have herror : (dump (optionJson (fun e => .str (e.take 1000)) error)).length ≤ 12002 := by
      cases error with
      | none => decide
      | some error =>
        have := length_dump_str_le (error.take 1000)
        have := List.length_take_le 1000 error
        show (dump (.str (error.take 1000))).length ≤ _
        omega
    have hversion := length_dump_str_le py.lintVersion
    have hversion' := py.length_lintVersion
    have htype : (dumpStr (str "lint_result")).length = 13 := by decide
    have k1 : (dumpStr (str "rc")).length = 4 := by decide
    have k2 : (dumpStr (str "findings")).length = 10 := by decide
    have k3 : (dumpStr (str "total")).length = 7 := by decide
    have k4 : (dumpStr (str "truncated")).length = 11 := by decide
    have k5 : (dumpStr (str "external")).length = 10 := by decide
    have k6 : (dumpStr (str "error")).length = 7 := by decide
    have k7 : (dumpStr (str "version")).length = 9 := by decide
    have k8 : (dumpStr (str "repo_config")).length = 13 := by decide
    rw [Fits, length_line, maxMessageBytes]
    simp only [List.map_cons, List.map_nil, List.sum_cons, List.sum_nil, htype, k1, k2, k3, k4, k5,
      k6, k7, k8]
    omega
  · split <;> decide

theorem fits_check (py : Python) (job : LintJob) (o : CheckOutcome) :
    ∀ m ∈ checkMessages py job o, Fits m := by
  have hempty : FoundFits ([], 0, 0) :=
    ⟨fun f hf => (by cases hf), Nat.zero_le _, by decide, by decide⟩
  rw [checkMessages]
  cases o.dir with
  | error why => exact List.forall_mem_singleton.2 (fits_refused why)
  | ok dir =>
    refine List.forall_mem_cons.2 ⟨fits_started dir, ?_⟩
    cases o.lint with
    | raised why => exact List.forall_mem_singleton.2 (fits_refused why)
    | ran rc tail issues =>
      dsimp only
      split
      · cases issues with
        | none => exact fits_lintResult py job rc hempty _
        | some issues =>
          dsimp only
          cases hfound : lintFindings py issues.value job.target job.clean with
          | error why => exact List.forall_mem_singleton.2 (fits_refused why)
          | ok found => exact fits_lintResult py job rc (foundFits_lintFindings hfound) none
      · exact fits_lintResult py job rc hempty _

/-! ## Every job -/

/-- **Every message of every other job fits**, and those of a run do when its events and the list of
its files do. -/
theorem emitted_fits_iff (py : Python) (settings : Settings) (o : Outcome) :
    (∀ m ∈ emitted py settings o, Fits m) ↔ OutcomeFits settings o := by
  cases o with
  | run o => exact fits_run py settings o
  | refresh o => exact iff_of_true (fits_refresh py settings o) trivial
  | check job o => exact iff_of_true (fits_check py job o) trivial
  | scan o => exact iff_of_true (fits_scan py o) trivial

/-! ## A run whose list does not fit -/

/-- The largest limits that the API takes. -/
def widest : Settings := ⟨10240, 100000, 256, by decide, by decide, by decide⟩

/-- A number below two directories with names of 200 characters. -/
def deepPath (i : Nat) : Str :=
  List.replicate 200 97 ++ 47 :: List.replicate 200 98 ++ 47 :: decimal i

def emptyFile (i : Nat) : Entry := ⟨deepPath i, .ok (true, 0), .ok 0⟩

def emptyFiles (n : Nat) : List Entry := (List.range n).map emptyFile

/-- A playbook that leaves so many empty files in `ARTIFACTS_DIR` and succeeds. -/
def deepRun (n : Nat) : RunOutcome where
  prepared := .ok ⟨str "/run/1", by decide⟩
  events := []
  ended := some (.successful, some codeZero)
  learned := none
  walk := emptyFiles n
  archive := ⟨[], none⟩

theorem length_le_dumpStr (s : Str) : s.length ≤ (dumpStr s).length := by
  induction s with
  | nil => exact Nat.zero_le _
  | cons c s ih =>
    have hone : 1 ≤ (Lib.JsonText.escapeChar c).length := by
      rw [Lib.JsonText.escapeChar]
      repeat' split
      all_goals simp [Lib.JsonText.escapeUnit]
    simp only [dumpStr, List.flatMap_cons, List.length_cons, List.length_append,
      List.cons_append] at ih ⊢
    omega

theorem kept_emptyFiles {limits : Limits} {n : Nat} (hpos : 0 < n) (h : n ≤ limits.maxFiles) :
    Kept limits (emptyFiles n) ((List.range n).map fun i => (deepPath i, 0)) where
  stats entry hentry := by
    obtain ⟨i, -, rfl⟩ := List.mem_map.1 hentry
    exact ⟨_, rfl⟩
  some_file hnil := by
    have hlength := congrArg List.length hnil
    rw [List.length_map, List.length_range, List.length_nil] at hlength
    omega
  count := by rwa [List.length_map, List.length_range]
  bytes := by
    have hzero : ((emptyFiles n).map sizeOf).sum = 0 := by
      rw [emptyFiles, List.map_map, List.sum_eq_zero_iff_forall_eq_nat]
      intro size hsize
      obtain ⟨i, -, rfl⟩ := List.mem_map.1 hsize
      rfl
    rw [hzero]
    exact Nat.zero_le _
  opened := by
    have hall : (emptyFiles n).filter isRegular = emptyFiles n := by
      refine List.filter_eq_self.2 fun entry hentry => ?_
      obtain ⟨i, -, rfl⟩ := List.mem_map.1 hentry
      rfl
    rw [hall, emptyFiles, List.forall₂_map_left_iff, List.forall₂_map_right_iff]
    exact List.forall₂_same.2 fun i _ => ⟨rfl, rfl⟩

theorem listLength_emptyFiles (n : Nat) :
    n * 400 ≤ listLength ((List.range n).map fun i => (deepPath i, 0)) := by
  rw [listLength, List.map_map]
  refine le_trans ?_ (List.card_nsmul_le_sum _ 400 fun length hlength => ?_)
  · rw [List.length_map, List.length_range, Nat.nsmul_eq_mul]
  · obtain ⟨i, -, rfl⟩ := List.mem_map.1 hlength
    have hpath : 400 ≤ (deepPath i).length := by
      simp only [deepPath, List.length_append, List.length_cons, List.length_replicate]
      omega
    show 400 ≤ (dumpStr (deepPath i)).length + (decimal 0).length + 22
    have := length_le_dumpStr (deepPath i)
    omega

theorem length_of_fits_deepRun {n : Nat} (hpos : 0 < n) (hmany : n ≤ 100000)
    (h : ∀ m ∈ emitted plainPython widest (.run (deepRun n)), Fits m) : n * 400 ≤
    maxMessageBytes := by
  have hfits : RunFits widest.artifacts (deepRun n) := (fits_run plainPython widest (deepRun n)).1 h
  have hlist := (hfits rfl).2 rfl rfl _ (kept_emptyFiles hpos hmany)
  have hlong := listLength_emptyFiles n
  omega

/-- The names of 100000 files take more than 32 MiB. -/
theorem deepRun_not_fits :
    ¬ ∀ (py : Python) (settings : Settings) (o : Outcome), ∀ m ∈ emitted py settings o, Fits m := by
  intro h
  have hlong := length_of_fits_deepRun (by omega) (Nat.le_refl _) (h _ _ (.run (deepRun 100000)))
  rw [maxMessageBytes] at hlong
  omega

end RunWorker

end AnsiDeck
