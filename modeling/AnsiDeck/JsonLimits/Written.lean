import AnsiDeck.JsonLimits.Bounded
import AnsiDeck.Lib.JsonRoundTrip

/-!
# What AnsiDeck writes is within the limits it reads by

The scan climbs no higher than the reader has room to nest, where the reader takes the text
(`nestingDepth_le`). So `loads_bounded` of what `json.dumps` wrote gives the value back, as long as
it nests no deeper than the limit (`loadsBounded_dump`).
-/

namespace AnsiDeck

namespace JsonLimits

open Lib (Json Str)
open Lib.JsonText

/-- The scan stays within the room. -/
def Stays (room : Nat) (s rest : Str) : Prop :=
  ∀ n : Int, peak .outside n s ≤ max (n + room) (peak .outside n rest)

/-- Up to the closing bracket, of an array or an object that was opened. -/
def StaysOpen (room : Nat) (s rest : Str) : Prop :=
  ∀ n : Int, peak .outside n s ≤ max (n + room) (peak .outside (n - 1) rest)

theorem stays_of_eq {room : Nat} {s rest : Str}
    (h : ∀ n, peak .outside n s = peak .outside n rest) : Stays room s rest := fun n => by
  rw [h n]
  exact Int.le_max_right ..

theorem staysOpen_of_close {room : Nat} {s rest : Str} {c : Nat} (h : skip s = c :: rest)
    (hc : isBracket c = true) (hdelta : delta c = -1) : StaysOpen room s rest := fun n => by
  rw [peak_skip_eq n h, peak_bracket hc, hdelta]
  have hsub : n - 1 = n + -1 := rfl
  rw [hsub]
  omega

theorem stays_of_open {room : Nat} {s rest : Str} {c : Nat} (h : StaysOpen room (skip s) rest)
    (hc : isBracket c = true) (hdelta : delta c = 1) : Stays (room + 1) (c :: s) rest := fun n => by
  have hin := h (n + 1)
  have hback : n + 1 - 1 = n := by omega
  rw [hback, ← (past_skip s).peak_eq] at hin
  rw [peak_bracket hc, hdelta]
  omega

theorem Stays.closes {room : Nat} {s s' rest : Str} {c : Nat} (h : Stays room s s')
    (hskip : skip s' = c :: rest) (hc : isBracket c = true) (hdelta : delta c = -1) :
    StaysOpen room s rest := fun n => by
  have hv := h n
  have hend : StaysOpen room s' rest := staysOpen_of_close hskip hc hdelta
  have hn := hend n
  omega

theorem Stays.next {room : Nat} {s s' s'' rest : Str} (h : Stays room s s')
    (hskip : skip s' = 44 :: s'') (h' : StaysOpen room (skip s'') rest) : StaysOpen room s rest :=
  fun n => by
    have hv := h n
    have hcomma := peak_skip_eq n hskip
    rw [peak_plain (by decide), (past_skip s'').peak_eq] at hcomma
    have hrest := h' n
    omega

theorem stays_member {room : Nat} {s t s' : Str} {k : Str × Str} (hk : string s = some k)
    (ht : skip k.2 = 58 :: t) (h : Stays room (skip t) s') : Stays room (34 :: s) s' :=
  fun n => by
    have hcolon := peak_skip_eq n ht
    rw [peak_plain (by decide), (past_skip t).peak_eq] at hcolon
    rw [peak_string n hk, hcolon]
    exact h n

theorem roomRule (d : Lib.Dialect) : Rule d (fun room s _ rest => Stays room s rest)
    (fun room s _ rest => StaysOpen room s rest) (fun room s _ rest => StaysOpen room s rest) where
  string h := stays_of_eq fun n => peak_string n h
  emptyArray {room} {s} {rest} h := by
    refine stays_of_open (fun n => ?_) rfl rfl
    rw [← (past_skip s).peak_eq]
    exact staysOpen_of_close h rfl rfl n
  array h := stays_of_open h rfl rfl
  emptyObject {room} {s} {rest} h := by
    refine stays_of_open (fun n => ?_) rfl rfl
    rw [← (past_skip s).peak_eq]
    exact staysOpen_of_close h rfl rfl n
  object h := stays_of_open h rfl rfl
  literal h := stays_of_eq (past_literal h).peak_eq
  number h := stays_of_eq (past_number h).peak_eq
  lastItem hv hskip := hv.closes hskip rfl rfl
  moreItems hv hskip hvs := hv.next hskip hvs
  lastMember hk ht hv hskip := (stays_member hk ht hv).closes hskip rfl rfl
  moreMembers hk ht hv hskip hes := (stays_member hk ht hv).next hskip hes

theorem nestingDepth_le {d : Lib.Dialect} {room : Nat} {s : Str} {v : Json}
    (h : Lib.JsonText.loads d room s = some v) : nestingDepth s ≤ room := by
  obtain ⟨rest, hstays, hrest⟩ := (roomRule d).loads h
  have hle := hstays 0
  have hend : peak .outside 0 rest = 0 := by
    rw [(past_skip rest).peak_eq, hrest]
    rfl
  rw [← (past_skip s).peak_eq, hend] at hle
  rw [nestingDepth_eq]
  omega

/-- `json.dumps(v).encode()`. -/
def dumpBytes (v : Json) : Bytes := (dump v).map UInt8.ofNat

theorem data_dumpBytes (v : Json) : (Raw.bytes (dumpBytes v)).data = some (dump v) := by
  have hbyte : ∀ c ∈ dump v, (UInt8.ofNat c).toNat = c := by
    intro c hc
    have := printable_dump v c hc
    rw [UInt8.toNat_ofNat']
    omega
  rw [Raw.data, dumpBytes, List.map_map]
  exact congrArg some ((List.map_congr_left hbyte).trans (List.map_id _))

theorem loadsBounded_dump {recursion : Nat} {v : Json} {maxDepth : Int}
    (hplain : Lib.JsonText.Plain v)
    (hread : Readable .python v) (hdepth : v.depth ≤ maxDepth) (hroom : v.depth ≤ recursion) :
    loadsBounded recursion (.bytes (dumpBytes v)) maxDepth = .ok v := by
  have hnesting : nestingDepth (dump v) ≤ v.depth :=
    nestingDepth_le (loads_dump hread (Nat.le_refl _))
  have hpassed : passedOn (.bytes (dumpBytes v)) maxDepth = .ok (dump v) :=
    passedOn_eq_ok.2 ⟨data_dumpBytes v, hnesting.trans hdepth⟩
  rw [loadsBounded, hpassed]
  show loads recursion (dump v) = _
  rw [loads, loadsBytes_dump hplain hread hroom]

end JsonLimits

end AnsiDeck
