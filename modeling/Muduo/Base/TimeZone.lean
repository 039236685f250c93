import Muduo.Foundations.LowerBound
import Muduo.Base.Text
import Muduo.Base.UtcTime

/-!
# Time zones

A time zone is a table of the moments at which the local time changes its offset. The
table is searched by the time it is in Greenwich or by the local time, and the type of
local time found is that of the last transition not after it. When the clock is put
back, an hour of local time comes twice; `fromLocalTime` tells the two apart by
`tm_isdst`.
-/

namespace Muduo

open Foundations

namespace TimeZone

/-- `localtimeIdx` comes from an unsigned byte. -/
structure Transition where
  gmttime : ℤ
  localtime : ℤ
  localtimeIdx : ℕ
  deriving DecidableEq, Repr

structure Comp where
  compareGmt : Bool

namespace Comp

variable (comp : Comp)

def key (t : Transition) : ℤ := if comp.compareGmt then t.gmttime else t.localtime

/-- `operator()`. -/
def less (lhs rhs : Transition) : Bool := comp.key lhs < comp.key rhs

def equal (lhs rhs : Transition) : Bool := comp.key lhs = comp.key rhs

end Comp

structure Localtime where
  gmtOffset : ℤ
  isDst : Bool
  arrbIdx : ℕ
  deriving DecidableEq, Repr

structure Data where
  transitions : List Transition
  localtimes : List Localtime
  abbreviation : Bytes
  deriving DecidableEq, Repr

/-- `operator[]` of a vector. -/
def subscript {α : Type} (l : List α) (i : ℕ) : Except Fault α :=
  match l[i]? with
  | some x => .ok x
  | none => .error .outOfBounds

theorem subscript_of_some {α : Type} {l : List α} {i : ℕ} {x : α} (h : l[i]? = some x) :
    subscript l i = .ok x := by
  simp [subscript, h]

theorem subscript_eq_ok {α : Type} {l : List α} {i : ℕ} {x : α} (h : subscript l i = .ok x) :
    l[i]? = some x := by
  unfold subscript at h
  split at h
  · cases h
    assumption
  · cases h

namespace Data

variable (data : Data)

/-- The type of local time that a transition leads to. -/
def localtimeAt (transI : ℕ) : Except Fault Localtime := do
  let transition ← subscript data.transitions transI
  subscript data.localtimes transition.localtimeIdx

def findLocaltime (sentry : Transition) (comp : Comp) : Except Fault Localtime :=
  match data.transitions.head? with
  | none => subscript data.localtimes 0
  | some front =>
    if comp.less sentry front then subscript data.localtimes 0
    else
      let transI := lowerBound (comp.less · sentry) data.transitions
      match data.transitions[transI]? with
      | some transition =>
        if comp.equal sentry transition then subscript data.localtimes transition.localtimeIdx
        else do
          assertThat (transI ≠ 0)
          data.localtimeAt (transI - 1)
      | none => data.localtimeAt (data.transitions.length - 1)

/-- The type of local time in force behind so many transitions. -/
def period : ℕ → Except Fault Localtime
  | 0 => subscript data.localtimes 0
  | j + 1 => data.localtimeAt j

variable {data} {sentry : Transition} {comp : Comp}

theorem less_of_sorted (h : data.transitions.Pairwise (comp.less · ·)) {i j : ℕ}
    {a b : Transition} (hij : i < j) (ha : data.transitions[i]? = some a)
    (hb : data.transitions[j]? = some b) : comp.key a < comp.key b := by
  obtain ⟨hi, rfl⟩ := List.getElem?_eq_some_iff.mp ha
  obtain ⟨hj, rfl⟩ := List.getElem?_eq_some_iff.mp hb
  exact of_decide_eq_true (List.pairwise_iff_getElem.mp h i j hi hj hij)

theorem bracket_zero (h : ∀ {t}, data.transitions[0]? = some t → comp.less sentry t) :
    Bracket (fun t => decide (comp.key t ≤ comp.key sentry)) data.transitions 0 0 := by
  refine ⟨Nat.zero_le _, by omega, fun hx => ?_⟩
  simpa [Comp.less] using h hx

/-- In an ordered table the transition behind one at the time looked for is later. -/
theorem bracket_succ_of_equal (hsorted : data.transitions.Pairwise (comp.less · ·)) {i : ℕ}
    {t : Transition} (ht : data.transitions[i]? = some t) (hkey : comp.key sentry = comp.key t) :
    Bracket (fun t => decide (comp.key t ≤ comp.key sentry)) data.transitions (i + 1) (i + 1) := by
  refine ⟨(List.getElem?_eq_some_iff.mp ht).1, fun hi hx => ?_, fun hx => ?_⟩
  · cases Nat.succ.inj hi
    cases ht.symm.trans hx
    exact decide_eq_true hkey.ge
  · have hnext := less_of_sorted hsorted (Nat.lt_succ_self _) ht hx
    simpa [hkey] using hnext

theorem bracket_of_ne {k : ℕ} (h : Bracket (comp.less · sentry) data.transitions k k)
    (hne : ∀ {t}, data.transitions[k]? = some t → comp.key sentry ≠ comp.key t) :
    Bracket (fun t => decide (comp.key t ≤ comp.key sentry)) data.transitions k k := by
  refine ⟨h.last_le, fun hi hx => ?_, fun hx => ?_⟩
  · have hless := of_decide_eq_true (h.passes hi hx)
    exact decide_eq_true hless.le
  · have hge := h.fails hx
    simp only [Comp.less, decide_eq_true_eq, not_lt] at hge
    simpa using lt_of_le_of_ne hge (hne hx)

/-- Some type of the table is found, in an ordered table that of the last transition not
after the time looked for. No order is needed for the assertion: in front of the position
found is an earlier transition. -/
theorem findLocaltime_eq_period (data : Data) (sentry : Transition) (comp : Comp) :
    ∃ j, data.findLocaltime sentry comp = data.period j ∧ j ≤ data.transitions.length ∧
      (data.transitions.Pairwise (comp.less · ·) →
        Bracket (fun t => decide (comp.key t ≤ comp.key sentry)) data.transitions j j) := by
  have hbracket := bracket_lowerBound (comp.less · sentry) data.transitions
  have hle := hbracket.last_le
  unfold findLocaltime
  split
  case h_1 hempty =>
    have hnil := List.head?_eq_none_iff.mp hempty
    exact ⟨0, rfl, Nat.zero_le _, fun _ => bracket_zero fun ht => by simp [hnil] at ht⟩
  case h_2 front hfront =>
    rw [List.head?_eq_getElem?] at hfront
    split_ifs with hless
    · refine ⟨0, rfl, Nat.zero_le _, fun _ => bracket_zero fun ht => ?_⟩
      cases hfront.symm.trans ht
      exact hless
    · dsimp only
      generalize lowerBound (comp.less · sentry) data.transitions = transI at hle hbracket ⊢
      split
      case h_1 transition htransition =>
        by_cases hequal : comp.equal sentry transition
        · have hkey := of_decide_eq_true hequal
          refine ⟨transI + 1, ?_, (List.getElem?_eq_some_iff.mp htransition).1,
            fun hsorted => bracket_succ_of_equal hsorted htransition hkey⟩
          rw [if_pos hequal, period, localtimeAt, subscript_of_some htransition, ok_bind]
        · have hkey := of_decide_eq_false (Bool.not_eq_true _ ▸ hequal)
          have hpos : transI ≠ 0 := by
            rintro rfl
            cases hfront.symm.trans htransition
            have hge := hbracket.fails htransition
            simp only [Comp.less, decide_eq_true_eq, not_lt] at hless hge
            exact hkey (le_antisymm hge hless)
          obtain ⟨k, rfl⟩ := Nat.exists_eq_succ_of_ne_zero hpos
          refine ⟨k + 1, ?_, hle, fun _ => bracket_of_ne hbracket fun ht => ?_⟩
          · rw [if_neg hequal, assertThat_pos hpos, ok_bind]
            rfl
          · cases htransition.symm.trans ht
            exact hkey
      case h_2 hnone =>
        have hend := List.getElem?_eq_none_iff.mp hnone
        have hpos := (List.getElem?_eq_some_iff.mp hfront).1
        obtain ⟨k, hk⟩ := Nat.exists_eq_succ_of_ne_zero hpos.ne'
        have heq : transI = k + 1 := by omega
        subst heq
        refine ⟨k + 1, by rw [hk]; rfl, hle, fun _ => bracket_of_ne hbracket fun ht => ?_⟩
        cases hnone.symm.trans ht

theorem findLocaltime_of_bracket (hsorted : data.transitions.Pairwise (comp.less · ·)) {j : ℕ}
    (hj : Bracket (fun t => decide (comp.key t ≤ comp.key sentry)) data.transitions j j) :
    data.findLocaltime sentry comp = data.period j := by
  obtain ⟨k, hfind, -, hk⟩ := findLocaltime_eq_period data sentry comp
  have hsplit : ∀ {i j : ℕ} {x y : Transition}, i < j → data.transitions[i]? = some x →
      data.transitions[j]? = some y → decide (comp.key y ≤ comp.key sentry) →
        decide (comp.key x ≤ comp.key sentry) := by
    intro i j x y hij hx hy hle
    have hless := less_of_sorted hsorted hij hx hy
    simp only [decide_eq_true_eq] at hle ⊢
    omega
  rw [hfind, Bracket.unique hsplit hj (hk hsorted)]

theorem period_eq_ok (hnonempty : data.localtimes ≠ [])
    (hindices : ∀ t ∈ data.transitions, t.localtimeIdx < data.localtimes.length) {j : ℕ}
    (hj : j ≤ data.transitions.length) : ∃ l, data.period j = .ok l ∧ l ∈ data.localtimes := by
  cases j with
  | zero =>
    have hl := List.getElem?_eq_getElem (List.length_pos_iff.mpr hnonempty)
    exact ⟨_, subscript_of_some hl, List.mem_of_getElem? hl⟩
  | succ j =>
    have ht := List.getElem?_eq_getElem (Nat.lt_of_succ_le hj)
    have hl := List.getElem?_eq_getElem (hindices _ (List.mem_of_getElem? ht))
    refine ⟨_, ?_, List.mem_of_getElem? hl⟩
    rw [period, localtimeAt, subscript_of_some ht, ok_bind, subscript_of_some hl]

theorem mem_of_period {j : ℕ} {l : Localtime} (h : data.period j = .ok l) :
    l ∈ data.localtimes := by
  cases j with
  | zero => exact List.mem_of_getElem? (subscript_eq_ok h)
  | succ j =>
    obtain ⟨transition, -, hl⟩ := bind_eq_ok.mp h
    exact List.mem_of_getElem? (subscript_eq_ok hl)

/-- `&abbreviation[arrbIdx]`; the position behind the last character has the terminator. -/
def zoneName (found : Localtime) : Except Fault TmZone :=
  if found.arrbIdx ≤ data.abbreviation.length then .ok (.abbreviation found.arrbIdx)
  else .error .outOfBounds

end Data

end TimeZone

/-- `data_` is null in a zone without a table. -/
structure TimeZone where
  data : Option TimeZone.Data
  deriving DecidableEq, Repr

namespace TimeZone

def valid (tz : TimeZone) : Bool := tz.data.isSome

def fixed (eastOfUtc : ℤ) (name : Bytes) : TimeZone := ⟨some ⟨[], [⟨eastOfUtc, false, 0⟩], name⟩⟩

variable (clib : GmTime) (tz : TimeZone)

def toLocalTime (seconds : ℤ) : Except Fault Tm :=
  match tz.data with
  | none => .error .assertion
  | some data => do
    let found ← data.findLocaltime ⟨seconds, 0, 0⟩ ⟨true⟩
    let zone ← data.zoneName found
    return { clib.gmtime (seconds + found.gmtOffset) with
      isdst := found.isDst, gmtoff := found.gmtOffset, zone := zone }

/-- What `fromLocalTime` takes off for an hour that comes twice. -/
def correction (seconds : ℤ) (found : Localtime) (localTm : Tm) : Except Fault ℤ :=
  if localTm.isdst then do
    let tryTm ← toLocalTime clib tz (seconds - found.gmtOffset)
    return if !tryTm.isdst ∧ tryTm.hour = localTm.hour ∧ tryTm.min = localTm.min then 3600 else 0
  else .ok 0

def fromLocalTime (localTm : Tm) : Except Fault ℤ :=
  match tz.data with
  | none => .error .assertion
  | some data => do
    let seconds := clib.timegm localTm
    let found ← data.findLocaltime ⟨0, seconds, 0⟩ ⟨false⟩
    let hack ← correction clib tz seconds found localTm
    return seconds - hack - found.gmtOffset

namespace Data

/-- A table of a zone whose clock is put back only at the end of daylight saving time, by
an hour. -/
structure Regular (data : Data) : Prop where
  nonempty : data.localtimes ≠ []
  indices : ∀ t ∈ data.transitions, t.localtimeIdx < data.localtimes.length
  abbreviations : ∀ l ∈ data.localtimes, l.arrbIdx ≤ data.abbreviation.length
  apart : data.transitions.IsChain (fun a b => a.gmttime + 7200 ≤ b.gmttime)
  localtime : ∀ {i t l}, data.transitions[i]? = some t → data.period (i + 1) = .ok l →
    t.localtime = t.gmttime + l.gmtOffset
  falling : ∀ {i before after}, data.period i = .ok before → data.period (i + 1) = .ok after →
    after.gmtOffset < before.gmtOffset →
      before.isDst ∧ ¬ after.isDst ∧ before.gmtOffset = after.gmtOffset + 3600

namespace Regular

variable {data : Data} (h : data.Regular)

include h

theorem exists_period {j : ℕ} (hj : j ≤ data.transitions.length) :
    ∃ l, data.period j = .ok l ∧ data.zoneName l = .ok (.abbreviation l.arrbIdx) := by
  obtain ⟨l, hl, hmem⟩ := period_eq_ok h.nonempty h.indices hj
  exact ⟨l, hl, if_pos (h.abbreviations l hmem)⟩

theorem apart_of_succ {i : ℕ} {a b : Transition} (ha : data.transitions[i]? = some a)
    (hb : data.transitions[i + 1]? = some b) : a.gmttime + 7200 ≤ b.gmttime := by
  obtain ⟨hi, rfl⟩ := List.getElem?_eq_some_iff.mp ha
  obtain ⟨hj, rfl⟩ := List.getElem?_eq_some_iff.mp hb
  exact List.isChain_iff_getElem.mp h.apart i hj

theorem offset_le {i : ℕ} {before after : Localtime} (hbefore : data.period i = .ok before)
    (hafter : data.period (i + 1) = .ok after) : before.gmtOffset ≤ after.gmtOffset + 3600 := by
  by_contra hlt
  have hfall := (h.falling hbefore hafter (by omega)).2.2
  omega

theorem sorted (comp : Comp) : data.transitions.Pairwise (comp.less · ·) := by
  have : IsTrans Transition (comp.less · ·) := ⟨fun a b c => by
    simp only [Comp.less, decide_eq_true_eq]
    exact lt_trans⟩
  refine List.isChain_iff_pairwise.mp (List.isChain_iff_getElem.mpr fun i hi => ?_)
  have ha := List.getElem?_eq_getElem (Nat.lt_of_succ_lt hi)
  have hb := List.getElem?_eq_getElem hi
  have hapart := h.apart_of_succ ha hb
  obtain ⟨before, hbefore, -⟩ := h.exists_period (j := i + 1) hi.le
  obtain ⟨after, hafter, -⟩ := h.exists_period (j := i + 2) hi
  have hlocal := h.localtime ha hbefore
  have hlocal' := h.localtime hb hafter
  have hoffset := h.offset_le hbefore hafter
  rw [Comp.less, decide_eq_true_eq]
  unfold Comp.key
  split_ifs <;> omega

/-- A time in a period is in the same period by the local clock, unless the clock is put
back at the end of the period and the time comes again. Then the second time is an hour
later. -/
theorem local_period {t : ℤ} {j : ℕ} {l : Localtime}
    (hj : Bracket (fun u => decide (u.gmttime ≤ t)) data.transitions j j)
    (hl : data.period j = .ok l) :
    Bracket (fun u => decide (u.localtime ≤ t + l.gmtOffset)) data.transitions j j ∨
      ∃ after, data.period (j + 1) = .ok after ∧ l.isDst ∧ ¬ after.isDst ∧
        l.gmtOffset = after.gmtOffset + 3600 ∧
        Bracket (fun u => decide (u.localtime ≤ t + l.gmtOffset)) data.transitions
          (j + 1) (j + 1) ∧
        Bracket (fun u => decide (u.gmttime ≤ t + 3600)) data.transitions (j + 1) (j + 1) := by
  obtain ⟨hle, hpasses, hfails⟩ := hj
  simp only [decide_eq_true_eq, not_le] at hpasses hfails
  have hstart : ∀ {i u}, i + 1 = j → data.transitions[i]? = some u →
      u.localtime ≤ t + l.gmtOffset := by
    rintro i u rfl hu
    have hlocal := h.localtime hu hl
    have hgmt := hpasses rfl hu
    omega
  by_cases hagain : ∃ u, data.transitions[j]? = some u ∧ u.localtime ≤ t + l.gmtOffset
  · obtain ⟨u, hu, hback⟩ := hagain
    have hlt := (List.getElem?_eq_some_iff.mp hu).1
    obtain ⟨after, hafter, -⟩ := h.exists_period (j := j + 1) hlt
    have hlocal := h.localtime hu hafter
    have hgmt := hfails hu
    obtain ⟨hdst, hstandard, hoffset⟩ := h.falling hl hafter (by omega)
    refine .inr ⟨after, hafter, hdst, hstandard, hoffset, ⟨hlt, ?_, ?_⟩, hlt, ?_, ?_⟩
    · rintro i v hi hv
      cases Nat.succ.inj hi
      cases hu.symm.trans hv
      exact decide_eq_true hback
    · intro v hv
      obtain ⟨next, hnext, -⟩ :=
        h.exists_period (j := j + 2) (List.getElem?_eq_some_iff.mp hv).1
      have hapart := h.apart_of_succ hu hv
      have hlocal' := h.localtime hv hnext
      have hoffset' := h.offset_le hafter hnext
      simp only [decide_eq_true_eq]
      omega
    · rintro i v hi hv
      cases Nat.succ.inj hi
      cases hu.symm.trans hv
      exact decide_eq_true (by omega)
    · intro v hv
      have hapart := h.apart_of_succ hu hv
      simp only [decide_eq_true_eq]
      omega
  · refine .inl ⟨hle, fun hi hu => decide_eq_true (hstart hi hu), fun hu hlocal => ?_⟩
    exact hagain ⟨_, hu, of_decide_eq_true hlocal⟩

theorem findLocaltime_gmt {t : ℤ} {j : ℕ}
    (hj : Bracket (fun u => decide (u.gmttime ≤ t)) data.transitions j j) :
    data.findLocaltime ⟨t, 0, 0⟩ ⟨true⟩ = data.period j :=
  findLocaltime_of_bracket (h.sorted _) hj

theorem findLocaltime_local {t : ℤ} {j : ℕ}
    (hj : Bracket (fun u => decide (u.localtime ≤ t)) data.transitions j j) :
    data.findLocaltime ⟨0, t, 0⟩ ⟨false⟩ = data.period j :=
  findLocaltime_of_bracket (h.sorted _) hj

end Regular

end Data

section RoundTrip

variable {tz : TimeZone} {data : Data} (hdata : tz.data = some data) (h : data.Regular)

include hdata h

theorem toLocalTime_eq {t : ℤ} {j : ℕ} {l : Localtime}
    (hj : Bracket (fun u => decide (u.gmttime ≤ t)) data.transitions j j)
    (hl : data.period j = .ok l) :
    toLocalTime clib tz t = .ok { clib.gmtime (t + l.gmtOffset) with
      isdst := l.isDst, gmtoff := l.gmtOffset, zone := .abbreviation l.arrbIdx } := by
  obtain ⟨l', hl', hname⟩ := h.exists_period hj.last_le
  cases hl.symm.trans hl'
  rw [toLocalTime, hdata]
  simp only [h.findLocaltime_gmt hj, hl, ok_bind, hname, pure_eq_ok]

/-- The two conversions are inverse to each other, also in the hour that comes twice. -/
theorem local_round_trip (t : ℤ) :
    ∃ tm, toLocalTime clib tz t = .ok tm ∧ fromLocalTime clib tz tm = .ok t := by
  have hj := bracket_lowerBound (fun u : Transition => decide (u.gmttime ≤ t)) data.transitions
  generalize lowerBound (fun u : Transition => decide (u.gmttime ≤ t)) data.transitions = j at hj
  obtain ⟨l, hl, -⟩ := h.exists_period hj.last_le
  have hto := toLocalTime_eq clib hdata h hj hl
  refine ⟨_, hto, ?_⟩
  rw [fromLocalTime, hdata]
  simp only [clib.timegm_gmtime]
  rcases h.local_period hj hl with hsame | ⟨after, hafter, hdst, hstandard, hoffset, hlocal, hagain⟩
  · rw [h.findLocaltime_local hsame, hl, ok_bind]
    have hcorrection : correction clib tz (t + l.gmtOffset) l
        { clib.gmtime (t + l.gmtOffset) with
          isdst := l.isDst, gmtoff := l.gmtOffset, zone := .abbreviation l.arrbIdx } = .ok 0 := by
      rw [correction, add_sub_cancel_right, hto, ok_bind]
      cases l.isDst <;> rfl
    rw [hcorrection, ok_bind, sub_zero, add_sub_cancel_right, pure_eq_ok]
  · rw [h.findLocaltime_local hlocal, hafter, ok_bind]
    have hlater : t + l.gmtOffset - after.gmtOffset = t + 3600 := by omega
    have hsame : t + 3600 + after.gmtOffset = t + l.gmtOffset := by omega
    have hagain' := toLocalTime_eq clib hdata h hagain hafter
    rw [hsame] at hagain'
    rw [correction, hlater, hagain', ok_bind]
    simp [hdst, hstandard]
    omega

end RoundTrip

def newYork : Data where
  transitions := [⟨1425798000, 1425783600, 1⟩, ⟨1446357600, 1446339600, 0⟩]
  localtimes := [⟨-18000, false, 4⟩, ⟨-14400, true, 0⟩]
  -- EDT and EST, with their terminators
  abbreviation := [69, 68, 84, 0, 69, 83, 84, 0]

theorem newYork_regular : newYork.Regular where
  nonempty := by decide
  indices := by decide
  abbreviations := by decide
  apart := by decide
  localtime {i t l} ht hl := by
    rcases i with _ | _ | i
    · cases ht
      cases hl
      rfl
    · cases ht
      cases hl
      rfl
    · cases ht
  falling {i before after} hbefore hafter hlt := by
    rcases i with _ | _ | i
    · cases hbefore
      cases hafter
      exact absurd hlt (by decide)
    · cases hbefore
      cases hafter
      decide
    · cases hafter

/-- Half past one comes twice on the first of November. -/
theorem newYork_round_trip :
    ∃ first second, toLocalTime civil ⟨some newYork⟩ 1446355800 = .ok first ∧
      toLocalTime civil ⟨some newYork⟩ 1446359400 = .ok second ∧
      first.date = ⟨2015, 11, 1⟩ ∧ first.hour = 1 ∧ first.min = 30 ∧
      second.date = ⟨2015, 11, 1⟩ ∧ second.hour = 1 ∧ second.min = 30 ∧
      fromLocalTime civil ⟨some newYork⟩ first = .ok 1446355800 ∧
      fromLocalTime civil ⟨some newYork⟩ second = .ok 1446359400 := by
  obtain ⟨first, hfirst, hfirst'⟩ := local_round_trip civil rfl newYork_regular 1446355800
  obtain ⟨second, hsecond, hsecond'⟩ := local_round_trip civil rfl newYork_regular 1446359400
  refine ⟨first, second, hfirst, hsecond, ?_⟩
  have hone : toLocalTime civil ⟨some newYork⟩ 1446355800 =
    .ok ⟨0, 30, 1, 1, 10, 115, 0, 304, true, -14400, .abbreviation 0⟩ := by decide +kernel
  have htwo : toLocalTime civil ⟨some newYork⟩ 1446359400 =
    .ok ⟨0, 30, 1, 1, 10, 115, 0, 304, false, -18000, .abbreviation 4⟩ := by decide +kernel
  cases hfirst.symm.trans hone
  cases hsecond.symm.trans htwo
  exact ⟨by decide, rfl, rfl, by decide, rfl, rfl, hfirst', hsecond'⟩

end TimeZone

end Muduo
