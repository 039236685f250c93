import Muduo.Base.LogStream
import Muduo.Base.UtcTime

/-!
# Log files

`LogFile` appends lines to a file and starts another one when the file has grown beyond a
size, or when a day is over; the day is looked at once in `checkEveryN` lines. No file is
started twice in one second. The clock is read once for each line.
-/

namespace Muduo

open Foundations

structure AppendFile where
  filename : Bytes
  content : Bytes
  writtenBytes : ℤ
  deriving DecidableEq, Repr

namespace AppendFile

variable (fwrite : Bytes → ℕ)

/-- The loop of `append`; `fwrite` says how much of a text is taken at once. -/
def writeRest (content rest : Bytes) : Bytes :=
  if rest = [] then content
  else
    let x := min (fwrite rest) rest.length
    if x = 0 then content else writeRest (content ++ rest.take x) (rest.drop x)
termination_by rest.length
decreasing_by
  rw [List.length_drop]
  omega

def append (f : AppendFile) (logline : Bytes) : AppendFile :=
  let n := min (fwrite logline) logline.length
  { f with
    content := writeRest fwrite (f.content ++ logline.take n) (logline.drop n)
    writtenBytes := f.writtenBytes + logline.length }

variable {fwrite} (h : ∀ text, text ≠ [] → 0 < fwrite text)

include h

theorem writeRest_eq (content rest : Bytes) :
    writeRest fwrite content rest = content ++ rest := by
  fun_induction writeRest fwrite content rest with
  | case1 content => simp
  | case2 content rest hrest x hx =>
    have hpos := h rest hrest
    have hlength := List.length_pos_iff.mpr hrest
    omega
  | case3 content rest hrest x hx ih =>
    rw [ih, List.append_assoc, List.take_append_drop]

theorem append_eq (f : AppendFile) (logline : Bytes) :
    f.append fwrite logline = { f with
      content := f.content ++ logline, writtenBytes := f.writtenBytes + logline.length } := by
  rw [append, writeRest_eq h, List.append_assoc, List.take_append_drop]

end AppendFile

/-- A file with the clock at its opening and at each of its lines. -/
structure OpenFile where
  file : AppendFile
  openedAt : ℤ
  received : List (ℤ × Bytes)
  deriving DecidableEq, Repr

def OpenFile.append (f : OpenFile) (fwrite : Bytes → ℕ) (now : ℤ) (logline : Bytes) : OpenFile :=
  ⟨f.file.append fwrite logline, f.openedAt, f.received ++ [(now, logline)]⟩

/-- What a `LogFile` is constructed with, and where it runs. -/
structure LogSettings where
  basename : Bytes
  rollSize : ℤ
  flushInterval : ℤ
  checkEveryN : ℤ
  hostname : Bytes
  pid : ℤ
  fwrite : Bytes → ℕ
  /-- a write takes something -/
  progress : ∀ text, text ≠ [] → 0 < fwrite text

/-- Of `file_` the last value is in force, the others are kept in the order of their
opening. -/
structure LogFile where
  count : ℤ
  startOfPeriod : ℤ
  lastRoll : ℤ
  lastFlush : ℤ
  file : Option OpenFile
  closed : List OpenFile
  deriving DecidableEq, Repr

namespace LogFile

def kRollPerSeconds : ℤ := 60 * 60 * 24

/-- `".%Y%m%d-%H%M%S."` of `gmtime_r`. -/
def timebuf (now : ℤ) : Bytes :=
  let tm := TimeZone.civilTime now
  ascii "." ++ signedDecimal (tm.year + 1900) ++ zeroPadded 2 (tm.mon + 1) ++
    zeroPadded 2 tm.mday ++ ascii "-" ++ zeroPadded 2 tm.hour ++ zeroPadded 2 tm.min ++
    zeroPadded 2 tm.sec ++ ascii "."

variable (cfg : LogSettings)

def getLogFileName (now : ℤ) : Bytes :=
  cfg.basename ++ timebuf now ++ cfg.hostname ++ ascii "." ++ signedDecimal cfg.pid ++ ascii ".log"

variable (s : LogFile)

def files : List OpenFile := s.closed ++ s.file.toList

def periodOf (now : ℤ) : ℤ := now.tdiv kRollPerSeconds * kRollPerSeconds

def rollFile (now : ℤ) : LogFile × Bool :=
  let filename := getLogFileName cfg now
  let start := periodOf now
  if s.lastRoll < now then
    ({ s with
      lastRoll := now
      lastFlush := now
      startOfPeriod := start
      file := some ⟨⟨filename, [], 0⟩, now, []⟩
      closed := s.files }, true)
  else (s, false)

def new (now : ℤ) : Except Fault LogFile := do
  assertThat (47 ∉ cfg.basename)
  return (rollFile cfg ⟨0, 0, 0, 0, none, []⟩ now).1

/-- The check of the period and of the time of the last flush. -/
def checkPeriod (now : ℤ) : LogFile :=
  if periodOf now ≠ s.startOfPeriod then (rollFile cfg s now).1
  else if now - s.lastFlush > cfg.flushInterval then { s with lastFlush := now }
  else s

def appendUnlocked (now : ℤ) (logline : Bytes) : Except Fault LogFile :=
  match s.file with
  | none => .error .outOfBounds
  | some f =>
    let f := f.append cfg.fwrite now logline
    let s := { s with file := some f }
    if f.file.writtenBytes > cfg.rollSize then .ok (rollFile cfg s now).1
    else
      let s := { s with count := s.count + 1 }
      if s.count ≥ cfg.checkEveryN then .ok (checkPeriod cfg { s with count := 0 } now)
      else .ok s

/-- A `LogFile` and the lines appended to it, each with the clock. -/
def run (start : ℤ) (appends : List (ℤ × Bytes)) : Except Fault LogFile := do
  let s ← new cfg start
  appends.foldlM (fun s a => s.appendUnlocked cfg a.1 a.2) s

end LogFile

namespace OpenFile

variable {f : OpenFile} {fwrite : Bytes → ℕ} {now : ℤ} {logline : Bytes}

/-- The number of lines of later days than that of the opening. -/
def late (f : OpenFile) : ℕ := f.received.countP fun p => f.openedAt / 86400 < p.1 / 86400

theorem late_append_le : (f.append fwrite now logline).late ≤ f.late + 1 := by
  rw [late, append, List.countP_append]
  exact Nat.add_le_add_left List.countP_le_length _

theorem late_append_eq_zero (h : ∀ p ∈ f.received, p.1 ≤ now)
    (hday : now / 86400 ≤ f.openedAt / 86400) : (f.append fwrite now logline).late = 0 := by
  rw [late, List.countP_eq_zero]
  intro p hp
  have hle : p.1 ≤ now := by
    rcases List.mem_append.mp hp with hp | hp
    · exact h p hp
    · rw [List.mem_singleton.mp hp]
  show ¬ decide (f.openedAt / 86400 < p.1 / 86400) = true
  rw [decide_eq_true_eq]
  omega

/-- The name is that of the opening, and the content consists of the lines. -/
structure Proper (cfg : LogSettings) (f : OpenFile) : Prop where
  filename : f.file.filename = LogFile.getLogFileName cfg f.openedAt
  content : f.file.content = f.received.flatMap Prod.snd

theorem Proper.append {cfg : LogSettings} (h : f.Proper cfg) :
    (f.append cfg.fwrite now logline).Proper cfg := by
  constructor
  · exact h.filename
  · rw [OpenFile.append, AppendFile.append_eq cfg.progress]
    simp [h.content]

end OpenFile

namespace LogFile

variable {cfg : LogSettings} {s : LogFile} {f : OpenFile} {clock now : ℤ} {logline : Bytes}
  {done : List (ℤ × Bytes)}

theorem periodOf_eq (h : 0 < now) : periodOf now = now / 86400 * 86400 := by
  rw [periodOf, kRollPerSeconds]
  norm_num [Int.tdiv_eq_ediv_of_nonneg h.le]

/-- A `LogFile` behind some lines, with `f` as the current file. -/
structure Inv (cfg : LogSettings) (clock : ℤ) (done : List (ℤ × Bytes)) (s : LogFile)
    (f : OpenFile) : Prop where
  file : s.file = some f
  lastRoll : s.lastRoll = f.openedAt
  startOfPeriod : s.startOfPeriod = f.openedAt / 86400 * 86400
  opened_pos : 0 < f.openedAt
  opened_le : f.openedAt ≤ clock
  count_nonneg : 0 ≤ s.count
  count_lt : s.count < cfg.checkEveryN
  late_le : f.late ≤ s.count
  received_le : ∀ p ∈ f.received, p.1 ≤ clock
  proper : f.Proper cfg
  sorted : s.closed.Pairwise (·.openedAt < ·.openedAt)
  closed_lt : ∀ g ∈ s.closed, g.openedAt < f.openedAt
  closed_proper : ∀ g ∈ s.closed, g.Proper cfg
  closed_late : ∀ g ∈ s.closed, (g.late : ℤ) ≤ cfg.checkEveryN
  done : s.closed.flatMap OpenFile.received ++ f.received = done

namespace Inv

variable (h : Inv cfg clock done s f) (hclock : clock ≤ now)

include h hclock

theorem received_append_le : ∀ p ∈ (f.append cfg.fwrite now logline).received, p.1 ≤ now := by
  intro p hp
  rcases List.mem_append.mp hp with hp | hp
  · exact (h.received_le p hp).trans hclock
  · rw [List.mem_singleton.mp hp]

theorem keep {count lastFlush : ℤ} (hpos : 0 ≤ count) (hlt : count < cfg.checkEveryN)
    (hlate : (f.append cfg.fwrite now logline).late ≤ count) :
    Inv cfg now (done ++ [(now, logline)])
      { s with
        file := some (f.append cfg.fwrite now logline), count := count, lastFlush := lastFlush }
      (f.append cfg.fwrite now logline) where
  file := rfl
  lastRoll := h.lastRoll
  startOfPeriod := h.startOfPeriod
  opened_pos := h.opened_pos
  opened_le := h.opened_le.trans hclock
  count_nonneg := hpos
  count_lt := hlt
  late_le := hlate
  received_le := h.received_append_le hclock
  proper := h.proper.append
  sorted := h.sorted
  closed_lt := h.closed_lt
  closed_proper := h.closed_proper
  closed_late := h.closed_late
  done := by
    rw [← h.done, List.append_assoc]
    rfl

omit hclock in
/-- The line was added to the file, and another file is started. -/
theorem roll (logline : Bytes) {count : ℤ} (hpos : 0 ≤ count) (hlt : count < cfg.checkEveryN)
    (hnow : f.openedAt < now) :
    ∃ s' g, rollFile cfg { s with
        file := some (f.append cfg.fwrite now logline), count := count } now = (s', true) ∧
      s'.closed = s.closed ++ [f.append cfg.fwrite now logline] ∧
      Inv cfg now (done ++ [(now, logline)]) s' g := by
  have hroll : s.lastRoll < now := h.lastRoll ▸ hnow
  have hfiles : ({ s with file := some (f.append cfg.fwrite now logline), count := count } :
      LogFile).files = s.closed ++ [f.append cfg.fwrite now logline] := rfl
  have hlate : ((f.append cfg.fwrite now logline).late : ℤ) ≤ cfg.checkEveryN := by
    have hone : (f.append cfg.fwrite now logline).late ≤ f.late + 1 := OpenFile.late_append_le
    have hold := h.late_le
    have hcount := h.count_lt
    omega
  refine ⟨_, ⟨⟨getLogFileName cfg now, [], 0⟩, now, []⟩, if_pos hroll, hfiles, ?_⟩
  rw [hfiles]
  exact
    { file := rfl
      lastRoll := rfl
      startOfPeriod := periodOf_eq (h.opened_pos.trans hnow)
      opened_pos := h.opened_pos.trans hnow
      opened_le := le_rfl
      count_nonneg := hpos
      count_lt := hlt
      late_le := hpos
      received_le := by simp
      proper := ⟨rfl, rfl⟩
      sorted := List.pairwise_append.mpr ⟨h.sorted, List.pairwise_singleton _ _, fun g hg g' hg' =>
        List.mem_singleton.mp hg' ▸ h.closed_lt g hg⟩
      closed_lt := List.forall_mem_append.mpr ⟨fun g hg => (h.closed_lt g hg).trans hnow,
        List.forall_mem_singleton.mpr hnow⟩
      closed_proper := List.forall_mem_append.mpr ⟨h.closed_proper,
        List.forall_mem_singleton.mpr h.proper.append⟩
      closed_late := List.forall_mem_append.mpr ⟨h.closed_late,
        List.forall_mem_singleton.mpr hlate⟩
      done := by
        rw [← h.done]
        simp [OpenFile.append] }

/-- One line. A file that is too large and kept was opened at that time. -/
theorem append (logline : Bytes) :
    ∃ s' f', s.appendUnlocked cfg now logline = .ok s' ∧
      Inv cfg now (done ++ [(now, logline)]) s' f' ∧
      (s'.closed = s.closed → cfg.rollSize < f'.file.writtenBytes → f'.openedAt = now) := by
  have hpos := h.count_nonneg
  have hlt := h.count_lt
  have hold := h.late_le
  have hopened := h.opened_pos
  have hone : (f.append cfg.fwrite now logline).late ≤ f.late + 1 := OpenFile.late_append_le
  have hrolled : ∀ {s' : LogFile},
      s'.closed = s.closed ++ [f.append cfg.fwrite now logline] → s'.closed ≠ s.closed := by
    intro s' hclosed
    simp [hclosed]
  have hsame : now / 86400 ≤ f.openedAt / 86400 → (f.append cfg.fwrite now logline).late = 0 :=
    OpenFile.late_append_eq_zero fun p hp => (h.received_le p hp).trans hclock
  simp only [appendUnlocked, h.file]
  by_cases hsize : (f.append cfg.fwrite now logline).file.writtenBytes > cfg.rollSize
  · rw [if_pos hsize]
    rcases (h.opened_le.trans hclock).eq_or_lt with heq | hnow
    · rw [rollFile, if_neg (show ¬ s.lastRoll < now by rw [h.lastRoll, heq]; exact lt_irrefl _)]
      have hzero := hsame (by rw [heq])
      exact ⟨_, _, rfl, h.keep hclock hpos hlt (by omega), fun _ _ => heq⟩
    · obtain ⟨s', g, hs', hclosed, hinv⟩ := h.roll logline hpos hlt hnow
      rw [hs']
      exact ⟨s', g, rfl, hinv, fun hkept => absurd hkept (hrolled hclosed)⟩
  · rw [if_neg hsize]
    by_cases hcheck : s.count + 1 ≥ cfg.checkEveryN
    · rw [if_pos hcheck, checkPeriod]
      have hperiodOf : periodOf now = now / 86400 * 86400 :=
        periodOf_eq (hopened.trans_le (h.opened_le.trans hclock))
      by_cases hperiod : periodOf now ≠ s.startOfPeriod
      · rw [if_pos hperiod]
        have hnow : f.openedAt < now := by
          refine (h.opened_le.trans hclock).lt_of_ne fun heq => hperiod ?_
          rw [hperiodOf, h.startOfPeriod, heq]
        obtain ⟨s', g, hs', hclosed, hinv⟩ := h.roll logline le_rfl (by omega) hnow
        rw [hs']
        exact ⟨s', g, rfl, hinv, fun hkept => absurd hkept (hrolled hclosed)⟩
      · rw [if_neg hperiod]
        rw [not_not, hperiodOf, h.startOfPeriod] at hperiod
        have hzero := hsame (by omega)
        have hlate : ((f.append cfg.fwrite now logline).late : ℤ) ≤ 0 := by omega
        have hfirst : 0 < cfg.checkEveryN := by omega
        split_ifs
        · exact ⟨_, _, rfl, h.keep hclock le_rfl hfirst hlate,
            fun _ habove => absurd habove hsize⟩
        · exact ⟨_, _, rfl, h.keep hclock le_rfl hfirst hlate,
            fun _ habove => absurd habove hsize⟩
    · rw [if_neg hcheck]
      exact ⟨_, _, rfl, h.keep hclock (by omega) (by omega) (by omega),
        fun _ habove => absurd habove hsize⟩

end Inv

theorem inv_new (hcheck : 1 ≤ cfg.checkEveryN) (hname : 47 ∉ cfg.basename) (hnow : 0 < now) :
    ∃ s f, new cfg now = .ok s ∧ Inv cfg now [] s f := by
  have hnew : new cfg now = .ok ⟨0, periodOf now, now, now,
      some ⟨⟨getLogFileName cfg now, [], 0⟩, now, []⟩, []⟩ := by
    rw [new, assertThat_pos hname, ok_bind, rollFile, if_pos hnow]
    rfl
  refine ⟨_, ⟨⟨getLogFileName cfg now, [], 0⟩, now, []⟩, hnew, ?_⟩
  exact
    { file := rfl
      lastRoll := rfl
      startOfPeriod := periodOf_eq hnow
      opened_pos := hnow
      opened_le := le_rfl
      count_nonneg := le_rfl
      count_lt := hcheck
      late_le := le_rfl
      received_le := by simp
      proper := ⟨rfl, rfl⟩
      sorted := .nil
      closed_lt := by simp
      closed_proper := by simp
      closed_late := by simp
      done := rfl }

theorem Inv.run (h : Inv cfg clock done s f) (appends : List (ℤ × Bytes))
    (hclock : (clock :: appends.map Prod.fst).Pairwise (· ≤ ·)) :
    ∃ s' f' clock', appends.foldlM (fun s a => s.appendUnlocked cfg a.1 a.2) s = .ok s' ∧
      Inv cfg clock' (done ++ appends) s' f' ∧ clock' ∈ clock :: appends.map Prod.fst := by
  induction appends generalizing clock done s f with
  | nil => exact ⟨s, f, clock, rfl, by rwa [List.append_nil], List.mem_cons_self⟩
  | cons a appends ih =>
    obtain ⟨now, logline⟩ := a
    rw [List.map_cons, List.pairwise_cons] at hclock
    obtain ⟨s₁, f₁, hs₁, hinv, -⟩ := h.append (hclock.1 now List.mem_cons_self) logline
    obtain ⟨s', f', clock', hs', hinv', hmem⟩ := ih hinv hclock.2
    refine ⟨s', f', clock', ?_, ?_, List.mem_cons_of_mem _ hmem⟩
    · rw [List.foldlM_cons, hs₁]
      exact hs'
    · rwa [List.append_assoc] at hinv'

theorem readNumeral_zeroPadded :
    ∀ v : Fin 100, readNumeral 10 decimalDigit (zeroPadded 2 v.val) = some v.val := by
  decide +kernel

theorem zeroPadded_inj {v w : ℤ} (hv : 0 ≤ v ∧ v < 100) (hw : 0 ≤ w ∧ w < 100)
    (h : zeroPadded 2 v = zeroPadded 2 w) : v = w := by
  obtain ⟨m, rfl⟩ := Int.eq_ofNat_of_zero_le hv.1
  obtain ⟨n, rfl⟩ := Int.eq_ofNat_of_zero_le hw.1
  have hm := readNumeral_zeroPadded ⟨m, by omega⟩
  have hn := readNumeral_zeroPadded ⟨n, by omega⟩
  rw [h] at hm
  exact congrArg Nat.cast (Option.some.inj (hm.symm.trans hn))

theorem signedDecimal_inj {v w : ℤ} (h : signedDecimal v = signedDecimal w) : v = w := by
  have hv := readInteger_signedDecimal v
  rw [h, readInteger_signedDecimal] at hv
  exact (Option.some.inj hv).symm

theorem append_zeroPadded_inj {x y : Bytes} {v w : ℤ} (hv : 0 ≤ v ∧ v < 100)
    (hw : 0 ≤ w ∧ w < 100) (h : x ++ zeroPadded 2 v = y ++ zeroPadded 2 w) : x = y ∧ v = w := by
  obtain ⟨hx, hpadded⟩ := List.append_inj' h
    ((length_zeroPadded hv.1 hv.2).trans (length_zeroPadded hw.1 hw.2).symm)
  exact ⟨hx, zeroPadded_inj hv hw hpadded⟩

theorem timebuf_inj {t u : ℤ} (h : timebuf t = timebuf u) : t = u := by
  obtain ⟨hdate, hhour, hmin, hsec⟩ := TimeZone.civilTime_valid t
  obtain ⟨hdate', hhour', hmin', hsec'⟩ := TimeZone.civilTime_valid u
  have hmonth := hdate.month_pos
  have hmonth_le := hdate.month_le
  have hday := hdate.day_pos
  have hday_le := hdate.day_le_31
  have hmonth' := hdate'.month_pos
  have hmonth_le' := hdate'.month_le
  have hday' := hdate'.day_pos
  have hday_le' := hdate'.day_le_31
  simp only [Tm.date] at hmonth hmonth_le hday hday_le hmonth' hmonth_le' hday' hday_le'
  unfold timebuf at h
  dsimp only at h
  obtain ⟨h, hsecs⟩ := append_zeroPadded_inj (by omega) (by omega) (List.append_cancel_right h)
  obtain ⟨h, hmins⟩ := append_zeroPadded_inj (by omega) (by omega) h
  obtain ⟨h, hhours⟩ := append_zeroPadded_inj (by omega) (by omega) h
  obtain ⟨h, hdays⟩ := append_zeroPadded_inj (by omega) (by omega) (List.append_cancel_right h)
  obtain ⟨h, hmonths⟩ := append_zeroPadded_inj (by omega) (by omega) h
  have hyears := signedDecimal_inj (List.append_cancel_left h)
  rw [← TimeZone.civilSeconds_civilTime t, ← TimeZone.civilSeconds_civilTime u,
    TimeZone.civilSeconds, TimeZone.civilSeconds, Tm.date, Tm.date, hyears, hmonths, hdays, hhours,
    hmins, hsecs]

theorem getLogFileName_inj {t u : ℤ} (h : getLogFileName cfg t = getLogFileName cfg u) : t = u := by
  simp only [getLogFileName, List.append_assoc, List.append_right_inj] at h
  exact timebuf_inj (List.append_cancel_right h)

/-- Files are opened at increasing times, under different names. They hold the lines in
their order, each of them at most `checkEveryN` lines of later days, and a file that has
grown too large is kept only in the second of its opening. -/
theorem rolling_is_bounded (cfg : LogSettings) {start : ℤ} (hcheck : 1 ≤ cfg.checkEveryN)
    (hname : 47 ∉ cfg.basename) (hstart : 0 < start) (appends : List (ℤ × Bytes))
    (hclock : (start :: appends.map Prod.fst).Pairwise (· ≤ ·)) :
    (∃ s, run cfg start appends = .ok s ∧ s.files.Pairwise (·.openedAt < ·.openedAt) ∧
      s.files.Pairwise (·.file.filename ≠ ·.file.filename) ∧
      s.files.flatMap OpenFile.received = appends ∧
      s.files.flatMap (·.file.content) = appends.flatMap Prod.snd ∧
      ∀ f ∈ s.files, (f.late : ℤ) ≤ cfg.checkEveryN) ∧
    ∀ before now logline after, appends = before ++ (now, logline) :: after →
      ∃ s s' f, run cfg start before = .ok s ∧ s.appendUnlocked cfg now logline = .ok s' ∧
        s'.file = some f ∧
        (s'.closed = s.closed → cfg.rollSize < f.file.writtenBytes → f.openedAt = now) := by
  obtain ⟨s₀, f₀, hnew, hinv₀⟩ := inv_new hcheck hname hstart
  constructor
  · obtain ⟨s, f, clock, hs, hinv, -⟩ := hinv₀.run appends hclock
    have hfiles : s.files = s.closed ++ [f] := by
      rw [files, hinv.file]
      rfl
    have hproper : ∀ g ∈ s.files, g.Proper cfg := by
      rw [hfiles]
      exact List.forall_mem_append.mpr
        ⟨hinv.closed_proper, List.forall_mem_singleton.mpr hinv.proper⟩
    have hsorted : s.files.Pairwise (·.openedAt < ·.openedAt) := by
      rw [hfiles]
      exact List.pairwise_append.mpr ⟨hinv.sorted, List.pairwise_singleton _ _,
        fun g hg g' hg' => List.mem_singleton.mp hg' ▸ hinv.closed_lt g hg⟩
    have hreceived : s.files.flatMap OpenFile.received = appends := by
      rw [hfiles, List.flatMap_append, List.flatMap_singleton]
      exact hinv.done
    refine ⟨s, ?_, hsorted, ?_, hreceived, ?_, ?_⟩
    · rw [LogFile.run, hnew, ok_bind]
      exact hs
    · refine hsorted.imp_of_mem fun {g g'} hg hg' hlt hsame => ?_
      rw [(hproper g hg).filename, (hproper g' hg').filename] at hsame
      exact hlt.ne (getLogFileName_inj hsame)
    · rw [← hreceived, List.flatMap_assoc]
      exact List.flatMap_congr fun g hg => (hproper g hg).content
    · rw [hfiles]
      have hlate := hinv.late_le
      have hcount := hinv.count_lt
      exact List.forall_mem_append.mpr
        ⟨hinv.closed_late, List.forall_mem_singleton.mpr (by omega)⟩
  · rintro before now logline after rfl
    rw [List.map_append, List.map_cons, ← List.cons_append, List.pairwise_append] at hclock
    obtain ⟨s, f, clock, hs, hinv, hmem⟩ := hinv₀.run before hclock.1
    obtain ⟨s', f', hs', hinv', habove⟩ :=
      hinv.append (hclock.2.2 clock hmem now List.mem_cons_self) logline
    refine ⟨s, s', f', ?_, hs', hinv'.file, habove⟩
    rw [LogFile.run, hnew, ok_bind]
    exact hs

/-- Files of three bytes, and a look at the day for every second line. -/
def smallFiles : LogSettings where
  basename := ascii "small"
  rollSize := 3
  flushInterval := 3
  checkEveryN := 2
  hostname := ascii "host"
  pid := 1
  fwrite text := text.length
  progress _ h := List.length_pos_iff.mpr h

/-- The first file grows beyond its size in the second of its opening, and the second one
has a line of the next day. -/
theorem smallFiles_bounded :
    ∃ s, run smallFiles 1 [(1, ascii "abcd"), (2, ascii "e"), (86401, ascii "f"),
        (86402, ascii "g")] = .ok s ∧
      s.files.map (fun f => (f.openedAt, f.file.content)) =
        [(1, ascii "abcde"), (2, ascii "fg"), (86402, [])] ∧
      s.files.Pairwise (·.file.filename ≠ ·.file.filename) ∧ ∀ f ∈ s.files, (f.late : ℤ) ≤ 2 := by
  obtain ⟨⟨s, hs, -, hnames, -, -, hlate⟩, -⟩ :=
    rolling_is_bounded smallFiles (by decide) (by decide) (show (0 : ℤ) < 1 by decide)
      [(1, ascii "abcd"), (2, ascii "e"), (86401, ascii "f"), (86402, ascii "g")] (by decide)
  refine ⟨s, hs, ?_, hnames, hlate⟩
  have hfiles : (run smallFiles 1 [(1, ascii "abcd"), (2, ascii "e"), (86401, ascii "f"),
      (86402, ascii "g")]).map (fun s => s.files.map fun f => (f.openedAt, f.file.content)) =
        .ok [(1, ascii "abcde"), (2, ascii "fg"), (86402, [])] := by decide +kernel
  rw [hs] at hfiles
  exact Except.ok.inj hfiles

end LogFile

end Muduo
