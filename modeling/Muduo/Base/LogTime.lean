import Muduo.Base.Logging

/-!
# The cached time

The records of a thread, and the changes of the time zone between them. A record whose
second is that of the record before it takes over the text of that record. It should be the
text that the zone in force gives for its second.
-/

namespace Muduo

open Foundations

namespace Logger

/-- What happens on a thread. -/
inductive LogEvent where
  | record (time : Timestamp) (positive : 0 < time)
  | setTimeZone (tz : TimeZone)

/-- `t_lastSecond` and `t_time`, `g_logTimeZone`, and the times written so far. -/
structure TimeLog where
  cache : TimeCache
  zone : TimeZone
  lines : List Bytes

namespace TimeLog

def start : TimeLog := ⟨emptyCache, ⟨none⟩, []⟩

variable (clib : TimeZone.GmTime)

def step (s : TimeLog) : LogEvent → Except Fault TimeLog
  | .record time _ => do
    let (cache, stream) ← formatTime clib s.zone s.cache time .new
    return ⟨cache, s.zone, s.lines ++ [stream.buffer.bytes]⟩
  | .setTimeZone tz => return { s with zone := tz }

def run (events : List LogEvent) : Except Fault TimeLog := events.foldlM (step clib) start

end TimeLog

section Plain

variable (clib : TimeZone.GmTime)

def plainTime (zone : TimeZone) (time : Timestamp) : Except Fault Bytes := do
  let text ← zoneText clib zone (seconds time)
  return text ++ fraction zone (microseconds time)

def plainStep (s : TimeZone × List Bytes) : LogEvent → Except Fault (TimeZone × List Bytes)
  | .record time _ => do
    let line ← plainTime clib s.1 time
    return (s.1, s.2 ++ [line])
  | .setTimeZone tz => return (tz, s.2)

def plainRun (events : List LogEvent) : Except Fault (TimeZone × List Bytes) :=
  events.foldlM (plainStep clib) (⟨none⟩, [])

def plainLines (events : List LogEvent) : Except Fault (List Bytes) := do
  let (_, lines) ← plainRun clib events
  return lines

/-- The zone in force, and the second and the zone of the last record. -/
def past (events : List LogEvent) : TimeZone × Option (ℤ × TimeZone) :=
  events.foldl (fun p e =>
    match e with
    | .record time _ => (p.1, some (seconds time, p.1))
    | .setTimeZone tz => (tz, p.2)) (⟨none⟩, none)

/-- A record has a text of 17 characters. If its second is that of the record before it,
the zone of that record gives the same text; the first record is not in second zero. -/
def Fresh (before : List LogEvent) : LogEvent → Prop
  | .record time _ => ∃ text, zoneText clib (past before).1 (seconds time) = .ok text ∧
      text.length = 17 ∧
      match (past before).2 with
      | none => seconds time ≠ 0
      | some (second, zone) => second = seconds time → zoneText clib zone second = .ok text
  | .setTimeZone _ => True

end Plain

variable {clib : TimeZone.GmTime} {events : List LogEvent} {e : LogEvent} {s : TimeLog}

theorem length_fraction (zone : TimeZone) {time : Timestamp} (h : 0 < time) :
    (fraction zone (microseconds time)).length = if zone.valid then 8 else 9 := by
  have hmicro : microseconds time = time % 1000000 := by
    rw [microseconds, Timestamp.kMicroSecondsPerSecond, Int.tmod_eq_emod_of_nonneg h.le]
    exact TimeZone.narrow_of_bounds (by omega) (by omega)
  rw [fraction, hmicro, List.length_append, List.length_append,
    length_zeroPadded (by omega) (by norm_num; omega)]
  split_ifs <;> rfl

theorem past_concat_record (time : Timestamp) (h : 0 < time) :
    past (events ++ [.record time h]) =
      ((past events).1, some (seconds time, (past events).1)) := by
  rw [past, List.foldl_append]
  rfl

theorem past_concat_setTimeZone (tz : TimeZone) :
    past (events ++ [.setTimeZone tz]) = (tz, (past events).2) := by
  rw [past, List.foldl_append]
  rfl

theorem run_concat :
    TimeLog.run clib (events ++ [e]) = TimeLog.run clib events >>= (·.step clib e) := by
  rw [TimeLog.run, List.foldlM_append]
  simp only [List.foldlM_cons, List.foldlM_nil, bind_pure]
  rfl

theorem plainRun_concat :
    plainRun clib (events ++ [e]) = plainRun clib events >>= (plainStep clib · e) := by
  rw [plainRun, List.foldlM_append]
  simp only [List.foldlM_cons, List.foldlM_nil, bind_pure]
  rfl

/-- The state behind some events. -/
structure Follows (clib : TimeZone.GmTime) (events : List LogEvent) (s : TimeLog) : Prop where
  run : TimeLog.run clib events = .ok s
  plain : plainRun clib events = .ok (s.zone, s.lines)
  zone : s.zone = (past events).1
  cache : match (past events).2 with
    | none => s.cache = emptyCache
    | some (second, zone) =>
      s.cache.lastSecond = second ∧ zoneText clib zone second = .ok s.cache.time

theorem refresh_of_eq {zone : TimeZone} {cache : TimeCache} {second : ℤ}
    (h : second = cache.lastSecond) : refresh clib zone cache second = .ok cache := by
  rw [refresh, if_neg (not_not.mpr h)]
  rfl

theorem refresh_of_ne {zone : TimeZone} {cache : TimeCache} {second : ℤ} {text : Bytes}
    (h : second ≠ cache.lastSecond) (htext : zoneText clib zone second = .ok text)
    (hlength : text.length = 17) : refresh clib zone cache second = .ok ⟨second, text⟩ := by
  rw [refresh, if_pos h, htext, ok_bind, assertThat_pos hlength]
  rfl

namespace Follows

variable {time : Timestamp} {hpos : 0 < time} (h : Follows clib events s)

include h

/-- A fresh record is written as it would be without the cache. -/
theorem record (hfresh : Fresh clib events (.record time hpos)) :
    ∃ s', Follows clib (events ++ [.record time hpos]) s' := by
  obtain ⟨text, htext, hlength, hlast⟩ := hfresh
  have hcache := h.cache
  rw [← h.zone] at htext
  have hrefresh : refresh clib s.zone s.cache (seconds time) = .ok ⟨seconds time, text⟩ := by
    by_cases hsecond : seconds time = s.cache.lastSecond
    · rw [refresh_of_eq hsecond]
      split at hlast
      · rename_i hnone
        rw [hnone] at hcache
        rw [hsecond, hcache] at hlast
        exact absurd rfl hlast
      · rename_i second zone hsome
        rw [hsome] at hcache
        have hsame := hlast (hcache.1.symm.trans hsecond.symm)
        cases hsame.symm.trans hcache.2
        rw [hsecond]
    · exact refresh_of_ne hsecond htext hlength
  obtain ⟨stream, hstream, hbytes⟩ := formatTime_of_refresh hrefresh hlength
    (length_fraction s.zone hpos)
  refine ⟨⟨⟨seconds time, text⟩, s.zone, s.lines ++ [stream.buffer.bytes]⟩, ?_, ?_, ?_, ?_⟩
  · rw [run_concat, h.run, ok_bind, TimeLog.step, hstream]
    rfl
  · rw [plainRun_concat, h.plain, ok_bind, plainStep, plainTime, htext, hbytes]
    rfl
  · rw [past_concat_record]
    exact h.zone
  · rw [past_concat_record, ← h.zone]
    exact ⟨rfl, htext⟩

theorem setTimeZone (tz : TimeZone) :
    ∃ s', Follows clib (events ++ [.setTimeZone tz]) s' := by
  refine ⟨{ s with zone := tz }, ?_, ?_, ?_, ?_⟩
  · rw [run_concat, h.run]
    rfl
  · rw [plainRun_concat, h.plain]
    rfl
  · rw [past_concat_setTimeZone]
  · rw [past_concat_setTimeZone]
    exact h.cache

theorem fresh {s' : TimeLog} {zone' : TimeZone}
    (hstep : s.step clib (.record time hpos) = .ok s')
    (hplain : plainStep clib (s.zone, s.lines) (.record time hpos) = .ok (zone', s'.lines)) :
    Fresh clib events (.record time hpos) := by
  obtain ⟨⟨cache, stream⟩, hformat, hs'⟩ := bind_eq_ok.mp hstep
  cases hs'
  obtain ⟨hrefresh, hlength, -, hbytes⟩ := formatTime_eq_ok hformat
  obtain ⟨line, hline, hlines⟩ := bind_eq_ok.mp hplain
  obtain ⟨text, htext, htail⟩ := bind_eq_ok.mp hline
  cases htail
  have hsame : text = cache.time := by
    have hlast := congrArg Prod.snd (Except.ok.inj hlines)
    simpa [hbytes] using hlast
  subst hsame
  have hcache := h.cache
  refine ⟨cache.time, h.zone ▸ htext, hlength, ?_⟩
  split
  · rename_i hnone
    rw [hnone] at hcache
    intro hzero
    have hold : refresh clib s.zone s.cache (seconds time) = .ok s.cache :=
      refresh_of_eq (by rw [hcache]; exact hzero)
    cases hrefresh.symm.trans hold
    rw [hcache] at hlength
    exact absurd hlength (by decide)
  · rename_i second zone hsome
    rw [hsome] at hcache
    intro hsecond
    have hold : refresh clib s.zone s.cache (seconds time) = .ok s.cache :=
      refresh_of_eq (by rw [hcache.1]; exact hsecond.symm)
    cases hrefresh.symm.trans hold
    exact hcache.2

end Follows

theorem follows_of_obeys (h : Obeys (Fresh clib) events) : ∃ s, Follows clib events s := by
  induction events using List.reverseRecOn with
  | nil => exact ⟨TimeLog.start, rfl, rfl, rfl, rfl⟩
  | append_singleton events e ih =>
    obtain ⟨hevents, he⟩ := obeys_concat.mp h
    obtain ⟨s, hs⟩ := ih hevents
    cases e with
    | record time hpos => exact hs.record he
    | setTimeZone tz => exact hs.setTimeZone tz

theorem plainLines_eq_ok {lines : List Bytes} :
    plainLines clib events = .ok lines ↔ ∃ zone, plainRun clib events = .ok (zone, lines) := by
  rw [plainLines, bind_eq_ok]
  simp

theorem obeys_of_plain (hrun : TimeLog.run clib events = .ok s)
    (hplain : plainLines clib events = .ok s.lines) : Obeys (Fresh clib) events := by
  induction events using List.reverseRecOn generalizing s with
  | nil => exact obeys_nil
  | append_singleton events e ih =>
    obtain ⟨zone', hplain⟩ := plainLines_eq_ok.mp hplain
    rw [run_concat] at hrun
    rw [plainRun_concat] at hplain
    obtain ⟨s₁, hs₁, hstep⟩ := bind_eq_ok.mp hrun
    obtain ⟨⟨zone₁, lines₁⟩, hplain₁, hlast⟩ := bind_eq_ok.mp hplain
    have hlines : lines₁ = s₁.lines := by
      cases e with
      | record time hpos =>
        obtain ⟨_, -, hs⟩ := bind_eq_ok.mp hstep
        obtain ⟨_, -, hl⟩ := bind_eq_ok.mp hlast
        cases hs
        have hboth := congrArg Prod.snd (Except.ok.inj hl)
        exact (List.append_inj' hboth rfl).1
      | setTimeZone tz =>
        cases hstep
        cases hlast
        rfl
    have hevents := ih hs₁ (plainLines_eq_ok.mpr ⟨zone₁, hlines ▸ hplain₁⟩)
    refine obeys_concat.mpr ⟨hevents, ?_⟩
    obtain ⟨s₀, hs₀⟩ := follows_of_obeys hevents
    cases hs₁.symm.trans hs₀.run
    cases hplain₁.symm.trans hs₀.plain
    cases e with
    | record time hpos => exact hs₀.fresh hstep hlast
    | setTimeZone tz => trivial

/-- The time of every record is the plain one exactly if every record is fresh. -/
theorem cached_time_is_plain_iff (clib : TimeZone.GmTime) (events : List LogEvent) :
    (∃ s, TimeLog.run clib events = .ok s ∧ plainLines clib events = .ok s.lines) ↔
      Obeys (Fresh clib) events := by
  constructor
  · rintro ⟨s, hrun, hplain⟩
    exact obeys_of_plain hrun hplain
  · intro h
    obtain ⟨s, hs⟩ := follows_of_obeys h
    exact ⟨s, hs.run, plainLines_eq_ok.mpr ⟨s.zone, hs.plain⟩⟩

/-- Two records of one second, and one of the next second behind a change of the zone. -/
def steadyRecords : List LogEvent :=
  [.record 1000000 (by decide), .record 1500000 (by decide),
    .setTimeZone (.fixed 3600 (ascii "CET")), .record 2000000 (by decide)]

theorem cached_time_is_plain_steady :
    Obeys (Fresh TimeZone.civil) steadyRecords ∧
      ∃ s, TimeLog.run TimeZone.civil steadyRecords = .ok s ∧
        plainLines TimeZone.civil steadyRecords = .ok s.lines := by
  have hfirst : Fresh TimeZone.civil (steadyRecords.take 0) (.record 1000000 (by decide)) :=
    ⟨ascii "19700101 00:00:01", by decide +kernel, by decide,
      show seconds 1000000 ≠ 0 by decide⟩
  have hsecond : Fresh TimeZone.civil (steadyRecords.take 1) (.record 1500000 (by decide)) :=
    ⟨ascii "19700101 00:00:01", by decide +kernel, by decide, fun _ => by decide +kernel⟩
  have hzone : Fresh TimeZone.civil (steadyRecords.take 2)
      (.setTimeZone (.fixed 3600 (ascii "CET"))) := trivial
  have hlast : Fresh TimeZone.civil (steadyRecords.take 3) (.record 2000000 (by decide)) :=
    ⟨ascii "19700101 01:00:02", by decide +kernel, by decide, fun h => absurd h (by decide)⟩
  have hfresh : Obeys (Fresh TimeZone.civil) steadyRecords :=
    obeys_concat.mpr ⟨obeys_concat.mpr ⟨obeys_concat.mpr ⟨obeys_concat.mpr ⟨obeys_nil, hfirst⟩,
      hsecond⟩, hzone⟩, hlast⟩
  exact ⟨hfresh, (cached_time_is_plain_iff TimeZone.civil steadyRecords).mpr hfresh⟩

/-- The zone is set between two records of one second. -/
def zoneChange : List LogEvent :=
  [.record 1000000 (by decide), .setTimeZone (.fixed 3600 (ascii "CET")),
    .record 1500000 (by decide)]

/-- The second record has the suffix of the new zone, and the hour of the old one. -/
theorem time_of_old_zone :
    ∃ s, TimeLog.run TimeZone.civil zoneChange = .ok s ∧
      s.lines = [ascii "19700101 00:00:01.000000Z ", ascii "19700101 00:00:01.500000 "] ∧
      plainLines TimeZone.civil zoneChange =
        .ok [ascii "19700101 00:00:01.000000Z ", ascii "19700101 01:00:01.500000 "] := by
  have hlines : (TimeLog.run TimeZone.civil zoneChange).toOption.map TimeLog.lines =
      some [ascii "19700101 00:00:01.000000Z ", ascii "19700101 00:00:01.500000 "] := by
    decide +kernel
  obtain ⟨s, hs, hs'⟩ := exists_ok_of_map hlines
  exact ⟨s, hs, hs', by decide +kernel⟩

end Logger

end Muduo
