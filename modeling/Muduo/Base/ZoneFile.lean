import Muduo.Foundations.BigEndian
import Muduo.Foundations.Readers
import Muduo.Base.TimeZone

/-!
# Zone files

`readTimeZoneFile` fills the table of a zone while it reads a file. An exception in the
middle leaves what was stored up to then, a missing file nothing, and the result is `true`
in each case. Type indices and positions of abbreviations are used as they stand in the
file.
-/

namespace Muduo

open Foundations

namespace TimeZone

/-- `File::readBytes`; without enough data an exception is thrown. -/
def readBytes (n : ℕ) (f : Bytes) : Option (Bytes × Bytes) := readBlock n f

def readInt32 (f : Bytes) : Option (BitVec 32 × Bytes) := do
  let (x, f) ← readBytes 4 f
  return (BitVec.ofNat 32 (ofBytes x), f)

def readUInt8 : Bytes → Option (UInt8 × Bytes)
  | [] => none
  | x :: f => some (x, f)

structure Counts where
  timecnt : BitVec 32
  typecnt : BitVec 32
  charcnt : BitVec 32

/-- `"TZif"`. -/
def magic : Bytes := [84, 90, 105, 102]

/-- The version, the reserved bytes and the counts of what is not read are passed over. -/
def readHead (f : Bytes) : Option (Counts × Bytes) := do
  let (head, f) ← readBytes 4 f
  guard (head = magic)
  let (_version, f) ← readBytes 1 f
  let (_, f) ← readBytes 15 f
  let (_isgmtcnt, f) ← readInt32 f
  let (_isstdcnt, f) ← readInt32 f
  let (_leapcnt, f) ← readInt32 f
  let (timecnt, f) ← readInt32 f
  let (typecnt, f) ← readInt32 f
  let (charcnt, f) ← readInt32 f
  return (⟨timecnt, typecnt, charcnt⟩, f)

/-- The times of the transitions and their type indices. `reserve` of a negative number
throws. -/
def readTimes (timecnt : ℤ) (f : Bytes) : Option ((List (BitVec 32) × List UInt8) × Bytes) := do
  guard (0 ≤ timecnt)
  let (times, f) ← readMany readInt32 timecnt.toNat f
  let (localtimes, f) ← readMany readUInt8 timecnt.toNat f
  return ((times, localtimes), f)

structure TypeRecord where
  gmtoff : BitVec 32
  isdst : UInt8
  abbrind : UInt8

def TypeRecord.localtime (r : TypeRecord) : Localtime :=
  ⟨r.gmtoff.toInt, r.isdst ≠ 0, r.abbrind.toNat⟩

def readType (f : Bytes) : Option (TypeRecord × Bytes) := do
  let (gmtoff, f) ← readInt32 f
  let (isdst, f) ← readUInt8 f
  let (abbrind, f) ← readUInt8 f
  return (⟨gmtoff, isdst, abbrind⟩, f)

def pushTransitions (localtimes : List Localtime) :
    List (BitVec 32 × UInt8) → Except Fault (List Transition)
  | [] => .ok []
  | (time, localIdx) :: rest => do
    let found ← subscript localtimes localIdx.toNat
    let transitions ← pushTransitions localtimes rest
    return ⟨time.toInt, time.toInt + found.gmtOffset, localIdx.toNat⟩ :: transitions

/-- What follows the types. An array of negative size is taken as an access out of bounds. -/
def readRest (localtimes : List Localtime) (times : List (BitVec 32 × UInt8)) (charcnt : ℤ)
    (f : Bytes) : Except Fault Data := do
  let transitions ← pushTransitions localtimes times
  if charcnt < 0 then .error .outOfBounds
  else
    match readBytes charcnt.toNat f with
    | none => .ok ⟨transitions, localtimes, []⟩
    | some (abbreviation, _) => .ok ⟨transitions, localtimes, abbreviation⟩

/-- The body of the `try`. -/
def readTables (f : Bytes) : Except Fault Data :=
  match readHead f with
  | none => .ok ⟨[], [], []⟩
  | some (counts, f) =>
    match readTimes counts.timecnt.toInt f with
    | none => .ok ⟨[], [], []⟩
    | some ((times, indices), f) =>
      let types := readUpTo readType counts.typecnt.toInt.toNat f
      let localtimes := types.1.map TypeRecord.localtime
      match types.2 with
      | none => .ok ⟨[], localtimes, []⟩
      | some f => readRest localtimes (times.zip indices) counts.charcnt.toInt f

/-- The file is `none` if it cannot be opened. -/
def readTimeZoneFile (file : Option Bytes) : Except Fault Data :=
  match file with
  | none => .ok ⟨[], [], []⟩
  | some content => readTables content

def ofFile (zonefile : Option Bytes) : Except Fault TimeZone := do
  let data ← readTimeZoneFile zonefile
  return ⟨some data⟩

/-- What a complete file holds. -/
structure ZoneFile where
  /-- the version, reserved bytes and three counts -/
  ignored : Bytes
  times : List (BitVec 32)
  indices : List UInt8
  types : List TypeRecord
  abbreviation : Bytes
  length_ignored : ignored.length = 28
  length_indices : indices.length = times.length
  length_times : times.length < 2 ^ 31
  length_types : types.length < 2 ^ 31
  length_abbreviation : abbreviation.length < 2 ^ 31

def encodeInt32 (x : BitVec 32) : Bytes := toBytes 4 x.toNat

def TypeRecord.encode (r : TypeRecord) : Bytes := encodeInt32 r.gmtoff ++ [r.isdst, r.abbrind]

def transitionTo (localtimes : List Localtime) (p : BitVec 32 × UInt8) : Transition :=
  ⟨p.1.toInt, p.1.toInt + (localtimes[p.2.toNat]?.map Localtime.gmtOffset).getD 0, p.2.toNat⟩

namespace ZoneFile

variable (z : ZoneFile)

def encode : Bytes :=
  magic ++ z.ignored ++ toBytes 4 z.times.length ++ toBytes 4 z.types.length ++
    toBytes 4 z.abbreviation.length ++ z.times.flatMap encodeInt32 ++ z.indices ++
    z.types.flatMap TypeRecord.encode ++ z.abbreviation

def IndicesInside : Prop := ∀ i ∈ z.indices, i.toNat < z.types.length

/-- The type holds in front of the transitions, or behind one of them. -/
def InForce (r : TypeRecord) : Prop :=
  z.types.head? = some r ∨ ∃ i ∈ z.indices, z.types[i.toNat]? = some r

def data : Data where
  transitions := (z.times.zip z.indices).map (transitionTo (z.types.map TypeRecord.localtime))
  localtimes := z.types.map TypeRecord.localtime
  abbreviation := z.abbreviation

end ZoneFile

theorem readInt32_eq_some {f rest : Bytes} {x : BitVec 32} :
    readInt32 f = some (x, rest) ↔ f = encodeInt32 x ++ rest := by
  simp only [readInt32, readBytes, encodeInt32, Option.bind_eq_bind, Option.bind_eq_some_iff,
    Option.pure_def, Option.some.injEq, Prod.mk.injEq, Prod.exists, readBlock_eq_some]
  constructor
  · rintro ⟨block, rest', ⟨hlength, rfl⟩, rfl, rfl⟩
    have hlt := ofBytes_lt block
    have hback := toBytes_ofBytes block
    rw [hlength] at hlt hback
    rw [BitVec.toNat_ofNat, Nat.mod_eq_of_lt (by omega), hback]
  · rintro rfl
    refine ⟨_, rest, ⟨length_toBytes _ _, rfl⟩, ?_, rfl⟩
    have hlt := x.isLt
    rw [ofBytes_toBytes, Nat.mod_eq_of_lt (by omega), BitVec.ofNat_toNat, BitVec.setWidth_eq]

theorem readUInt8_eq_some {f rest : Bytes} {x : UInt8} :
    readUInt8 f = some (x, rest) ↔ f = x :: rest := by
  cases f with
  | nil => simp [readUInt8]
  | cons y f => simp [readUInt8]

theorem exists_encodeInt32 {block : Bytes} (h : block.length = 4) :
    ∃ x, block = encodeInt32 x := by
  have hread : readInt32 block = some (BitVec.ofNat 32 (ofBytes block), []) := by
    simp [readInt32, readBytes, readBlock, h, List.take_of_length_le h.le]
  have hblock := readInt32_eq_some.mp hread
  rw [List.append_nil] at hblock
  exact ⟨_, hblock⟩

theorem readType_eq_some {f rest : Bytes} {r : TypeRecord} :
    readType f = some (r, rest) ↔ f = r.encode ++ rest := by
  simp only [readType, Option.bind_eq_bind, Option.bind_eq_some_iff, Option.pure_def,
    Option.some.injEq, Prod.mk.injEq, Prod.exists, readInt32_eq_some, readUInt8_eq_some]
  constructor
  · rintro ⟨gmtoff, _, rfl, isdst, _, rfl, abbrind, _, rfl, rfl, rfl⟩
    simp [TypeRecord.encode]
  · rintro rfl
    refine ⟨r.gmtoff, r.isdst :: r.abbrind :: rest, ?_, _, _, rfl, _, _, rfl, rfl, rfl⟩
    simp [TypeRecord.encode]

theorem readHead_eq_some {f rest : Bytes} {counts : Counts} :
    readHead f = some (counts, rest) ↔ ∃ ignored : Bytes, ignored.length = 28 ∧
      f = magic ++ ignored ++ encodeInt32 counts.timecnt ++ encodeInt32 counts.typecnt ++
        encodeInt32 counts.charcnt ++ rest := by
  simp only [readHead, Option.bind_eq_bind, Option.bind_eq_some_iff, Option.pure_def,
    Option.some.injEq, Prod.mk.injEq, Prod.exists, readInt32_eq_some, readBytes, readBlock_eq_some,
    Option.guard_eq_some', exists_const]
  constructor
  · rintro ⟨head, _, ⟨-, rfl⟩, rfl, version, _, ⟨hversion, rfl⟩, reserved, _, ⟨hreserved, rfl⟩,
      isgmtcnt, _, rfl, isstdcnt, _, rfl, leapcnt, _, rfl, timecnt, _, rfl, typecnt, _, rfl,
      charcnt, _, rfl, rfl, rfl⟩
    refine ⟨version ++ reserved ++ encodeInt32 isgmtcnt ++ encodeInt32 isstdcnt ++
      encodeInt32 leapcnt, ?_, by simp only [List.append_assoc]⟩
    simp [hversion, hreserved, encodeInt32]
  · rintro ⟨ignored, hlength, rfl⟩
    obtain ⟨version, l, hversion, rfl⟩ := exists_block (show 1 ≤ ignored.length by omega)
    rw [List.length_append] at hlength
    obtain ⟨reserved, l, hreserved, rfl⟩ := exists_block (show 15 ≤ l.length by omega)
    rw [List.length_append] at hlength
    obtain ⟨isgmtcnt, l, hisgmtcnt, rfl⟩ := exists_block (show 4 ≤ l.length by omega)
    rw [List.length_append] at hlength
    obtain ⟨isstdcnt, leapcnt, hisstdcnt, rfl⟩ := exists_block (show 4 ≤ l.length by omega)
    rw [List.length_append] at hlength
    obtain ⟨isgmtcnt, rfl⟩ := exists_encodeInt32 hisgmtcnt
    obtain ⟨isstdcnt, rfl⟩ := exists_encodeInt32 hisstdcnt
    obtain ⟨leapcnt, rfl⟩ := exists_encodeInt32 (show leapcnt.length = 4 by omega)
    simp only [List.append_assoc]
    exact ⟨magic, _, ⟨rfl, rfl⟩, rfl, version, _, ⟨hversion, rfl⟩, reserved, _, ⟨hreserved, rfl⟩,
      _, _, rfl, _, _, rfl, _, _, rfl, _, _, rfl, _, _, rfl, _, _, rfl, rfl, rfl⟩

theorem readTimes_eq_some {timecnt : ℤ} {f rest : Bytes} {times : List (BitVec 32)}
    {indices : List UInt8} :
    readTimes timecnt f = some ((times, indices), rest) ↔ 0 ≤ timecnt ∧
      times.length = timecnt.toNat ∧ indices.length = timecnt.toNat ∧
        f = times.flatMap encodeInt32 ++ indices ++ rest := by
  have hint32 : Reads readInt32 encodeInt32 := readInt32_eq_some
  have huint8 : Reads readUInt8 ([·]) := readUInt8_eq_some
  simp only [readTimes, Option.bind_eq_bind, Option.bind_eq_some_iff, Option.pure_def,
    Option.some.injEq, Prod.mk.injEq, Prod.exists, Option.guard_eq_some', exists_const,
    hint32.many, huint8.many, List.flatMap_singleton']
  constructor
  · rintro ⟨hpos, _, _, ⟨htimes, rfl⟩, _, _, ⟨hindices, rfl⟩, ⟨rfl, rfl⟩, rfl⟩
    exact ⟨hpos, htimes, hindices, (List.append_assoc _ _ _).symm⟩
  · rintro ⟨hpos, htimes, hindices, rfl⟩
    exact ⟨hpos, _, _, ⟨htimes, List.append_assoc _ _ _⟩, _, _, ⟨hindices, rfl⟩, ⟨rfl, rfl⟩, rfl⟩

theorem pushTransitions_eq_ok {localtimes : List Localtime} {times : List (BitVec 32 × UInt8)}
    {transitions : List Transition} :
    pushTransitions localtimes times = .ok transitions ↔
      (∀ p ∈ times, p.2.toNat < localtimes.length) ∧
        transitions = times.map (transitionTo localtimes) := by
  induction times generalizing transitions with
  | nil =>
    rw [pushTransitions]
    simp [eq_comm]
  | cons p times ih =>
    obtain ⟨time, localIdx⟩ := p
    simp only [pushTransitions, bind_eq_ok, pure_eq_ok, Except.ok.injEq, List.forall_mem_cons,
      List.map_cons, ih]
    constructor
    · rintro ⟨found, hfound, _, ⟨hinside, rfl⟩, rfl⟩
      have hsome := subscript_eq_ok hfound
      refine ⟨⟨(List.getElem?_eq_some_iff.mp hsome).1, hinside⟩, ?_⟩
      simp [transitionTo, hsome]
    · rintro ⟨⟨hlt, hinside⟩, rfl⟩
      have hsome := List.getElem?_eq_getElem hlt
      refine ⟨_, subscript_of_some hsome, _, ⟨hinside, rfl⟩, ?_⟩
      simp [transitionTo, hsome]

theorem encodeInt32_of_nonneg {c : BitVec 32} (h : 0 ≤ c.toInt) :
    encodeInt32 c = toBytes 4 c.toInt.toNat ∧ c.toInt.toNat < 2 ^ 31 := by
  have hlt := c.isLt
  have hcond := BitVec.toInt_eq_toNat_cond c
  split_ifs at hcond with hhalf
  · have hnat : c.toInt.toNat = c.toNat := by omega
    rw [encodeInt32, hnat]
    exact ⟨rfl, by omega⟩
  · omega

theorem exists_count {n : ℕ} (h : n < 2 ^ 31) :
    ∃ c : BitVec 32, c.toInt = n ∧ encodeInt32 c = toBytes 4 n := by
  have hnat : (BitVec.ofNat 32 n).toNat = n := by
    rw [BitVec.toNat_ofNat, Nat.mod_eq_of_lt (by omega)]
  refine ⟨BitVec.ofNat 32 n, ?_, by rw [encodeInt32, hnat]⟩
  rw [BitVec.toInt_eq_toNat_of_lt (by omega), hnat]

theorem length_data_localtimes (z : ZoneFile) : z.data.localtimes.length = z.types.length :=
  List.length_map _

theorem readTables_encode {z : ZoneFile} (h : z.IndicesInside) (trailing : Bytes) :
    readTables (z.encode ++ trailing) = .ok z.data := by
  obtain ⟨timecnt, htimecnt, htimecnt'⟩ := exists_count z.length_times
  obtain ⟨typecnt, htypecnt, htypecnt'⟩ := exists_count z.length_types
  obtain ⟨charcnt, hcharcnt, hcharcnt'⟩ := exists_count z.length_abbreviation
  have htype : Reads readType TypeRecord.encode := readType_eq_some
  have hhead : readHead (z.encode ++ trailing) = some (⟨timecnt, typecnt, charcnt⟩,
      z.times.flatMap encodeInt32 ++ z.indices ++
        (z.types.flatMap TypeRecord.encode ++ (z.abbreviation ++ trailing))) := by
    refine readHead_eq_some.mpr ⟨z.ignored, z.length_ignored, ?_⟩
    rw [htimecnt', htypecnt', hcharcnt']
    simp only [ZoneFile.encode, List.append_assoc]
  have htimes := readTimes_eq_some.mpr ⟨Int.natCast_nonneg z.times.length, rfl, z.length_indices,
    (rfl : z.times.flatMap encodeInt32 ++ z.indices ++
        (z.types.flatMap TypeRecord.encode ++ (z.abbreviation ++ trailing)) = _)⟩
  have htypes := readUpTo_eq_iff.mpr (htype.many.mpr ⟨(rfl : z.types.length = _),
    (rfl : z.types.flatMap TypeRecord.encode ++ (z.abbreviation ++ trailing) = _)⟩)
  have hpush : pushTransitions z.data.localtimes (z.times.zip z.indices) =
      .ok z.data.transitions := by
    refine pushTransitions_eq_ok.mpr ⟨fun p hp => ?_, rfl⟩
    rw [length_data_localtimes]
    exact h _ (List.of_mem_zip hp).2
  have habbreviation : readBytes z.abbreviation.length (z.abbreviation ++ trailing) =
      some (z.abbreviation, trailing) := readBlock_eq_some.mpr ⟨rfl, rfl⟩
  have hrest : readRest z.data.localtimes (z.times.zip z.indices) charcnt.toInt
      (z.abbreviation ++ trailing) = .ok z.data := by
    rw [readRest, hpush, ok_bind, hcharcnt, if_neg (by omega), Int.toNat_natCast, habbreviation]
    rfl
  rw [readTables, hhead]
  simp only [htimecnt, htimes, htypecnt, Int.toNat_natCast, htypes]
  exact hrest

theorem exists_of_readRest {localtimes : List Localtime} {times : List (BitVec 32 × UInt8)}
    {charcnt : ℤ} {f : Bytes} {data : Data} (h : readRest localtimes times charcnt f = .ok data)
    (habbreviation : data.abbreviation ≠ []) :
    ∃ abbreviation trailing : Bytes, 0 ≤ charcnt ∧ abbreviation.length = charcnt.toNat ∧
      f = abbreviation ++ trailing ∧ (∀ p ∈ times, p.2.toNat < localtimes.length) ∧
      data = ⟨times.map (transitionTo localtimes), localtimes, abbreviation⟩ := by
  obtain ⟨transitions, hpush, hdata⟩ := bind_eq_ok.mp h
  obtain ⟨hinside, rfl⟩ := pushTransitions_eq_ok.mp hpush
  split_ifs at hdata with hneg
  split at hdata
  case h_1 =>
    cases hdata
    exact absurd rfl habbreviation
  case h_2 abbreviation trailing hread =>
    cases hdata
    obtain ⟨hlength, rfl⟩ := readBlock_eq_some.mp hread
    exact ⟨abbreviation, trailing, not_lt.mp hneg, hlength, rfl, hinside, rfl⟩

theorem exists_of_readTables {f : Bytes} {data : Data} (h : readTables f = .ok data)
    (hlocaltimes : data.localtimes ≠ []) (habbreviation : data.abbreviation ≠ []) :
    ∃ z : ZoneFile, ∃ trailing, f = z.encode ++ trailing ∧ z.IndicesInside ∧ z.data = data := by
  have htype : Reads readType TypeRecord.encode := readType_eq_some
  unfold readTables at h
  split at h
  case h_1 =>
    cases h
    exact absurd rfl hlocaltimes
  case h_2 counts rest hhead =>
    split at h
    case h_1 =>
      cases h
      exact absurd rfl hlocaltimes
    case h_2 times indices rest' htimes =>
      dsimp only at h
      split at h
      case h_1 =>
        cases h
        exact absurd rfl habbreviation
      case h_2 rest'' htypes =>
        obtain ⟨hpos, htimecnt, hindices, rfl⟩ := readTimes_eq_some.mp htimes
        obtain ⟨ignored, hignored, rfl⟩ := readHead_eq_some.mp hhead
        obtain ⟨types, hupto⟩ : ∃ types, readUpTo readType counts.typecnt.toInt.toNat rest' =
          (types, some rest'') := ⟨_, Prod.ext rfl htypes⟩
        rw [hupto] at h
        obtain ⟨htypecnt, rfl⟩ := htype.many.mp (readUpTo_eq_iff.mp hupto)
        obtain ⟨abbreviation, trailing, hcharpos, hcharcnt, rfl, hinside, rfl⟩ :=
          exists_of_readRest h habbreviation
        have htypepos : 0 ≤ counts.typecnt.toInt := by
          by_contra hneg
          have hnil : types = [] := List.length_eq_zero_iff.mp (by omega)
          simp [hnil] at hlocaltimes
        have hindices' : ∀ i ∈ indices, i.toNat < types.length := by
          intro i hi
          rw [← List.map_snd_zip (show indices.length ≤ times.length by omega)] at hi
          obtain ⟨p, hp, rfl⟩ := List.mem_map.mp hi
          simpa using hinside p hp
        obtain ⟨htimecnt', htimecnt''⟩ := encodeInt32_of_nonneg hpos
        obtain ⟨htypecnt', htypecnt''⟩ := encodeInt32_of_nonneg htypepos
        obtain ⟨hcharcnt', hcharcnt''⟩ := encodeInt32_of_nonneg hcharpos
        refine ⟨⟨ignored, times, indices, types, abbreviation, hignored, by omega, by omega,
          by omega, by omega⟩, trailing, ?_, hindices', rfl⟩
        rw [htimecnt', htypecnt', hcharcnt']
        simp only [ZoneFile.encode, List.append_assoc, htimecnt, htypecnt, hcharcnt]

/-- Every conversion finds its type of local time, and an abbreviation inside the string. -/
def Data.Usable (data : Data) : Prop :=
  ∀ clib : GmTime,
    (∀ t, ∃ tm i, toLocalTime clib ⟨some data⟩ t = .ok tm ∧ tm.zone = .abbreviation i ∧
      i < data.abbreviation.length) ∧
    ∀ tm, ∃ s, fromLocalTime clib ⟨some data⟩ tm = .ok s

theorem Data.Usable.find {data : Data} (h : data.Usable) (t : ℤ) :
    ∃ l, data.findLocaltime ⟨t, 0, 0⟩ ⟨true⟩ = .ok l ∧ l ∈ data.localtimes ∧
      l.arrbIdx < data.abbreviation.length := by
  obtain ⟨tm, i, hto, hzone, hlt⟩ := (h civil).1 t
  obtain ⟨l, hfind, hrest⟩ := bind_eq_ok.mp hto
  obtain ⟨zone, hname, htm⟩ := bind_eq_ok.mp hrest
  cases htm
  unfold Data.zoneName at hname
  split_ifs at hname
  cases hname
  cases hzone
  obtain ⟨j, hj, -⟩ := data.findLocaltime_eq_period ⟨t, 0, 0⟩ ⟨true⟩
  exact ⟨l, hfind, Data.mem_of_period (hj.symm.trans hfind), hlt⟩

theorem usable_of_find {data : Data} (hnonempty : data.localtimes ≠ [])
    (hindices : ∀ t ∈ data.transitions, t.localtimeIdx < data.localtimes.length)
    (hname : ∀ t l, data.findLocaltime ⟨t, 0, 0⟩ ⟨true⟩ = .ok l →
      l.arrbIdx < data.abbreviation.length) : data.Usable := by
  intro clib
  have hfind : ∀ sentry comp, ∃ l, data.findLocaltime sentry comp = .ok l := by
    intro sentry comp
    obtain ⟨j, hj, hle, -⟩ := data.findLocaltime_eq_period sentry comp
    obtain ⟨l, hl, -⟩ := Data.period_eq_ok hnonempty hindices hle
    exact ⟨l, hj.trans hl⟩
  have hto : ∀ t, ∃ tm i, toLocalTime clib ⟨some data⟩ t = .ok tm ∧ tm.zone = .abbreviation i ∧
      i < data.abbreviation.length := by
    intro t
    obtain ⟨l, hl⟩ := hfind ⟨t, 0, 0⟩ ⟨true⟩
    have hlt := hname t l hl
    refine ⟨{ clib.gmtime (t + l.gmtOffset) with
      isdst := l.isDst, gmtoff := l.gmtOffset, zone := .abbreviation l.arrbIdx },
      l.arrbIdx, ?_, rfl, hlt⟩
    simp only [toLocalTime, hl, ok_bind, Data.zoneName, if_pos hlt.le, pure_eq_ok]
  refine ⟨hto, fun tm => ?_⟩
  obtain ⟨l, hl⟩ := hfind ⟨0, clib.timegm tm, 0⟩ ⟨false⟩
  obtain ⟨hack, hhack⟩ : ∃ hack, correction clib ⟨some data⟩ (clib.timegm tm) l tm = .ok hack := by
    unfold correction
    split_ifs
    · obtain ⟨tryTm, _, htry, -⟩ := hto (clib.timegm tm - l.gmtOffset)
      rw [htry]
      exact ⟨_, rfl⟩
    · exact ⟨0, rfl⟩
  refine ⟨clib.timegm tm - hack - l.gmtOffset, ?_⟩
  simp only [fromLocalTime, hl, ok_bind, hhack, pure_eq_ok]

theorem usable_iff_find {data : Data} (hnonempty : data.localtimes ≠ [])
    (hindices : ∀ t ∈ data.transitions, t.localtimeIdx < data.localtimes.length) :
    data.Usable ↔ ∀ t l, data.findLocaltime ⟨t, 0, 0⟩ ⟨true⟩ = .ok l →
      l.arrbIdx < data.abbreviation.length := by
  refine ⟨fun husable t l hl => ?_, usable_of_find hnonempty hindices⟩
  obtain ⟨l', hl', -, hlt⟩ := husable.find t
  cases hl.symm.trans hl'
  exact hlt

theorem exists_find {data : Data}
    (hsorted : data.transitions.Pairwise ((⟨true⟩ : Comp).less · ·)) {j : ℕ}
    (hj : j ≤ data.transitions.length) :
    ∃ t, data.findLocaltime ⟨t, 0, 0⟩ ⟨true⟩ = data.period j := by
  cases j with
  | zero =>
    cases hfront : data.transitions.head? with
    | none => exact ⟨0, by rw [Data.findLocaltime, hfront]; rfl⟩
    | some front =>
      refine ⟨front.gmttime - 1, Data.findLocaltime_of_bracket hsorted
        (Data.bracket_zero fun ht => ?_)⟩
      rw [List.head?_eq_getElem?] at hfront
      cases hfront.symm.trans ht
      simp [Comp.less, Comp.key]
  | succ j =>
    have ht := List.getElem?_eq_getElem (Nat.lt_of_succ_le hj)
    exact ⟨_, Data.findLocaltime_of_bracket hsorted
      (Data.bracket_succ_of_equal hsorted ht rfl)⟩

section InForce

variable {z : ZoneFile}

theorem data_sorted (h : z.times.Pairwise fun a b => a.toInt < b.toInt) :
    z.data.transitions.Pairwise ((⟨true⟩ : Comp).less · ·) := by
  have hlength := z.length_indices
  rw [← List.map_fst_zip hlength.ge, List.pairwise_map] at h
  exact List.pairwise_map.mpr (h.imp fun hlt => decide_eq_true hlt)

theorem inForce_of_period {j : ℕ} {l : Localtime} (h : z.data.period j = .ok l) :
    ∃ r, z.InForce r ∧ r.localtime = l := by
  have hmap : ∀ {i : ℕ}, subscript z.data.localtimes i = .ok l →
      ∃ r, z.types[i]? = some r ∧ r.localtime = l := by
    intro i hi
    have hl := subscript_eq_ok hi
    rw [ZoneFile.data, List.getElem?_map] at hl
    exact Option.map_eq_some_iff.mp hl
  cases j with
  | zero =>
    obtain ⟨r, hr, hl⟩ := hmap h
    exact ⟨r, .inl (List.head?_eq_getElem?.trans hr), hl⟩
  | succ j =>
    obtain ⟨transition, htransition, hfound⟩ := bind_eq_ok.mp h
    obtain ⟨p, hp, rfl⟩ := List.mem_map.mp (List.mem_of_getElem? (subscript_eq_ok htransition))
    obtain ⟨r, hr, hl⟩ := hmap hfound
    exact ⟨r, .inr ⟨p.2, (List.of_mem_zip hp).2, hr⟩, hl⟩

theorem ZoneFile.InForce.exists_period {r : TypeRecord} (h : z.InForce r) :
    ∃ j ≤ z.data.transitions.length, z.data.period j = .ok r.localtime := by
  have hmap : ∀ {i : ℕ}, z.types[i]? = some r →
      subscript z.data.localtimes i = .ok r.localtime := by
    intro i hi
    refine subscript_of_some ?_
    rw [ZoneFile.data, List.getElem?_map, hi]
    rfl
  obtain hr | ⟨i, hi, hr⟩ := h
  · rw [List.head?_eq_getElem?] at hr
    exact ⟨0, Nat.zero_le _, hmap hr⟩
  · rw [← List.map_snd_zip z.length_indices.le] at hi
    obtain ⟨p, hp, rfl⟩ := List.mem_map.mp hi
    have hmem : transitionTo (z.types.map TypeRecord.localtime) p ∈ z.data.transitions :=
      List.mem_map_of_mem hp
    obtain ⟨j, hj⟩ := List.getElem?_of_mem hmem
    refine ⟨j + 1, (List.getElem?_eq_some_iff.mp hj).1, ?_⟩
    rw [Data.period, Data.localtimeAt, subscript_of_some hj, ok_bind]
    exact hmap hr

/-- In an ordered table a lookup finds the types in force, and no others. -/
theorem forall_find_iff (hsorted : z.times.Pairwise fun a b => a.toInt < b.toInt) :
    (∀ t l, z.data.findLocaltime ⟨t, 0, 0⟩ ⟨true⟩ = .ok l →
        l.arrbIdx < z.abbreviation.length) ↔
      ∀ r, z.InForce r → r.abbrind.toNat < z.abbreviation.length := by
  constructor
  · intro h r hr
    obtain ⟨j, hj, hperiod⟩ := hr.exists_period
    obtain ⟨t, ht⟩ := exists_find (data_sorted hsorted) hj
    exact h t r.localtime (ht.trans hperiod)
  · intro h t l hl
    obtain ⟨j, hj, -⟩ := z.data.findLocaltime_eq_period ⟨t, 0, 0⟩ ⟨true⟩
    obtain ⟨r, hr, rfl⟩ := inForce_of_period (hj.symm.trans hl)
    exact h r hr

theorem ofFile_encode (h : z.IndicesInside) (trailing : Bytes) :
    ofFile (some (z.encode ++ trailing)) = .ok ⟨some z.data⟩ := by
  rw [ofFile, readTimeZoneFile]
  simp only [readTables_encode h, ok_bind, pure_eq_ok]

theorem data_usable_iff (htypes : z.types ≠ []) (hinside : z.IndicesInside) :
    z.data.Usable ↔ ∀ t l, z.data.findLocaltime ⟨t, 0, 0⟩ ⟨true⟩ = .ok l →
      l.arrbIdx < z.abbreviation.length := by
  refine usable_iff_find ?_ fun t ht => ?_
  · simpa [ZoneFile.data] using htypes
  · rw [length_data_localtimes]
    obtain ⟨p, hp, rfl⟩ := List.mem_map.mp ht
    exact hinside _ (List.of_mem_zip hp).2

end InForce

/-- A file gives a zone that can be used exactly if it is complete, has a type of local
time, and its indices and the positions of the abbreviations in use lie inside. When the
times are in order these are the abbreviations of the first type and of the types that the
transitions name. -/
theorem zone_of_file_usable_iff (zonefile : Option Bytes) :
    ((∃ data, ofFile zonefile = .ok ⟨some data⟩ ∧ data.Usable) ↔
      ∃ z : ZoneFile, ∃ trailing, zonefile = some (z.encode ++ trailing) ∧ z.types ≠ [] ∧
        z.IndicesInside ∧ ∀ t l, z.data.findLocaltime ⟨t, 0, 0⟩ ⟨true⟩ = .ok l →
          l.arrbIdx < z.abbreviation.length) ∧
    ∀ (z : ZoneFile) trailing, zonefile = some (z.encode ++ trailing) → z.types ≠ [] →
      z.IndicesInside → (z.times.Pairwise fun a b => a.toInt < b.toInt) →
      ((∃ data, ofFile zonefile = .ok ⟨some data⟩ ∧ data.Usable) ↔
        ∀ r, z.InForce r → r.abbrind.toNat < z.abbreviation.length) := by
  refine ⟨⟨?_, ?_⟩, ?_⟩
  · rintro ⟨data, hfile, husable⟩
    obtain ⟨data, hread, htz⟩ := bind_eq_ok.mp hfile
    cases htz
    obtain ⟨l, hfind, hmem, hlt⟩ := husable.find 0
    have hlocaltimes := List.ne_nil_of_mem hmem
    have habbreviation : data.abbreviation ≠ [] := List.ne_nil_of_length_pos (by omega)
    cases zonefile with
    | none =>
      cases hread
      exact absurd rfl hlocaltimes
    | some f =>
      obtain ⟨z, trailing, rfl, hinside, rfl⟩ :=
        exists_of_readTables hread hlocaltimes habbreviation
      have htypes : z.types ≠ [] := by
        rintro hnil
        simp [ZoneFile.data, hnil] at hlocaltimes
      exact ⟨z, trailing, rfl, htypes, hinside, (data_usable_iff htypes hinside).mp husable⟩
  · rintro ⟨z, trailing, rfl, htypes, hinside, hname⟩
    exact ⟨z.data, ofFile_encode hinside trailing, (data_usable_iff htypes hinside).mpr hname⟩
  · rintro z trailing rfl htypes hinside hsorted
    rw [← forall_find_iff hsorted, ← data_usable_iff htypes hinside, ofFile_encode hinside]
    constructor
    · rintro ⟨data, hdata, husable⟩
      cases hdata
      exact husable
    · exact fun husable => ⟨z.data, rfl, husable⟩

/-- A file with one type of local time and no transitions. -/
def utcFile : Bytes :=
  magic ++ List.replicate 28 0 ++ [0, 0, 0, 0, 0, 0, 0, 1, 0, 0, 0, 4, 0, 0, 0, 0, 0, 0] ++
    ascii "UTC" ++ [0]

/-- New York in 1970: two transitions between two types. -/
def easternFile : Bytes :=
  magic ++ List.replicate 28 0 ++ [0, 0, 0, 2, 0, 0, 0, 2, 0, 0, 0, 8] ++
    [0, 151, 254, 240, 1, 135, 225, 224] ++ [1, 0] ++
    [255, 255, 185, 176, 0, 0, 255, 255, 199, 192, 1, 4] ++ ascii "EST" ++ [0] ++ ascii "EDT" ++ [0]

theorem files_usable :
    (∃ data, ofFile (some utcFile) = .ok ⟨some data⟩ ∧ data.Usable) ∧
      ∃ data, ofFile (some easternFile) = .ok ⟨some data⟩ ∧ data.Usable := by
  constructor
  · refine (zone_of_file_usable_iff (some utcFile)).1.mpr
      ⟨⟨List.replicate 28 0, [], [], [⟨0, 0, 0⟩], ascii "UTC" ++ [0], rfl, rfl, by decide,
        by decide, by decide⟩, [], by decide, by decide, by simp [ZoneFile.IndicesInside], ?_⟩
    intro t l hl
    cases hl
    decide
  · refine ((zone_of_file_usable_iff (some easternFile)).2
      ⟨List.replicate 28 0, [9961200, 25682400], [1, 0], [⟨-18000, 0, 0⟩, ⟨-14400, 1, 4⟩],
        ascii "EST" ++ [0] ++ ascii "EDT" ++ [0], rfl, rfl, by decide, by decide, by decide⟩ []
      (by decide) (by decide) (by simp [ZoneFile.IndicesInside]) (by simp)).mpr ?_
    rintro r (hr | ⟨i, hi, hr⟩)
    · cases hr
      decide
    · simp only [List.mem_cons, List.not_mem_nil, or_false] at hi
      obtain rfl | rfl := hi <;> cases hr <;> decide

/-- Without a file there is a zone, and no type of local time in it. -/
theorem missing_file_gives_zone :
    ∃ tz, ofFile none = .ok tz ∧ tz.valid ∧
      ∀ clib t, toLocalTime clib tz t = .error .outOfBounds :=
  ⟨⟨some ⟨[], [], []⟩⟩, rfl, rfl, fun _ _ => rfl⟩

end TimeZone

end Muduo
