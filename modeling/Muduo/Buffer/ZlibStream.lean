import Muduo.Foundations.Guards
import Muduo.Buffer.Basic

/-!
# The compression stream

`ZlibOutputStream` feeds `deflate` and appends to a buffer what `deflate` gives. A text is
fed until nothing is left of it, and then `next_in` is null again. Of a buffer only what
one call of `deflate` takes is retrieved; `next_in` stays where it is, also in front of what
was not taken. Of `deflate` nothing is assumed but that it takes from the front of its
input and fills no more than the space it is given. Sizes go to `deflate` as 32 bits.
-/

namespace Muduo

open Foundations

inductive Flush where
  | noFlush
  | finish
  deriving DecidableEq, Repr

/-- `Z_OK` and `Z_STREAM_END`. -/
inductive ZCode where
  | ok
  | streamEnd
  deriving DecidableEq, Repr

/-- What one call of `deflate` does. -/
structure Deflated (δ : Type) where
  state : δ
  consumed : ℕ
  produced : List UInt8
  code : ZCode

/-- The library. Without a flush the stream does not end. -/
structure Zlib (δ : Type) where
  deflate : δ → Flush → List UInt8 → ℕ → Deflated δ
  deflateEnd : δ → Bool
  consumed_le : ∀ d flush input avail, (deflate d flush input avail).consumed ≤ input.length
  produced_le : ∀ d flush input avail, (deflate d flush input avail).produced.length ≤ avail
  code_noFlush : ∀ d input avail, (deflate d .noFlush input avail).code = .ok

/-- `nextIn` is a position in what it points into, or null; the `avail_in` bytes there are
`input`. What `deflate` has taken and given is kept along. -/
structure ZlibOutputStream (δ : Type) where
  output : Buffer
  state : δ
  nextIn : Option ℕ
  input : List UInt8
  zerror : ZCode
  bufferSize : ℕ
  consumed : List UInt8
  produced : List UInt8

/-- A size behind `static_cast<int>`, in an `avail_in` or `avail_out`. -/
def avail (size : ℕ) : ℕ := size % 2 ^ 32

theorem avail_of_lt {size : ℕ} (h : size < 2 ^ 31) : avail size = size :=
  Nat.mod_eq_of_lt (by omega)

namespace ZlibOutputStream

variable {δ : Type} (Z : Zlib δ)

/-- The constructor, behind a successful `deflateInit`. -/
def new (output : Buffer) (state : δ) : ZlibOutputStream δ :=
  ⟨output, state, none, [], .ok, 1024, [], []⟩

/-- The stream behind a call of `deflate`, with `bufferSize_` and the result. -/
def after (s : ZlibOutputStream δ) (r : Deflated δ) (output : Buffer) : ZlibOutputStream δ where
  output := output
  state := r.state
  nextIn := s.nextIn.map (· + r.consumed)
  input := s.input.drop r.consumed
  zerror := r.code
  bufferSize :=
    if output.writableBytes = 0 ∧ s.bufferSize < 65536 then s.bufferSize * 2 else s.bufferSize
  consumed := s.consumed ++ s.input.take r.consumed
  produced := s.produced ++ r.produced

def compress (s : ZlibOutputStream δ) (flush : Flush) : Except Fault (ZlibOutputStream δ) := do
  let output ← s.output.ensureWritableBytes s.bufferSize
  let availOut := avail output.writableBytes
  let r := Z.deflate s.state flush s.input availOut
  let output ← output.copyToWritable r.produced
  let output ← output.hasWritten (output.writableBytes - (availOut - r.produced.length))
  return s.after r output

/-- The loop of `write`, for as many rounds as `fuel` says. -/
def compressInput : ℕ → ZlibOutputStream δ → Except Fault (ZlibOutputStream δ)
  | fuel, s =>
    if s.input ≠ [] ∧ s.zerror = .ok then
      match fuel with
      | 0 => .error .endless
      | fuel + 1 => do
        let s ← compress Z s .noFlush
        compressInput fuel s
    else .ok s

/-- `write(StringPiece)`. -/
def writePiece (fuel : ℕ) (s : ZlibOutputStream δ) (buf : List UInt8) :
    Except Fault (ZlibOutputStream δ × Bool) :=
  if s.zerror ≠ .ok then .ok (s, false)
  else do
    assertThat (s.nextIn = none ∧ s.input = [])
    let s ← compressInput Z fuel { s with nextIn := some 0, input := buf.take (avail buf.length) }
    if s.input = [] then do
      assertThat (s.nextIn = some buf.length)
      return ({ s with nextIn := none }, s.zerror = .ok)
    else return (s, s.zerror = .ok)

/-- One round, if there is input. -/
def compressOnce (s : ZlibOutputStream δ) : Except Fault (ZlibOutputStream δ) :=
  if s.input ≠ [] ∧ s.zerror = .ok then compress Z s .noFlush else .ok s

/-- `write(Buffer*)`. -/
def writeBuffer (s : ZlibOutputStream δ) (input : Buffer) :
    Except Fault (ZlibOutputStream δ × Buffer × Bool) :=
  if s.zerror ≠ .ok then .ok (s, input, false)
  else do
    let s ← compressOnce Z { s with
      nextIn := some input.peek
      input := input.contents.take (avail input.readableBytes) }
    let input ← input.retrieve (input.readableBytes - s.input.length)
    return (s, input, s.zerror = .ok)

/-- The loop of `finish`. -/
def compressEnd : ℕ → ZlibOutputStream δ → Except Fault (ZlibOutputStream δ)
  | fuel, s =>
    if s.zerror = .ok then
      match fuel with
      | 0 => .error .endless
      | fuel + 1 => do
        let s ← compress Z s .finish
        compressEnd fuel s
    else .ok s

def finish (fuel : ℕ) (s : ZlibOutputStream δ) : Except Fault (ZlibOutputStream δ × Bool) :=
  if s.zerror ≠ .ok then .ok (s, false)
  else do
    let s ← compressEnd Z fuel s
    return ({ s with zerror := .streamEnd }, Z.deflateEnd s.state)

inductive Call where
  | writePiece (buf : List UInt8)
  | writeBuffer (input : Buffer)
  | finish

/-- A stream, what it was given by the writes that were not refused, and whether a buffer
was among them. -/
structure Session (δ : Type) where
  stream : ZlibOutputStream δ
  given : List UInt8
  buffered : Bool

/-- The sizes of a call are those of an `int`. -/
def Call.Fits : Call → Prop
  | .writePiece buf => buf.length < 2 ^ 31
  | .writeBuffer input => input.readableBytes < 2 ^ 31
  | .finish => True

namespace Session

def start (output : Buffer) (state : δ) : Session δ := ⟨new output state, [], false⟩

def step (fuel : ℕ) (s : Session δ) : Call → Except Fault (Session δ)
  | .writePiece buf => do
    let (stream, _) ← s.stream.writePiece Z fuel buf
    return ⟨stream, s.given ++ if s.stream.zerror = .ok then buf else [], s.buffered⟩
  | .writeBuffer input => do
    let (stream, rest, _) ← s.stream.writeBuffer Z input
    return ⟨stream, s.given ++ input.contents.take (input.readableBytes - rest.readableBytes),
      s.buffered || s.stream.zerror = .ok⟩
  | .finish => do
    let (stream, _) ← s.stream.finish Z fuel
    return { s with stream := stream }

/-- Any calls may be made, of sizes that an `int` can hold. -/
def machine (fuel : ℕ) : Machine (Session δ) Call Fault where
  Allows _ call := call.Fits
  step := step Z fuel

instance : (call : Call) → Decidable call.Fits
  | .writePiece buf => inferInstanceAs (Decidable (buf.length < 2 ^ 31))
  | .writeBuffer input => inferInstanceAs (Decidable (input.readableBytes < 2 ^ 31))
  | .finish => .isTrue trivial

instance (s : Session δ) (fuel : ℕ) (call : Call) : Decidable ((machine Z fuel).Allows s call) :=
  inferInstanceAs (Decidable call.Fits)

/-- No text is written behind a buffer. -/
def Separate (s : Session δ) : Call → Prop
  | .writePiece _ => s.stream.zerror = .ok → s.buffered = false
  | .writeBuffer _ | .finish => True

/-- The stream is finished when nothing is left of the last input. -/
def Drained (s : Session δ) : Call → Prop
  | .finish => s.stream.zerror = .ok → s.stream.input = []
  | .writePiece _ | .writeBuffer _ => True

instance (s : Session δ) : (call : Call) → Decidable (s.Drained call)
  | .finish => inferInstanceAs (Decidable (s.stream.zerror = .ok → s.stream.input = []))
  | .writePiece _ | .writeBuffer _ => .isTrue trivial

instance (s : Session δ) (fuel : ℕ) (call : Call) :
    Decidable (((machine Z fuel).restrict Drained).Allows s call) :=
  inferInstanceAs (Decidable (_ ∧ _))

end Session

/-- Whatever is reserved for `deflate` in the output, an `int` can count it. -/
structure Roomy (s : ZlibOutputStream δ) : Prop where
  bufferSize : s.bufferSize ≤ 2 ^ 17
  output : s.output.prependableBytes + s.output.writableBytes < 2 ^ 31

/-- What `deflate` gave was appended. -/
def Appends (s s' : ZlibOutputStream δ) : Prop :=
  ∃ text, s'.produced = s.produced ++ text ∧ s'.output.contents = s.output.contents ++ text

/-- Calls of `deflate` took `n` bytes, and what they gave was appended. -/
structure Advances (s s' : ZlibOutputStream δ) (n : ℕ) : Prop where
  roomy : s'.Roomy
  le : n ≤ s.input.length
  input : s'.input = s.input.drop n
  nextIn : s'.nextIn = s.nextIn.map (· + n)
  consumed : s'.consumed = s.consumed ++ s.input.take n
  output : Appends s s'

variable {Z} {s s' s'' : ZlibOutputStream δ} {n m fuel : ℕ}

theorem Advances.refl (h : s.Roomy) : Advances s s 0 where
  roomy := h
  le := Nat.zero_le _
  input := rfl
  nextIn := by simp
  consumed := by simp
  output := ⟨[], by simp, by simp⟩

theorem Advances.trans (h : Advances s s' n) (h' : Advances s' s'' m) :
    Advances s s'' (n + m) := by
  obtain ⟨text, hproduced, houtput⟩ := h.output
  obtain ⟨text', hproduced', houtput'⟩ := h'.output
  have hlength := h'.le
  have hle := h.le
  rw [h.input, List.length_drop] at hlength
  refine ⟨h'.roomy, by omega, ?_, ?_, ?_, text ++ text', ?_, ?_⟩
  · rw [h'.input, h.input, List.drop_drop]
  · rw [h'.nextIn, h.nextIn, Option.map_map]
    congr 1
    funext k
    exact Nat.add_assoc k n m
  · rw [h'.consumed, h.consumed, h.input, List.append_assoc, List.take_add]
  · rw [hproduced', hproduced, List.append_assoc]
  · rw [houtput', houtput, List.append_assoc]

theorem makeSpace_room {b b' : Buffer} {len : ℕ} {hlen : b.writableBytes < len}
    (hb' : b.makeSpace len hlen = .ok b') : b'.prependableBytes + b'.writableBytes ≤
      max (b.prependableBytes + b.writableBytes) (2 * len + Buffer.kCheapPrepend) := by
  have hreader := b.reader_le
  have hwriter := b.writer_le
  rw [Buffer.makeSpace] at hb'
  split_ifs at hb' with hgrow hfront
  · cases hb'
    simp only [Buffer.prependableBytes, Buffer.writableBytes, length_resize] at hgrow ⊢
    omega
  · obtain ⟨_, -, hb'⟩ := bind_eq_ok.mp hb'
    cases hb'
    have hroom : Buffer.kCheapPrepend + b.contents.length ≤ b.buffer.length := by
      rw [b.length_contents, Buffer.readableBytes]
      omega
    simp only [Buffer.prependableBytes, Buffer.writableBytes, Buffer.readableBytes,
      length_overwrite hroom]
    omega

theorem ensureWritableBytes_room {b b' : Buffer} {len : ℕ}
    (hb' : b.ensureWritableBytes len = .ok b') : b'.prependableBytes + b'.writableBytes ≤
      max (b.prependableBytes + b.writableBytes) (2 * len + Buffer.kCheapPrepend) := by
  rw [Buffer.ensureWritableBytes] at hb'
  split_ifs at hb'
  · obtain ⟨b₁, hb₁, hb'⟩ := bind_eq_ok.mp hb'
    obtain ⟨_, -, hb'⟩ := bind_eq_ok.mp hb'
    cases hb'
    exact makeSpace_room hb₁
  · rw [ok_bind] at hb'
    obtain ⟨_, -, hb'⟩ := bind_eq_ok.mp hb'
    cases hb'
    exact le_max_left _ _

theorem compress_spec (Z : Zlib δ) (h : s.Roomy) (flush : Flush) :
    ∃ s' n, compress Z s flush = .ok s' ∧ Advances s s' n ∧
      (flush = .noFlush → s'.zerror = .ok) := by
  obtain ⟨b₀, h₀, hcontents, -, -⟩ := s.output.ensureWritableBytes_spec s.bufferSize
  have hsize := h.bufferSize
  have hroom : b₀.prependableBytes + b₀.writableBytes < 2 ^ 31 := by
    have hle := ensureWritableBytes_room h₀
    have houtput := h.output
    simp only [Buffer.kCheapPrepend] at hle
    omega
  have havail : avail b₀.writableBytes = b₀.writableBytes := avail_of_lt (by omega)
  let r := Z.deflate s.state flush s.input b₀.writableBytes
  have hproduced : r.produced.length ≤ b₀.writableBytes := Z.produced_le _ _ _ _
  obtain ⟨b₁, h₁, hsame, hprepend, hadvance⟩ := Buffer.copyToWritable_spec hproduced
  have hlength : b₁.writableBytes - (b₀.writableBytes - r.produced.length) = r.produced.length := by
    omega
  have hfit : b₁.writableBytes - (b₀.writableBytes - r.produced.length) ≤ b₁.writableBytes := by
    omega
  refine ⟨s.after r (b₁.advance _ hfit), r.consumed, ?_, ?_, ?_⟩
  · rw [compress, h₀, ok_bind]
    simp only [havail, r, h₁, ok_bind, Buffer.hasWritten, dif_pos hfit, pure_eq_ok]
  · refine ⟨⟨?_, ?_⟩, Z.consumed_le _ _ _ _, rfl, rfl, rfl, r.produced, rfl, ?_⟩
    · simp only [after]
      split_ifs <;> omega
    · have hless : (b₁.advance _ hfit).writableBytes ≤ b₁.writableBytes := by
        simp only [Buffer.writableBytes, Buffer.advance]
        omega
      have hkept : (b₁.advance _ hfit).prependableBytes = b₁.prependableBytes := rfl
      show (b₁.advance _ hfit).prependableBytes + (b₁.advance _ hfit).writableBytes < _
      omega
    · exact (hadvance _ hfit hlength).trans (by rw [hcontents])
  · rintro rfl
    exact Z.code_noFlush _ _ _

theorem compressInput_nil (Z : Zlib δ) (fuel : ℕ) (hroomy : s.Roomy) (hnil : s.input = [])
    (h : s.zerror = .ok) :
    ∃ s', compressInput Z fuel s = .ok s' ∧ Advances s s' s.input.length ∧ s'.zerror = .ok := by
  have hloop : ¬ (s.input ≠ [] ∧ s.zerror = .ok) := fun hloop => hloop.1 hnil
  refine ⟨s, ?_, hnil ▸ .refl hroomy, h⟩
  cases fuel <;> rw [compressInput, if_neg hloop]

theorem compressInput_spec (Z : Zlib δ) (fuel : ℕ) (hroomy : s.Roomy) (h : s.zerror = .ok) :
    compressInput Z fuel s = .error .endless ∨
      ∃ s', compressInput Z fuel s = .ok s' ∧ Advances s s' s.input.length ∧ s'.zerror = .ok := by
  induction fuel generalizing s with
  | zero =>
    by_cases hnil : s.input = []
    · exact .inr (compressInput_nil Z 0 hroomy hnil h)
    · rw [compressInput, if_pos ⟨hnil, h⟩]
      exact .inl rfl
  | succ fuel ih =>
    by_cases hnil : s.input = []
    · exact .inr (compressInput_nil Z (fuel + 1) hroomy hnil h)
    · obtain ⟨s₁, n, hs₁, hadvance, hok⟩ := compress_spec Z hroomy .noFlush
      have hle := hadvance.le
      have hall : n + s₁.input.length = s.input.length := by
        rw [hadvance.input, List.length_drop]
        omega
      rw [compressInput, if_pos ⟨hnil, h⟩]
      simp only [hs₁, ok_bind]
      rcases ih hadvance.roomy (hok rfl) with hendless | ⟨s', hs', hadvance', hok'⟩
      · exact .inl hendless
      · exact .inr ⟨s', hs', hall ▸ hadvance.trans hadvance', hok'⟩

theorem compressOnce_spec (Z : Zlib δ) (hroomy : s.Roomy) (h : s.zerror = .ok) :
    ∃ s' n, compressOnce Z s = .ok s' ∧ Advances s s' n ∧ s'.zerror = .ok := by
  rw [compressOnce]
  split_ifs with hround
  · obtain ⟨s', n, hs', hadvance, hok⟩ := compress_spec Z hroomy .noFlush
    exact ⟨s', n, hs', hadvance, hok rfl⟩
  · exact ⟨s, 0, rfl, .refl hroomy, h⟩

theorem compressEnd_spec (Z : Zlib δ) (fuel : ℕ) (hroomy : s.Roomy) :
    compressEnd Z fuel s = .error .endless ∨
      ∃ s' n, compressEnd Z fuel s = .ok s' ∧ Advances s s' n := by
  induction fuel generalizing s with
  | zero =>
    rw [compressEnd]
    split_ifs
    · exact .inl rfl
    · exact .inr ⟨s, 0, rfl, .refl hroomy⟩
  | succ fuel ih =>
    rw [compressEnd]
    split_ifs
    · obtain ⟨s₁, n, hs₁, hadvance, -⟩ := compress_spec Z hroomy .finish
      simp only [hs₁, ok_bind]
      rcases ih hadvance.roomy with hendless | ⟨s', m, hs', hadvance'⟩
      · exact .inl hendless
      · exact .inr ⟨s', n + m, hs', hadvance.trans hadvance'⟩
    · exact .inr ⟨s, 0, rfl, .refl hroomy⟩

theorem writePiece_spec (Z : Zlib δ) (fuel : ℕ) (hroomy : s.Roomy) (hok : s.zerror = .ok)
    (hnext : s.nextIn = none) (hinput : s.input = []) {buf : List UInt8}
    (hsize : buf.length < 2 ^ 31) :
    writePiece Z fuel s buf = .error .endless ∨
      ∃ s', writePiece Z fuel s buf = .ok (s', true) ∧ s'.Roomy ∧ s'.zerror = .ok ∧
        s'.nextIn = none ∧ s'.input = [] ∧ s'.consumed = s.consumed ++ buf ∧ Appends s s' := by
  rw [writePiece, if_neg (not_not.mpr hok), assertThat_pos ⟨hnext, hinput⟩, ok_bind,
    avail_of_lt hsize, List.take_length]
  rcases compressInput_spec Z fuel (s := { s with nextIn := some 0, input := buf })
    ⟨hroomy.bufferSize, hroomy.output⟩ hok with hendless | ⟨s', hs', hadvance, hok'⟩
  · rw [hendless]
    exact .inl rfl
  · have hnil : s'.input = [] := by
      rw [hadvance.input]
      exact List.drop_length
    have hend : s'.nextIn = some buf.length := by
      rw [hadvance.nextIn]
      simp
    have hconsumed : s'.consumed = s.consumed ++ buf := by
      rw [hadvance.consumed]
      simp
    refine .inr ⟨{ s' with nextIn := none }, ?_, ⟨hadvance.roomy.bufferSize, hadvance.roomy.output⟩,
      hok', rfl, hnil, hconsumed, hadvance.output⟩
    simp only [hs', ok_bind, if_pos hnil, assertThat_pos hend, hok', pure_eq_ok, decide_true]

theorem writePiece_of_set (Z : Zlib δ) (fuel : ℕ) (hok : s.zerror = .ok) (hnext : s.nextIn ≠ none)
    (buf : List UInt8) : writePiece Z fuel s buf = .error .assertion := by
  rw [writePiece, if_neg (not_not.mpr hok), assertThat_neg (fun h => hnext h.1)]
  rfl

theorem writeBuffer_spec (Z : Zlib δ) (hroomy : s.Roomy) (hok : s.zerror = .ok) {input : Buffer}
    (hsize : input.readableBytes < 2 ^ 31) :
    ∃ s' rest n, writeBuffer Z s input = .ok (s', rest, true) ∧ s'.Roomy ∧ s'.zerror = .ok ∧
      s'.nextIn ≠ none ∧ n ≤ input.readableBytes ∧
      rest.contents = input.contents.drop n ∧ s'.consumed = s.consumed ++ input.contents.take n ∧
      Appends s s' := by
  have hall : input.contents.take (avail input.readableBytes) = input.contents := by
    rw [avail_of_lt hsize, ← input.length_contents, List.take_length]
  rw [writeBuffer, if_neg (not_not.mpr hok), hall]
  obtain ⟨s', n, hs', hadvance, hok'⟩ := compressOnce_spec Z
    (s := { s with nextIn := some input.peek, input := input.contents })
    ⟨hroomy.bufferSize, hroomy.output⟩ hok
  have hle : n ≤ input.readableBytes := by
    have hn := hadvance.le
    rwa [← input.length_contents]
  have htaken : input.readableBytes - s'.input.length = n := by
    rw [hadvance.input, List.length_drop]
    show input.readableBytes - (input.contents.length - n) = n
    rw [input.length_contents]
    omega
  obtain ⟨rest, hrest, hcontents⟩ := Buffer.retrieve_spec hle
  refine ⟨s', rest, n, ?_, hadvance.roomy, hok', ?_, hle, hcontents, hadvance.consumed,
    hadvance.output⟩
  · simp only [hs', ok_bind, htaken, hrest, hok', pure_eq_ok, decide_true]
  · rw [hadvance.nextIn]
    simp

theorem finish_spec (Z : Zlib δ) (fuel : ℕ) (hroomy : s.Roomy) (hok : s.zerror = .ok) :
    finish Z fuel s = .error .endless ∨
      ∃ s' ok n, finish Z fuel s = .ok (s', ok) ∧ s'.Roomy ∧ s'.zerror = .streamEnd ∧
        s'.consumed = s.consumed ++ s.input.take n ∧ Appends s s' := by
  rw [finish, if_neg (not_not.mpr hok)]
  rcases compressEnd_spec Z fuel hroomy with hendless | ⟨s', n, hs', hadvance⟩
  · rw [hendless]
    exact .inl rfl
  · rw [hs', ok_bind]
    exact .inr ⟨_, _, n, rfl, ⟨hadvance.roomy.bufferSize, hadvance.roomy.output⟩, rfl,
      hadvance.consumed, hadvance.output⟩

namespace Session

/-- The output is what `deflate` gave. As long as the stream is open, `next_in` is set
exactly if a buffer was written. -/
structure Inv (out : Buffer) (s : Session δ) : Prop where
  roomy : s.stream.Roomy
  output : s.stream.output.contents = out.contents ++ s.stream.produced
  clear : s.stream.zerror = .ok → s.buffered = false →
    s.stream.nextIn = none ∧ s.stream.input = []
  set : s.stream.zerror = .ok → s.buffered = true → s.stream.nextIn ≠ none

variable {s t : Session δ} {out : Buffer} {call : Call}

theorem Inv.appends {stream : ZlibOutputStream δ} (h : s.Inv out)
    (happends : Appends s.stream stream) :
    stream.output.contents = out.contents ++ stream.produced := by
  obtain ⟨text, hproduced, houtput⟩ := happends
  rw [houtput, hproduced, h.output, List.append_assoc]

theorem step_of_finished (Z : Zlib δ) (fuel : ℕ) (h : s.stream.zerror ≠ .ok) (call : Call) :
    ∃ t, s.step Z fuel call = .ok t ∧ t.stream = s.stream ∧ t.given = s.given := by
  cases call with
  | writePiece buf =>
    refine ⟨⟨s.stream, s.given ++ [], s.buffered⟩, ?_, rfl, List.append_nil _⟩
    rw [step, writePiece, if_pos h, ok_bind, if_neg h]
    rfl
  | writeBuffer input =>
    refine ⟨⟨s.stream, s.given ++ [], s.buffered || s.stream.zerror = .ok⟩, ?_, rfl,
      List.append_nil _⟩
    rw [step, writeBuffer, if_pos h, ok_bind]
    simp
  | finish =>
    refine ⟨s, ?_, rfl, rfl⟩
    rw [step, finish, if_pos h, ok_bind]
    rfl

/-- A text that is not written behind a buffer is taken entirely, unless the loop does
not end. -/
theorem Inv.writePiece (h : s.Inv out) (hok : s.stream.zerror = .ok) (hfree : s.buffered = false)
    {buf : List UInt8} (hsize : buf.length < 2 ^ 31) :
    s.step Z fuel (.writePiece buf) = .error .endless ∨
      ∃ t, s.step Z fuel (.writePiece buf) = .ok t ∧ t.Inv out ∧
        t.stream.consumed = s.stream.consumed ++ buf ∧ t.given = s.given ++ buf := by
  obtain ⟨hnext, hinput⟩ := h.clear hok hfree
  rcases writePiece_spec Z fuel h.roomy hok hnext hinput hsize with hendless | ⟨s', hs', hroomy, -,
    hnext', hinput', hconsumed, happends⟩
  · rw [step, hendless]
    exact .inl rfl
  · refine .inr ⟨⟨s', s.given ++ buf, s.buffered⟩, ?_, ⟨hroomy, h.appends happends, ?_, ?_⟩,
      hconsumed, rfl⟩
    · rw [step, hs', ok_bind, if_pos hok]
      rfl
    · exact fun _ _ => ⟨hnext', hinput'⟩
    · intro _ hbuffered
      rw [hfree] at hbuffered
      cases hbuffered

theorem Inv.writeBuffer (h : s.Inv out) (hok : s.stream.zerror = .ok) {input : Buffer}
    (hsize : input.readableBytes < 2 ^ 31) :
    ∃ t n, s.step Z fuel (.writeBuffer input) = .ok t ∧ t.Inv out ∧
      t.stream.consumed = s.stream.consumed ++ input.contents.take n ∧
      t.given = s.given ++ input.contents.take n := by
  obtain ⟨s', rest, n, hs', hroomy, -, hnext, hle, hrest, hconsumed, happends⟩ :=
    writeBuffer_spec Z h.roomy hok hsize
  have htaken : input.readableBytes - rest.readableBytes = n := by
    rw [← rest.length_contents, hrest, List.length_drop, input.length_contents]
    omega
  refine ⟨⟨s', s.given ++ input.contents.take n, true⟩, n, ?_,
    ⟨hroomy, h.appends happends, ?_, ?_⟩, hconsumed, rfl⟩
  · rw [step, hs', ok_bind]
    simp [htaken, hok]
  · intro _ hbuffered
    cases hbuffered
  · exact fun _ _ => hnext

theorem Inv.finish (h : s.Inv out) (hok : s.stream.zerror = .ok) :
    s.step Z fuel .finish = .error .endless ∨
      ∃ t n, s.step Z fuel .finish = .ok t ∧ t.Inv out ∧
        t.stream.consumed = s.stream.consumed ++ s.stream.input.take n ∧ t.given = s.given := by
  rcases finish_spec Z fuel h.roomy hok with
    hendless | ⟨s', ok, n, hs', hroomy, hend, hconsumed, happends⟩
  · rw [step, hendless]
    exact .inl rfl
  · refine .inr ⟨{ s with stream := s' }, n, ?_, ⟨hroomy, h.appends happends, ?_, ?_⟩, hconsumed,
      rfl⟩
    · rw [step, hs', ok_bind]
      rfl
    · intro hopen
      rw [hend] at hopen
      cases hopen
    · intro hopen
      rw [hend] at hopen
      cases hopen

/-- The ends of a call: a text behind a buffer runs into the assertion, a loop does not end,
or what `deflate` took is what was given to it, unless input was left for `finish`. -/
theorem Inv.step_cases (h : s.Inv out) (Z : Zlib δ) (fuel : ℕ) (hfits : call.Fits) :
    (s.step Z fuel call = .error .assertion ∧ ¬ s.Separate call) ∨
    (s.step Z fuel call = .error .endless ∧ s.Separate call) ∨
    ∃ t taken, s.step Z fuel call = .ok t ∧ s.Separate call ∧ t.Inv out ∧
      t.stream.consumed = s.stream.consumed ++ taken ∧
      (s.Drained call → t.given = s.given ++ taken) := by
  by_cases hok : s.stream.zerror = .ok
  · cases call with
    | writePiece buf =>
      cases hbuffered : s.buffered with
      | true =>
        refine .inl ⟨?_, fun hseparate => ?_⟩
        · rw [Session.step, writePiece_of_set Z fuel hok (h.set hok hbuffered)]
          rfl
        · cases hbuffered.symm.trans (hseparate hok)
      | false =>
        rcases h.writePiece hok hbuffered hfits with hendless | ⟨t, ht, hinv, htaken, hgiven⟩
        · exact .inr (.inl ⟨hendless, fun _ => hbuffered⟩)
        · exact .inr (.inr ⟨t, buf, ht, fun _ => hbuffered, hinv, htaken, fun _ => hgiven⟩)
    | writeBuffer input =>
      obtain ⟨t, n, ht, hinv, htaken, hgiven⟩ := h.writeBuffer hok hfits
      exact .inr (.inr ⟨t, input.contents.take n, ht, trivial, hinv, htaken, fun _ => hgiven⟩)
    | finish =>
      rcases h.finish hok with hendless | ⟨t, n, ht, hinv, htaken, hgiven⟩
      · exact .inr (.inl ⟨hendless, trivial⟩)
      · refine .inr (.inr ⟨t, s.stream.input.take n, ht, trivial, hinv, htaken, fun hdrained => ?_⟩)
        rw [hgiven, hdrained hok, List.take_nil, List.append_nil]
  · obtain ⟨t, ht, hstream, hgiven⟩ := step_of_finished Z fuel hok call
    have hclosed : t.stream.zerror ≠ .ok := hstream ▸ hok
    refine .inr (.inr ⟨t, [], ht, ?_, ⟨hstream ▸ h.roomy, hstream ▸ h.output, ?_, ?_⟩, ?_, ?_⟩)
    · cases call with
      | writePiece buf => exact fun hopen => absurd hopen hok
      | writeBuffer input => trivial
      | finish => trivial
    · exact fun hopen => absurd hopen hclosed
    · exact fun hopen => absurd hopen hclosed
    · rw [hstream, List.append_nil]
    · intro _
      rw [hgiven, List.append_nil]

/-- A call that returns keeps the invariant and appends what it took. -/
theorem Inv.step (h : s.Inv out) (hfits : call.Fits) (hstep : s.step Z fuel call = .ok t) :
    t.Inv out ∧ ∃ taken, t.stream.consumed = s.stream.consumed ++ taken ∧
      (s.Drained call → t.given = s.given ++ taken) := by
  rcases h.step_cases Z fuel hfits with ⟨hfails, -⟩ | ⟨hfails, -⟩ |
    ⟨t', taken, ht', -, hinv, htaken⟩
  · cases hfails.symm.trans hstep
  · cases hfails.symm.trans hstep
  · cases ht'.symm.trans hstep
    exact ⟨hinv, taken, htaken⟩

/-- Only a text behind a buffer makes a call fail, if its loops end. -/
theorem Inv.step_fails_iff (h : s.Inv out) (hfits : call.Fits) :
    (∃ e, s.step Z fuel call = .error e ∧ e ≠ .endless) ↔ ¬ s.Separate call := by
  rcases h.step_cases Z fuel hfits with ⟨hfails, hmixed⟩ |
    ⟨hendless, hseparate⟩ | ⟨t, -, ht, hseparate, -⟩
  · exact iff_of_true ⟨_, hfails, by decide⟩ hmixed
  · refine iff_of_false ?_ (not_not.mpr hseparate)
    rintro ⟨e, he, hne⟩
    cases hendless.symm.trans he
    exact hne rfl
  · refine iff_of_false ?_ (not_not.mpr hseparate)
    rintro ⟨e, he, -⟩
    cases ht.symm.trans he

/-- What was taken is what was given, as long as nothing is left when the stream is
finished. -/
theorem Inv.consumed (h : s.Inv out) (hfits : call.Fits) (hgiven : s.stream.consumed = s.given)
    (hdrained : s.Drained call) (hstep : s.step Z fuel call = .ok t) :
    t.stream.consumed = t.given := by
  obtain ⟨-, taken, htaken, hdata⟩ := h.step hfits hstep
  rw [htaken, hdata hdrained, hgiven]

theorem inv_start {out : Buffer} (hout : out.prependableBytes + out.writableBytes < 2 ^ 31)
    (state : δ) : (start out state).Inv out where
  roomy := ⟨by simp [start, new], hout⟩
  output := (List.append_nil _).symm
  clear _ _ := ⟨rfl, rfl⟩
  set _ h := by cases h

/-- Calls in any order, with sizes that an `int` can hold. An assertion fails exactly if a
text is written behind a buffer. What is appended to the output is what `deflate` gave; what
it took is what was given to it, if nothing was left when the stream was finished. -/
theorem input_discipline (Z : Zlib δ) (fuel : ℕ) (out : Buffer) (state : δ) (calls : List Call)
    (hout : out.prependableBytes + out.writableBytes < 2 ^ 31)
    (hcalls : (machine Z fuel).Permits (start out state) calls) :
    ((∀ e, (machine Z fuel).run (start out state) calls = .error e → e = .endless) ↔
      ((machine Z fuel).restrict Separate).Permits (start out state) calls) ∧
    ∀ s, (machine Z fuel).run (start out state) calls = .ok s →
      s.stream.output.contents = out.contents ++ s.stream.produced ∧
      (((machine Z fuel).restrict Drained).Permits (start out state) calls →
        s.stream.consumed = s.given) := by
  have hstart := inv_start hout state
  have hkeep : ∀ (s : Session δ) call t, s.Inv out → (machine Z fuel).Allows s call →
      (machine Z fuel).step s call = .ok t → t.Inv out :=
    fun _ _ _ hs hfits ht => (hs.step hfits ht).1
  constructor
  · rw [← (machine Z fuel).run_avoids_iff (· ≠ .endless) Separate hkeep
      (fun _ _ hs hfits => hs.step_fails_iff hfits) calls _ hstart hcalls]
    exact forall_congr' fun e => imp_congr_right fun _ => not_not.symm
  · intro s hrun
    refine ⟨((machine Z fuel).run_keeps hkeep hstart hcalls hrun).output, ?_⟩
    intro hdrained
    have hstep : ∀ (s : Session δ) call t, s.Inv out ∧ s.stream.consumed = s.given →
        ((machine Z fuel).restrict Drained).Allows s call →
        ((machine Z fuel).restrict Drained).step s call = .ok t →
          t.Inv out ∧ t.stream.consumed = t.given := fun _ _ _ hs hcall ht =>
      ⟨(hs.1.step hcall.1 ht).1, hs.1.consumed hcall.1 hs.2 hcall.2 ht⟩
    rw [← (machine Z fuel).run_restrict Drained] at hrun
    exact (((machine Z fuel).restrict Drained).run_keeps hstep ⟨hstart, rfl⟩ hdrained hrun).2

/-- A `deflate` that copies its input, at once or only when the stream is finished. -/
def copying (lazy : Bool) : Zlib Unit where
  deflate _ flush input avail :=
    let n := if lazy ∧ flush = .noFlush then 0 else min input.length avail
    ⟨(), n, input.take n, if flush = .finish then .streamEnd else .ok⟩
  deflateEnd _ := true
  consumed_le _ flush input avail := by
    dsimp only
    split_ifs <;> omega
  produced_le _ flush input avail := by
    dsimp only
    rw [List.length_take]
    split_ifs <;> omega
  code_noFlush _ _ _ := rfl

def oneByte : Buffer :=
  ⟨[0, 0, 0, 0, 0, 0, 0, 0, 97], 8, 9, by decide, by decide, by decide⟩

/-- Two texts, a buffer, and the end. -/
theorem input_discipline_separate :
    ∃ s, (machine (copying false) 2).run (start (.ofSize 8) ())
        [.writePiece [1, 2], .writePiece [], .writePiece [3], .writeBuffer oneByte, .finish] =
          .ok s ∧
      s.given = [1, 2, 3, 97] ∧ s.stream.output.contents = s.stream.produced ∧
      s.stream.consumed = s.given := by
  have hgiven : ((machine (copying false) 2).run (start (.ofSize 8) ())
      [.writePiece [1, 2], .writePiece [], .writePiece [3], .writeBuffer oneByte,
        .finish]).toOption.map Session.given = some [1, 2, 3, 97] := by decide +kernel
  obtain ⟨s, hs, hgiven⟩ := exists_ok_of_map hgiven
  obtain ⟨houtput, hconsumed⟩ := (input_discipline (copying false) 2 (.ofSize 8) ()
    [.writePiece [1, 2], .writePiece [], .writePiece [3], .writeBuffer oneByte, .finish]
    (by decide) (by decide +kernel)).2 s hs
  exact ⟨s, hs, hgiven, houtput, hconsumed (by decide +kernel)⟩

/-- A text behind a buffer runs into the assertion. What `deflate` left of a buffer is
taken when the stream is finished, though it is still in the buffer. -/
theorem mixed_calls_fail :
    (machine (copying false) 1).run (start (.ofSize 8) ()) [.writeBuffer oneByte, .writePiece []] =
        .error .assertion ∧
      ∃ s, (machine (copying true) 1).run (start (.ofSize 8) ()) [.writeBuffer oneByte, .finish] =
          .ok s ∧ s.given = [] ∧ s.stream.consumed = [97] := by
  have hfails : faultOf ((machine (copying false) 1).run (start (.ofSize 8) ())
      [.writeBuffer oneByte, .writePiece []]) = some .assertion := by decide +kernel
  have htakes : ((machine (copying true) 1).run (start (.ofSize 8) ())
      [.writeBuffer oneByte, .finish]).toOption.map (fun s => (s.given, s.stream.consumed)) =
        some ([], [97]) := by decide +kernel
  obtain ⟨s, hs, hboth⟩ := exists_ok_of_map htakes
  exact ⟨eq_error_of_faultOf hfails, s, hs, congrArg Prod.fst hboth, congrArg Prod.snd hboth⟩

end Session

end ZlibOutputStream

end Muduo
