import Muduo.Base.Text
import Muduo.Foundations.Incremental
import Muduo.Foundations.Machine
import Muduo.Foundations.Search

/-!
# Messages of the hub

A message is a line with a command and a topic; behind the line of a `pub` there is one with the
content. The hub and its clients read the same messages.
-/

namespace Muduo
namespace Hub

open Foundations

/-- With what was parsed, and how much is retrieved from the buffer. -/
inductive ParseResult
  | kError
  | kSuccess (cmd topic content : Bytes) (taken : ℕ)
  | kContinue
  deriving DecidableEq, Repr

/-- A topic may be empty, and it may have blanks in it. -/
def parseMessage (buf : Bytes) : ParseResult :=
  match findPair 13 10 buf with
  | none => .kContinue
  | some crlf =>
    match (buf.take crlf).dropWhile (· ≠ 32) with
    | [] => .kError
    | _ :: topic =>
      let cmd := (buf.take crlf).takeWhile (· ≠ 32)
      if cmd = ascii "pub" then
        match findPair 13 10 (buf.drop (crlf + 2)) with
        | none => .kContinue
        | some n => .kSuccess cmd topic ((buf.drop (crlf + 2)).take n) (crlf + 2 + (n + 2))
      else .kSuccess cmd topic [] (crlf + 2)

structure Message where
  cmd : Bytes
  topic : Bytes
  content : Bytes
  deriving DecidableEq, Repr

/-- `makeMessage`, and what `publish` of a client sends. -/
def makeMessage (topic content : Bytes) : Bytes :=
  ascii "pub " ++ topic ++ ascii "\r\n" ++ content ++ ascii "\r\n"

def OneLine (text : Bytes) : Prop := findPair 13 10 text = none

instance (text : Bytes) : Decidable (OneLine text) :=
  inferInstanceAs (Decidable (findPair 13 10 text = none))

section Parse

variable {buf : Bytes}

theorem parseMessage_append (h : parseMessage buf ≠ .kContinue) (more : Bytes) :
    parseMessage (buf ++ more) = parseMessage buf := by
  cases hfind : findPair 13 10 buf with
  | none => simp [parseMessage, hfind] at h
  | some crlf =>
    have hlen := findPair_lt hfind
    have htake : (buf ++ more).take crlf = buf.take crlf := List.take_append_of_le_length (by omega)
    have hdrop : (buf ++ more).drop (crlf + 2) = buf.drop (crlf + 2) ++ more :=
      List.drop_append_of_le_length hlen
    simp only [parseMessage, hfind] at h ⊢
    simp only [findPair_append hfind, htake, hdrop]
    cases hspace : (buf.take crlf).dropWhile (· ≠ 32) with
    | nil => rfl
    | cons b topic =>
      simp only [hspace] at h ⊢
      split_ifs at h ⊢
      · cases hcontent : findPair 13 10 (buf.drop (crlf + 2)) with
        | none => simp [hcontent] at h
        | some n =>
          have hn := findPair_lt hcontent
          simp only [findPair_append hcontent]
          rw [List.take_append_of_le_length (by omega)]
      · rfl

/-- What is parsed is in the buffer, and no part of it goes over the end of its line. -/
theorem parseMessage_success {cmd topic content : Bytes} {n : ℕ}
    (h : parseMessage buf = .kSuccess cmd topic content n) :
    (0 < n ∧ n ≤ buf.length) ∧ OneLine topic ∧ OneLine content := by
  cases hfind : findPair 13 10 buf with
  | none => simp [parseMessage, hfind] at h
  | some crlf =>
    have hlen := findPair_lt hfind
    simp only [parseMessage, hfind] at h
    cases hspace : (buf.take crlf).dropWhile (· ≠ 32) with
    | nil =>
      simp only [hspace] at h
      cases h
    | cons b rest =>
      have htopic : OneLine rest := by
        have hline := (findPair_cut hfind).2
        rw [← List.takeWhile_append_dropWhile (p := (· ≠ 32)) (l := buf.take crlf), hspace]
          at hline
        exact findPair_tail (findPair_suffix hline)
      simp only [hspace] at h
      split_ifs at h
      · cases hcontent : findPair 13 10 (buf.drop (crlf + 2)) with
        | none => simp [hcontent] at h
        | some m =>
          have hm := findPair_lt hcontent
          rw [List.length_drop] at hm
          simp only [hcontent] at h
          cases h
          exact ⟨⟨by omega, by omega⟩, htopic, (findPair_cut hcontent).2⟩
      · cases h
        exact ⟨⟨by omega, hlen⟩, htopic, rfl⟩

end Parse

/-- The messages of a stream. A line without a blank ends it. -/
def messages : Parser Unit UInt8 Message where
  step _ buf :=
    match parseMessage buf with
    | .kContinue => .wait
    | .kError => .halt () 0 []
    | .kSuccess cmd topic content n => .next () n [⟨cmd, topic, content⟩]
  extends_input _ xs ys h := by
    have hne : parseMessage xs ≠ .kContinue := by
      intro hcontinue
      simp [hcontinue] at h
    simp only [parseMessage_append hne ys]
  next_takes _ xs _ n out h := by
    cases hparse : parseMessage xs with
    | kSuccess cmd topic content m =>
      simp only [hparse] at h
      cases h
      exact (parseMessage_success hparse).1
    | kError => simp [hparse] at h
    | kContinue => simp [hparse] at h
  halt_takes _ xs _ n out h := by
    cases hparse : parseMessage xs with
    | kError =>
      simp only [hparse] at h
      cases h
      exact Nat.zero_le _
    | kSuccess cmd topic content m => simp [hparse] at h
    | kContinue => simp [hparse] at h

section Messages

variable {buf : Bytes}

theorem messages_wait (h : parseMessage buf = .kContinue) : messages.step () buf = .wait := by
  simp only [messages, h]

theorem messages_halt (h : parseMessage buf = .kError) : messages.step () buf = .halt () 0 [] := by
  simp only [messages, h]

theorem messages_next {cmd topic content : Bytes} {n : ℕ}
    (h : parseMessage buf = .kSuccess cmd topic content n) :
    messages.step () buf = .next () n [⟨cmd, topic, content⟩] := by
  simp only [messages, h]

theorem messages_oneLine (buf : Bytes) :
    ∀ m ∈ (messages.drain () buf).out, OneLine m.topic ∧ OneLine m.content := by
  generalize hs : () = s
  induction s, buf using messages.drain_induction with
  | wait s buf hstep => simp [Parser.drain_wait hstep]
  | halt s buf s' n out hstep =>
    rw [Parser.drain_halt hstep]
    cases hparse : parseMessage buf with
    | kError =>
      cases (messages_halt hparse).symm.trans hstep
      simp
    | kSuccess cmd topic content m =>
      exact absurd ((messages_next hparse).symm.trans hstep) (by simp)
    | kContinue => exact absurd ((messages_wait hparse).symm.trans hstep) (by simp)
  | next s buf s' n out hstep ih =>
    rw [Parser.drain_next hstep]
    cases hparse : parseMessage buf with
    | kSuccess cmd topic content m =>
      cases (messages_next hparse).symm.trans hstep
      simp only [List.singleton_append, List.forall_mem_cons]
      exact ⟨(parseMessage_success hparse).2, ih rfl⟩
    | kError => exact absurd ((messages_halt hparse).symm.trans hstep) (by simp)
    | kContinue => exact absurd ((messages_wait hparse).symm.trans hstep) (by simp)

theorem parseMessage_makeMessage {topic content : Bytes} (htopic : OneLine topic)
    (hcontent : OneLine content) (rest : Bytes) :
    parseMessage (makeMessage topic content ++ rest) =
      .kSuccess (ascii "pub") topic content (makeMessage topic content).length := by
  have hline : findPair 13 10 (ascii "pub " ++ topic) = none :=
    findPair_append_none (by decide) htopic
  have hbuf : makeMessage topic content ++ rest =
      (ascii "pub " ++ topic) ++ 13 :: 10 :: (content ++ 13 :: 10 :: rest) := by
    simp only [makeMessage, List.append_assoc]
    rfl
  have htake : ∀ more : Bytes, ((ascii "pub " ++ topic) ++ 13 :: 10 :: more).take
      (ascii "pub " ++ topic).length = ascii "pub " ++ topic := fun more => List.take_left
  have hdrop : ∀ more : Bytes, ((ascii "pub " ++ topic) ++ 13 :: 10 :: more).drop
      ((ascii "pub " ++ topic).length + 2) = more := fun more => by
    rw [← List.drop_drop, List.drop_left]
    rfl
  rw [hbuf, parseMessage, findPair_line (by decide) hline]
  have hcmd : (ascii "pub " ++ topic).takeWhile (· ≠ 32) = ascii "pub" := rfl
  have hspace : (ascii "pub " ++ topic).dropWhile (· ≠ 32) = 32 :: topic := rfl
  have hlen : (ascii "pub " ++ topic).length + 2 + (content.length + 2) =
      (makeMessage topic content).length := by
    simp only [makeMessage, List.length_append]
    rfl
  simp only [htake, hdrop, hspace, hcmd, if_true,
    findPair_line (show (13 : UInt8) ≠ 10 by decide) hcontent, List.take_left, hlen]

theorem drain_makeMessages {ms : List (Bytes × Bytes)}
    (h : ∀ m ∈ ms, OneLine m.1 ∧ OneLine m.2) :
    messages.drain () (ms.flatMap fun m => makeMessage m.1 m.2) =
      ⟨(), [], ms.map fun m => ⟨ascii "pub", m.1, m.2⟩, false⟩ := by
  induction ms with
  | nil => exact Parser.drain_wait rfl
  | cons m ms ih =>
    rw [List.forall_mem_cons] at h
    have hparse := parseMessage_makeMessage h.1.1 h.1.2 (ms.flatMap fun m => makeMessage m.1 m.2)
    rw [List.flatMap_cons, Parser.drain_next (messages_next hparse), List.drop_left, ih h.2]
    rfl

end Messages

end Hub
end Muduo
