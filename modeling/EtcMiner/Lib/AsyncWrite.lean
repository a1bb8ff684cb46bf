/-
# Asynchronous writes of one buffer

A stream buffer from which writes are started (`boost::asio::async_write` on a `streambuf`).
A write transmits what the buffer holds when it starts, and removes as many elements from the
front of the buffer when it completes.  Nothing keeps the owner from adding to the buffer, or
from starting another write, while one is under way.

A buffer is idle, or busy with one write of all it holds, as long as its owner starts a write
in the idle state only (`Idle.asyncWrite`, `Busy.complete`).  An owner that starts a write with
each text (`sendAll`) transmits it once if the buffer is empty (`transmitted_sendAll`), and
otherwise transmits what is still there once more (`length_lt_transmitted_sendAll`).
-/

import Mathlib.Data.List.Basic

namespace EtcMiner
namespace Lib

/-- The buffer, the lengths of the writes under way with the oldest first, and what was
transmitted. -/
structure OutStream (α : Type) where
  buffer : List α := []
  writes : List ℕ := []
  transmitted : List α := []
deriving DecidableEq

namespace OutStream

variable {α : Type} {s : OutStream α}

/-- `text` is added to the buffer. -/
def put (s : OutStream α) (text : List α) : OutStream α := { s with buffer := s.buffer ++ text }

/-- A write is started. -/
def asyncWrite (s : OutStream α) : OutStream α :=
  { s with writes := s.writes ++ [s.buffer.length], transmitted := s.transmitted ++ s.buffer }

/-- Write `i` completes. -/
def complete (s : OutStream α) (i : ℕ) : OutStream α :=
  { s with buffer := s.buffer.drop (s.writes.getD i 0), writes := s.writes.eraseIdx i }

/-- Nothing is left to transmit. -/
def Idle (s : OutStream α) : Prop := s.writes = [] ∧ s.buffer = []

/-- One write of the whole buffer is under way. -/
def Busy (s : OutStream α) : Prop := s.writes = [s.buffer.length]

/-- A write that is started in the idle state transmits what is added, and is alone. -/
theorem Idle.asyncWrite (h : s.Idle) (text : List α) :
    (s.put text).asyncWrite.Busy ∧ (s.put text).asyncWrite.transmitted = s.transmitted ++ text := by
  obtain ⟨hwrites, hbuffer⟩ := h
  have hput : (s.put text).buffer = text := by rw [put, hbuffer, List.nil_append]
  refine ⟨?_, ?_⟩
  · show s.writes ++ [(s.put text).buffer.length] = [(s.put text).buffer.length]
    rw [hwrites, List.nil_append]
  · show s.transmitted ++ (s.put text).buffer = s.transmitted ++ text
    rw [hput]

/-- The write under way leaves the buffer idle. -/
theorem Busy.complete (h : s.Busy) : (s.complete 0).Idle := by
  constructor
  · show s.writes.eraseIdx 0 = []
    rw [h]
    rfl
  · show s.buffer.drop (s.writes.getD 0 0) = []
    rw [h]
    exact List.drop_length

/-- Each text is added to the buffer, and starts a write. -/
def sendAll (s : OutStream α) (texts : List (List α)) : OutStream α :=
  texts.foldl (fun s text => (s.put text).asyncWrite) s

variable {text : List α} {texts : List (List α)}

theorem sendAll_cons : s.sendAll (text :: texts) = (s.put text).asyncWrite.sendAll texts := rfl

theorem transmitted_asyncWrite : (s.put text).asyncWrite.transmitted = s.transmitted ++ (s.buffer ++ text) := rfl

/-- One text at most is sent, with an empty buffer. -/
def Alone (s : OutStream α) (texts : List (List α)) : Prop := texts.length ≤ 1 ∧ (texts ≠ [] → s.buffer = [])

/-- What is sent alone is transmitted once. -/
theorem transmitted_sendAll (h : s.Alone texts) :
    (s.sendAll texts).transmitted = s.transmitted ++ texts.flatten := by
  obtain ⟨hlength, hbuffer⟩ := h
  match texts with
  | [] => exact (List.append_nil _).symm
  | [text] =>
    rw [sendAll_cons]
    show (s.put text).asyncWrite.transmitted = _
    rw [transmitted_asyncWrite, hbuffer (List.cons_ne_nil _ _)]
    simp
  | _ :: _ :: _ => simp at hlength

theorem length_le_transmitted_sendAll (s : OutStream α) (texts : List (List α)) :
    s.transmitted.length + texts.flatten.length ≤ (s.sendAll texts).transmitted.length := by
  induction texts generalizing s with
  | nil => exact Nat.le_refl _
  | cons text texts ih =>
    have hrest := ih (s.put text).asyncWrite
    rw [transmitted_asyncWrite, List.length_append, List.length_append] at hrest
    rw [sendAll_cons, List.flatten_cons, List.length_append]
    omega

/-- With something in the buffer, or with a second text, too much is transmitted. -/
theorem length_lt_transmitted_sendAll (htexts : ∀ text ∈ texts, text ≠ []) (h : ¬ s.Alone texts) :
    s.transmitted.length + texts.flatten.length < (s.sendAll texts).transmitted.length := by
  -- the first text with what was there before it, as far as a write transmits it
  have hbusy (s : OutStream α) (text : List α) (texts : List (List α)) (hbuffer : s.buffer ≠ []) :
      s.transmitted.length + (text :: texts).flatten.length < (s.sendAll (text :: texts)).transmitted.length := by
    have hrest := length_le_transmitted_sendAll (s.put text).asyncWrite texts
    have hpos := List.length_pos_of_ne_nil hbuffer
    rw [transmitted_asyncWrite, List.length_append, List.length_append] at hrest
    rw [sendAll_cons, List.flatten_cons, List.length_append]
    omega
  match texts with
  | [] => exact absurd ⟨Nat.zero_le _, fun hne => absurd rfl hne⟩ h
  | [text] =>
    have hbuffer : s.buffer ≠ [] := fun hbuffer => h ⟨Nat.le_refl _, fun _ => hbuffer⟩
    exact hbusy s text [] hbuffer
  | first :: second :: texts =>
    have hfirst : (s.put first).asyncWrite.buffer ≠ [] := by
      show s.buffer ++ first ≠ []
      simp [htexts first List.mem_cons_self]
    have hrest := hbusy _ second texts hfirst
    rw [transmitted_asyncWrite, List.length_append, List.length_append] at hrest
    rw [sendAll_cons, List.flatten_cons, List.length_append]
    omega

end OutStream

end Lib
end EtcMiner
