import SieveFilter.Sink
import Mathlib.Data.Nat.Notation

/-!
# Sinks that take everything

A sink without a limit takes every text, and what it holds is the text written to it so far.
-/

namespace SieveFilter.Sink

/-- The sink has no limit, and holds the bytes of a text. -/
def Holds (sink : Sink) (text : List Char) : Prop :=
  sink.limit = none ∧ sink.written = (String.ofList text).toUTF8

theorem holds_empty : (empty none).Holds [] :=
  ⟨rfl, rfl⟩

theorem Holds.unique {sink sink' : Sink} {text : List Char} (h : sink.Holds text)
    (h' : sink'.Holds text) : sink = sink' := by
  obtain ⟨written, limit⟩ := sink
  obtain ⟨written', limit'⟩ := sink'
  obtain ⟨rfl, rfl⟩ : limit = none ∧ written = (String.ofList text).toUTF8 := h
  obtain ⟨rfl, rfl⟩ : limit' = none ∧ written' = (String.ofList text).toUTF8 := h'
  rfl

/-- Writing to a sink without a limit appends the text. -/
theorem Holds.put {sink : Sink} {text : List Char} (h : sink.Holds text) (new : String) :
    ∃ after, sink.put new = (after, true) ∧ after.Holds (text ++ new.toList) := by
  obtain ⟨written, limit⟩ := sink
  obtain ⟨rfl, rfl⟩ : limit = none ∧ written = (String.ofList text).toUTF8 := h
  refine ⟨_, rfl, rfl, ?_⟩
  rw [String.ofList_append, String.ofList_toList]
  rfl

/-- The sink after a text, all of which it took. -/
def appended (sink : Sink) (text : List Char) : Sink :=
  { sink with written := sink.written ++ (String.ofList text).toUTF8 }

theorem appended_nil (sink : Sink) : sink.appended [] = sink := by
  rw [appended, String.ofList_nil]
  exact congrArg (Sink.mk · sink.limit) ByteArray.append_empty

/-- What a sink without a limit is given comes after what it was given before. -/
theorem put_appended {sink : Sink} (hfree : sink.limit = none) (text : List Char) (new : String) :
    (sink.appended text).put new = (sink.appended (text ++ new.toList), true) := by
  obtain ⟨written, limit⟩ := sink
  obtain rfl : limit = none := hfree
  have hbytes : (String.ofList (text ++ new.toList)).toUTF8 = (String.ofList text).toUTF8 ++ new.toUTF8 := by
    rw [String.ofList_append, String.ofList_toList]
    rfl
  rw [appended, appended, hbytes, ← ByteArray.append_assoc]
  rfl

theorem Holds.appended {sink : Sink} {text : List Char} (h : sink.Holds text) (new : List Char) :
    (sink.appended new).Holds (text ++ new) := by
  obtain ⟨written, limit⟩ := sink
  obtain ⟨rfl, rfl⟩ : limit = none ∧ written = (String.ofList text).toUTF8 := h
  refine ⟨rfl, ?_⟩
  rw [String.ofList_append]
  rfl

end SieveFilter.Sink
