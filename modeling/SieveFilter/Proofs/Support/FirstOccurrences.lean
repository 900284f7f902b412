import Mathlib.Data.List.Induction
import Mathlib.Data.List.Nodup

/-!
# First occurrences

Erasing repetitions leaves the first occurrence of every entry, in the order in which the entries first occur.
-/

namespace SieveFilter

variable {α : Type*} [DecidableEq α]

/-- An entry that is put behind a list stays there if the list does not have it yet. -/
theorem eraseDups_concat (list : List α) (entry : α) :
    (list ++ [entry]).eraseDups = if entry ∈ list then list.eraseDups else list.eraseDups ++ [entry] := by
  rw [List.eraseDups_append]
  split
  next hmem =>
    have hnone : [entry].removeAll list = [] := by simp [List.removeAll, hmem]
    rw [hnone, List.eraseDups_nil, List.append_nil]
  next hnew =>
    have hone : [entry].removeAll list = [entry] := by simp [List.removeAll, hnew]
    rw [hone, List.eraseDups_cons, List.filter_nil, List.eraseDups_nil]

theorem nodup_eraseDups (list : List α) : list.eraseDups.Nodup := by
  induction list using List.reverseRecOn with
  | nil => exact List.nodup_nil
  | append_singleton list entry ih =>
    rw [eraseDups_concat]
    split
    next => exact ih
    next hnew =>
      exact ih.append (List.nodup_singleton entry) (by simpa using hnew)

end SieveFilter
