/-
# What grouping does to entries

Showing entries stream by stream, and by time within a stream, only moves them: what is shown is a
rearrangement of the entries (`LogEntry.groupByStream_perm`).
-/

import Mathlib.Data.List.Perm.Basic
import DeployWatch.Logs.Rendering

namespace DeployWatch.LogEntry

/-- An entry is added to the groups and nothing else changes. -/
theorem addToGroups_perm (groups : List (String × List LogEntry)) (e : LogEntry) :
    ((addToGroups groups e).flatMap (·.2)).Perm (e :: groups.flatMap (·.2)) := by
  induction groups with
  | nil => rfl
  | cons head rest ih =>
    obtain ⟨stream, group⟩ := head
    unfold addToGroups
    split
    · simp only [List.flatMap_cons, List.append_assoc, List.singleton_append]
      exact List.perm_middle
    · simp only [List.flatMap_cons]
      exact (ih.append_left group).trans List.perm_middle

/-- The groups of some entries hold these entries. -/
theorem foldl_addToGroups_perm (entries : List LogEntry) (groups : List (String × List LogEntry)) :
    ((entries.foldl addToGroups groups).flatMap (·.2)).Perm
      (entries ++ groups.flatMap (·.2)) := by
  induction entries generalizing groups with
  | nil => rfl
  | cons e rest ih =>
    rw [List.foldl_cons, List.cons_append]
    exact (ih _).trans (((addToGroups_perm groups e).append_left rest).trans List.perm_middle)

theorem insertByTime_perm (e : LogEntry) (entries : List LogEntry) :
    (insertByTime e entries).Perm (e :: entries) := by
  induction entries with
  | nil => rfl
  | cons head rest ih =>
    unfold insertByTime
    split
    · rfl
    · exact (ih.cons head).trans (.swap e head rest)

theorem sortByTime_perm (entries : List LogEntry) : (sortByTime entries).Perm entries := by
  induction entries with
  | nil => rfl
  | cons e rest ih => exact (insertByTime_perm e _).trans (ih.cons e)

/-- **Grouping only moves entries**, it neither drops nor adds one. -/
theorem groupByStream_perm (entries : List LogEntry) :
    (groupByStream entries).Perm entries := by
  have sorted : (groupByStream entries).Perm
      ((entries.foldl addToGroups []).flatMap (·.2)) :=
    List.Perm.flatMap_left _ fun group _ => sortByTime_perm group.2
  simpa using sorted.trans (foldl_addToGroups_perm entries [])

end DeployWatch.LogEntry
