/-
# What the removal of a directory does to the files

`FileTree.removal_of_path` says for every path what trying to remove it does: nothing, if it does
not lead to a directory; else everything below the directory is gone, and everything beside it is
as it was.  The directory itself is gone, too, and the path leads nowhere any more, unless the path
ends in a dot or two: what such a path names can be emptied but not removed.
-/

import Mathlib.Data.List.Infix
import DeployWatch.Files.Tree

namespace DeployWatch.FileTree

variable {t after : FileTree} {place other found : Location} {current : Location} {p : Path}
  {name : String} {names : List String}

/-! ### Looking up what is left -/

/-- Entries that are kept or left out by their locations are found as before, or not at all. -/
theorem lookup_filter_location (keep : Location → Bool) (other : Location)
    (entries : List (Location × FileNode)) :
    (entries.filter fun entry => keep entry.1).lookup other =
      if keep other then entries.lookup other else none := by
  induction entries with
  | nil => simp
  | cons entry rest ih =>
    obtain ⟨location, node⟩ := entry
    simp only [List.filter_cons]
    by_cases same : other = location
    · subst same
      cases kept : keep other <;> simp [kept, ih]
    · have differs : (other == location) = false := beq_eq_false_iff_ne.mpr same
      cases kept : keep location <;> simp [List.lookup_cons, differs, ih]

/-- Below a pruned location nothing is left. -/
theorem get?_prune_below (below : place <+: other) (root : other ≠ []) :
    (t.prune place).get? other = none := by
  have below : place.isPrefixOf other = true := List.isPrefixOf_iff_prefix.mpr below
  unfold get? prune
  rw [lookup_filter_location fun location => !place.isPrefixOf location]
  simp [root, below]

/-- Beside a pruned location everything is left. -/
theorem get?_prune_beside (beside : ¬ place <+: other) :
    (t.prune place).get? other = t.get? other := by
  have beside : place.isPrefixOf other = false := by
    rw [← Bool.not_eq_true, List.isPrefixOf_iff_prefix]
    exact beside
  unfold get? prune
  rw [lookup_filter_location fun location => !place.isPrefixOf location]
  simp [beside]

/-- What is left of a pruned tree was there before. -/
theorem get?_of_prune {node : FileNode} (h : (t.prune place).get? other = some node) :
    t.get? other = some node := by
  by_cases below : place <+: other
  · by_cases root : other = []
    · subst root
      exact h
    · rw [get?_prune_below below root] at h
      cases h
  · rw [get?_prune_beside below] at h
    exact h

/-- Below a cleared location nothing is left. -/
theorem get?_clear_below (below : place <+: other) (ne : other ≠ place) :
    (t.clear place).get? other = none := by
  have root : other ≠ [] := by
    intro root
    subst root
    exact ne (List.prefix_nil.mp below).symm
  have below : place.isPrefixOf other = true := List.isPrefixOf_iff_prefix.mpr below
  unfold get? clear
  rw [lookup_filter_location fun location => location = place || !place.isPrefixOf location]
  simp [root, ne, below]

/-- A cleared location itself and everything beside it are left. -/
theorem get?_clear_beside (kept : other = place ∨ ¬ place <+: other) :
    (t.clear place).get? other = t.get? other := by
  have kept : (decide (other = place) || !place.isPrefixOf other) = true := by
    rw [Bool.or_eq_true, decide_eq_true_eq, Bool.not_eq_true', ← Bool.not_eq_true,
      List.isPrefixOf_iff_prefix]
    exact kept
  unfold get? clear
  rw [lookup_filter_location fun location => location = place || !place.isPrefixOf location]
  simp only [kept, if_true]

/-! ### Where a path leads -/

/-- Following names is following the first of them and then the others. -/
theorem walk_append {front back : List String} : t.walk place (front ++ back) = .ok found ↔
    ∃ middle, t.walk place front = .ok middle ∧ t.walk middle back = .ok found := by
  induction front generalizing place with
  | nil => simp [walk]
  | cons name front ih =>
    simp only [List.cons_append, walk]
    by_cases dir : t.isDirectory place = true
    · by_cases dot : name = "."
      · simp [dir, dot, ih]
      · by_cases dots : name = ".."
        · simp [dir, dots, ih]
        · by_cases long : name.utf8ByteSize > maxName
          · simp [dir, dot, dots, long]
          · cases there : t.get? (place ++ [name]) <;> simp [dir, dot, dots, long, ih]
    · simp [dir]

/-- A name that is no dots leads to what stands there. -/
theorem walk_name (plain : name ≠ "." ∧ name ≠ "..") (h : t.walk place [name] = .ok found) :
    found = place ++ [name] ∧ t.get? found ≠ none := by
  unfold walk at h
  split at h
  · cases h
  · rw [if_neg plain.1, if_neg plain.2] at h
    split at h
    · cases h
    · split at h
      · cases h
      · next node there =>
        obtain rfl := Except.ok.inj h
        exact ⟨rfl, by rw [there]; exact Option.some_ne_none node⟩

/-- A dot leads nowhere else. -/
theorem walk_dot (h : t.walk place ["."] = .ok found) : found = place := by
  unfold walk at h
  split at h
  · cases h
  · simpa [walk] using h.symm

/-- A path that does not end in dots leads to something below the root. -/
theorem locate_of_not_endsInDots (dots : endsInDots p = false)
    (h : t.locate current p = .ok place) : place ≠ [] ∧ t.get? place ≠ none := by
  unfold endsInDots at dots
  split at dots
  · next name last =>
    obtain ⟨front, hp⟩ := List.getLast?_eq_some_iff.mp last
    have plain : name ≠ "." ∧ name ≠ ".." := by simpa using dots
    unfold locate at h
    split at h
    · cases h
    · rw [hp, List.append_assoc, walk_append] at h
      obtain ⟨parent, -, h⟩ := h
      obtain ⟨named, h, slash⟩ := walk_append.mp h
      obtain ⟨rfl, there⟩ := walk_name plain h
      -- a slash at the end changes nothing
      have same : place = parent ++ [name] := by
        split at slash
        · exact walk_dot slash
        · exact (Except.ok.inj slash).symm
      subst same
      exact ⟨by simp, there⟩
  · cases dots

/-- What can be followed among fewer files leads to the same place among more. -/
theorem walk_of_fewer (fewer : ∀ other node, after.get? other = some node →
    t.get? other = some node) (h : after.walk place names = .ok found) :
    t.walk place names = .ok found := by
  induction names generalizing place with
  | nil => exact h
  | cons name rest ih =>
    unfold walk at h ⊢
    by_cases dir : after.isDirectory place = true
    · have dir' : t.isDirectory place = true := by
        unfold isDirectory at dir ⊢
        rw [beq_iff_eq] at dir ⊢
        exact fewer place .directory dir
      by_cases dot : name = "."
      · simp only [dir, dir', dot, Bool.not_true, Bool.false_eq_true, if_false, if_true] at h ⊢
        exact ih h
      · by_cases dots : name = ".."
        · simp only [dir, dir', dots, Bool.not_true, Bool.false_eq_true, if_false,
            if_true] at h ⊢
          exact ih h
        · by_cases long : name.utf8ByteSize > maxName
          · simp [dir, dot, dots, long] at h
          · cases there : after.get? (place ++ [name]) with
            | none => simp [dir, dot, dots, long, there] at h
            | some node =>
              simp only [dir, dot, dots, long, there, Bool.not_true, Bool.false_eq_true,
                if_false] at h
              simp only [dir', dot, dots, long, fewer _ _ there, Bool.not_true,
                Bool.false_eq_true, if_false]
              exact ih h
    · simp [dir] at h

/-- The path of a pruned directory leads nowhere any more. -/
theorem existsAt_prune (dots : endsInDots p = false) (h : t.locate current p = .ok place) :
    (t.prune place).existsAt current p = false := by
  unfold existsAt
  cases again : (t.prune place).locate current p with
  | error e => rfl
  | ok found =>
    have same : t.locate current p = .ok found := by
      unfold locate at again ⊢
      split at again
      · cases again
      · next text =>
        rw [if_neg text]
        exact walk_of_fewer (fun other node => get?_of_prune) again
    rw [h, Except.ok.injEq] at same
    subst same
    obtain ⟨root, there⟩ := locate_of_not_endsInDots dots again
    exact absurd (get?_prune_below (List.prefix_refl place) root) there

/-! ### Removing a directory -/

/-- What trying to remove the directory that a path names does to the files. -/
inductive Removal (t : FileTree) (current : Location) (p : Path) (after : FileTree) : Prop
  /-- The path leads to no directory, and nothing changes. -/
  | nothing (absent : t.isDirectoryPath current p = false) (same : after = t)
  /-- The directory is gone with everything below it. -/
  | removed (place : Location) (there : t.locate current p = .ok place)
      (dir : t.isDirectory place = true) (plain : endsInDots p = false)
      (nowhere : after.existsAt current p = false)
      (below : ∀ other, place <+: other → after.get? other = none)
      (beside : ∀ other, ¬ place <+: other → after.get? other = t.get? other)
  /-- The path ends in dots.  Everything below the directory is gone. -/
  | emptied (place : Location) (there : t.locate current p = .ok place)
      (dots : endsInDots p = true) (kept : after.get? place = some .directory)
      (below : ∀ other, place <+: other → other ≠ place → after.get? other = none)
      (beside : ∀ other, ¬ place <+: other → after.get? other = t.get? other)

/-- **Trying to remove a directory** removes it, empties it, or does nothing. -/
theorem removal_of_path (t : FileTree) (current : Location) (p : Path) :
    Removal t current p (t.removeDirectoryIfPossible current p) := by
  unfold removeDirectoryIfPossible removeDirectory
  cases there : t.locate current p with
  | error e => exact .nothing (by simp [isDirectoryPath, there]) rfl
  | ok place =>
    simp only [Except.bind, Bind.bind]
    by_cases dir : t.isDirectory place = true
    · have node : t.get? place = some .directory := beq_iff_eq.mp dir
      cases dots : endsInDots p with
      | true =>
        simp only [dir, Bool.not_true, Bool.false_eq_true, if_false, if_true]
        refine .emptied place there dots ?_ ?_ ?_
        · rw [get?_clear_beside (.inl rfl), node]
        · intro other below ne
          exact get?_clear_below below ne
        · intro other beside
          exact get?_clear_beside (.inr beside)
      | false =>
        obtain ⟨root, -⟩ := locate_of_not_endsInDots dots there
        simp only [dir, Bool.not_true, Bool.false_eq_true, if_false]
        refine .removed place there dir dots (existsAt_prune dots there) ?_ ?_
        · intro other below
          refine get?_prune_below below ?_
          intro empty
          subst empty
          exact root (List.prefix_nil.mp below)
        · intro other beside
          exact get?_prune_beside beside
    · simp only [dir, Bool.not_false, if_true]
      exact .nothing (by simp [isDirectoryPath, there, dir]) rfl

/-- Where removing a directory was tried its path leads to none any more, unless it ends in
dots. -/
theorem Removal.leads_nowhere (removal : Removal t current p after)
    (plain : endsInDots p = false) : after.isDirectoryPath current p = false := by
  cases removal with
  | nothing absent same => rw [same, absent]
  | removed _ _ _ _ nowhere =>
    unfold existsAt at nowhere
    unfold isDirectoryPath
    cases located : after.locate current p with
    | ok place => simp [located] at nowhere
    | error e => rfl
  | emptied _ _ dots =>
    rw [plain] at dots
    cases dots

end DeployWatch.FileTree
