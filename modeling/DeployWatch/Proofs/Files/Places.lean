/-
# Where paths lead

Whether a path can be followed depends on the files, but where it leads does not: a name leads one
step down, two dots lead one step up, and a dot leads nowhere else.  `FileTree.follow` reads names
in this way, without files, and `FileTree.aim` reads a path.  What can be followed leads there
(`FileTree.aim_of_locate`).  A path that is joined to another one leads where it leads when seen
from there (`FileTree.aim_join`).

Seen from two places, names that climb lead to the same place just if the places are the same that
many levels up (`FileTree.follow_eq_follow_iff`).
-/

import Mathlib.Data.List.DropRight
import DeployWatch.Proofs.Files.Removal
import DeployWatch.Proofs.Text.Pieces

namespace DeployWatch

open Text.Pieces

/-! ### The names in joined paths -/

namespace Path

variable {base p : Path} {names : List String}

/-- The names in the characters of a path. -/
def namesOf (cs : List Char) : List String :=
  ((between '/' cs).filter fun piece => !piece.isEmpty).map String.ofList

/-- A slash separates names. -/
theorem namesOf_append (front rest : List Char) :
    namesOf (front ++ '/' :: rest) = namesOf front ++ namesOf rest := by
  unfold namesOf
  rw [between_append, List.filter_append, List.map_append]

/-- A joined path starts at the root if either of its parts does. -/
theorem isAbsolute_join (base p : Path) :
    (base.join p).isAbsolute = (p.isAbsolute || base.isAbsolute) := by
  unfold join
  cases absolute : p.isAbsolute with
  | true => simp [absolute]
  | false =>
    rw [if_neg Bool.false_ne_true, Bool.false_or]
    unfold isAbsolute at absolute ⊢
    by_cases empty : base.text = ""
    · simpa [empty] using absolute
    · obtain ⟨c, cs, chars⟩ : ∃ c cs, base.text.toList = c :: cs := by
        apply List.exists_cons_of_ne_nil
        intro none
        exact empty (String.toList_eq_nil_iff.mp none)
      split <;> simp [chars]

/-- The names in a joined path are those of both parts, unless the second one starts afresh. -/
theorem names_join (relative : p.isAbsolute = false) :
    (base.join p).names = base.names ++ p.names := by
  have split : ∀ q : Path, q.names = namesOf q.text.toList := fun q => rfl
  unfold join
  rw [relative, if_neg Bool.false_ne_true, split, split, split]
  by_cases empty : base.text = ""
  · simp [empty, namesOf, between]
  · by_cases slash : base.endsWithSlash = true
    · obtain ⟨front, chars⟩ : ∃ front, base.text.toList = front ++ ['/'] := by
        unfold endsWithSlash at slash
        exact List.getLast?_eq_some_iff.mp (by simpa using slash)
      rw [slash, Bool.or_true, if_pos rfl, String.toList_append, chars, List.append_assoc,
        List.singleton_append, namesOf_append, namesOf_append]
      simp [namesOf, between]
    · have plain : (base.text.isEmpty || base.endsWithSlash) = false := by
        simpa [String.isEmpty_iff] using And.intro empty slash
      rw [plain, if_neg Bool.false_ne_true, String.toList_append, String.toList_append,
        List.append_assoc]
      exact namesOf_append _ _

/-- An empty path has no names. -/
theorem names_of_isEmpty (h : p.text.isEmpty = true) : p.names = [] := by
  unfold names
  rw [String.isEmpty_iff.mp h]
  rfl

/-- A path from the root is not empty. -/
theorem isEmpty_of_isAbsolute (h : p.isAbsolute = true) : p.text.isEmpty = false := by
  rw [← Bool.not_eq_true]
  intro empty
  unfold isAbsolute at h
  rw [String.isEmpty_iff.mp empty] at h
  cases h

/-- What is joined to a path that is not empty is not empty. -/
theorem isEmpty_join (h : base.text.isEmpty = false) (p : Path) :
    (base.join p).text.isEmpty = false := by
  unfold join
  split
  · next absolute => exact isEmpty_of_isAbsolute absolute
  · split <;> simp_all

/-- A text that can be a name in a path. -/
def IsName (name : String) : Prop := name ≠ "" ∧ '/' ∉ name.toList

/-- What stands in a path as a name can be one. -/
theorem isName_of_mem_names {name : String} (h : name ∈ p.names) : IsName name := by
  unfold names at h
  obtain ⟨piece, hp, rfl⟩ := List.mem_map.mp h
  obtain ⟨mem, full⟩ := List.mem_filter.mp hp
  constructor
  · simpa using full
  · simpa using not_mem_of_mem_between mem

/-- Names are found again in the path that is made of them. -/
theorem names_ofNames (absolute : Bool) (h : ∀ name ∈ names, IsName name) :
    (ofNames absolute names).names = names := by
  have chars : (String.intercalate "/" names).toList =
      List.intercalate ['/'] (names.map String.toList) := by simp
  have inner : namesOf (String.intercalate "/" names).toList = names := by
    cases names with
    | nil => rfl
    | cons name rest =>
      have pieces : between '/' (List.intercalate ['/'] ((name :: rest).map String.toList)) =
          (name :: rest).map String.toList := by
        apply between_intercalate (by simp)
        intro piece hp
        obtain ⟨name', mem, rfl⟩ := List.mem_map.mp hp
        exact (h name' mem).2
      have full : ((name :: rest).map String.toList).filter (fun piece => !piece.isEmpty) =
          (name :: rest).map String.toList := by
        apply List.filter_eq_self.mpr
        intro piece hp
        obtain ⟨name', mem, rfl⟩ := List.mem_map.mp hp
        simpa using (h name' mem).1
      unfold namesOf
      rw [chars, pieces, full, List.map_map]
      simp
  change namesOf (ofNames absolute names).text.toList = names
  unfold ofNames
  cases absolute with
  | false => simpa using inner
  | true =>
    have slash : ("/" ++ String.intercalate "/" names).toList =
        [] ++ '/' :: (String.intercalate "/" names).toList := by simp
    rw [if_pos rfl, slash, namesOf_append, inner]
    rfl

/-- A path that is made of names starts at the root if it is to. -/
theorem isAbsolute_ofNames (absolute : Bool) (h : ∀ name ∈ names, IsName name) :
    (ofNames absolute names).isAbsolute = absolute := by
  unfold isAbsolute ofNames
  cases absolute with
  | true => simp
  | false =>
    cases names with
    | nil => simp
    | cons name rest =>
      obtain ⟨full, free⟩ := h name List.mem_cons_self
      obtain ⟨c, cs, chars⟩ : ∃ c cs, name.toList = c :: cs := by
        apply List.exists_cons_of_ne_nil
        intro none
        exact full (String.toList_eq_nil_iff.mp none)
      have differs : c ≠ '/' := by
        intro same
        rw [chars, same] at free
        exact free List.mem_cons_self
      cases rest <;> simp [chars, differs]

end Path

/-! ### Names without files -/

namespace FileTree

variable {t after : FileTree} {place found current : Location} {p base : Path}
  {names front back : List String}

/-- Where names lead from a place, whatever the files are. -/
def follow (place : Location) : List String → Location
  | [] => place
  | name :: rest =>
    if name = "." then follow place rest
    else if name = ".." then follow place.dropLast rest
    else follow (place ++ [name]) rest

/-- Where a path leads, whatever the files are. -/
def aim (current : Location) (p : Path) : Location := follow (start current p) p.names

/-- Following names is following the first of them and then the others. -/
theorem follow_append (place : Location) (front back : List String) :
    follow place (front ++ back) = follow (follow place front) back := by
  induction front generalizing place with
  | nil => rfl
  | cons name front ih =>
    rw [List.cons_append, follow, follow]
    split
    · exact ih _
    · split
      · exact ih _
      · exact ih _

/-- A path that is seen from the end of another one leads where both lead together. -/
theorem aim_join (current : Location) (base p : Path) :
    aim current (base.join p) = aim (aim current base) p := by
  cases absolute : p.isAbsolute with
  | true =>
    have same : base.join p = p := by
      unfold Path.join
      rw [absolute, if_pos rfl]
    rw [same]
    unfold aim start
    rw [absolute, if_pos rfl, if_pos rfl]
  | false =>
    have from_base : start current (base.join p) = start current base := by
      unfold start
      rw [Path.isAbsolute_join, absolute, Bool.false_or]
    have from_there : start (aim current base) p = aim current base := by
      unfold start
      rw [absolute, if_neg Bool.false_ne_true]
    rw [aim, from_base, Path.names_join absolute, follow_append]
    unfold aim at from_there ⊢
    rw [from_there]

/-! ### What the files have to do with it -/

/-- Names that can be followed lead where they lead without files. -/
theorem follow_of_walk (h : t.walk place names = .ok found) : found = follow place names := by
  induction names generalizing place with
  | nil => exact (Except.ok.inj h).symm
  | cons name rest ih =>
    unfold walk at h
    unfold follow
    split at h
    · cases h
    · split
      · next dot =>
        rw [if_pos dot] at h
        exact ih h
      · next dot =>
        rw [if_neg dot] at h
        split
        · next dots =>
          rw [if_pos dots] at h
          exact ih h
        · next dots =>
          rw [if_neg dots] at h
          split at h
          · cases h
          · split at h
            · cases h
            · exact ih h

/-- A path that can be followed leads where it leads without files. -/
theorem aim_of_locate (h : t.locate current p = .ok found) : found = aim current p := by
  unfold locate at h
  split at h
  · cases h
  · rw [follow_of_walk h, follow_append, aim]
    split <;> rfl

/-- On the way there are only directories. -/
theorem isDirectory_of_walk (h : t.walk place (front ++ back) = .ok found) (ne : back ≠ []) :
    t.isDirectory (follow place front) = true := by
  obtain ⟨middle, to_middle, on⟩ := walk_append.mp h
  obtain ⟨name, rest, rfl⟩ := List.exists_cons_of_ne_nil ne
  rw [← follow_of_walk to_middle]
  unfold walk at on
  split at on
  · cases on
  · next dir => simpa using dir

/-- Names lead as far among files that are the same at each place on the way. -/
theorem walk_eq_of_agree (agree : ∀ front, front <+: names →
    after.get? (follow place front) = t.get? (follow place front)) :
    after.walk place names = t.walk place names := by
  induction names generalizing place with
  | nil => rfl
  | cons name rest ih =>
    have here : after.get? place = t.get? place := agree [] List.nil_prefix
    have next : ∀ front, front <+: rest →
        after.get? (follow place (name :: front)) = t.get? (follow place (name :: front)) := by
      intro front hf
      exact agree (name :: front) (List.cons_prefix_cons.mpr ⟨rfl, hf⟩)
    unfold walk isDirectory
    rw [here]
    by_cases dot : name = "."
    · rw [if_pos dot, if_pos dot, ih]
      intro front hf
      simpa [follow, dot] using next front hf
    · rw [if_neg dot, if_neg dot]
      by_cases dots : name = ".."
      · rw [if_pos dots, if_pos dots, ih]
        intro front hf
        simpa [follow, dots] using next front hf
      · have down : ∀ front, front <+: rest → after.get? (follow (place ++ [name]) front) =
            t.get? (follow (place ++ [name]) front) := by
          intro front hf
          simpa [follow, dot, dots] using next front hf
        have there : after.get? (place ++ [name]) = t.get? (place ++ [name]) :=
          down [] List.nil_prefix
        rw [if_neg dots, if_neg dots, there, ih down]

/-- Trying to remove a directory changes nothing beside it. -/
theorem Removal.get?_beside (removal : Removal t current p after)
    (beside : ¬ aim current p <+: place) : after.get? place = t.get? place := by
  cases removal with
  | nothing _ same => rw [same]
  | removed found there _ _ _ _ others =>
    rw [← aim_of_locate there] at beside
    exact others place beside
  | emptied found there _ _ _ others =>
    rw [← aim_of_locate there] at beside
    exact others place beside

/-- Where a directory was removed, or nothing was left before, nothing is left; but a directory
whose path ends in dots stays itself. -/
theorem Removal.cleared (removal : Removal t current p after)
    (empty : t.isDirectoryPath current p = true ∨
      ∀ other, aim current p <+: other → t.get? other = none)
    (below : aim current p <+: place) : after.get? place = none ∨
      place = aim current p ∧ endsInDots p = true ∧ after.get? place = some .directory := by
  cases removal with
  | nothing absent same =>
    rcases empty with leads | gone
    · rw [leads] at absent
      cases absent
    · rw [same]
      exact .inl (gone place below)
  | removed found there _ _ _ gone =>
    rw [← aim_of_locate there] at below
    exact .inl (gone place below)
  | emptied found there dots kept gone =>
    rw [← aim_of_locate there] at below ⊢
    by_cases same : place = found
    · rw [same]
      exact .inr ⟨rfl, dots, kept⟩
    · exact .inl (gone place below same)

/-! ### Two places to start from -/

/-- How many levels names climb above the place they start from, and the names that lead down
again from there.  The first two arguments are the way so far. -/
def climb (up : Nat) (down : List String) : List String → Nat × List String
  | [] => (up, down)
  | name :: rest =>
    if name = "." then climb up down rest
    else if name = ".." then
      match down with
      | [] => climb (up + 1) [] rest
      | _ => climb up down.dropLast rest
    else climb up (down ++ [name]) rest

/-- The number of levels that names climb above the place they start from. -/
def rise (names : List String) : Nat := (climb 0 [] names).1

/-- Names lead up some levels and then down again. -/
theorem follow_eq_climb (place : Location) (names : List String) (up : Nat)
    (down : List String) : follow (place.rdrop up ++ down) names =
      place.rdrop (climb up down names).1 ++ (climb up down names).2 := by
  induction names generalizing up down with
  | nil => rfl
  | cons name rest ih =>
    unfold follow climb
    split
    · exact ih up down
    · split
      · cases down with
        | nil =>
          have higher : (place.rdrop up ++ []).dropLast = place.rdrop (up + 1) ++ [] := by
            unfold List.rdrop
            rw [List.append_nil, List.append_nil, List.dropLast_eq_take, List.take_take,
              List.length_take]
            congr 1
            omega
          rw [higher]
          exact ih (up + 1) []
        | cons first more =>
          rw [List.dropLast_append_of_ne_nil (List.cons_ne_nil first more)]
          exact ih up (first :: more).dropLast
      · rw [List.append_assoc]
        exact ih up (down ++ [name])

/-- Names lead from two places to the same one just if the places are the same as many levels up
as the names climb. -/
theorem follow_eq_follow_iff {a b : Location} :
    follow a names = follow b names ↔ a.rdrop (rise names) = b.rdrop (rise names) := by
  have from_a := follow_eq_climb a names 0 []
  have from_b := follow_eq_climb b names 0 []
  rw [List.rdrop_zero, List.append_nil] at from_a from_b
  rw [from_a, from_b]
  exact List.append_left_inj _

/-- A path that leads somewhere leads there from another place, too, if it starts at the root, or
if the two places are the same as many levels up as it climbs and it leads anywhere from there. -/
theorem locate_from_iff (h : t.locate current p = .ok found) (there : Location) :
    t.locate there p = .ok found ↔ p.isAbsolute = true ∨
      there.rdrop (rise p.names) = current.rdrop (rise p.names) ∧ t.existsAt there p = true := by
  cases absolute : p.isAbsolute with
  | true =>
    have same : t.locate there p = t.locate current p := by
      unfold locate start
      rw [absolute, if_pos rfl, if_pos rfl]
    rw [same]
    exact ⟨fun _ => .inl rfl, fun _ => h⟩
  | false =>
    have relative : ∀ place, start place p = place := by
      intro place
      unfold start
      rw [absolute, if_neg Bool.false_ne_true]
    have from_here := aim_of_locate h
    unfold aim at from_here
    rw [relative] at from_here
    constructor
    · intro h'
      have from_there := aim_of_locate h'
      unfold aim at from_there
      rw [relative] at from_there
      refine .inr ⟨?_, ?_⟩
      · apply follow_eq_follow_iff.mp
        rw [← from_there, ← from_here]
      · unfold existsAt
        rw [h']
    · rintro (root | ⟨same, leads⟩)
      · cases root
      · unfold existsAt at leads
        split at leads
        · next found' h' =>
          have from_there := aim_of_locate h'
          unfold aim at from_there
          rw [relative, follow_eq_follow_iff.mpr same, ← from_here] at from_there
          rw [h', from_there]
        · cases leads

/-- Names without two dots lead down only. -/
theorem prefix_follow (level : ".." ∉ names) (place : Location) : place <+: follow place names := by
  induction names generalizing place with
  | nil => exact List.prefix_refl place
  | cons name rest ih =>
    rw [List.mem_cons, not_or] at level
    unfold follow
    split
    · exact ih level.2 place
    · rw [if_neg (fun same => level.1 same.symm)]
      exact (List.prefix_append place [name]).trans (ih level.2 _)

/-- A directory stands where a path to a directory leads. -/
theorem get?_of_isDirectoryPath (h : t.isDirectoryPath current p = true) :
    t.get? (aim current p) = some .directory := by
  unfold isDirectoryPath at h
  split at h
  · next found located =>
    rw [← aim_of_locate located]
    exact beq_iff_eq.mp h
  · cases h

/-- A path that only leads down to its directory leads to it whatever happens below. -/
theorem isDirectoryPath_of_level (level : ".." ∉ p.names)
    (leads : t.isDirectoryPath current p = true)
    (beside : ∀ other, ¬ aim current p <+: other → after.get? other = t.get? other)
    (dir : after.get? (aim current p) = some .directory) :
    after.isDirectoryPath current p = true := by
  have same : ∀ place, place <+: aim current p → after.get? place = t.get? place := by
    intro place above
    by_cases below : aim current p <+: place
    · rw [above.eq_of_length_le below.length_le, dir, get?_of_isDirectoryPath leads]
    · exact beside place below
  unfold isDirectoryPath at leads ⊢
  split at leads
  · next found located =>
    obtain rfl := aim_of_locate located
    have again : after.locate current p = .ok (aim current p) := by
      unfold locate at located ⊢
      split at located
      · cases located
      · next text =>
        rw [if_neg text, ← located]
        apply walk_eq_of_agree
        rintro front ⟨back, eq⟩
        -- the way ends where the path leads, and from the front on it only leads down
        have whole : follow (follow (start current p) front) back = aim current p := by
          rw [← follow_append, eq]
          exact (follow_of_walk located).symm
        have down : ".." ∉ back := by
          intro mem
          have mem : ".." ∈ p.names ++ if p.endsWithSlash then ["."] else [] := by
            rw [← eq]
            exact List.mem_append_right front mem
          rcases List.mem_append.mp mem with name | slash
          · exact level name
          · split at slash <;> simp at slash
        apply same
        rw [← whole]
        exact prefix_follow down _
    rw [again]
    exact beq_iff_eq.mpr dir
  · cases leads

/-- Names without two dots do not climb. -/
theorem rise_eq_zero (level : ".." ∉ names) : rise names = 0 := by
  have general : ∀ down, (climb 0 down names).1 = 0 := by
    induction names with
    | nil =>
      intro down
      rfl
    | cons name rest ih =>
      intro down
      rw [List.mem_cons, not_or] at level
      unfold climb
      split
      · exact ih level.2 down
      · rw [if_neg (fun same => level.1 same.symm)]
        exact ih level.2 _
  exact general []

/-- A path that neither starts at the root nor climbs leads to one place from one directory only. -/
theorem eq_of_locate_level {there : Location} (h : t.locate current p = .ok found)
    (h' : t.locate there p = .ok found) (relative : p.isAbsolute = false)
    (level : ".." ∉ p.names) : there = current := by
  rcases (locate_from_iff h there).mp h' with root | ⟨same, -⟩
  · rw [relative] at root
    cases root
  · simpa [rise_eq_zero level] using same

end FileTree

end DeployWatch
