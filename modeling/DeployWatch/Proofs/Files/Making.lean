/-
# What making directories does to the files

A tree is grounded if whatever stands in it stands in a directory; then nothing stands below a
location where nothing stands (`FileTree.Grounded.not_prefix`).

A directory that could be made is the only change (`FileTree.adds_of_makeDirectory`).  Making it
together with the ones above it keeps what there was and adds directories on the way to it, no more
and nowhere else (`FileTree.makes_makeDirectories`); this holds of attempts that fail on the way,
too.  Where it succeeds the path leads to a directory, and so does every part of the path from its
beginning (`FileTree.isDirectory_of_onWay`).
-/

import DeployWatch.Proofs.Files.Places

namespace DeployWatch.FileTree

variable {t made : FileTree} {place other parent found current : Location} {p q : Path}
  {name : String} {names front : List String} {way way' : Location → Prop}

/-! ### Trees that hang together -/

/-- Whatever stands in the tree stands in a directory. -/
def Grounded (t : FileTree) : Prop :=
  ∀ place node, t.get? place = some node → place ≠ [] → t.get? place.dropLast = some .directory

/-- A tree is grounded if each of its entries is in a directory. -/
theorem grounded_of_entries
    (h : ∀ entry ∈ t.entries, t.get? entry.1.dropLast = some .directory) : t.Grounded := by
  intro place node there root
  unfold get? at there
  rw [if_neg root] at there
  obtain ⟨front, back, entries_eq, -⟩ := List.lookup_eq_some_iff.mp there
  exact h (place, node) (by simp [entries_eq])

/-- Above whatever stands in a grounded tree something stands. -/
theorem Grounded.of_prefix (grounded : t.Grounded) (below : place <+: other)
    (there : t.get? other ≠ none) : t.get? place ≠ none := by
  obtain ⟨names, rfl⟩ := below
  induction names using List.reverseRecOn with
  | nil => simpa using there
  | append_singleton names name ih =>
    obtain ⟨node, hn⟩ := Option.ne_none_iff_exists'.mp there
    apply ih
    have above := grounded _ node hn (by simp)
    rw [← List.append_assoc, List.dropLast_concat] at above
    rw [above]
    exact Option.some_ne_none _

/-- Nothing stands in a grounded tree below a location where nothing stands. -/
theorem Grounded.not_prefix (grounded : t.Grounded) (absent : t.get? place = none)
    (there : t.get? other ≠ none) : ¬ place <+: other := by
  intro below
  exact grounded.of_prefix below there absent

/-! ### One more directory -/

/-- What stands in a tree after something was put at a location. -/
theorem get?_put {node : FileNode} (root : place ≠ []) (other : Location) :
    (t.put place node).get? other = if other = place then some node else t.get? other := by
  have kept := lookup_filter_location (fun location => decide (location ≠ place)) other t.entries
  unfold get? put
  simp only [List.lookup_append, kept]
  by_cases same : other = place
  · subst same
    simp [root]
  · have differs : (other == place) = false := beq_eq_false_iff_ne.mpr same
    simp [same, List.lookup_cons, differs]

/-- The tree with one directory more, which the path leads to. -/
structure Adds (t : FileTree) (current : Location) (p : Path) (made : FileTree) : Prop where
  absent : t.get? (aim current p) = none
  /-- Everything else is as it was. -/
  others : ∀ other, other ≠ aim current p → made.get? other = t.get? other
  located : made.locate current p = .ok (aim current p)
  dir : made.get? (aim current p) = some .directory
  /-- Its path does not end in dots. -/
  plain : endsInDots p = false

/-- The directory of the last name of a path. -/
theorem locateParent_eq_ok (h : t.locateParent current p = .ok (parent, name)) :
    ∃ front, p.names = front ++ [name] ∧ t.walk (start current p) front = .ok parent ∧
      t.isDirectory parent = true ∧ ¬ name.utf8ByteSize > maxName := by
  unfold locateParent at h
  split at h
  · cases h
  · next last before reversed =>
    have names_eq : p.names = before.reverse ++ [last] := by
      rw [← List.reverse_reverse p.names, reversed, List.reverse_cons]
    cases walked : t.walk (start current p) before.reverse with
    | error e => simp [walked, Bind.bind, Except.bind] at h
    | ok found =>
      simp only [walked, Bind.bind, Except.bind] at h
      split at h
      · cases h
      · next dir =>
        split at h
        · cases h
        · next short =>
          obtain ⟨rfl, rfl⟩ := Prod.mk.inj (Except.ok.inj h)
          exact ⟨before.reverse, names_eq, walked, by simpa using dir, short⟩

/-- One more directory does not hide what could be found before. -/
theorem walk_put (root : place ≠ []) (absent : t.get? place = none)
    (walked : t.walk current names = .ok found) :
    (t.put place .directory).walk current names = .ok found := by
  apply walk_of_fewer _ walked
  intro other node stands
  rw [get?_put root, if_neg]
  · exact stands
  · intro same
    rw [same, absent] at stands
    cases stands

/-- A new directory is found under its name. -/
theorem walk_put_last (dir : t.isDirectory parent = true)
    (plain : name ≠ "." ∧ name ≠ "..") (short : ¬ name.utf8ByteSize > maxName) (slash : Bool) :
    (t.put (parent ++ [name]) .directory).walk parent ([name] ++ if slash then ["."] else []) =
      .ok (parent ++ [name]) := by
  have root : parent ++ [name] ≠ [] := by simp
  have there : (t.put (parent ++ [name]) .directory).get? (parent ++ [name]) =
      some .directory := by
    rw [get?_put root, if_pos rfl]
  have dir' : (t.put (parent ++ [name]) .directory).isDirectory (parent ++ [name]) = true :=
    beq_iff_eq.mpr there
  have above : (t.put (parent ++ [name]) .directory).isDirectory parent = true := by
    unfold isDirectory at dir ⊢
    rw [get?_put root, if_neg (by simp)]
    exact dir
  cases slash <;> simp [walk, above, plain, short, there, dir']

/-- What a directory needs to be made, and the tree with it. -/
theorem makeDirectory_eq_ok (h : t.makeDirectory current p = .ok made) :
    ∃ parent name, t.locateParent current p = .ok (parent, name) ∧
      (name ≠ "." ∧ name ≠ "..") ∧ t.get? (parent ++ [name]) = none ∧
      made = t.put (parent ++ [name]) .directory := by
  unfold makeDirectory at h
  cases found : t.locateParent current p with
  | error e => simp [found, Bind.bind, Except.bind] at h
  | ok pair =>
    obtain ⟨parent, name⟩ := pair
    simp only [found, Bind.bind, Except.bind] at h
    split at h
    · cases h
    · next plain =>
      split at h
      · cases h
      · next absent =>
        exact ⟨parent, name, rfl, by simpa using plain, absent, (Except.ok.inj h).symm⟩

/-- A directory that could be made is the only change. -/
theorem adds_of_makeDirectory (h : t.makeDirectory current p = .ok made) :
    Adds t current p made := by
  obtain ⟨parent, name, found, plain, absent, rfl⟩ := makeDirectory_eq_ok h
  obtain ⟨front, names_eq, walked, dir, short⟩ := locateParent_eq_ok found
  have root : parent ++ [name] ≠ [] := by simp
  have aim_eq : aim current p = parent ++ [name] := by
    rw [aim, names_eq, follow_append, ← follow_of_walk walked]
    simp [follow, plain]
  have text : ¬ p.text.isEmpty = true := by
    intro empty
    have none := Path.names_of_isEmpty empty
    rw [names_eq] at none
    simp at none
  refine ⟨?_, ?_, ?_, ?_, ?_⟩
  · rw [aim_eq]
    exact absent
  · intro other ne
    rw [aim_eq] at ne
    rw [get?_put root, if_neg ne]
  · -- the way to the last name is the same, and the last name is there now
    unfold locate
    rw [if_neg text, aim_eq, names_eq, List.append_assoc]
    apply walk_append.mpr
    exact ⟨parent, walk_put root absent walked, walk_put_last dir plain short _⟩
  · rw [aim_eq, get?_put root, if_pos rfl]
  · unfold endsInDots
    simp [names_eq, plain]

/-! ### More directories -/

/-- The tree with directories added that lie on some way. -/
structure Grown (t : FileTree) (way : Location → Prop) (made : FileTree) : Prop where
  kept : ∀ other node, t.get? other = some node → made.get? other = some node
  added : ∀ other node, made.get? other = some node →
    t.get? other = some node ∨ node = .directory ∧ way other

theorem Grown.refl (t : FileTree) (way : Location → Prop) : Grown t way t where
  kept _ _ h := h
  added _ _ h := .inl h

theorem Grown.trans {between : FileTree} (first : Grown t way between)
    (second : Grown between way made) : Grown t way made where
  kept other node h := second.kept other node (first.kept other node h)
  added other node h := by
    rcases second.added other node h with before | new
    · exact first.added other node before
    · exact .inr new

theorem Grown.mono (grown : Grown t way made) (wider : ∀ place, way place → way' place) :
    Grown t way' made where
  kept := grown.kept
  added other node h := by
    rcases grown.added other node h with before | ⟨dir, on⟩
    · exact .inl before
    · exact .inr ⟨dir, wider other on⟩

/-- A location that the path passes or leads to. -/
def OnWay (current : Location) (p : Path) (place : Location) : Prop :=
  ∃ front, front <+: p.names ∧ place = follow (start current p) front

/-- One more directory is one on the way to it. -/
theorem Adds.grown (adds : Adds t current p made) : Grown t (OnWay current p) made where
  kept other node h := by
    rw [adds.others]
    · exact h
    · intro same
      rw [same, adds.absent] at h
      cases h
  added other node h := by
    by_cases same : other = aim current p
    · subst same
      rw [adds.dir, Option.some.injEq] at h
      exact .inr ⟨h.symm, p.names, List.prefix_refl _, rfl⟩
    · rw [adds.others other same] at h
      exact .inl h

/-! ### The way to a parent -/

/-- Dots lead nowhere else. -/
theorem follow_filter (place : Location) (names : List String) :
    follow place (names.filter (· ≠ ".")) = follow place names := by
  induction names generalizing place with
  | nil => rfl
  | cons name rest ih =>
    by_cases dot : name = "."
    · subst dot
      simpa [follow] using ih place
    · rw [List.filter_cons_of_pos (by simpa using dot), follow, follow, ih, ih, ih]

/-- The steps of a path from its beginning are on its way. -/
theorem exists_names_of_steps (h : front <+: p.steps) :
    ∃ front', front' <+: p.names ∧ ∀ place, follow place front = follow place front' := by
  -- what is left of some names without the dots is what is left of some of them
  have part : ∀ {rest : List String}, front <+: rest.filter (· ≠ ".") →
      ∃ front', front' <+: rest ∧ ∀ place, follow place front = follow place front' := by
    rintro rest ⟨back, eq⟩
    obtain ⟨before, after, rfl, rfl, -⟩ := List.filter_eq_append_iff.mp eq.symm
    refine ⟨before, List.prefix_append _ _, ?_⟩
    intro place
    exact follow_filter place before
  unfold Path.steps at h
  split at h
  · next none =>
    rw [List.prefix_nil.mp h]
    exact ⟨[], List.nil_prefix, fun _ => rfl⟩
  · next name rest names_eq =>
    rw [names_eq]
    split at h
    · next dot =>
      have dot : name = "." := by
        simp only [Bool.and_eq_true, decide_eq_true_eq] at dot
        exact dot.1
      obtain ⟨front', hf, same⟩ := part h
      refine ⟨name :: front', List.cons_prefix_cons.mpr ⟨rfl, hf⟩, ?_⟩
      intro place
      rw [same, follow, if_pos dot]
    · cases front with
      | nil => exact ⟨[], List.nil_prefix, fun _ => rfl⟩
      | cons first more =>
        obtain ⟨rfl, hm⟩ := List.cons_prefix_cons.mp h
        obtain ⟨back, eq⟩ := hm
        obtain ⟨before, after, rfl, rfl, -⟩ := List.filter_eq_append_iff.mp eq.symm
        refine ⟨first :: before, by simp, ?_⟩
        intro place
        rw [follow, follow, follow_filter, follow_filter, follow_filter]

/-- A step of a path is one of its names. -/
theorem mem_names_of_mem_steps (h : name ∈ p.steps) : name ∈ p.names := by
  unfold Path.steps at h
  split at h
  · cases h
  · next first others names_eq =>
    rw [names_eq]
    split at h
    · exact List.mem_cons_of_mem _ (List.mem_of_mem_filter h)
    · rcases List.mem_cons.mp h with rfl | later
      · exact List.mem_cons_self
      · exact List.mem_cons_of_mem _ (List.mem_of_mem_filter later)

/-- The way to the parent of a path is a part of the way to the path. -/
theorem onWay_of_parent (h : p.parent? = some q) (on : OnWay current q place) :
    OnWay current p place := by
  unfold Path.parent? at h
  split at h
  · cases h
  · next last rest reversed =>
    have steps_eq : p.steps = rest.reverse ++ [last] := by
      rw [← List.reverse_reverse p.steps, reversed, List.reverse_cons]
    have are_names : ∀ name ∈ rest.reverse, Path.IsName name := by
      intro name mem
      have step : name ∈ p.steps := by
        rw [steps_eq]
        exact List.mem_append_left _ mem
      exact Path.isName_of_mem_names (mem_names_of_mem_steps step)
    obtain rfl := Option.some.inj h
    obtain ⟨front, hf, rfl⟩ := on
    rw [Path.names_ofNames _ are_names] at hf
    have front_steps : front <+: p.steps := by
      rw [steps_eq]
      exact hf.trans (List.prefix_append _ _)
    obtain ⟨front', hf', same⟩ := exists_names_of_steps front_steps
    refine ⟨front', hf', ?_⟩
    unfold start
    rw [Path.isAbsolute_ofNames _ are_names]
    exact same _

/-! ### Making a directory and those above it -/

/-- What an attempt to make a directory and those above it does. -/
structure Makes (t : FileTree) (current : Location) (p : Path) (made : FileTree)
    (result : Except FileError Unit) : Prop where
  grown : Grown t (OnWay current p) made
  /-- If it succeeds there is a directory. -/
  leads : result = .ok () → p.text.isEmpty = false → made.isDirectoryPath current p = true

/-- A path leads to a directory that was just made. -/
theorem Adds.isDirectoryPath (adds : Adds t current p made) :
    made.isDirectoryPath current p = true := by
  unfold FileTree.isDirectoryPath isDirectory
  rw [adds.located]
  exact beq_iff_eq.mpr adds.dir

/-- An attempt to make a single directory, which may be there already. -/
def attempt (t : FileTree) (current : Location) (p : Path) : FileTree × Except FileError Unit :=
  match t.makeDirectory current p with
  | .ok made => (made, .ok ())
  | .error e => if t.isDirectoryPath current p then (t, .ok ()) else (t, .error e)

theorem makes_attempt (t : FileTree) (current : Location) (p : Path) :
    Makes t current p (t.attempt current p).1 (t.attempt current p).2 := by
  unfold attempt
  cases h : t.makeDirectory current p with
  | ok made =>
    have adds := adds_of_makeDirectory h
    exact ⟨adds.grown, fun _ _ => adds.isDirectoryPath⟩
  | error e =>
    by_cases there : t.isDirectoryPath current p = true
    · simp only [there, if_true]
      exact ⟨.refl t _, fun _ _ => there⟩
    · simp only [there]
      exact ⟨.refl t _, nofun⟩

/-- What making a directory and those above it comes to: nothing, for an empty path; an attempt at
the directory itself; a refusal; or an attempt after those above it were made. -/
theorem makeDirectoriesUpTo_cases (current : Location) (fuel : Nat) (t : FileTree) (p : Path) :
    (p.text.isEmpty = true ∧ makeDirectoriesUpTo current fuel t p = (t, .ok ())) ∨
    makeDirectoriesUpTo current fuel t p = t.attempt current p ∨
    (∃ e, makeDirectoriesUpTo current fuel t p = (t, .error e)) ∨
    ∃ parent less above result, p.parent? = some parent ∧ fuel = less + 1 ∧
      makeDirectoriesUpTo current less t parent = (above, result) ∧
      makeDirectoriesUpTo current fuel t p = match result with
        | .ok () => above.attempt current p
        | .error e => (above, .error e) := by
  unfold makeDirectoriesUpTo attempt
  by_cases text : p.text.isEmpty = true
  · exact .inl ⟨text, by rw [if_pos text]⟩
  · rw [if_neg text]
    refine .inr ?_
    split
    · next made h => exact .inl (by rw [h])
    · next h =>
      split
      · next parent less parent_eq =>
        cases first : makeDirectoriesUpTo current less t parent with
        | mk above result =>
          refine .inr (.inr ⟨parent, less, above, result, parent_eq, rfl, ?_, ?_⟩)
          · unfold makeDirectoriesUpTo at first
            exact first
          · cases result <;> rfl
      · exact .inr (.inl ⟨_, rfl⟩)
    · next e _ h => exact .inl (by rw [h])

theorem makes_makeDirectoriesUpTo (current : Location) (fuel : Nat) (t : FileTree) (p : Path) :
    Makes t current p (makeDirectoriesUpTo current fuel t p).1
      (makeDirectoriesUpTo current fuel t p).2 := by
  induction fuel using Nat.strong_induction_on generalizing t p with
  | _ fuel ih =>
    rcases makeDirectoriesUpTo_cases current fuel t p with ⟨empty, same⟩ | same | ⟨e, same⟩ |
      ⟨parent, less, above, result, parent_eq, rfl, first, same⟩
    · rw [same]
      refine ⟨.refl t _, ?_⟩
      intro _ text
      rw [empty] at text
      cases text
    · rw [same]
      exact makes_attempt t current p
    · rw [same]
      exact ⟨.refl t _, nofun⟩
    · -- the directories above it come first
      have before := (ih less (Nat.lt_succ_self less) t parent).grown.mono
        fun place => onWay_of_parent parent_eq
      rw [first] at before
      rw [same]
      cases result with
      | error e => exact ⟨before, nofun⟩
      | ok =>
        have last := makes_attempt above current p
        exact ⟨before.trans last.grown, last.leads⟩

/-- **Making a directory and those above it** adds directories on the way and changes nothing. -/
theorem makes_makeDirectories (t : FileTree) (current : Location) (p : Path) :
    Makes t current p (t.makeDirectories current p).1 (t.makeDirectories current p).2 :=
  makes_makeDirectoriesUpTo current p.names.length t p

/-- A directory that can be made alone is made alone. -/
theorem makeDirectories_of_makeDirectory (h : t.makeDirectory current p = .ok made) :
    t.makeDirectories current p = (made, .ok ()) := by
  have text : ¬ p.text.isEmpty = true := by
    intro empty
    have dots := (adds_of_makeDirectory h).plain
    unfold endsInDots at dots
    rw [Path.names_of_isEmpty empty] at dots
    cases dots
  unfold makeDirectories makeDirectoriesUpTo
  rw [if_neg text, h]

/-- On the way to a directory there are only directories. -/
theorem isDirectory_of_onWay (h : t.isDirectoryPath current p = true)
    (on : OnWay current p place) : t.isDirectory place = true := by
  unfold isDirectoryPath at h
  split at h
  · next found located =>
    obtain ⟨front, ⟨back, names_eq⟩, rfl⟩ := on
    unfold locate at located
    split at located
    · cases located
    · rw [← names_eq, List.append_assoc] at located
      by_cases last : back ++ (if p.endsWithSlash then ["."] else []) = []
      · rw [last, List.append_nil] at located
        rw [← follow_of_walk located]
        exact h
      · exact isDirectory_of_walk located last
  · cases h

end DeployWatch.FileTree
