/-
# Documents with one level of sections

A document of texts and numbers under bare keys, some of them in sections (`Layout`).  When no
key occurs twice, the document means exactly the table that it was laid out from
(`Document.read?_layout`): the statements of a section fill the table that its header opened
(`foldlM_entries`), and sections are put one behind the other (`foldlM_sections`).  Neither the
order of the entries of a table nor that of the sections makes a key occur twice
(`Layout.Rearranges.distinct`).
-/

import DeployWatch.Proofs.Toml.Lines

namespace DeployWatch.Toml

open DeployWatch.Text

/-! ### Layouts -/

/-- Texts and numbers under their keys. -/
abbrev Entries := List (String × Scalar)

/-- A section with its header. -/
structure Section where
  name : String
  entries : Entries

/-- What a document consists of: entries before the first header, and sections. -/
structure Layout where
  top : Entries
  sections : List Section

/-- The lines of entries. -/
def Entries.lines (entries : Entries) : List Line := entries.map fun e => .entry e.1 e.2

/-- The table of entries. -/
def Entries.table (entries : Entries) : Table := entries.map fun e => (e.1, e.2.value)

/-- The finished table of entries. -/
def Entries.leaves (entries : Entries) : Children := entries.map fun e => (e.1, .leaf e.2.value)

namespace Section

/-- The lines of a section. -/
def lines (s : Section) : List Line := .header s.name :: s.entries.lines

/-- What a document gives for a section. -/
def item (s : Section) : String × Value := (s.name, .table s.entries.table)

/-- The finished table of a section. -/
def branch (s : Section) : String × Tree := (s.name, .branch .named s.entries.leaves)

end Section

namespace Layout

/-- The lines of a document. -/
def lines (layout : Layout) : List Line := layout.top.lines ++ layout.sections.flatMap Section.lines

/-- The characters of a document. -/
def chars (layout : Layout) : List Char := layout.lines.flatMap Line.chars

/-- The table that a document means. -/
def table (layout : Layout) : Table := layout.top.table ++ layout.sections.map Section.item

/-- A layout in which all keys are bare and no table has a key twice. -/
structure Distinct (layout : Layout) : Prop where
  bare : ∀ key ∈ layout.lines.map Line.key, IsBare key
  top : (layout.top.map Prod.fst ++ layout.sections.map Section.name).Nodup
  sections : ∀ s ∈ layout.sections, (s.entries.map Prod.fst).Nodup

end Layout

/-! ### Order does not matter -/

/-- A section with the same entries in any order. -/
structure Section.Rearranges (s s' : Section) : Prop where
  name : s.name = s'.name
  entries : s.entries.Perm s'.entries

/-- A layout with the same sections in any order, and the same entries in any order. -/
structure Layout.Rearranges (layout layout' : Layout) : Prop where
  top : layout.top.Perm layout'.top
  sections : ∃ between, layout.sections.Perm between ∧
    List.Forall₂ Section.Rearranges between layout'.sections

theorem Section.Rearranges.refl (s : Section) : s.Rearranges s := ⟨rfl, .refl _⟩

theorem Layout.Rearranges.refl (layout : Layout) : layout.Rearranges layout :=
  ⟨.refl _, layout.sections, .refl _, List.forall₂_same.mpr fun s _ => .refl s⟩

theorem Entries.perm_keys {entries entries' : Entries} (perm : entries.Perm entries') :
    (entries.lines.map Line.key).Perm (entries'.lines.map Line.key) :=
  (perm.map _).map _

section
variable {between sections : List Section}

theorem names_eq_of_rearranges (rearranges : List.Forall₂ Section.Rearranges between sections) :
    between.map Section.name = sections.map Section.name := by
  induction rearranges with
  | nil => rfl
  | cons here _ ih => rw [List.map_cons, List.map_cons, here.name, ih]

theorem perm_keys_of_rearranges (rearranges : List.Forall₂ Section.Rearranges between sections) :
    ((between.flatMap Section.lines).map Line.key).Perm
      ((sections.flatMap Section.lines).map Line.key) := by
  induction rearranges with
  | nil => exact .refl _
  | @cons s s' _ _ here _ ih =>
    have lines : (s.lines.map Line.key).Perm (s'.lines.map Line.key) := by
      rw [Section.lines, Section.lines, List.map_cons, List.map_cons, here.name]
      exact (Entries.perm_keys here.entries).cons _
    rw [List.flatMap_cons, List.flatMap_cons, List.map_append, List.map_append]
    exact lines.append ih

theorem exists_rearranged (rearranges : List.Forall₂ Section.Rearranges between sections)
    {s : Section} (mem : s ∈ between) : ∃ s' ∈ sections, s.Rearranges s' := by
  induction rearranges with
  | nil => exact nomatch mem
  | @cons _ s' _ _ here _ ih =>
    rcases List.mem_cons.mp mem with rfl | mem
    · exact ⟨s', List.mem_cons_self, here⟩
    · obtain ⟨other, mem, same⟩ := ih mem
      exact ⟨other, List.mem_cons_of_mem _ mem, same⟩

end

/-- A key that occurs twice in a table does so in any order. -/
theorem Layout.Rearranges.distinct {layout layout' : Layout} (rearranges : layout.Rearranges layout')
    (distinct : layout'.Distinct) : layout.Distinct := by
  obtain ⟨top, between, perm, rearranged⟩ := rearranges
  constructor
  · have lines : (layout.lines.map Line.key).Perm (layout'.lines.map Line.key) := by
      rw [Layout.lines, Layout.lines, List.map_append, List.map_append]
      apply (Entries.perm_keys top).append
      exact ((perm.flatMap_right _).map _).trans (perm_keys_of_rearranges rearranged)
    intro key mem
    exact distinct.bare key (lines.mem_iff.mp mem)
  · have names : (layout.sections.map Section.name).Perm (layout'.sections.map Section.name) := by
      rw [← names_eq_of_rearranges rearranged]
      exact perm.map _
    exact ((top.map _).append names).nodup_iff.mpr distinct.top
  · intro s mem
    obtain ⟨s', mem', same⟩ := exists_rearranged rearranged (perm.mem_iff.mp mem)
    exact (same.entries.map _).nodup_iff.mpr (distinct.sections s' mem')

/-! ### Tables under construction -/

/-- The keys of a table under construction. -/
def Children.keys (children : Children) : List String := children.map Prod.fst

theorem lookup_of_not_mem {key : String} {children : Children} (new : key ∉ children.keys) :
    List.lookup key children = none := by
  rw [List.lookup_eq_none_iff]
  rintro ⟨other, tree⟩ mem
  have ne : key ≠ other := by
    rintro rfl
    exact new (List.mem_map.mpr ⟨_, mem, rfl⟩)
  simpa using ne

theorem lookup_append_self {key : String} {children : Children} (new : key ∉ children.keys)
    (tree : Tree) : List.lookup key (children ++ [(key, tree)]) = some tree := by
  rw [List.lookup_append, lookup_of_not_mem new, List.lookup_cons_self]
  rfl

theorem replace_append_self {key : String} {children : Children} (new : key ∉ children.keys)
    (old tree : Tree) :
    Children.replace key tree (children ++ [(key, old)]) = children ++ [(key, tree)] := by
  have other (child : String × Tree) (mem : child ∈ children) :
      (if child.1 = key then (key, tree) else child) = child :=
    if_neg fun eq => new (List.mem_map.mpr ⟨child, mem, eq⟩)
  have others : children.map (fun child => if child.1 = key then (key, tree) else child) = children :=
    (List.map_congr_left other).trans (List.map_id' children)
  rw [Children.replace, List.map_append, others, List.map_singleton, if_pos rfl]

/-- A value under a new key of a table that no dotted key made. -/
theorem assign_new {key : String} {children : Children} (new : key ∉ children.keys)
    (value : Value) :
    Children.assign [] key value children = some (children ++ [(key, .leaf value)]) := by
  rw [Children.assign, Children.update]
  simp only [lookup_of_not_mem new]
  rfl

/-- The header of a new table. -/
theorem apply_header {name : String} {draft : Draft} (new : name ∉ draft.root.keys) :
    draft.apply (Line.header name).statement =
      some ⟨draft.root ++ [(name, .branch .named [])], [name]⟩ := by
  rw [Line.statement, Draft.apply, Children.openTable, Children.update]
  simp only [lookup_of_not_mem new]
  rfl

/-- An assignment before the first header. -/
theorem apply_top {key : String} {root : Children} (new : key ∉ root.keys) (scalar : Scalar) :
    Draft.apply ⟨root, []⟩ (Line.entry key scalar).statement =
      some ⟨root ++ [(key, .leaf scalar.value)], []⟩ := by
  rw [Line.statement, Draft.apply, Children.update]
  simp only [assign_new new]
  rfl

/-- An assignment to the table of the last header. -/
theorem apply_entry {name key : String} {front below : Children} (opened : name ∉ front.keys)
    (new : key ∉ below.keys) (scalar : Scalar) :
    Draft.apply ⟨front ++ [(name, .branch .named below)], [name]⟩ (Line.entry key scalar).statement =
      some ⟨front ++ [(name, .branch .named (below ++ [(key, .leaf scalar.value)]))], [name]⟩ := by
  rw [Line.statement, Draft.apply, Children.update]
  simp only [lookup_append_self opened, Bool.false_and, Bool.false_eq_true, if_false, Children.update,
    assign_new new, Option.bind_eq_bind, Option.bind_some, replace_append_self opened]

/-! ### Statements one after the other -/

/-- The next of distinct keys is new, and the others are distinct from it and from those before. -/
theorem Children.distinct_cons {children : Children} {key : String} {keys : List String}
    (distinct : (children.keys ++ key :: keys).Nodup) (tree : Tree) :
    key ∉ children.keys ∧ (Children.keys (children ++ [(key, tree)]) ++ keys).Nodup := by
  constructor
  · intro mem
    exact (List.nodup_append.mp distinct).2.2 key mem key List.mem_cons_self rfl
  · simpa [Children.keys] using distinct

theorem foldlM_top {entries : Entries} {root : Children}
    (distinct : (root.keys ++ entries.map Prod.fst).Nodup) :
    (entries.lines.map Line.statement).foldlM Draft.apply ⟨root, []⟩ =
      some ⟨root ++ entries.leaves, []⟩ := by
  induction entries generalizing root with
  | nil => simp [Entries.lines, Entries.leaves]
  | cons e entries ih =>
    obtain ⟨new, distinct⟩ := Children.distinct_cons distinct (.leaf e.2.value)
    have rest := ih distinct
    rw [List.append_assoc, List.singleton_append] at rest
    exact (congrArg (Option.bind · _) (apply_top new e.2)).trans rest

/-- The entries of a section go into the table that its header opened. -/
theorem foldlM_entries {entries : Entries} {name : String} {front below : Children}
    (opened : name ∉ front.keys) (distinct : (below.keys ++ entries.map Prod.fst).Nodup) :
    (entries.lines.map Line.statement).foldlM Draft.apply
        ⟨front ++ [(name, .branch .named below)], [name]⟩ =
      some ⟨front ++ [(name, .branch .named (below ++ entries.leaves))], [name]⟩ := by
  induction entries generalizing below with
  | nil => simp [Entries.lines, Entries.leaves]
  | cons e entries ih =>
    obtain ⟨new, distinct⟩ := Children.distinct_cons distinct (.leaf e.2.value)
    have rest := ih distinct
    rw [List.append_assoc, List.singleton_append] at rest
    exact (congrArg (Option.bind · _) (apply_entry opened new e.2)).trans rest

theorem foldlM_section {s : Section} {draft : Draft} (new : s.name ∉ draft.root.keys)
    (distinct : (s.entries.map Prod.fst).Nodup) :
    (s.lines.map Line.statement).foldlM Draft.apply draft =
      some ⟨draft.root ++ [s.branch], [s.name]⟩ :=
  (congrArg (Option.bind · _) (apply_header new)).trans (foldlM_entries new distinct)

/-- Sections of different names are put one behind the other. -/
theorem foldlM_sections {sections : List Section} {draft : Draft}
    (distinct : (draft.root.keys ++ sections.map Section.name).Nodup)
    (below : ∀ s ∈ sections, (s.entries.map Prod.fst).Nodup) :
    ∃ current, ((sections.flatMap Section.lines).map Line.statement).foldlM Draft.apply draft =
      some ⟨draft.root ++ sections.map Section.branch, current⟩ := by
  induction sections generalizing draft with
  | nil => exact ⟨draft.current, by simp⟩
  | cons s sections ih =>
    obtain ⟨new, distinct⟩ := Children.distinct_cons distinct s.branch.2
    obtain ⟨here, below⟩ := List.forall_mem_cons.mp below
    obtain ⟨current, rest⟩ := @ih ⟨draft.root ++ [s.branch], [s.name]⟩ distinct below
    refine ⟨current, ?_⟩
    rw [List.flatMap_cons, List.map_append, List.foldlM_append, foldlM_section new here]
    simpa using rest

/-! ### The finished table -/

theorem entries_append (front rest : Children) :
    Tree.entries (front ++ rest) = Tree.entries front ++ Tree.entries rest := by
  induction front with
  | nil => rw [List.nil_append, Tree.entries, List.nil_append]
  | cons child front ih =>
    rw [List.cons_append, Tree.entries, Tree.entries, ih, List.cons_append]

theorem entries_leaves (entries : Entries) : Tree.entries entries.leaves = entries.table := by
  induction entries with
  | nil => rfl
  | cons e entries ih =>
    show Tree.entries ((e.1, .leaf e.2.value) :: Entries.leaves entries) =
      (e.1, e.2.value) :: Entries.table entries
    rw [Tree.entries, Tree.toValue, ih]

theorem entries_branches (sections : List Section) :
    Tree.entries (sections.map Section.branch) = sections.map Section.item := by
  induction sections with
  | nil => rfl
  | cons s sections ih =>
    rw [List.map_cons, List.map_cons, Section.branch, Tree.entries, Tree.toValue, entries_leaves, ih]
    rfl

variable {layout : Layout}

/-- The statements of a document make its table. -/
theorem ofStatements?_layout (distinct : layout.Distinct) :
    Document.ofStatements? (layout.lines.map Line.statement) = some layout.table := by
  have top : (layout.top.lines.map Line.statement).foldlM Draft.apply {} =
      some ⟨layout.top.leaves, []⟩ := by
    apply foldlM_top
    exact (List.nodup_append.mp distinct.top).1
  have keys : Children.keys layout.top.leaves = layout.top.map Prod.fst := by
    simp [Children.keys, Entries.leaves]
  obtain ⟨current, sections⟩ := @foldlM_sections layout.sections ⟨layout.top.leaves, []⟩
    (by rw [keys]; exact distinct.top) distinct.sections
  rw [Document.ofStatements?, Layout.lines, List.map_append, List.foldlM_append, top,
    Option.bind_eq_bind, Option.bind_eq_bind, Option.bind_some, sections, Option.bind_some,
    entries_append, entries_leaves, entries_branches]
  rfl

/-! ### The text of a document -/

theorem length_le_length_chars (lines : List Line) :
    lines.length ≤ (lines.flatMap Line.chars).length := by
  induction lines with
  | nil => exact Nat.le_refl _
  | cons line lines ih =>
    rw [List.flatMap_cons, List.length_append, Line.chars, List.length_append, List.length_cons,
      List.length_singleton]
    omega

/-- No line begins with the mark that a text may begin with. -/
theorem dropMark_chars {lines : List Line} (bare : ∀ line ∈ lines, IsBare line.key) :
    dropMark (lines.flatMap Line.chars) = lines.flatMap Line.chars := by
  cases lines with
  | nil => rfl
  | cons line lines =>
    obtain ⟨c, cs, eq, opening⟩ := Line.exists_cons (bare line List.mem_cons_self)
    have mark : c.toNat ≠ 0xFEFF := by
      intro eq
      have char : c = Char.ofNat 0xFEFF := by rw [← eq, Char.ofNat_toNat]
      exact ne_of_kind opening (by decide) char
    rw [List.flatMap_cons, Line.chars, eq, List.cons_append, List.cons_append, dropMark, if_neg mark]

/-- The text of a document without repeated keys means the table it was laid out from. -/
theorem Document.read?_layout (distinct : layout.Distinct) {text : String}
    (written : text.toList = layout.chars) : Document.read? text = some layout.table := by
  have bare : ∀ line ∈ layout.lines, IsBare line.key :=
    fun line mem => distinct.bare _ (List.mem_map_of_mem mem)
  have statements := readStatements_lines bare
    (Nat.le_succ_of_le (length_le_length_chars layout.lines))
  rw [Document.read?, written, Layout.chars, dropMark_chars bare, statements]
  exact ofStatements?_layout distinct

end DeployWatch.Toml
