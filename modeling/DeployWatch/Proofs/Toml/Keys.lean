/-
# No key occurs twice

A document that gives a key twice has no meaning, so in the tables of a document every key occurs
once, whether the tables come from headers, from dotted keys or from braces
(`Document.sound_read?`).  The tables under construction keep this from the first statement to the
last (`Children.Sound`): a new key is put at the end only where it is not there yet, and all else
replaces what stands under a key.
-/

import DeployWatch.Proofs.Toml.Layout

namespace DeployWatch.Toml

/-! ### Values and tables without repeated keys -/

/-- The keys of a table. -/
def Table.keys (t : Table) : List String := t.map Prod.fst

/-- In no table of the value does a key occur twice. -/
inductive Value.Sound : Value → Prop where
  | text (content : String) : Sound (.text content)
  | integer (number : Int) : Sound (.integer number)
  | float (literal : String) : Sound (.float literal)
  | boolean (holds : Bool) : Sound (.boolean holds)
  | moment (literal : String) : Sound (.moment literal)
  | array {items : List Value} : (∀ item ∈ items, Sound item) → Sound (.array items)
  | table {entries : Table} : entries.keys.Nodup → (∀ entry ∈ entries, Sound entry.2) →
      Sound (.table entries)

/-- In no table of the tree does a key occur twice. -/
inductive Tree.Sound : Tree → Prop where
  | leaf {value : Value} : value.Sound → Sound (.leaf value)
  | branch {origin : Origin} {children : Children} : children.keys.Nodup →
      (∀ child ∈ children, Sound child.2) → Sound (.branch origin children)
  | series {tables : List Children} : (∀ table ∈ tables, table.keys.Nodup) →
      (∀ table ∈ tables, ∀ child ∈ table, Sound child.2) → Sound (.series tables)

/-- No key of a table under construction occurs twice, nor in the tables below it. -/
structure Children.Sound (children : Children) : Prop where
  distinct : children.keys.Nodup
  trees : ∀ child ∈ children, child.2.Sound

theorem keys_entries (children : Children) :
    Table.keys (Tree.entries children) = children.keys := by
  induction children with
  | nil => rfl
  | cons child rest ih =>
    rw [Tree.entries]
    exact congrArg (child.1 :: ·) ih

mutual

/-- A tree without repeated keys stands for a value without them. -/
theorem Tree.Sound.toValue : ∀ {tree : Tree}, tree.Sound → tree.toValue.Sound
  | .leaf _, .leaf sound => by
    rw [Tree.toValue]
    exact sound
  | .branch _ children, .branch keys trees => by
    rw [Tree.toValue]
    exact .table (keys_entries children ▸ keys) (sound_entries children trees)
  | .series tables, .series keys trees => by
    rw [Tree.toValue]
    exact .array (sound_tableValues tables keys trees)

theorem sound_entries : ∀ (children : Children), (∀ child ∈ children, child.2.Sound) →
    ∀ entry ∈ Tree.entries children, entry.2.Sound
  | [], _ => by
    rw [Tree.entries]
    exact nofun
  | (key, tree) :: rest, trees => by
    obtain ⟨first, others⟩ := List.forall_mem_cons.mp trees
    rw [Tree.entries]
    exact List.forall_mem_cons.mpr ⟨Tree.Sound.toValue first, sound_entries rest others⟩

theorem sound_tableValues : ∀ (tables : List Children), (∀ table ∈ tables, table.keys.Nodup) →
    (∀ table ∈ tables, ∀ child ∈ table, child.2.Sound) →
    ∀ value ∈ Tree.tableValues tables, value.Sound
  | [], _, _ => by
    rw [Tree.tableValues]
    exact nofun
  | children :: rest, keys, trees => by
    obtain ⟨firstKeys, otherKeys⟩ := List.forall_mem_cons.mp keys
    obtain ⟨firstTrees, otherTrees⟩ := List.forall_mem_cons.mp trees
    rw [Tree.tableValues]
    refine List.forall_mem_cons.mpr ⟨?_, sound_tableValues rest otherKeys otherTrees⟩
    exact .table (keys_entries children ▸ firstKeys) (sound_entries children firstTrees)

end

/-! ### Tables under construction -/

namespace Children

variable {children changed : Children} {key : String} {tree : Tree}

theorem sound_nil : Sound [] := ⟨List.nodup_nil, nofun⟩

theorem Sound.lookup (sound : children.Sound) (found : List.lookup key children = some tree) :
    tree.Sound := by
  obtain ⟨before, after, eq, -⟩ := List.lookup_eq_some_iff.mp found
  have mem : (key, tree) ∈ children := by simp [eq]
  exact sound.trees _ mem

/-- A new key is put behind the others. -/
theorem Sound.concat (sound : children.Sound) (new : List.lookup key children = none)
    (below : tree.Sound) : Sound (children ++ [(key, tree)]) := by
  have absent : key ∉ children.keys := by
    intro mem
    obtain ⟨child, there, rfl⟩ := List.mem_map.mp mem
    simpa using List.lookup_eq_none_iff.mp new child there
  constructor
  · rw [keys, List.map_append, List.map_singleton, ← List.concat_eq_append]
    exact sound.distinct.concat absent
  · intro child mem
    rcases List.mem_append.mp mem with old | last
    · exact sound.trees child old
    · rw [List.mem_singleton.mp last]
      exact below

/-- What stands under a key is replaced. -/
theorem Sound.replace (sound : children.Sound) (below : tree.Sound) :
    Sound (children.replace key tree) := by
  have keys_eq : keys (children.replace key tree) = children.keys := by
    rw [Children.replace, keys, keys, List.map_map]
    apply List.map_congr_left
    intro child _
    by_cases here : child.1 = key
    · simp [here]
    · simp [here]
  constructor
  · rw [keys_eq]
    exact sound.distinct
  · intro child mem
    obtain ⟨old, there, rfl⟩ := List.mem_map.mp mem
    split
    · exact below
    · exact sound.trees old there

/-- A change at the end of a path that repeats no key repeats none on the way there. -/
theorem Sound.update {byDots : Bool} {change : Origin → Children → Option Children}
    (keeps : ∀ origin children changed, Sound children → change origin children = some changed →
      Sound changed) :
    ∀ {path : List String} {origin : Origin} {children changed : Children}, children.Sound →
      update byDots change path origin children = some changed → changed.Sound
  | [], origin, children, changed, sound, done => keeps origin children changed sound done
  | key :: path, origin, children, changed, sound, done => by
    rw [Children.update] at done
    cases found : List.lookup key children with
    | none =>
      simp only [found, Option.bind_eq_bind, Option.bind_eq_some_iff, Option.some.injEq] at done
      obtain ⟨below, deeper, rfl⟩ := done
      have kept := Sound.update keeps sound_nil deeper
      exact sound.concat found (.branch kept.distinct kept.trees)
    | some tree =>
      cases tree with
      | leaf value => simp [found] at done
      | branch inner below =>
        simp only [found] at done
        split at done
        · cases done
        · simp only [Option.bind_eq_bind, Option.bind_eq_some_iff, Option.some.injEq] at done
          obtain ⟨below', deeper, rfl⟩ := done
          cases sound.lookup found with
          | branch keys trees =>
            have kept := Sound.update keeps ⟨keys, trees⟩ deeper
            exact sound.replace (.branch kept.distinct kept.trees)
      | series tables =>
        simp only [found] at done
        cases order : tables.reverse with
        | nil => simp [order] at done
        | cons last earlier =>
          simp only [order, Option.bind_eq_bind, Option.bind_eq_some_iff, Option.some.injEq] at done
          obtain ⟨last', deeper, rfl⟩ := done
          have mem : ∀ table, table ∈ tables ↔ table ∈ last :: earlier := by
            intro table
            rw [← order, List.mem_reverse]
          cases sound.lookup found with
          | series keys trees =>
            have here := (mem last).mpr List.mem_cons_self
            have kept := Sound.update keeps ⟨keys last here, trees last here⟩ deeper
            apply sound.replace
            refine .series ?_ ?_
            · intro table there
              rcases List.mem_cons.mp (List.mem_reverse.mp there) with rfl | old
              · exact kept.distinct
              · exact keys table ((mem table).mpr (List.mem_cons_of_mem _ old))
            · intro table there
              rcases List.mem_cons.mp (List.mem_reverse.mp there) with rfl | old
              · exact kept.trees
              · exact trees table ((mem table).mpr (List.mem_cons_of_mem _ old))

theorem Sound.assign {path : List String} {value : Value} (sound : children.Sound)
    (below : value.Sound) (done : Children.assign path key value children = some changed) :
    changed.Sound := by
  refine Sound.update ?_ sound done
  intro origin children changed sound done
  split at done
  · cases done
  · split at done
    · cases done
    · next new =>
      obtain rfl := Option.some.inj done
      exact sound.concat new (.leaf below)

theorem Sound.openTable {path : List String} (sound : children.Sound)
    (done : Children.openTable path key children = some changed) : changed.Sound := by
  refine Sound.update ?_ sound done
  intro origin children changed sound done
  split at done
  · next new =>
    obtain rfl := Option.some.inj done
    exact sound.concat new (.branch List.nodup_nil nofun)
  · next below found =>
    obtain rfl := Option.some.inj done
    cases sound.lookup found with
    | branch keys trees => exact sound.replace (.branch keys trees)
  · cases done

theorem Sound.openSeries {path : List String} (sound : children.Sound)
    (done : Children.openSeries path key children = some changed) : changed.Sound := by
  refine Sound.update ?_ sound done
  intro origin children changed sound done
  split at done
  · next new =>
    obtain rfl := Option.some.inj done
    refine sound.concat new (.series ?_ ?_) <;> simp [keys]
  · next tables found =>
    obtain rfl := Option.some.inj done
    cases sound.lookup found with
    | series keys trees =>
      apply sound.replace
      refine .series ?_ ?_
      · intro table mem
        rcases List.mem_append.mp mem with old | last
        · exact keys table old
        · rw [List.mem_singleton.mp last]
          exact List.nodup_nil
      · intro table mem
        rcases List.mem_append.mp mem with old | last
        · exact trees table old
        · rw [List.mem_singleton.mp last]
          intro entry none
          exact absurd none List.not_mem_nil
  · cases done

end Children

/-! ### Reading values -/

/-- Nothing that is read repeats a key. -/
def Scan.Sound (element : Scan Value) : Prop :=
  ∀ cs value rest, element cs = some (value, rest) → value.Sound

theorem sound_atom? {cs : List Char} {value : Value} (read : atom? cs = some value) :
    value.Sound := by
  unfold atom? at read
  split at read
  · obtain rfl := Option.some.inj read
    exact .boolean _
  · split at read
    · obtain rfl := Option.some.inj read
      exact .boolean _
    · split at read
      · obtain rfl := Option.some.inj read
        exact .integer _
      · split at read
        · obtain rfl := Option.some.inj read
          exact .float _
        · split at read
          · obtain rfl := Option.some.inj read
            exact .moment _
          · cases read

theorem sound_readAtom : Scan.Sound readAtom := by
  intro cs value rest read
  have some_atom : ∃ run, atom? run = some value := by
    unfold readAtom at read
    simp only at read
    split at read
    · split at read
      all_goals
        obtain ⟨_, atom, same⟩ := Option.map_eq_some_iff.mp read
        obtain ⟨rfl, -⟩ := Prod.mk.inj same
        exact ⟨_, atom⟩
    · obtain ⟨_, atom, same⟩ := Option.map_eq_some_iff.mp read
      obtain ⟨rfl, -⟩ := Prod.mk.inj same
      exact ⟨_, atom⟩
  obtain ⟨run, atom⟩ := some_atom
  exact sound_atom? atom

section
variable {element : Scan Value} (sound : element.Sound)
include sound

theorem sound_readItems {fuel : Nat} {cs rest : List Char} {items : List Value}
    (read : readItems element fuel cs = some (items, rest)) : ∀ item ∈ items, item.Sound := by
  induction fuel generalizing cs items rest with
  | zero => cases read
  | succ fuel ih =>
    rw [readItems] at read
    simp only [Option.bind_eq_bind, Option.bind_eq_some_iff] at read
    obtain ⟨begun, -, read⟩ := read
    split at read
    · obtain ⟨rfl, -⟩ := Prod.mk.inj (Option.some.inj read)
      exact nofun
    · obtain ⟨⟨value, more⟩, first, read⟩ := Option.bind_eq_some_iff.mp read
      have here : value.Sound := sound _ value more first
      obtain ⟨gap, -, read⟩ := Option.bind_eq_some_iff.mp read
      split at read
      · obtain ⟨⟨others, last⟩, deeper, same⟩ := Option.map_eq_some_iff.mp read
        obtain ⟨rfl, -⟩ := Prod.mk.inj same
        exact List.forall_mem_cons.mpr ⟨here, ih deeper⟩
      · obtain ⟨rfl, -⟩ := Prod.mk.inj (Option.some.inj read)
        exact List.forall_mem_singleton.mpr here
      · cases read

theorem sound_readAssignment {cs rest : List Char} {field : Key × Value}
    (read : readAssignment element cs = some (field, rest)) : field.2.Sound := by
  unfold readAssignment at read
  obtain ⟨⟨key, more⟩, -, read⟩ := Option.bind_eq_some_iff.mp read
  simp only at read
  split at read
  · obtain ⟨⟨value, last⟩, given, same⟩ := Option.map_eq_some_iff.mp read
    obtain ⟨rfl, -⟩ := Prod.mk.inj same
    exact sound _ value last given
  · cases read

theorem sound_readFields {fuel : Nat} {cs rest : List Char} {fields : List (Key × Value)}
    (read : readFields element fuel cs = some (fields, rest)) :
    ∀ field ∈ fields, field.2.Sound := by
  induction fuel generalizing cs fields rest with
  | zero => cases read
  | succ fuel ih =>
    rw [readFields] at read
    simp only [Option.bind_eq_bind, Option.bind_eq_some_iff] at read
    obtain ⟨begun, -, read⟩ := read
    split at read
    · obtain ⟨rfl, -⟩ := Prod.mk.inj (Option.some.inj read)
      exact nofun
    · obtain ⟨⟨field, more⟩, first, read⟩ := Option.bind_eq_some_iff.mp read
      have here : field.2.Sound := sound_readAssignment sound first
      obtain ⟨gap, -, read⟩ := Option.bind_eq_some_iff.mp read
      split at read
      · obtain ⟨⟨others, last⟩, deeper, same⟩ := Option.map_eq_some_iff.mp read
        obtain ⟨rfl, -⟩ := Prod.mk.inj same
        exact List.forall_mem_cons.mpr ⟨here, ih deeper⟩
      · obtain ⟨rfl, -⟩ := Prod.mk.inj (Option.some.inj read)
        exact List.forall_mem_singleton.mpr here
      · cases read

end

theorem sound_foldlM_assign {fields : List (Key × Value)} {children changed : Children}
    (values : ∀ field ∈ fields, field.2.Sound) (sound : children.Sound)
    (made : fields.foldlM (fun children field =>
      Children.assign field.1.path field.1.name field.2 children) children = some changed) :
    changed.Sound := by
  induction fields generalizing children with
  | nil =>
    obtain rfl := Option.some.inj made
    exact sound
  | cons field fields ih =>
    obtain ⟨here, others⟩ := List.forall_mem_cons.mp values
    rw [List.foldlM_cons] at made
    obtain ⟨next, assigned, made⟩ := Option.bind_eq_some_iff.mp made
    exact ih others (sound.assign here assigned) made

/-- A table in braces repeats no key. -/
theorem sound_tableOf? {fields : List (Key × Value)} {value : Value}
    (values : ∀ field ∈ fields, field.2.Sound) (made : tableOf? fields = some value) :
    value.Sound := by
  unfold tableOf? at made
  obtain ⟨children, folded, same⟩ := Option.bind_eq_some_iff.mp made
  obtain rfl := Option.some.inj same
  have sound : children.Sound := sound_foldlM_assign values Children.sound_nil folded
  exact .table (keys_entries children ▸ sound.distinct) (sound_entries children sound.trees)

/-- No table in a value repeats a key, however deep it is nested. -/
theorem sound_readValue (depth : Nat) : Scan.Sound (readValue depth) := by
  induction depth using Nat.strong_induction_on with
  | _ depth ih =>
    intro cs value rest read
    unfold readValue at read
    split at read
    · cases depth with
      | zero => cases read
      | succ depth =>
        obtain ⟨⟨items, last⟩, given, same⟩ := Option.map_eq_some_iff.mp read
        obtain ⟨rfl, -⟩ := Prod.mk.inj same
        exact .array (sound_readItems (ih depth (Nat.lt_succ_self depth)) given)
    · cases depth with
      | zero => cases read
      | succ depth =>
        obtain ⟨⟨fields, last⟩, given, closed⟩ := Option.bind_eq_some_iff.mp read
        obtain ⟨table, made, same⟩ := Option.map_eq_some_iff.mp closed
        obtain ⟨rfl, -⟩ := Prod.mk.inj same
        have fields_sound := sound_readFields (ih depth (Nat.lt_succ_self depth)) given
        exact sound_tableOf? fields_sound made
    · obtain ⟨⟨text, last⟩, -, same⟩ := Option.map_eq_some_iff.mp read
      obtain ⟨rfl, -⟩ := Prod.mk.inj same
      exact .text text
    · obtain ⟨⟨text, last⟩, -, same⟩ := Option.map_eq_some_iff.mp read
      obtain ⟨rfl, -⟩ := Prod.mk.inj same
      exact .text text
    · exact sound_readAtom _ _ _ read

/-! ### Documents -/

/-- The statement assigns no value that repeats a key. -/
def Statement.Sound : Statement → Prop
  | .assignment _ value => value.Sound
  | _ => True

theorem sound_readStatement {cs rest : List Char} {statement : Statement}
    (read : readStatement cs = some (statement, rest)) : statement.Sound := by
  unfold readStatement at read
  split at read
  · obtain ⟨⟨key, more⟩, -, read⟩ := Option.bind_eq_some_iff.mp read
    split at read
    · obtain ⟨rfl, -⟩ := Prod.mk.inj (Option.some.inj read)
      trivial
    · cases read
  · obtain ⟨⟨key, more⟩, -, read⟩ := Option.bind_eq_some_iff.mp read
    split at read
    · obtain ⟨rfl, -⟩ := Prod.mk.inj (Option.some.inj read)
      trivial
    · cases read
  · obtain ⟨⟨field, last⟩, given, same⟩ := Option.map_eq_some_iff.mp read
    obtain ⟨rfl, -⟩ := Prod.mk.inj same
    exact sound_readAssignment (sound_readValue maxDepth) given

theorem sound_readStatements {fuel : Nat} {cs : List Char} {statements : List Statement}
    (read : readStatements fuel cs = some statements) :
    ∀ statement ∈ statements, statement.Sound := by
  induction fuel generalizing cs statements with
  | zero =>
    unfold readStatements at read
    split at read
    · cases read
    · obtain rfl := Option.some.inj read
      exact nofun
    · cases read
  | succ fuel ih =>
    unfold readStatements at read
    split at read
    · cases read
    · obtain rfl := Option.some.inj read
      exact nofun
    · obtain ⟨⟨statement, more⟩, first, read⟩ := Option.bind_eq_some_iff.mp read
      obtain ⟨line, -, read⟩ := Option.bind_eq_some_iff.mp read
      obtain ⟨others, deeper, rfl⟩ := Option.map_eq_some_iff.mp read
      exact List.forall_mem_cons.mpr ⟨sound_readStatement first, ih deeper⟩

/-- A statement that repeats no key leaves a document that repeats none. -/
theorem Draft.sound_apply {draft after : Draft} {statement : Statement}
    (sound : draft.root.Sound) (assigns : statement.Sound)
    (applied : draft.apply statement = some after) : after.root.Sound := by
  cases statement with
  | header key =>
    obtain ⟨root, opened, same⟩ := Option.bind_eq_some_iff.mp applied
    obtain rfl := Option.some.inj same
    exact sound.openTable opened
  | seriesHeader key =>
    obtain ⟨root, opened, same⟩ := Option.bind_eq_some_iff.mp applied
    obtain rfl := Option.some.inj same
    exact sound.openSeries opened
  | assignment key value =>
    obtain ⟨root, assigned, same⟩ := Option.bind_eq_some_iff.mp applied
    obtain rfl := Option.some.inj same
    refine Children.Sound.update ?_ sound assigned
    intro _ children changed sound assigned
    exact sound.assign assigns assigned

theorem Draft.sound_foldlM {statements : List Statement} {draft after : Draft}
    (sound : draft.root.Sound) (assign : ∀ statement ∈ statements, statement.Sound)
    (applied : statements.foldlM Draft.apply draft = some after) : after.root.Sound := by
  induction statements generalizing draft with
  | nil =>
    obtain rfl := Option.some.inj applied
    exact sound
  | cons statement statements ih =>
    obtain ⟨here, others⟩ := List.forall_mem_cons.mp assign
    rw [List.foldlM_cons] at applied
    obtain ⟨next, first, applied⟩ := Option.bind_eq_some_iff.mp applied
    exact ih (sound_apply sound here first) others applied

/-- In no table of a document does a key occur twice. -/
theorem Document.sound_read? {text : String} {entries : Table}
    (read : Document.read? text = some entries) : (Value.table entries).Sound := by
  unfold Document.read? at read
  obtain ⟨statements, stated, made⟩ := Option.bind_eq_some_iff.mp read
  unfold Document.ofStatements? at made
  obtain ⟨draft, applied, same⟩ := Option.bind_eq_some_iff.mp made
  obtain rfl := Option.some.inj same
  have sound : draft.root.Sound :=
    Draft.sound_foldlM Children.sound_nil (sound_readStatements stated) applied
  exact .table (keys_entries draft.root ▸ sound.distinct) (sound_entries draft.root sound.trees)

end DeployWatch.Toml
