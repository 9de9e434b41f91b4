/-
# The arrangement that grouping makes

Grouping shows the streams in the order in which they first occur, each in one piece and by time,
and entries of one stream and one time in the order of the page (`StablyGrouped`).  There is only
one such arrangement (`StablyGrouped.eq`): the stable sort by the place at which a stream first
occurs and the time.  The main statement is `LogEntry.groups_stably`; grouping what is grouped
changes nothing.

The groups that are collected entry by entry are read off in one go in
`foldl_addToGroups_nil`, from which everything else follows.

What the event of a page shows is said apart from the grouping: the texts of the entries in their
arrangement (`Tail.eventOf_eq`).
-/

import Mathlib.Data.List.Induction
import Mathlib.Data.List.Sort
import Mathlib.Data.Prod.Lex
import DeployWatch.Logs.Tail
import DeployWatch.Proofs.Logs.Grouping

namespace DeployWatch

namespace LogEntry

variable {entries shown : List LogEntry}

/-! ### Lists sorted by a key -/

section Keys

variable {α κ : Type*} [LinearOrder κ] {key : α → κ} {r : α → α → Prop} {l l' : List α}

/-- A list sorted by a key is known from its parts of one key. -/
theorem eq_of_sorted_of_classes (sorted : l.Pairwise fun a b => key a ≤ key b)
    (sorted' : l'.Pairwise fun a b => key a ≤ key b)
    (same : ∀ k, l.filter (key · = k) = l'.filter (key · = k)) : l = l' := by
  induction l generalizing l' with
  | nil =>
    cases l' with
    | nil => rfl
    | cons b rest' =>
      have mem : b ∈ (b :: rest').filter (key · = key b) := by simp
      simp [← same (key b)] at mem
  | cons a rest ih =>
    have mem_iff (c : α) : c ∈ a :: rest ↔ c ∈ l' := by
      have := same (key c)
      simpa using iff_of_eq (congrArg (c ∈ ·) this)
    cases l' with
    | nil => simpa using mem_iff a
    | cons b rest' =>
      -- both heads have the least key, and so they are the head of the part of that key
      have le : key a ≤ key b := by
        rcases List.mem_cons.mp ((mem_iff b).mpr (by simp)) with rfl | mem
        · exact le_rfl
        · exact List.rel_of_pairwise_cons sorted mem
      have ge : key b ≤ key a := by
        rcases List.mem_cons.mp ((mem_iff a).mp (by simp)) with rfl | mem
        · exact le_rfl
        · exact List.rel_of_pairwise_cons sorted' mem
      have equal : key b = key a := le_antisymm ge le
      obtain rfl : a = b := by
        have := same (key a)
        simp only [List.filter_cons, equal, decide_true, if_true] at this
        exact (List.cons.inj this).1
      refine congrArg (a :: ·) (ih sorted.of_cons sorted'.of_cons fun k => ?_)
      have := same k
      simp only [List.filter_cons] at this
      split at this
      · exact (List.cons.inj this).2
      · exact this

/-- A rearrangement that keeps what is in order keeps the parts in which all is in order. -/
theorem filter_eq_of_keeps_order (p : α → Bool) (perm : l'.Perm l)
    (keeps : ∀ c : List α, c.Pairwise r → c.Sublist l → c.Sublist l')
    (ordered : (l.filter p).Pairwise r) : l'.filter p = l.filter p := by
  have sub : (l.filter p).Sublist (l'.filter p) := by
    have := (keeps _ ordered List.filter_sublist).filter p
    simpa only [List.filter_filter, Bool.and_self] using this
  exact (sub.eq_of_length (perm.filter p).length_eq.symm).symm

end Keys

/-! ### Sorting by time -/

theorem insertByTime_eq_orderedInsert (e : LogEntry) (entries : List LogEntry) :
    insertByTime e entries = entries.orderedInsert (fun a b => a.timestamp ≤ b.timestamp) e := by
  induction entries with
  | nil => rfl
  | cons head rest ih =>
    rw [insertByTime, List.orderedInsert, ih]

theorem sortByTime_eq_insertionSort (entries : List LogEntry) :
    sortByTime entries = entries.insertionSort (fun a b => a.timestamp ≤ b.timestamp) := by
  have insert : insertByTime = List.orderedInsert (fun a b => a.timestamp ≤ b.timestamp) :=
    funext₂ insertByTime_eq_orderedInsert
  rw [sortByTime, insert]
  rfl

theorem pairwise_sortByTime (entries : List LogEntry) :
    (sortByTime entries).Pairwise fun a b => a.timestamp ≤ b.timestamp := by
  have : IsTrans LogEntry fun a b => a.timestamp ≤ b.timestamp := ⟨fun _ _ _ => le_trans⟩
  have : Std.Total fun a b : LogEntry => a.timestamp ≤ b.timestamp := ⟨fun _ _ => le_total _ _⟩
  rw [sortByTime_eq_insertionSort]
  exact List.pairwise_insertionSort _ entries

/-- Entries of the same time stay in their order. -/
theorem filter_sortByTime (entries : List LogEntry) (time : Int) :
    (sortByTime entries).filter (·.timestamp = time) = entries.filter (·.timestamp = time) := by
  refine filter_eq_of_keeps_order (r := fun a b => a.timestamp ≤ b.timestamp) _
    (sortByTime_perm entries) (fun c ordered sub => ?_) ?_
  · rw [sortByTime_eq_insertionSort]
    exact List.sublist_insertionSort ordered sub
  · refine List.pairwise_of_forall_mem_list fun a ha b hb => ?_
    simp only [List.mem_filter, decide_eq_true_eq] at ha hb
    rw [ha.2, hb.2]

/-! ### The groups -/

/-- The streams of some entries, in the order in which they first occur. -/
def streams (entries : List LogEntry) : List String := (entries.map (·.stream)).eraseDups

/-- The place at which a stream first occurs. -/
def firstAt (entries : List LogEntry) (stream : String) : Nat :=
  (entries.map (·.stream)).idxOf stream

theorem mem_streams {stream : String} :
    stream ∈ streams entries ↔ stream ∈ entries.map (·.stream) := List.mem_eraseDups

theorem filter_eq_nil_of_notMem_streams {stream : String} (absent : stream ∉ streams entries) :
    entries.filter (·.stream = stream) = [] := by
  rw [List.filter_eq_nil_iff]
  intro e mem same
  exact absent (mem_streams.mpr (List.mem_map.mpr ⟨e, mem, of_decide_eq_true same⟩))

theorem streams_concat (entries : List LogEntry) (e : LogEntry) :
    streams (entries ++ [e]) =
      if e.stream ∈ streams entries then streams entries else streams entries ++ [e.stream] := by
  have split : streams (entries ++ [e]) =
      streams entries ++ ([e.stream].removeAll (entries.map (·.stream))).eraseDups := by
    rw [streams, List.map_append, List.eraseDups_append]
    rfl
  by_cases known : e.stream ∈ entries.map (·.stream)
  · rw [split, if_pos (mem_streams.mpr known)]
    simp only [List.removeAll, List.filter_cons, List.filter_nil, List.elem_eq_mem, known,
      decide_true, Bool.not_true, Bool.false_eq_true, if_false, List.eraseDups_nil, List.append_nil]
  · rw [split, if_neg fun mem => known (mem_streams.mp mem)]
    simp only [List.removeAll, List.filter_cons, List.filter_nil, List.elem_eq_mem, known,
      decide_false, Bool.not_false, if_true, List.eraseDups_cons, List.eraseDups_nil]

/-- The streams stand in the order of the places at which they first occur. -/
theorem pairwise_streams (entries : List LogEntry) :
    (streams entries).Pairwise fun s t => firstAt entries s < firstAt entries t := by
  induction entries using List.reverseRecOn with
  | nil => exact .nil
  | append_singleton entries e ih =>
    have old {s : String} (mem : s ∈ streams entries) :
        firstAt (entries ++ [e]) s = firstAt entries s := by
      rw [firstAt, List.map_append, List.idxOf_append, if_pos (mem_streams.mp mem)]
      rfl
    have kept : (streams entries).Pairwise fun s t =>
        firstAt (entries ++ [e]) s < firstAt (entries ++ [e]) t :=
      ih.imp_of_mem fun hs ht lt => by rwa [old hs, old ht]
    rw [streams_concat]
    split
    · exact kept
    · next new =>
      refine List.pairwise_append.mpr ⟨kept, List.pairwise_singleton _ _, fun s hs t ht => ?_⟩
      obtain rfl := List.mem_singleton.mp ht
      have before : firstAt entries s < (entries.map (·.stream)).length :=
        List.idxOf_lt_length_iff.mpr (mem_streams.mp hs)
      have after : (entries.map (·.stream)).length ≤ firstAt (entries ++ [e]) e.stream := by
        rw [firstAt, List.map_append, List.idxOf_append,
          if_neg fun mem => new (mem_streams.mpr mem)]
        exact Nat.le_add_left _ _
      rw [old hs]
      exact before.trans_le after

theorem nodup_streams (entries : List LogEntry) : (streams entries).Nodup :=
  (pairwise_streams entries).imp fun lt => by
    rintro rfl
    exact lt.false

/-- An entry goes to the group of its stream; a stream without a group gets the last one. -/
theorem addToGroups_map (e : LogEntry) {ss : List String} (nodup : ss.Nodup)
    (f : String → List LogEntry) (empty : e.stream ∉ ss → f e.stream = []) :
    addToGroups (ss.map fun s => (s, f s)) e =
      (if e.stream ∈ ss then ss else ss ++ [e.stream]).map fun s =>
        (s, if e.stream = s then f s ++ [e] else f s) := by
  induction ss with
  | nil => simp [addToGroups, empty]
  | cons s rest ih =>
    obtain ⟨notMem, nodup⟩ := List.nodup_cons.mp nodup
    rw [List.map_cons, addToGroups]
    by_cases here : s = e.stream
    · subst here
      have others : ∀ s ∈ rest, (s, f s) = (s, if e.stream = s then f s ++ [e] else f s) := by
        intro s mem
        rw [if_neg fun same : e.stream = s => notMem (same ▸ mem)]
      simpa using List.map_congr_left others
    · rw [if_neg here, ih nodup fun absent => empty (by simp [Ne.symm here, absent])]
      by_cases known : e.stream ∈ rest
      · simp [known, Ne.symm here]
      · simp [known, Ne.symm here]

/-- The groups: for every stream, in the order in which they first occur, its entries. -/
theorem foldl_addToGroups_nil (entries : List LogEntry) :
    entries.foldl addToGroups [] =
      (streams entries).map fun s => (s, entries.filter (·.stream = s)) := by
  induction entries using List.reverseRecOn with
  | nil => rfl
  | append_singleton entries e ih =>
    rw [List.foldl_concat, ih,
      addToGroups_map e (nodup_streams entries) _ filter_eq_nil_of_notMem_streams, streams_concat]
    refine List.map_congr_left fun s _ => Prod.ext rfl ?_
    by_cases same : e.stream = s
    · simp [List.filter_append, same]
    · simp [List.filter_append, same]

theorem groupByStream_eq_flatMap (entries : List LogEntry) :
    groupByStream entries =
      (streams entries).flatMap fun s => sortByTime (entries.filter (·.stream = s)) := by
  rw [groupByStream, foldl_addToGroups_nil, List.flatMap_map]

theorem stream_of_mem_group {stream : String} {e : LogEntry}
    (mem : e ∈ sortByTime (entries.filter (·.stream = stream))) : e.stream = stream := by
  have := (sortByTime_perm _).mem_iff.mp mem
  simpa using (List.mem_filter.mp this).2

/-- The entries of a stream stand in one piece, and by time. -/
theorem exists_groupByStream_eq_append (entries : List LogEntry) (stream : String) :
    ∃ front back,
      groupByStream entries = front ++ sortByTime (entries.filter (·.stream = stream)) ++ back ∧
      (∀ e ∈ front, e.stream ≠ stream) ∧ ∀ e ∈ back, e.stream ≠ stream := by
  rw [groupByStream_eq_flatMap]
  by_cases known : stream ∈ streams entries
  · -- the stream is listed once, so only its own group holds its entries
    obtain ⟨before, after, split⟩ := List.append_of_mem known
    have nodup := nodup_streams entries
    rw [split, List.nodup_middle, List.nodup_cons, List.mem_append, not_or] at nodup
    obtain ⟨⟨not_before, not_after⟩, -⟩ := nodup
    rw [split, List.flatMap_append, List.flatMap_cons, ← List.append_assoc]
    refine ⟨_, _, rfl, fun e mem => ?_, fun e mem => ?_⟩
    · obtain ⟨s, hs, mem⟩ := List.mem_flatMap.mp mem
      rw [stream_of_mem_group mem]
      exact fun same => not_before (same ▸ hs)
    · obtain ⟨s, hs, mem⟩ := List.mem_flatMap.mp mem
      rw [stream_of_mem_group mem]
      exact fun same => not_after (same ▸ hs)
  · rw [filter_eq_nil_of_notMem_streams known]
    refine ⟨_, [], (List.append_nil _).symm.trans (List.append_nil _).symm, fun e mem => ?_,
      fun e mem => absurd mem List.not_mem_nil⟩
    obtain ⟨s, hs, mem⟩ := List.mem_flatMap.mp mem
    rw [stream_of_mem_group mem]
    exact fun same => known (same ▸ hs)

theorem filter_groupByStream (entries : List LogEntry) (stream : String) :
    (groupByStream entries).filter (·.stream = stream) =
      sortByTime (entries.filter (·.stream = stream)) := by
  obtain ⟨front, back, split, not_front, not_back⟩ := exists_groupByStream_eq_append entries stream
  have front_nil : front.filter (·.stream = stream) = [] := by simpa using not_front
  have back_nil : back.filter (·.stream = stream) = [] := by simpa using not_back
  have all : (sortByTime (entries.filter (·.stream = stream))).filter (·.stream = stream) =
      sortByTime (entries.filter (·.stream = stream)) :=
    List.filter_eq_self.mpr fun e mem => by simpa using stream_of_mem_group mem
  rw [split, List.filter_append, List.filter_append, front_nil, back_nil, all]
  simp

/-! ### Stable groupings -/

/-- Entries are shown grouped by stream: every stream in one piece, the streams in the order in
which they first occur, each by time, and entries of one stream and one time in their order. -/
structure StablyGrouped (entries shown : List LogEntry) : Prop where
  /-- The same entries are shown. -/
  perm : shown.Perm entries
  /-- The entries of a stream stand in one piece. -/
  contiguous : ∀ stream, ∃ front here back, shown = front ++ here ++ back ∧
    (∀ e ∈ here, e.stream = stream) ∧
    (∀ e ∈ front, e.stream ≠ stream) ∧ ∀ e ∈ back, e.stream ≠ stream
  /-- A stream that first occurs earlier is shown earlier. -/
  appearance : shown.Pairwise fun a b => firstAt entries a.stream ≤ firstAt entries b.stream
  /-- A stream is shown by time. -/
  chronological : ∀ stream,
    (shown.filter (·.stream = stream)).Pairwise fun a b => a.timestamp ≤ b.timestamp
  /-- Entries of one stream and one time stay in their order. -/
  stable : ∀ stream time, shown.filter (fun e => e.stream = stream ∧ e.timestamp = time) =
    entries.filter fun e => e.stream = stream ∧ e.timestamp = time

theorem firstAt_inj {a b : LogEntry} (mem : a ∈ entries) :
    firstAt entries a.stream = firstAt entries b.stream ↔ a.stream = b.stream :=
  List.idxOf_inj (List.mem_map_of_mem mem)

theorem filter_stream_and_time (entries : List LogEntry) (stream : String) (time : Int) :
    entries.filter (fun e => e.stream = stream ∧ e.timestamp = time) =
      (entries.filter (·.stream = stream)).filter (·.timestamp = time) := by
  rw [List.filter_filter]
  exact List.filter_congr fun e _ => by rw [Bool.decide_and, Bool.and_comm]

/-- Grouping groups. -/
theorem stablyGrouped_groupByStream (entries : List LogEntry) :
    StablyGrouped entries (groupByStream entries) where
  perm := groupByStream_perm entries
  contiguous stream := by
    obtain ⟨front, back, split, not_front, not_back⟩ :=
      exists_groupByStream_eq_append entries stream
    exact ⟨front, _, back, split, fun e => stream_of_mem_group, not_front, not_back⟩
  appearance := by
    rw [groupByStream_eq_flatMap, List.pairwise_flatMap]
    constructor
    · intro s _
      refine List.pairwise_of_forall_mem_list fun a ha b hb => ?_
      rw [stream_of_mem_group ha, stream_of_mem_group hb]
    · refine (pairwise_streams entries).imp fun lt a ha b hb => ?_
      rw [stream_of_mem_group ha, stream_of_mem_group hb]
      exact lt.le
  chronological stream := by
    rw [filter_groupByStream]
    exact pairwise_sortByTime _
  stable stream time := by
    rw [filter_stream_and_time, filter_stream_and_time, filter_groupByStream, filter_sortByTime]

/-- The place of an entry among others: where its stream first occurs, then its time. -/
def place (entries : List LogEntry) (e : LogEntry) : Nat ×ₗ Int :=
  toLex (firstAt entries e.stream, e.timestamp)

theorem place_eq_iff {a b : LogEntry} (mem : a ∈ entries) :
    place entries a = place entries b ↔ a.stream = b.stream ∧ a.timestamp = b.timestamp := by
  rw [place, place, toLex_inj, Prod.ext_iff, firstAt_inj mem]

/-- What is grouped is sorted by the places of its entries. -/
theorem StablyGrouped.sorted (h : StablyGrouped entries shown) :
    shown.Pairwise fun a b => place entries a ≤ place entries b := by
  rw [List.pairwise_iff_forall_sublist]
  intro a b sub
  have le := List.pairwise_iff_forall_sublist.mp h.appearance sub
  rw [place, place, Prod.Lex.toLex_le_toLex]
  rcases le.lt_or_eq with lt | equal
  · exact .inl lt
  · refine .inr ⟨equal, ?_⟩
    have mem : a ∈ entries := h.perm.mem_iff.mp (sub.subset (by simp))
    have same : a.stream = b.stream := (firstAt_inj mem).mp equal
    have sub' := sub.filter (·.stream = b.stream)
    rw [List.filter_eq_self.mpr (by simp [same])] at sub'
    exact List.pairwise_iff_forall_sublist.mp (h.chronological b.stream) sub'

/-- Entries of one place stay in their order. -/
theorem StablyGrouped.classes (h : StablyGrouped entries shown) (k : Nat ×ₗ Int) :
    shown.filter (place entries · = k) = entries.filter (place entries · = k) := by
  by_cases taken : ∃ e ∈ entries, place entries e = k
  · obtain ⟨e, -, rfl⟩ := taken
    have iff {x : LogEntry} (mem : x ∈ entries) :
        decide (place entries x = place entries e) =
          decide (x.stream = e.stream ∧ x.timestamp = e.timestamp) :=
      decide_eq_decide.mpr (place_eq_iff mem)
    rw [List.filter_congr fun x mem => iff (h.perm.mem_iff.mp mem),
      List.filter_congr fun x mem => iff mem]
    exact h.stable e.stream e.timestamp
  · have none : entries.filter (place entries · = k) = [] := by
      rw [List.filter_eq_nil_iff]
      exact fun e mem equal => taken ⟨e, mem, of_decide_eq_true equal⟩
    rw [none, List.filter_eq_nil_iff]
    exact fun e mem equal => taken ⟨e, h.perm.mem_iff.mp mem, of_decide_eq_true equal⟩

/-- There is only one way to show entries grouped. -/
theorem StablyGrouped.eq {shown' : List LogEntry} (h : StablyGrouped entries shown)
    (h' : StablyGrouped entries shown') : shown = shown' :=
  eq_of_sorted_of_classes h.sorted h'.sorted fun k => by rw [h.classes, h'.classes]

/-- Entries by place, those of one place in their order. -/
def arranged (entries : List LogEntry) : List LogEntry :=
  entries.mergeSort fun a b => place entries a ≤ place entries b

/-- What is grouped is the stable sort by place. -/
theorem StablyGrouped.eq_arranged (h : StablyGrouped entries shown) :
    shown = arranged entries := by
  have : IsTrans LogEntry fun a b => place entries a ≤ place entries b := ⟨fun _ _ _ => le_trans⟩
  have : Std.Total fun a b => place entries a ≤ place entries b := ⟨fun _ _ => le_total _ _⟩
  refine eq_of_sorted_of_classes h.sorted (List.pairwise_mergeSort' _ entries) fun k => ?_
  rw [h.classes]
  refine (filter_eq_of_keeps_order (r := fun a b => place entries a ≤ place entries b) _
    (List.mergeSort_perm _ _) (fun c ordered sub => ?_) ?_).symm
  · refine List.sublist_mergeSort ?_ ?_ (by simpa using ordered) sub
    · simpa using fun a b c => le_trans (a := place entries a)
    · simpa using fun a b => le_total (place entries a) (place entries b)
  · refine List.pairwise_of_forall_mem_list fun a ha b hb => ?_
    simp only [List.mem_filter, decide_eq_true_eq] at ha hb
    rw [ha.2, hb.2]

theorem firstAt_cons (e : LogEntry) (entries : List LogEntry) (stream : String) :
    firstAt (e :: entries) stream =
      if e.stream = stream then 0 else firstAt entries stream + 1 := by
  rw [firstAt, List.map_cons, List.idxOf_cons]
  by_cases same : e.stream = stream
  · rw [if_pos same, beq_iff_eq.mpr same]
    rfl
  · rw [if_neg same, beq_false_of_ne same]
    rfl

/-- Streams that stand in the order of some rank stand in the order in which they first occur. -/
theorem pairwise_firstAt_of_rank {rank : String → Nat}
    (inj : ∀ a ∈ shown, ∀ b : LogEntry, rank a.stream = rank b.stream → a.stream = b.stream)
    (ordered : shown.Pairwise fun a b => rank a.stream ≤ rank b.stream) :
    shown.Pairwise fun a b => firstAt shown a.stream ≤ firstAt shown b.stream := by
  induction shown with
  | nil => exact .nil
  | cons e rest ih =>
    obtain ⟨first, ordered⟩ := List.pairwise_cons.mp ordered
    have inner := ih (fun a mem => inj a (List.mem_cons_of_mem e mem)) ordered
    refine List.pairwise_cons.mpr ⟨fun b _ => ?_, ?_⟩
    · simp [firstAt_cons]
    · refine (inner.and ordered).imp_of_mem fun {b c} hb _ ⟨le, rank_le⟩ => ?_
      rw [firstAt_cons, firstAt_cons]
      by_cases same : e.stream = b.stream
      · simp [same]
      · -- `c` is no entry of the first stream, for `b` stands between them
        have other : e.stream ≠ c.stream := fun same' =>
          same (inj e (by simp) b (le_antisymm (first b hb) (same' ▸ rank_le)))
        rw [if_neg same, if_neg other]
        exact Nat.add_le_add_right le 1

/-- What is grouped is grouped in its own right. -/
theorem StablyGrouped.self (h : StablyGrouped entries shown) : StablyGrouped shown shown where
  perm := .rfl
  contiguous := h.contiguous
  appearance := pairwise_firstAt_of_rank
    (fun _ mem _ => (firstAt_inj (h.perm.mem_iff.mp mem)).mp) h.appearance
  chronological := h.chronological
  stable _ _ := rfl

/-- **Grouping is the stable grouping.**  Entries are shown stream by stream, the streams in the
order in which they first occur, each by time, and entries of one stream and one time in their
order.  This is the only such arrangement: it is the stable sort by the place where the stream
first occurs and the time.  Grouping what is grouped changes nothing. -/
theorem groups_stably (entries : List LogEntry) :
    StablyGrouped entries (groupByStream entries) ∧
    (∀ shown, StablyGrouped entries shown → shown = groupByStream entries) ∧
    groupByStream entries = (entries.mergeSort fun a b => place entries a ≤ place entries b) ∧
    ∀ shown, StablyGrouped entries shown → groupByStream shown = shown := by
  have grouped := stablyGrouped_groupByStream entries
  refine ⟨grouped, fun shown h => h.eq grouped, grouped.eq_arranged, fun shown h => ?_⟩
  exact (stablyGrouped_groupByStream shown).eq h.self

/-- Two streams whose entries alternate, with a tie in one and a time before the epoch in both. -/
theorem groups_stably_two_streams :
    let entries : List LogEntry := [⟨"web", 7, "first"⟩, ⟨"job", -2, "b"⟩, ⟨"web", 7, "second"⟩,
      ⟨"job", -9, "a"⟩, ⟨"web", -1, "zeroth"⟩]
    let shown : List LogEntry := [⟨"web", -1, "zeroth"⟩, ⟨"web", 7, "first"⟩, ⟨"web", 7, "second"⟩,
      ⟨"job", -9, "a"⟩, ⟨"job", -2, "b"⟩]
    groupByStream entries = shown ∧ StablyGrouped entries shown ∧ groupByStream shown = shown := by
  intro entries shown
  obtain ⟨grouped, -, -, again⟩ := groups_stably entries
  have eq : groupByStream entries = shown := by decide +kernel
  exact ⟨eq, eq ▸ grouped, again shown (eq ▸ grouped)⟩

end LogEntry

/-! ### The event of a page -/

/-- The event of a page shows the texts of its entries in their arrangement. -/
theorem Tail.eventOf_eq (entries : List LogEntry) :
    eventOf entries = { lines := (LogEntry.arranged entries).map LogEntry.text } := by
  rw [eventOf, (LogEntry.stablyGrouped_groupByStream entries).eq_arranged]

end DeployWatch
