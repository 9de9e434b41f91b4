/-
# Reading two pipes

What a pipe delivers are its items without the pauses.  A look at a pipe takes the first of them,
finds that there are none left, or leaves it in a pause (`Pipe.look`); a look at both pipes takes
the first item of one of them, finds both at their end, or leaves one of them in a pause and none
that is over (`Merge.look`).

So looks at both pipes, one after the other, give the items of both in an order that keeps the
order of each (`Merge.Gives.interleaving`).
-/

import Mathlib.Order.Nat
import DeployWatch.Deploy.Run

namespace DeployWatch

/-! ### Orders of arrival -/

/-- `Interleaving a b c`: the list `c` has the elements of `a` and those of `b`, each in their
own order. -/
inductive Interleaving {α : Type} : List α → List α → List α → Prop
  | nil : Interleaving [] [] []
  | left {a b c : List α} (x : α) (rest : Interleaving a b c) : Interleaving (x :: a) b (x :: c)
  | right {a b c : List α} (x : α) (rest : Interleaving a b c) : Interleaving a (x :: b) (x :: c)

namespace Interleaving

variable {α : Type} {a a' b b' c c' : List α}

theorem of_left (a : List α) : Interleaving a [] a := by
  induction a with
  | nil => exact .nil
  | cons x a ih => exact .left x ih

theorem of_right (b : List α) : Interleaving [] b b := by
  induction b with
  | nil => exact .nil
  | cons x b ih => exact .right x ih

theorem append (h : Interleaving a b c) (h' : Interleaving a' b' c') :
    Interleaving (a ++ a') (b ++ b') (c ++ c') := by
  induction h with
  | nil => exact h'
  | left x _ ih => exact .left x ih
  | right x _ ih => exact .right x ih

/-- Nothing is lost or added. -/
theorem mem_iff (h : Interleaving a b c) {x : α} : x ∈ c ↔ x ∈ a ∨ x ∈ b := by
  induction h with
  | nil => simp
  | left y _ ih => simp [ih, or_assoc]
  | right y _ ih => simp [ih, or_left_comm]

/-- With nothing on the right there is only one order. -/
theorem eq_of_right_nil (h : Interleaving a [] c) : c = a := by
  generalize hb : ([] : List α) = b at h
  induction h with
  | nil => rfl
  | left x _ ih => rw [ih hb]
  | right => cases hb

end Interleaving

/-! ### One pipe -/

/-- What a pipe with these items delivers: all but the pauses. -/
def PipeItem.delivered (items : List PipeItem) : List PipeItem :=
  items.filter fun item => match item with
    | .pause _ => false
    | _ => true

theorem PipeItem.fault_mem_delivered {items : List PipeItem} {f : ProcessFault} :
    .fault f ∈ delivered items ↔ .fault f ∈ items := by
  simp [delivered]

/-- The item that a look has given. -/
def PipeState.item? : PipeState → Option PipeItem
  | .line text => some (.line text)
  | .fault f => some (.fault f)
  | .pending | .ended => none

namespace Pipe

open PipeItem

variable {now : Nat} {p p' q : Pipe} {s : PipeState}

/-- What a look at a pipe does. -/
inductive Look (now : Nat) (p p' : Pipe) (s : PipeState) : Prop
  | item (x : PipeItem) (given : s.item? = some x)
      (came : delivered p.items = x :: delivered p'.items) (lighter : p'.weight < p.weight)
  /-- It is in a pause, perhaps in a new one. -/
  | pending (given : s = .pending) (due : Nat) (asleep : p'.asleep = some due) (later : now < due)
      (same : delivered p'.items = delivered p.items) (lighter : p' = p ∨ p'.weight < p.weight)
  | ended (given : s = .ended) (exhausted : delivered p.items = []) (rest : p' = ⟨[], none⟩)

/-- A look at a pipe with less to come. -/
theorem Look.of_lighter (look : Look now p p' s) (same : delivered q.items = delivered p.items)
    (lighter : p.weight < q.weight) : Look now q p' s := by
  cases look with
  | item x given came less => exact .item x given (same.trans came) (less.trans lighter)
  | pending given due asleep later still less =>
    refine .pending given due asleep later (still.trans same.symm) (.inr ?_)
    rcases less with rfl | less
    · exact lighter
    · exact less.trans lighter
  | ended given exhausted rest => exact .ended given (same.trans exhausted) rest

theorem look_next (now : Nat) (items : List PipeItem) :
    Look now ⟨items, none⟩ (next now items).1 (next now items).2 := by
  induction items with
  | nil => exact .ended rfl rfl rfl
  | cons item rest ih =>
    match item with
    | .line text => exact .item _ rfl rfl (by simp [next, weight])
    | .fault f => exact .item _ rfl rfl (by simp [next, weight])
    | .pause 0 => exact ih.of_lighter rfl (by simp [weight])
    | .pause (ms + 1) =>
      refine .pending rfl (now + (ms + 1)) rfl (by omega) rfl (.inr ?_)
      simp only [next, weight, List.length_cons, Option.isSome_some, Option.isSome_none, if_true,
        Bool.false_eq_true, if_false]
      omega

/-- A look at a pipe takes its first item, leaves it in a pause, or finds it at its end. -/
theorem look (now : Nat) (p : Pipe) : Look now p (p.poll now).1 (p.poll now).2 := by
  obtain ⟨items, asleep⟩ := p
  cases asleep with
  | none => exact look_next now items
  | some due =>
    unfold poll
    by_cases early : now < due
    · simp only [early, if_true]
      exact .pending rfl due rfl early rfl (.inl rfl)
    · simp only [early, if_false]
      exact (look_next now items).of_lighter rfl (by simp [weight])

/-- From one look to the next the pipe has given nothing, and it is in no pause that is over. -/
structure Quiet (now : Nat) (p p' : Pipe) : Prop where
  same : delivered p'.items = delivered p.items
  lighter : p'.weight ≤ p.weight
  later : ∀ due, p'.asleep = some due → now < due
  /-- If a pause was over something has changed. -/
  expired : ∀ due ≤ now, p.asleep = some due → p'.weight < p.weight

/-- A pipe at its end is quiet. -/
theorem Quiet.rest (now : Nat) : Quiet now ⟨[], none⟩ ⟨[], none⟩ where
  same := rfl
  lighter := le_rfl
  later := by rintro due ⟨⟩
  expired := by rintro due _ ⟨⟩

/-- A pipe is quiet unless a look gives an item. -/
theorem Look.quiet (look : Look now p p' s) (none : s.item? = none) : Quiet now p p' := by
  cases look with
  | item x given => rw [none] at given; cases given
  | pending _ due asleep later same lighter =>
    refine ⟨same, ?_, fun due' asleep' => ?_, fun due' past asleep' => ?_⟩
    · rcases lighter with rfl | lighter
      · exact le_rfl
      · exact lighter.le
    · rw [asleep, Option.some.injEq] at asleep'
      exact asleep' ▸ later
    · rcases lighter with rfl | lighter
      · rw [asleep, Option.some.injEq] at asleep'
        omega
      · exact lighter
  | ended _ exhausted rest =>
    subst rest
    refine ⟨exhausted.symm, by simp [weight], by rintro due ⟨⟩, fun due _ asleep => ?_⟩
    simp [weight, asleep]

end Pipe

/-! ### Both pipes -/

namespace Merge

open PipeItem Pipe

variable {now : Nat} {m m' : Merge} {s : PipeState}

/-- One of the pipes. -/
def pipe (m : Merge) (isError : Bool) : Pipe := if isError then m.stderr else m.stdout

/-- One of the pipes has ended. -/
def hasEnded (m : Merge) (isError : Bool) : Bool := if isError then m.stderrEnded else m.stdoutEnded

/-- A pipe that has ended has nothing more to give. -/
def Sound (m : Merge) : Prop := ∀ side, m.hasEnded side = true → m.pipe side = ⟨[], none⟩

theorem weight_eq (m : Merge) (side : Bool) :
    m.weight = (m.pipe side).weight + (m.pipe !side).weight := by
  cases side
  · rfl
  · exact Nat.add_comm _ _

/-- What a look at both pipes does. -/
inductive Look (now : Nat) (m m' : Merge) (s : PipeState) : Prop
  | item (x : PipeItem) (given : s.item? = some x) (side : Bool)
      (came : delivered (m.pipe side).items = x :: delivered (m'.pipe side).items)
      (other : delivered (m'.pipe !side).items = delivered (m.pipe !side).items)
      (lighter : m'.weight < m.weight)
  /-- One of them is in a pause. -/
  | pending (given : s = .pending) (quiet : ∀ side, Quiet now (m.pipe side) (m'.pipe side))
      (asleep : ∃ side due, (m'.pipe side).asleep = some due)
  | ended (given : s = .ended) (exhausted : ∀ side, delivered (m.pipe side).items = [])
      (rest : ∀ side, m'.pipe side = ⟨[], none⟩)

/-! #### A look at one of them -/

section Side

variable (now : Nat) (side : Bool) (m : Merge)

theorem pollSide_pipe : (m.pollSide now side).1.pipe side = ((m.pipe side).poll now).1 := by
  cases side <;> rfl

theorem pollSide_other : (m.pollSide now side).1.pipe (!side) = m.pipe (!side) := by
  cases side <;> rfl

theorem pollSide_state : (m.pollSide now side).2 = ((m.pipe side).poll now).2 := by
  cases side <;> rfl

theorem pollSide_hasEnded : (m.pollSide now side).1.hasEnded side =
    (m.hasEnded side || ((m.pipe side).poll now).2 == .ended) := by
  cases side <;> rfl

theorem pollSide_hasEnded_other :
    (m.pollSide now side).1.hasEnded (!side) = m.hasEnded (!side) := by
  cases side <;> rfl

theorem look_side :
    Pipe.Look now (m.pipe side) ((m.pollSide now side).1.pipe side) (m.pollSide now side).2 := by
  rw [pollSide_pipe, pollSide_state]
  exact Pipe.look now _

end Side

theorem Sound.pollSide (sound : m.Sound) {side : Bool} (alive : m.hasEnded side = false) :
    (m.pollSide now side).1.Sound := by
  intro other ended
  by_cases same : other = side
  · subst same
    rw [pollSide_hasEnded, alive, Bool.false_or, beq_iff_eq, ← pollSide_state] at ended
    cases look_side now other m with
    | item x given => rw [ended] at given; cases given
    | pending given => rw [ended] at given; cases given
    | ended _ _ rest => exact rest
  · obtain rfl : other = !side := by cases other <;> cases side <;> simp_all
    rw [pollSide_hasEnded_other] at ended
    rw [pollSide_other]
    exact sound _ ended

/-! #### A look at both -/

/-- When one pipe has ended the other one is looked at. -/
theorem poll_of_one {side : Bool} (alive : m.hasEnded side = false)
    (gone : m.hasEnded (!side) = true) : m.poll now = m.pollSide now side := by
  cases side <;> simp_all [hasEnded, poll]

/-- When both are there the one whose turn it is comes first, and the other one is looked at
unless that gives an item. -/
theorem poll_of_both (alive : ∀ side, m.hasEnded side = false) :
    m.poll now =
      let first := { m with errorTurn := !m.errorTurn }.pollSide now m.errorTurn
      let second := first.1.pollSide now (!m.errorTurn)
      if first.2.item?.isSome then first
      else (second.1, if first.2 = .pending ∧ second.2 = .ended then .pending else second.2) := by
  obtain ⟨stdout, stderr, turn, stdoutEnded, stderrEnded, taken⟩ := m
  obtain rfl : stdoutEnded = false := alive false
  obtain rfl : stderrEnded = false := alive true
  simp only [poll]
  generalize pollSide now turn _ = first
  obtain ⟨m, state⟩ := first
  cases state with
  | line | fault => rfl
  | pending | ended =>
    simp only [PipeState.item?, Option.isSome_none, Bool.false_eq_true, if_false]
    generalize m.pollSide now _ = second
    obtain ⟨m, state⟩ := second
    cases state <;> rfl

/-- What holds of a pipe and of the other one holds of both. -/
theorem forall_side {P : Bool → Prop} (side : Bool) (here : P side) (there : P !side) :
    ∀ side, P side := by
  intro side'
  cases side <;> cases side' <;> assumption

/-- A look at one pipe that gives an item. -/
theorem look_of_item {side : Bool} {x : PipeItem}
    (look : Pipe.Look now (m.pipe side) (m'.pipe side) s) (some : s.item? = some x)
    (other : m'.pipe (!side) = m.pipe (!side)) : Look now m m' s := by
  cases look with
  | item y given came lighter =>
    refine .item y given side came (by rw [other]) ?_
    rw [weight_eq m side, weight_eq m' side, other]
    exact Nat.add_lt_add_right lighter _
  | pending given | ended given => rw [given] at some; cases some

/-- A look at the only pipe that is left. -/
theorem look_of_one (sound : m.Sound) {side : Bool} (gone : m.hasEnded (!side) = true) :
    Look now m (m.pollSide now side).1 (m.pollSide now side).2 := by
  have rest : m.pipe (!side) = ⟨[], none⟩ := sound _ gone
  have other := pollSide_other now side m
  have quiet : Quiet now (m.pipe (!side)) ((m.pollSide now side).1.pipe (!side)) := by
    rw [other, rest]
    exact .rest now
  have look := look_side now side m
  cases given : (m.pollSide now side).2.item? with
  | some x => exact look_of_item look given other
  | none =>
    have here := look.quiet given
    cases look with
    | item x given' => rw [given] at given'; cases given'
    | pending given due asleep =>
      exact .pending given (forall_side side here quiet) ⟨side, due, asleep⟩
    | ended given exhausted last =>
      exact .ended given (forall_side side exhausted (by rw [rest]; rfl))
        (forall_side side last (other.trans rest))

/-- A look at one pipe and, as that gave nothing, at the other one. -/
theorem look_of_both {m₁ m₂ : Merge} {side : Bool} {s₁ s₂ : PipeState}
    (first : Pipe.Look now (m.pipe side) (m₁.pipe side) s₁) (none : s₁.item? = none)
    (before : m₁.pipe (!side) = m.pipe (!side))
    (second : Pipe.Look now (m₁.pipe (!side)) (m₂.pipe (!side)) s₂)
    (after : m₂.pipe side = m₁.pipe side) :
    Look now m m₂ (if s₁ = .pending ∧ s₂ = .ended then .pending else s₂) := by
  have quiet := after ▸ first.quiet none
  rw [before] at second
  cases given : s₂.item? with
  | some x =>
    rw [if_neg fun h => by rw [h.2] at given; cases given]
    cases second with
    | item y given came lighter =>
      refine .item y given (!side) came (by rw [Bool.not_not]; exact quiet.same) ?_
      have := quiet.lighter
      rw [weight_eq m side, weight_eq m₂ side]
      omega
    | pending given' | ended given' => rw [given'] at given; cases given
  | none =>
    have both : ∀ side, Quiet now (m.pipe side) (m₂.pipe side) :=
      forall_side side quiet (second.quiet given)
    cases second with
    | item x given' => rw [given] at given'; cases given'
    | pending given due asleep => exact .pending (by simp [given]) both ⟨!side, due, asleep⟩
    | ended given exhausted last =>
      cases first with
      | item x given => rw [none] at given; cases given
      | pending given' due asleep =>
        exact .pending (by simp [given, given']) both ⟨side, due, after ▸ asleep⟩
      | ended given' exhausted' last' =>
        exact .ended (by simp [given, given']) (forall_side side exhausted' exhausted)
          (forall_side side (after ▸ last') last)

/-- A look at both pipes takes the first item of one of them, finds both at their end, or leaves
one of them in a pause. -/
theorem look (now : Nat) (sound : m.Sound) :
    (m.poll now).1.Sound ∧ Look now m (m.poll now).1 (m.poll now).2 := by
  by_cases out : m.hasEnded false = true <;> by_cases err : m.hasEnded true = true
  · -- both have ended before
    have still : m.poll now = (m, .ended) := by
      unfold poll
      rw [show m.stdoutEnded = true from out, show m.stderrEnded = true from err]
    have rest : ∀ side, m.pipe side = ⟨[], none⟩ :=
      forall_side false (sound false out) (sound true err)
    rw [still]
    exact ⟨sound, .ended rfl (fun side => by rw [rest side]; rfl) rest⟩
  · have alive : m.hasEnded true = false := by simpa using err
    rw [poll_of_one alive out]
    exact ⟨sound.pollSide alive, look_of_one sound out⟩
  · have alive : m.hasEnded false = false := by simpa using out
    rw [poll_of_one alive err]
    exact ⟨sound.pollSide alive, look_of_one sound err⟩
  · have alive : ∀ side, m.hasEnded side = false :=
      forall_side false (by simpa using out) (by simpa using err)
    rw [poll_of_both alive]
    -- passing on the turn changes neither pipe
    have sound : Sound { m with errorTurn := !m.errorTurn } := sound
    have sound₁ : Sound (pollSide now m.errorTurn { m with errorTurn := !m.errorTurn }).1 :=
      sound.pollSide (alive m.errorTurn)
    generalize hx : pollSide now m.errorTurn { m with errorTurn := !m.errorTurn } = x at sound₁
    have first : Pipe.Look now (m.pipe m.errorTurn) (x.1.pipe m.errorTurn) x.2 :=
      hx ▸ look_side now m.errorTurn { m with errorTurn := !m.errorTurn }
    have other : x.1.pipe (!m.errorTurn) = m.pipe (!m.errorTurn) :=
      hx ▸ pollSide_other now m.errorTurn { m with errorTurn := !m.errorTurn }
    have alive₁ : x.1.hasEnded (!m.errorTurn) = false :=
      hx ▸ (pollSide_hasEnded_other now m.errorTurn { m with errorTurn := !m.errorTurn }).trans
        (alive _)
    cases given : x.2.item? with
    | some item =>
      simp only [given, Option.isSome_some, if_true]
      exact ⟨sound₁, look_of_item first given other⟩
    | none =>
      simp only [given, Option.isSome_none, Bool.false_eq_true, if_false]
      exact ⟨sound₁.pollSide alive₁, look_of_both first given other (look_side now _ x.1)
        (by simpa using pollSide_other now (!m.errorTurn) x.1)⟩

/-! #### When to look again -/

/-- The clock is set to the end of a pause of one of the pipes. -/
theorem asleep_of_wake? {due : Nat} (h : m.wake? = some due) :
    ∃ side, (m.pipe side).asleep = some due := by
  unfold wake? at h
  split at h
  · next a b ha hb =>
    rcases Nat.le_total a b with le | le
    · exact ⟨false, by rw [← h, min_eq_left le]; exact ha⟩
    · exact ⟨true, by rw [← h, min_eq_right le]; exact hb⟩
  · next ha hb => exact ⟨false, by rw [← h]; exact ha⟩
  · exact ⟨true, h⟩

/-- If one of the pipes is in a pause the clock is set. -/
theorem wake?_of_asleep {side : Bool} {due : Nat} (h : (m.pipe side).asleep = some due) :
    ∃ due', m.wake? = some due' := by
  unfold wake?
  split
  · exact ⟨_, rfl⟩
  · exact ⟨_, rfl⟩
  · next out => cases side with
    | false => rw [show m.stdout.asleep = some due from h] at out; cases out
    | true => exact ⟨due, h⟩

/-- While neither pipe gives anything they do not get heavier, and they get lighter when a pause
was over. -/
theorem weight_of_quiet (quiet : ∀ side, Quiet now (m.pipe side) (m'.pipe side)) :
    m'.weight ≤ m.weight ∧ ∀ due ≤ now, m.wake? = some due → m'.weight < m.weight := by
  refine ⟨Nat.add_le_add (quiet false).lighter (quiet true).lighter, fun due past wake => ?_⟩
  obtain ⟨side, asleep⟩ := asleep_of_wake? wake
  have here := (quiet side).expired due past asleep
  have there := (quiet !side).lighter
  rw [weight_eq m side, weight_eq m' side]
  omega

/-! #### Looks one after the other -/

/-- A look takes at most one item, from the front of one of the pipes. -/
theorem Look.interleaving (look : Look now m m' s) : ∃ out err,
    Interleaving out err s.item?.toList ∧
      delivered m.stdout.items = out ++ delivered m'.stdout.items ∧
      delivered m.stderr.items = err ++ delivered m'.stderr.items := by
  cases look with
  | item x given side came other =>
    rw [given]
    cases side with
    | false => exact ⟨[x], [], .of_left [x], came, Eq.symm other⟩
    | true => exact ⟨[], [x], .of_right [x], Eq.symm other, came⟩
  | pending given quiet =>
    rw [given]
    exact ⟨[], [], .nil, (quiet false).same.symm, (quiet true).same.symm⟩
  | ended given exhausted rest =>
    have out_rest : m'.stdout = ⟨[], none⟩ := rest false
    have err_rest : m'.stderr = ⟨[], none⟩ := rest true
    rw [given, out_rest, err_rest]
    exact ⟨[], [], .nil, exhausted false, exhausted true⟩

/-- `Gives m order m'`: looks at both pipes, at whatever times, have given these items in this
order and led from `m` to `m'`. -/
inductive Gives (m : Merge) : List PipeItem → Merge → Prop
  | nil : Gives m [] m
  | snoc {order : List PipeItem} {m' : Merge} (before : Gives m order m') (now : Nat) :
      Gives m (order ++ (m'.poll now).2.item?.toList) (m'.poll now).1

theorem Gives.sound {order : List PipeItem} (gives : m.Gives order m') (sound : m.Sound) :
    m'.Sound := by
  induction gives with
  | nil => exact sound
  | snoc _ now ih => exact (look now ih).1

/-- What looks have given are the first items of both pipes, in an order that keeps that of
each. -/
theorem Gives.interleaving {order : List PipeItem} (gives : m.Gives order m') (sound : m.Sound) :
    ∃ out err, Interleaving out err order ∧
      delivered m.stdout.items = out ++ delivered m'.stdout.items ∧
      delivered m.stderr.items = err ++ delivered m'.stderr.items := by
  induction gives with
  | nil => exact ⟨[], [], .nil, rfl, rfl⟩
  | @snoc order m' before now ih =>
    obtain ⟨out, err, mixed, hout, herr⟩ := ih
    obtain ⟨out', err', mixed', hout', herr'⟩ := (look now (before.sound sound)).2.interleaving
    refine ⟨out ++ out', err ++ err', mixed.append mixed', ?_, ?_⟩
    · rw [hout, hout', List.append_assoc]
    · rw [herr, herr', List.append_assoc]

end Merge

end DeployWatch
