/-
# A hint is never lost by wrapping

The remedy for a fault is looked up in its whole chain, and the row of the table that decides is the
first one whose phrase occurs there (`Hint.forMessage?_eq_some_iff`).  A phrase that occurs in a
text occurs in every text around it, so more text can only bring an earlier row to the fore
(`Hint.Decides.exists_le`).

The fault of a part carries the part's own text as its message.  Context is put behind the message
and causes are put behind the whole line, so the text stays in the chain whatever is done to the
fault (`Fault.message_infix_decorateAll`).
-/

import DeployWatch.Fault.Conversion
import Mathlib.Data.List.Infix

namespace DeployWatch

/-! ### The row that decides -/

namespace Hint

/-- A phrase occurs somewhere in a text. -/
def Occurs (phrase text : String) : Prop := phrase.toList <:+: text.toList

theorem occursIn_iff_infix {phrase text : List Char} :
    occursIn phrase text = true ↔ phrase <:+: text := by
  induction text with
  | nil => simp [occursIn]
  | cons c rest ih =>
    rw [occursIn, Bool.or_eq_true, List.isPrefixOf_iff_prefix, ih, List.infix_cons_iff]

theorem occursIn_iff {phrase text : String} :
    occursIn phrase.toList text.toList = true ↔ Occurs phrase text := occursIn_iff_infix

/-- The row of the table that decides about a text, and the remedy in it. -/
structure Decides (text : String) (i : Nat) (remedy : String) : Prop where
  /-- The phrase of the row occurs in the text. -/
  occurs : ∃ phrase, table[i]? = some (phrase, remedy) ∧ Occurs phrase text
  /-- No phrase of an earlier row does. -/
  first : ∀ j < i, ∀ row, table[j]? = some row → ¬ Occurs row.1 text

/-- The remedy for a text is that of the row that decides about it. -/
theorem forMessage?_eq_some_iff {text remedy : String} :
    forMessage? text = some remedy ↔ ∃ i, Decides text i remedy := by
  unfold forMessage?
  rw [Option.map_eq_some_iff]
  constructor
  · rintro ⟨row, found, rfl⟩
    obtain ⟨occurs, i, bound, here, first⟩ := List.find?_eq_some_iff_getElem.mp found
    refine ⟨i, ⟨row.1, ?_, occursIn_iff.mp occurs⟩, ?_⟩
    · rw [List.getElem?_eq_getElem bound, here]
    · intro j before other there
      obtain ⟨inside, rfl⟩ := List.getElem?_eq_some_iff.mp there
      have absent := first j before
      rw [Bool.not_eq_true', ← Bool.not_eq_true, occursIn_iff] at absent
      exact absent
  · rintro ⟨i, ⟨phrase, there, occurs⟩, first⟩
    obtain ⟨bound, here⟩ := List.getElem?_eq_some_iff.mp there
    refine ⟨(phrase, remedy), ?_, rfl⟩
    apply List.find?_eq_some_iff_getElem.mpr
    refine ⟨occursIn_iff.mpr occurs, i, bound, here, ?_⟩
    intro j before
    rw [Bool.not_eq_true', ← Bool.not_eq_true, occursIn_iff]
    exact first j before _ (List.getElem?_eq_getElem (by omega))

/-- Where a phrase of the table occurs, its row decides or one before it. -/
theorem exists_decides_of_occurs {text phrase remedy : String} {i : Nat}
    (row : table[i]? = some (phrase, remedy)) (occurs : Occurs phrase text) :
    ∃ j ≤ i, ∃ remedy', Decides text j remedy' := by
  have mem : (phrase, remedy) ∈ table := List.mem_of_getElem? row
  have found : (table.find? fun row => occursIn row.1.toList text.toList).isSome = true :=
    List.find?_isSome.mpr ⟨(phrase, remedy), mem, occursIn_iff.mpr occurs⟩
  obtain ⟨first, eq⟩ := Option.isSome_iff_exists.mp found
  obtain ⟨j, decides⟩ := forMessage?_eq_some_iff.mp (show forMessage? text = some first.2 by
    rw [forMessage?, eq, Option.map_some])
  refine ⟨j, ?_, first.2, decides⟩
  by_contra later
  exact decides.first i (by omega) _ row occurs

/-- More text around a text leaves the decision to the same row or to one before it. -/
theorem Decides.exists_le {text text' remedy : String} {i : Nat} (decides : Decides text i remedy)
    (around : text.toList <:+: text'.toList) : ∃ j ≤ i, ∃ remedy', Decides text' j remedy' := by
  obtain ⟨phrase, row, occurs⟩ := decides.occurs
  exact exists_decides_of_occurs row (occurs.trans around)

end Hint

/-! ### What is done to a fault -/

namespace Fault

theorem message_suffix_display (f : Fault) : f.message.toList <:+ f.display.toList := by
  rw [display, String.toList_append]
  exact List.suffix_append _ _

theorem display_prefix_alternate (f : Fault) : f.display.toList <+: f.alternate.toList := by
  rw [alternate, chain]
  cases f.causes with
  | nil => simp
  | cons cause causes =>
    rw [String.intercalate_cons_cons, String.append_assoc, String.toList_append]
    exact List.prefix_append _ _

/-- A decoration keeps what the message says and at most adds to its end. -/
theorem message_prefix_decorate (f : Fault) (step : Decoration) :
    f.message.toList <+: (f.decorate step).message.toList := by
  cases step with
  | context text =>
    show f.message.toList <+: (f.message ++ ": " ++ text).toList
    rw [String.append_assoc, String.toList_append]
    exact List.prefix_append _ _
  | causes chain => exact List.prefix_rfl

theorem message_prefix_decorateAll (f : Fault) (steps : List Decoration) :
    f.message.toList <+: (f.decorateAll steps).message.toList := by
  induction steps generalizing f with
  | nil => exact List.prefix_rfl
  | cons step steps ih => exact (message_prefix_decorate f step).trans (ih (f.decorate step))

/-- The message of a fault stays in the chain, whatever decorations are made. -/
theorem message_infix_decorateAll (f : Fault) (steps : List Decoration) :
    f.message.toList <:+: (f.decorateAll steps).alternate.toList := by
  have kept := message_prefix_decorateAll f steps
  have shown := message_suffix_display (f.decorateAll steps)
  have carried := display_prefix_alternate (f.decorateAll steps)
  exact (kept.isInfix.trans shown.isInfix).trans carried.isInfix

end Fault

/-! ### The failures of the parts -/

/-- A failure of a part of the program. -/
inductive PartFault where
  | process (f : ProcessFault)
  | cloud (f : CloudFault)
  | deletion (f : DeletionFault)
  | deploy (f : DeployFault)
  | health (f : HealthFault)
  | settings (f : SettingsFault)
  /-- A settings file is refused, and the parser has words of its own for it. -/
  | unparsed (path words : String)
  deriving DecidableEq, Repr

namespace PartFault

/-- The failure in words. -/
def message : PartFault → String
  | process f => f.message
  | cloud f => f.message
  | deletion f => f.message
  | deploy f => f.message
  | health f => f.message
  | settings f => f.message
  | unparsed path words => "failed to parse " ++ path ++ ": " ++ words

/-- The fault of the whole program. -/
def toFault : PartFault → Fault
  | process f => f.toFault
  | cloud f => f.toFault
  | deletion f => f.toFault
  | deploy f => f.toFault
  | health f => f.toFault
  | settings f => f.toFault
  | unparsed path words =>
    { (SettingsFault.rejected path .malformed).toFault with
      message := (unparsed path words).message
      causes := [(unparsed path words).message, words] }

/-- A failure's own text is the message of its fault, in full. -/
theorem message_toFault (f : PartFault) : f.toFault.message = f.message := by
  cases f with
  | health f => cases f <;> rfl
  | _ => rfl

end PartFault

/-- **A hint is never lost by wrapping.**  If a failure's own text has a remedy, then its fault has
one after any decorations: any contexts, and any causes with whatever is behind them.  The row that
decides about the whole chain is the one that decides about the failure's own text, or stands before
it in the table. -/
theorem hint_survives_wrapping (f : PartFault) (steps : List Fault.Decoration) (remedy : String)
    (known : Hint.forMessage? f.message = some remedy) :
    ∃ i j remedy', Hint.Decides f.message i remedy ∧
      (f.toFault.decorateAll steps).hint? = some remedy' ∧
      Hint.Decides (f.toFault.decorateAll steps).alternate j remedy' ∧ j ≤ i := by
  obtain ⟨i, decides⟩ := Hint.forMessage?_eq_some_iff.mp known
  have carried : f.message.toList <:+: (f.toFault.decorateAll steps).alternate.toList := by
    rw [← f.message_toFault]
    exact f.toFault.message_infix_decorateAll steps
  obtain ⟨j, before, remedy', decides'⟩ := decides.exists_le carried
  have found : (f.toFault.decorateAll steps).hint? = some remedy' :=
    Hint.forMessage?_eq_some_iff.mpr ⟨j, decides'⟩
  exact ⟨i, j, remedy', decides, found, decides', before⟩

/-- A throttled request. -/
def throttled : PartFault := .cloud (.request "DescribeStacks" "Rate exceeded")

/-- Context around a cause that was a fault with a hint of its own. -/
def wrapping : List Fault.Decoration :=
  [.context "while deleting", .causes ["ExpiredToken", "socket closed"], .context "gave up"]

/-- A throttled request keeps a hint in any case; here a cause with a row further up decides. -/
theorem throttling_hint_survives :
    Hint.forMessage? throttled.message =
      some "The provider is throttling requests. Wait a moment, then retry." ∧
    (∃ i j remedy, Hint.Decides throttled.message i
        "The provider is throttling requests. Wait a moment, then retry." ∧
      (throttled.toFault.decorateAll wrapping).hint? = some remedy ∧
      Hint.Decides (throttled.toFault.decorateAll wrapping).alternate j remedy ∧ j ≤ i) ∧
    (throttled.toFault.decorateAll wrapping).hint? =
      some "Your cloud credentials have expired. Refresh them (e.g. `aws sso login`) and retry." := by
  have known : Hint.forMessage? throttled.message =
      some "The provider is throttling requests. Wait a moment, then retry." := by decide +kernel
  refine ⟨known, ?_, by decide +kernel⟩
  obtain ⟨i, j, remedy, decides, found, decides', before⟩ :=
    hint_survives_wrapping throttled wrapping _ known
  exact ⟨i, j, remedy, decides, found, decides', before⟩

end DeployWatch
