/-
# Decorating a fault keeps its identity

A fault comes into being in one of two ways: it is stated, or a failure of the system or of a part
of the program becomes one (`Origin`).  After that it may be decorated step by step, and a fault
that is named as the source of another one was made in the same way (`MadeFault`).

What comes of this depends on three things only: the origin, the contexts in their order, and what
is behind the source that was named last (`MadeFault.fault_eq`).  So no decoration touches the
category or the code, and a chain can be told by going from each fault to the source that was named
last for it (`MadeFault.chain_fault`).

The main statement is `identity_survives_decoration`.
-/

import DeployWatch.Proofs.Fault.Hints

namespace DeployWatch

/-! ### What decorations do to the parts of a fault -/

namespace Fault

/-- The code, the category and the message stand in the line in this order. -/
theorem display_intercalate (f : Fault) (contexts : List String) :
    { f with message := ": ".intercalate (f.message :: contexts) }.display =
      ": ".intercalate (f.display :: contexts) := by
  rw [display, display, String.intercalate_cons_append]

/-- Whatever the category puts in front of it, a message for the user ends with the message. -/
theorem userMessage_intercalate (f : Fault) (contexts : List String) :
    { f with message := ": ".intercalate (f.message :: contexts) }.userMessage =
      ": ".intercalate (f.userMessage :: contexts) := by
  obtain ⟨category, code, message, causes⟩ := f
  cases category with
  | config path => cases path <;> simp only [userMessage, String.intercalate_cons_append]
  | execution command => cases command <;> simp only [userMessage, String.intercalate_cons_append]
  | cloud => simp only [userMessage, String.intercalate_cons_append]
  | monitor | other => rfl

end Fault

/-! ### How a fault comes into being -/

/-- The failure of a part and what is behind it, the nearest first. -/
def PartFault.chain : PartFault → List String
  | process f => f.chain
  | cloud f => [f.message]
  | deletion f => f.chain
  | deploy f => [f.message]
  | health f => f.chain
  | settings f => f.chain
  | unparsed path words => [(unparsed path words).message, words]

/-- The causes of a fault that comes of a part are the failure of the part and what is behind it. -/
theorem PartFault.causes_toFault (f : PartFault) : f.toFault.causes = f.chain := by
  cases f with
  | health f => cases f <;> rfl
  | _ => rfl

/-- The codes of a fault that comes of a part lie in the thousand of its category. -/
theorem PartFault.thousand_toFault (f : PartFault) :
    f.toFault.code.toNat / 1000 = f.toFault.category.thousand := by
  cases f with
  | process f => cases f <;> (simp only [toFault, ProcessFault.toFault]; rfl)
  | cloud f => cases f <;> (simp only [toFault, CloudFault.toFault]; rfl)
  | deletion f => cases f <;> (simp only [toFault, DeletionFault.toFault]; rfl)
  | deploy f => cases f <;> (simp only [toFault, DeployFault.toFault]; rfl)
  | health f => cases f <;> (simp only [toFault, HealthFault.toFault]; rfl)
  | settings f => cases f <;> (simp only [toFault, SettingsFault.toFault]; rfl)
  | unparsed => simp only [toFault, SettingsFault.toFault]; rfl

/-- How a fault comes into being: it is stated, or it comes of a failure. -/
inductive Origin where
  | config (message : String)
  | configWith (code : Code) (message : String) (path : Option String)
  | execution (message : String)
  | executionWith (code : Code) (message : String) (command : Option String)
  | cloudWith (code : Code) (message : String)
  | monitorWith (code : Code) (message : String)
  | other (message : String)
  /-- The system refuses an operation, for a reason that may have causes in turn. -/
  | system (reason : String) (behind : List String)
  /-- A part fails, and the innermost of its reasons may have causes in turn. -/
  | part (f : PartFault) (behind : List String)
  deriving DecidableEq, Repr

namespace Origin

/-- The fault that comes into being. -/
def fault : Origin → Fault
  | config message => .config message
  | configWith code message path => ⟨.config path, code, message, []⟩
  | execution message => .execution message
  | executionWith code message command => ⟨.execution command, code, message, []⟩
  | cloudWith code message => ⟨.cloud, code, message, []⟩
  | monitorWith code message => ⟨.monitor, code, message, []⟩
  | other message => .other message
  | system reason behind =>
    (Fault.ofSystem reason).withCauses ((Fault.ofSystem reason).causes ++ behind)
  | part f behind => f.toFault.withCauses (f.toFault.causes ++ behind)

/-- What is behind the fault from the beginning: the failure that it comes of. -/
def behind : Origin → List String
  | system reason behind => reason :: behind
  | part f behind => f.chain ++ behind
  | _ => []

/-- The fault comes of a failure. -/
def IsConverted : Origin → Prop
  | system .. => True
  | part .. => True
  | _ => False

theorem causes_fault (o : Origin) : o.fault.causes = o.behind := by
  cases o with
  | part f behind =>
    show f.toFault.causes ++ behind = f.chain ++ behind
    rw [f.causes_toFault]
  | _ => rfl

/-- The code of a fault that comes of a failure lies in the thousand of its category. -/
theorem IsConverted.thousand {o : Origin} (converted : o.IsConverted) :
    o.fault.code.toNat / 1000 = o.fault.category.thousand := by
  cases o with
  | system => exact (by decide : Code.otherGeneric.toNat / 1000 = 9)
  | part f => exact f.thousand_toFault
  | _ => cases converted

end Origin

/-- The exit code that goes with a thousand of codes. -/
def Code.exitCodeOf? : Nat → Option Nat
  | 1 => some 2
  | 4 => some 5
  | 6 => some 6
  | 8 => some 8
  | 9 => some 1
  | _ => none

/-- The thousand of a category tells the exit code. -/
theorem Category.exitCodeOf?_thousand (c : Category) :
    Code.exitCodeOf? c.thousand = some c.exitCode := by
  cases c <;> rfl

/-! ### Faults in the making -/

/-- A fault in the making: how it came into being, and what was done to it after that. -/
inductive MadeFault where
  | origin (o : Origin)
  /-- Context is added. -/
  | context (m : MadeFault) (text : String)
  /-- Another fault is named as the source. -/
  | source (m s : MadeFault)
  /-- A failure of some other kind is named as the source, with what is behind it. -/
  | foreign (m : MadeFault) (text : String) (behind : List String)
  deriving Repr

namespace MadeFault

/-- The fault that has been made. -/
def fault : MadeFault → Fault
  | origin o => o.fault
  | context m text => m.fault.decorate (.context text)
  | source m s => m.fault.decorate (.causes s.fault.chain)
  | foreign m text behind => m.fault.decorate (.causes (text :: behind))

/-- How the fault came into being. -/
def root : MadeFault → Origin
  | origin o => o
  | context m _ => m.root
  | source m _ => m.root
  | foreign m _ _ => m.root

/-- The contexts, in the order in which they were added. -/
def contexts : MadeFault → List String
  | origin _ => []
  | context m text => m.contexts ++ [text]
  | source m _ => m.contexts
  | foreign m _ _ => m.contexts

/-- The chain of the source that was named last, and without one what was there from the
beginning. -/
def behind : MadeFault → List String
  | origin o => o.behind
  | context m _ => m.behind
  | source _ s => s.fault.chain
  | foreign _ text behind => text :: behind

/-- The line of the fault: that of its origin, and the contexts. -/
def line (m : MadeFault) : String := ": ".intercalate (m.root.fault.display :: m.contexts)

/-- The faults on the way from each fault to the source that was named last for it. -/
def sources : MadeFault → List MadeFault
  | origin _ => []
  | context m _ => m.sources
  | source _ s => s :: s.sources
  | foreign _ _ _ => []

/-- What is behind the last of these faults. -/
def bottom : MadeFault → List String
  | origin o => o.behind
  | context m _ => m.bottom
  | source _ s => s.bottom
  | foreign _ text behind => text :: behind

/-- A fault is known by its origin, its contexts and what is behind it. -/
theorem fault_eq (m : MadeFault) :
    m.fault = { m.root.fault with
      message := ": ".intercalate (m.root.fault.message :: m.contexts)
      causes := m.behind } := by
  induction m with
  | origin o =>
    rw [root, contexts, behind, String.intercalate_singleton, ← o.causes_fault]
    rfl
  | context m text ih =>
    have longer : ": ".intercalate (m.root.fault.message :: (m.contexts ++ [text])) =
        ": ".intercalate (m.root.fault.message :: m.contexts) ++ ": " ++ text := by
      rw [← List.cons_append, String.intercalate_append_of_ne_nil (by simp) (by simp),
        String.intercalate_singleton]
    rw [fault, ih, root, contexts, behind, longer]
    rfl
  | source m s ih =>
    rw [fault, ih]
    rfl
  | foreign m text behind ih =>
    rw [fault, ih]
    rfl

theorem display_fault (m : MadeFault) : m.fault.display = m.line := by
  rw [fault_eq, line, ← Fault.display_intercalate]
  rfl

theorem userMessage_fault (m : MadeFault) :
    m.fault.userMessage = ": ".intercalate (m.root.fault.userMessage :: m.contexts) := by
  rw [fault_eq, ← Fault.userMessage_intercalate]
  rfl

/-- The chain of a fault is its line and what is behind it. -/
theorem chain_eq (m : MadeFault) : m.fault.chain = m.fault.display :: m.behind := by
  rw [Fault.chain, fault_eq m]

/-- What is behind a fault are the lines of the sources that were named last, and what is behind
the last of them. -/
theorem behind_eq (m : MadeFault) : m.behind = m.sources.map line ++ m.bottom := by
  induction m with
  | origin o => rfl
  | context m text ih => exact ih
  | source m s _ ih => rw [behind, chain_eq, display_fault, ih]; rfl
  | foreign m text behind => rfl

/-- What is left of the origin of a fault, and what has come of the decorations. -/
structure KeepsIdentity (m : MadeFault) : Prop where
  /-- The category is that of the origin, and with it the file or the command that it names. -/
  category : m.fault.category = m.root.fault.category
  code : m.fault.code = m.root.fault.code
  exitCode : m.fault.exitCode = m.root.fault.exitCode
  /-- The line is that of the origin, and then each context in its order. -/
  display : m.fault.display = ": ".intercalate (m.root.fault.display :: m.contexts)
  /-- So is the message for the user. -/
  userMessage : m.fault.userMessage = ": ".intercalate (m.root.fault.userMessage :: m.contexts)
  /-- The chain is the line, and then the chain of the source that was named last. -/
  chain : m.fault.chain = m.fault.display :: m.behind
  /-- All the way down these are the lines of the faults that were named last. -/
  told : m.fault.chain = (m :: m.sources).map line ++ m.bottom

theorem keepsIdentity (m : MadeFault) : m.KeepsIdentity where
  category := by rw [fault_eq]
  code := by rw [fault_eq]
  exitCode := by rw [fault_eq, Fault.exitCode, Fault.exitCode]
  display := m.display_fault
  userMessage := m.userMessage_fault
  chain := m.chain_eq
  told := by rw [chain_eq, display_fault, behind_eq]; rfl

end MadeFault

/-- **Decorating a fault keeps its identity.**  However a fault came into being and whatever
contexts and sources it was given after that, its category, its code and its exit code are those of
its origin, its texts are those of its origin with the contexts behind them, and its chain goes on
with the source that was named last.  Faults of one origin with the same contexts and the same last
source are the same, in whatever order these were given and whatever was named before.  And the
code of a fault that comes of a failure lies in the thousand of its category, so that the code tells
the exit code. -/
theorem identity_survives_decoration :
    (∀ m : MadeFault, m.KeepsIdentity) ∧
    (∀ m m' : MadeFault, m.root = m'.root → m.contexts = m'.contexts → m.behind = m'.behind →
      m.fault = m'.fault) ∧
    ∀ m : MadeFault, m.root.IsConverted →
      m.fault.code.toNat / 1000 = m.fault.category.thousand ∧
      Code.exitCodeOf? (m.fault.code.toNat / 1000) = some m.fault.exitCode := by
  refine ⟨MadeFault.keepsIdentity, ?_, ?_⟩
  · intro m m' root contexts behind
    rw [m.fault_eq, m'.fault_eq, root, contexts, behind]
  · intro m converted
    have thousand : m.fault.code.toNat / 1000 = m.fault.category.thousand := by
      rw [m.keepsIdentity.code, m.keepsIdentity.category]
      exact converted.thousand
    refine ⟨thousand, ?_⟩
    rw [thousand]
    exact m.fault.category.exitCodeOf?_thousand

namespace MadeFault

/-- A service that could not be reached, in a fault that was given a name for what was going on. -/
def unreached : MadeFault :=
  .context (.origin (.part (.health (.client "https://argo" (.unavailable "refused"))) []))
    "while probing"

/-- A command that failed with another fault behind it, decorated in one order ... -/
def decorated : MadeFault :=
  .context (.source (.context (.foreign
    (.origin (.part (.process (.spawnFailed "cdk deploy" "busy")) ["pool"]))
    "first try" []) "in app") unreached) "gave up"

/-- ... and in another. -/
def redecorated : MadeFault :=
  .source (.context (.context
    (.origin (.part (.process (.spawnFailed "cdk deploy" "busy")) ["pool"]))
    "in app") "gave up") unreached

end MadeFault

open MadeFault in
/-- The two orders give the same fault, and its chain goes on with that of the other fault. -/
theorem identity_survives_reordering :
    decorated.fault = redecorated.fault ∧
    decorated.fault.chain =
      ["[E4007] Execution error: Failed to spawn 'cdk deploy': busy: in app: gave up",
        "[E6001] Cloud error: cannot reach https://argo: service unavailable: refused: while " ++
          "probing",
        "cannot reach https://argo: service unavailable: refused", "service unavailable: refused"] ∧
    decorated.fault.code.toNat / 1000 = 4 ∧ decorated.fault.exitCode = 5 ∧
    decorated.fault.userMessage =
      "Command 'cdk deploy' failed: Failed to spawn 'cdk deploy': busy: in app: gave up" := by
  obtain ⟨keeps, same, thousand⟩ := identity_survives_decoration
  refine ⟨same _ _ rfl rfl rfl, ?_, ?_, ?_, ?_⟩
  · rw [(keeps decorated).told]
    decide +kernel
  · rw [(thousand decorated trivial).1, (keeps decorated).category]
    rfl
  · rw [(keeps decorated).exitCode]
    rfl
  · rw [(keeps decorated).userMessage]
    decide +kernel

end DeployWatch
