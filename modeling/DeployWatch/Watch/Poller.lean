/-
# Polling until the end

The task behind watches that look at something again and again: it takes a sample, forwards
the sample's events into the queue one by one, waits for the interval, and starts over.  It
ends after a sample that says so, when it is cancelled, or when it finds that the consumer is
gone.

Being cancelled is noticed while it waits, after a sample, and while the queue is full.  That
the consumer is gone is noticed only when an event is sent.
-/

import DeployWatch.Watch.Net

namespace DeployWatch.Watch

/-- What a look at the thing watched gives. -/
structure Sample (ε : Type) where
  events : List ε := []
  /-- There will be nothing more to see. -/
  terminal : Bool := false
  deriving DecidableEq, Repr

namespace Sample

variable {ε : Type}

/-- Nothing yet. -/
def pending : Sample ε := {}

/-- Some events. -/
def emit (events : List ε) : Sample ε := { events }

/-- The last event. -/
def finish (event : ε) : Sample ε := ⟨[event], true⟩

end Sample

/-- A way of looking at something.  A sample is started at one time and gives its result
after its latency. -/
structure Sampler (σ ε : Type) where
  /-- Starts a sample at a time; gives the latency. -/
  start : Nat → σ → σ × Nat
  /-- Ends the sample at a time. -/
  finish : Nat → σ → σ × Sample ε

/-- How a poller is scheduled. -/
structure Schedule where
  /-- The ticks between the end of a cycle and the next sample. -/
  interval : Nat
  /-- Wait before the first sample, too. -/
  delayFirst : Bool := false
  deriving DecidableEq, Repr

/-- What a poller is about to do. -/
inductive Phase (ε : Type) where
  /-- It has not run yet. -/
  | fresh
  | waiting (due : Nat)
  | sampling (due : Nat)
  /-- It has events left to send. -/
  | forwarding (event : ε) (rest : List ε) (terminal : Bool)
  | ended
  deriving DecidableEq, Repr

/-- The record of a cycle: when its sample started, what came of it, and when all of its
events were in the queue. -/
structure Cycle (ε : Type) where
  started : Nat
  sample : Option (Sample ε) := none
  settled : Option Nat := none
  deriving DecidableEq, Repr

/-- The state of a poller. -/
structure Poller (σ ε : Type) where
  sampler : σ
  phase : Phase ε := .fresh
  /-- The cycles so far, the newest first. -/
  cycles : List (Cycle ε) := []

namespace Poller

variable {σ ε : Type}

/-- The poller after changing the record of the current cycle. -/
def record (p : Poller σ ε) (change : Cycle ε → Cycle ε) : Poller σ ε :=
  match p.cycles with
  | c :: rest => { p with cycles := change c :: rest }
  | [] => p

/-- Starts a sample. -/
def startSample (sampler : Sampler σ ε) (now : Nat) (p : Poller σ ε) : Poller σ ε :=
  let (state, latency) := sampler.start now p.sampler
  ⟨state, .sampling (now + latency), ⟨now, none, none⟩ :: p.cycles⟩

/-- Goes on to the events that are left of the current cycle, or beyond it. -/
def forward (schedule : Schedule) (now : Nat) (p : Poller σ ε) (events : List ε)
    (terminal : Bool) : Poller σ ε :=
  match events with
  | e :: rest => { p with phase := .forwarding e rest terminal }
  | [] =>
    { p with phase := if terminal then .ended else .waiting (now + schedule.interval) }.record
      fun c => { c with settled := some now }

/-- The poller after it has ended. -/
def stop (p : Poller σ ε) : Poller σ ε := { p with phase := .ended }

/-- The steps that a poller may take. -/
def moves (sampler : Sampler σ ε) (schedule : Schedule) (v : View) (p : Poller σ ε) :
    List (Move (Poller σ ε) ε) :=
  match p.phase with
  | .fresh =>
    if schedule.delayFirst then
      [{ state := { p with phase := .waiting (v.now + schedule.interval) } }]
    else [{ state := p.startSample sampler v.now }]
  | .waiting due =>
    (if v.cancelled then [{ state := p.stop }] else [])
      ++ (if due ≤ v.now then [{ state := p.startSample sampler v.now }] else [])
  | .sampling due =>
    if due ≤ v.now then
      let (state, sample) := sampler.finish v.now p.sampler
      let p := { p with sampler := state }.record fun c => { c with sample := some sample }
      if v.cancelled then [{ state := p.stop }]
      else [{ state := p.forward schedule v.now sample.events sample.terminal }]
    else []
  | .forwarding e rest terminal =>
    if v.gone then [{ state := p.stop }]
    else
      (if v.room then [{ state := p.forward schedule v.now rest terminal, event := some e }]
        else [])
        ++ (if v.cancelled then [{ state := p.stop }] else [])
  | .ended => []

/-- The timer that a poller waits for. -/
def timer? (p : Poller σ ε) : Option Nat :=
  match p.phase with
  | .waiting due => some due
  | .sampling due => some due
  | _ => none

/-- The poller has ended. -/
def hasEnded (p : Poller σ ε) : Bool :=
  match p.phase with
  | .ended => true
  | _ => false

/-- The task of a poller. -/
def task (sampler : Sampler σ ε) (schedule : Schedule) : Task (Poller σ ε) ε where
  moves := moves sampler schedule
  timer? := timer?
  ended := hasEnded

/-- The times at which samples were started, in their order. -/
def startTimes (p : Poller σ ε) : List Nat := (p.cycles.map Cycle.started).reverse

/-- The samples taken, in their order. -/
def samples (p : Poller σ ε) : List (Sample ε) := (p.cycles.filterMap Cycle.sample).reverse

end Poller

/-! ## Scripted samples -/

/-- A sampler that replays samples, each with its latency, and then finds nothing for ever. -/
def scripted (ε : Type) : Sampler (List (Nat × Sample ε)) ε where
  start _ script := (script, (script.head?.map (·.1)).getD 0)
  finish _ script := match script with
    | [] => ([], .pending)
    | (_, sample) :: rest => (rest, sample)

end DeployWatch.Watch
