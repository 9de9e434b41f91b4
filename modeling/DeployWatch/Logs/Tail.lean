/-
# Tailing a log

A tail follows a log group from the moment it is started until it is cancelled or a query
fails.  Every query carries the token of the last page that brought a new one; a page with
the same token again is nothing new.  A page with a new token and entries becomes one event,
and a failed query becomes the last event.
-/

import DeployWatch.Cloud.Provider
import DeployWatch.Logs.Rendering
import DeployWatch.Settings.Basic
import DeployWatch.Time.Clock
import DeployWatch.Watch.Poller

namespace DeployWatch

open DeployWatch.Watch DeployWatch.Time

/-- A batch of new log lines, or the failure that ended the tail. -/
structure TailEvent where
  lines : List String := []
  fault : Option CloudFault := none
  deriving DecidableEq, Repr, Inhabited

/-- A log store with states in `σ`. -/
structure LogStore (σ : Type) where
  /-- Sends a query at a time; gives the milliseconds until the answer. -/
  ask : Nat → LogQuery → σ → σ × Nat
  /-- The answer to the last query. -/
  answer : LogQuery → σ → σ × Except CloudFault LogPage

/-- The state of a tail: the store, and the query that will be sent next. -/
structure Tail (σ : Type) where
  store : σ
  query : LogQuery

namespace Tail

variable {σ : Type}

/-- The event of a page with entries. -/
def eventOf (entries : List LogEntry) : TailEvent :=
  { lines := (LogEntry.groupByStream entries).map LogEntry.text }

/-- What an answer changes in the query, and what it gives to see. -/
def absorb (query : LogQuery) : Except CloudFault LogPage → LogQuery × Sample TailEvent
  | .error fault => (query, .finish { fault := some fault })
  | .ok page =>
    if page.token = query.token then (query, .pending)
    else
      let query := { query with token := page.token }
      if page.entries.isEmpty then (query, .pending) else (query, .emit [eventOf page.entries])

/-- The query with its start fixed: the first one is sent "now". -/
def dated (epoch : Int) (now : Nat) (query : LogQuery) : LogQuery :=
  { query with start := some (query.start.getD (epoch + now)) }

/-- Looks at a log.  The clock of the watch starts at `epoch`. -/
def sampler (store : LogStore σ) (epoch : Int) : Sampler (Tail σ) TailEvent where
  start now t :=
    let query := dated epoch now t.query
    let (state, latency) := store.ask now query t.store
    (⟨state, query⟩, latency)
  finish _ t :=
    let (state, page) := store.answer t.query t.store
    let (query, sample) := absorb t.query page
    (⟨state, query⟩, sample)

/-- A tail that has not begun. -/
def ofStore (store : σ) (settings : LogSettings) (group : String) (streams : List String) :
    Tail σ where
  store := store
  query := { group, streams, filter := settings.filter }

/-- The task that tails a log.  Its clock counts milliseconds, as the starts of queries do. -/
def task (store : LogStore σ) (epoch : Int) (settings : LogSettings) :
    Task (Poller (Tail σ) TailEvent) TailEvent :=
  Poller.task (sampler store epoch) { interval := Clock.millis.ticks settings.interval }

/-- A watch that tails a log. -/
def start (store : σ) (settings : LogSettings) (group : String) (streams : List String)
    (capacity : Nat) (cancelled : Bool) : Net (Poller (Tail σ) TailEvent) TailEvent :=
  Net.start { sampler := ofStore store settings group streams } capacity cancelled

end Tail

/-! ## A scripted store -/

/-- A store that answers from a script; a script that has run out repeats the last token on
empty pages. -/
structure LogScript where
  pages : List (Except CloudFault LogPage) := []
  /-- The token of the last page. -/
  lastToken : Option String := none
  /-- The milliseconds that the queries take; zero when there are no more. -/
  latencies : List Nat := []
  /-- The times of the queries, in their order. -/
  times : List Nat := []
  /-- The queries answered, in their order. -/
  queries : List LogQuery := []

namespace LogScript

/-- The page that answers a query, and the script after it. -/
def next (s : LogScript) (query : LogQuery) : LogScript × Except CloudFault LogPage :=
  let s := { s with queries := s.queries ++ [query] }
  match s.pages with
  | .ok page :: rest => ({ s with pages := rest, lastToken := page.token }, .ok page)
  | .error fault :: rest => ({ s with pages := rest }, .error fault)
  | [] => (s, .ok ⟨[], s.lastToken⟩)

/-- The scripted store. -/
def store : LogStore LogScript where
  ask now _ s :=
    ({ s with times := s.times ++ [now], latencies := s.latencies.drop 1 },
      s.latencies.head?.getD 0)
  answer query s := s.next query

/-- The start of every query is set, and the same as that of the first. -/
def hasFixedStart (s : LogScript) (query : LogQuery) : Bool :=
  query.start.isSome && s.queries.head?.all (·.start = query.start)

end LogScript

/-! ## The provider's store -/

/-- The provider's replies to come, and the requests so far. -/
structure LogReplies where
  replies : List (Provider.Reply Provider.LogAnswer) := []
  requests : List Provider.LogRequest := []

/-- The store of a provider that gives these replies; when there are no more, it refuses. -/
def LogReplies.store : LogStore LogReplies where
  ask _ query s := ({ s with requests := s.requests ++ [Provider.requestOf query] }, 0)
  answer query s :=
    ({ s with replies := s.replies.drop 1 },
      Provider.pageOfReply query (s.replies.head?.getD (.error ⟨"", ""⟩)))

end DeployWatch
