/-
# The provider's interface

What is sent to the provider and what is made of its answers.  Stacks are named in form
bodies; logs are asked for with a group, and the answer is turned into a page whose token is
the provider's own while there is one, and otherwise the position that the events lead to.
-/

import DeployWatch.Cloud.Fault
import DeployWatch.Cloud.LogPosition
import DeployWatch.Cloud.Logs
import DeployWatch.Cloud.StackStatus
import DeployWatch.Text.Percent

namespace DeployWatch.Provider

open DeployWatch.Text

/-- The provider's refusal of a request. -/
structure Refusal where
  code : String
  message : String
  deriving DecidableEq, Repr

/-- The fault of an operation that was refused. -/
def Refusal.fault (r : Refusal) (operation : String) : CloudFault :=
  .request operation (r.code ++ ": " ++ r.message)

/-- An answer, or a refusal. -/
abbrev Reply (α : Type) := Except Refusal α

/-! ## Stacks -/

/-- The form body of a request about a stack. -/
def stackForm (operation stack : String) : String :=
  "Action=" ++ operation ++ "&Version=2010-05-15&StackName=" ++ Percent.formValue stack

/-- The operation that deletes a stack. -/
def deleteOperation : String := "DeleteStack"

/-- The operation that asks for the status of a stack. -/
def describeOperation : String := "DescribeStacks"

/-- The status of a stack that the provider sends without one. -/
def missingStatus : String := "no value was set"

/-- What the provider's answer to a deletion means. -/
def deletionOf : Reply Unit → Except CloudFault Unit
  | .ok () => .ok ()
  | .error refusal => .error (refusal.fault deleteOperation)

/-- The status in the provider's answer: that of the first stack listed. -/
def statusOf (stack : String) : Reply (List (Option String)) → Except CloudFault StackStatus
  | .error refusal => .error (refusal.fault describeOperation)
  | .ok [] => .error (.notFound ("stack " ++ stack))
  | .ok (name :: _) => .ok (StackStatus.ofName (name.getD missingStatus))

/-! ## Logs -/

/-- An event of a log as the provider sends it. -/
structure LogEvent where
  stream : String := ""
  timestamp : Int := 0
  message : String := ""
  id : String := ""
  deriving DecidableEq, Repr, Inhabited

/-- An event of which the provider may have left out any part. -/
def LogEvent.ofParts (stream : Option String) (timestamp : Option Int)
    (message id : Option String) : LogEvent :=
  ⟨stream.getD "", timestamp.getD 0, message.getD "", id.getD ""⟩

/-- The entry of an event. -/
def LogEvent.entry (e : LogEvent) : LogEntry := ⟨e.stream, e.timestamp, e.message⟩

/-- The place of an event in its log. -/
def LogEvent.place (e : LogEvent) : Int × String := (e.timestamp, e.id)

/-- The provider's answer to a request for events. -/
structure LogAnswer where
  events : List LogEvent
  /-- The provider's token, while there are more pages. -/
  token : Option String := none
  deriving DecidableEq, Repr, Inhabited

/-- A request for events. -/
structure LogRequest where
  group : String
  /-- The streams to look at, unless it is all of them. -/
  streams : Option (List String)
  start : Option Int
  filter : Option String
  /-- A token of the provider. -/
  token : Option String
  deriving DecidableEq, Repr

/-- The operation that asks for events. -/
def filterOperation : String := "FilterLogEvents"

/-- Where a query resumes. -/
structure Resumption where
  start : Option Int
  /-- The token to hand back to the provider. -/
  token : Option String
  /-- The position to skip seen events by. -/
  position : Option LogPosition
  deriving DecidableEq, Repr

/-- Where a query resumes: at the position in a token of this library, else where a token of
the provider says.  A malformed token of this library counts for nothing. -/
def resumption (q : LogQuery) : Resumption :=
  match q.token with
  | none => ⟨q.start, none, none⟩
  | some token =>
    if LogPosition.isOwn token then
      match LogPosition.decode? token with
      | some position => ⟨some position.timestamp, none, some position⟩
      | none => ⟨q.start, none, none⟩
    else ⟨q.start, some token, none⟩

/-- The request that a query makes. -/
def requestOf (q : LogQuery) : LogRequest where
  group := q.group
  streams := if q.streams.isEmpty then none else some q.streams
  start := (resumption q).start
  filter := q.filter
  token := (resumption q).token

/-- The events that have not been seen before a position. -/
def unseen (position : Option LogPosition) (events : List LogEvent) : List LogEvent :=
  match position with
  | none => events
  | some p => events.filter fun e => !p.hasSeen e.timestamp e.id

/-- The page that an answer makes for a query. -/
def pageOf (q : LogQuery) (answer : LogAnswer) : LogPage :=
  let position := (resumption q).position
  let fresh := unseen position answer.events
  let token := match answer.token with
    | some token => some token
    | none => match LogPosition.advance? position (fresh.map LogEvent.place) with
      | some next => some next.encode
      | none => q.token
  ⟨fresh.map LogEvent.entry, token⟩

/-- What a reply to a query means. -/
def pageOfReply (q : LogQuery) : Reply LogAnswer → Except CloudFault LogPage
  | .ok answer => .ok (pageOf q answer)
  | .error refusal => .error (refusal.fault filterOperation)

/-! ## A sequence of queries -/

/-- Which token a query of a sequence carries. -/
inductive TokenChoice where
  /-- The token that the query before it led to. -/
  | last
  | noToken
  | given (token : String)
  deriving DecidableEq, Repr

/-- The queries of a sequence with their replies, each turned into a request and a page.  A
query that fails has got no further, so its own token counts as the last one. -/
def replay (last : Option String) :
    List (LogQuery × TokenChoice × Reply LogAnswer) →
    List (LogRequest × Except CloudFault LogPage)
  | [] => []
  | (query, choice, reply) :: rest =>
    let token := match choice with
      | .last => last
      | .noToken => none
      | .given token => some token
    let query := { query with token }
    let page := pageOfReply query reply
    let next := match page with
      | .ok page => page.token
      | .error _ => token
    (requestOf query, page) :: replay next rest

end DeployWatch.Provider
