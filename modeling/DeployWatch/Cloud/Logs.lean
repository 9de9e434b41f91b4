/-
# Logs of the provider

Entries of a log group, the queries that ask for them and the pages that answer.  A page may
come with a token; a query that carries it continues where the page ended.
-/

namespace DeployWatch

/-- A line of a log. -/
structure LogEntry where
  /-- The stream it was written to. -/
  stream : String
  /-- When it was written, in milliseconds since the start of 1970. -/
  timestamp : Int
  message : String
  deriving DecidableEq, Repr, Inhabited

/-- A question to a log store. -/
structure LogQuery where
  group : String
  /-- The streams to look at; none means all of them. -/
  streams : List String := []
  /-- The time of the earliest entries asked for. -/
  start : Option Int := none
  /-- A pattern that the provider filters entries by. -/
  filter : Option String := none
  /-- Where the answer to an earlier query ended. -/
  token : Option String := none
  deriving DecidableEq, Repr, Inhabited

/-- The answer of a log store. -/
structure LogPage where
  entries : List LogEntry
  /-- Where this page ends. -/
  token : Option String
  deriving DecidableEq, Repr, Inhabited

end DeployWatch
