/-
# Rendering log entries

A page of entries is shown stream by stream: streams in the order in which they first occur,
and within a stream by time, entries of the same time in the order of the page.
-/

import DeployWatch.Cloud.Logs
import DeployWatch.Time.Timestamp

namespace DeployWatch

open DeployWatch.Time

namespace LogEntry

/-- A message without the line ends it closes with. -/
def trimmedMessage (cs : List Char) : List Char :=
  (cs.reverse.dropWhile fun c => c = '\n' || c = '\r').reverse

/-- An entry in one line. -/
def text (e : LogEntry) : String :=
  Timestamp.text e.timestamp ++ " [" ++ e.stream ++ "] "
    ++ String.ofList (trimmedMessage e.message.toList)

/-- Adds an entry to the group of its stream, or opens a group at the end. -/
def addToGroups (groups : List (String × List LogEntry)) (e : LogEntry) :
    List (String × List LogEntry) :=
  match groups with
  | [] => [(e.stream, [e])]
  | (stream, group) :: rest =>
    if stream = e.stream then (stream, group ++ [e]) :: rest
    else (stream, group) :: addToGroups rest e

/-- Inserts an entry by time, before the entries of the same time. -/
def insertByTime (e : LogEntry) : List LogEntry → List LogEntry
  | [] => [e]
  | head :: rest =>
    if e.timestamp ≤ head.timestamp then e :: head :: rest else head :: insertByTime e rest

/-- Entries by time; those of the same time stay in their order. -/
def sortByTime (entries : List LogEntry) : List LogEntry := entries.foldr insertByTime []

/-- Entries stream by stream, and by time within a stream. -/
def groupByStream (entries : List LogEntry) : List LogEntry :=
  (entries.foldl addToGroups []).flatMap fun group => sortByTime group.2

end LogEntry

end DeployWatch
