import ClaimQueue.Task.Retry
import ClaimQueue.Text.Utf8
import ClaimQueue.Time.Span

/-! The commands of a queue on a broker, and their words. Everything lies under one namespace: a
stream of tasks with a consumer group, a hash of claims, a hash of results, a list of dead letters
and a list of entries that no one could read. -/

namespace ClaimQueue

namespace Broker

structure Settings where
  url : String := "redis://127.0.0.1:6379"
  /-- Before every key. One namespace for each class of workers. -/
  space : String := "evoq"
  group : String := "workers"
  /-- The name of this client in the group. -/
  consumer : String
  retry : RetryPolicy := {}
  /-- Pause between two looks for a result. -/
  resultPoll : Span := .ofMillis 100

inductive Command where
  | createGroup
  /-- Appends a task. -/
  | append (body : List UInt8)
  /-- Takes a delivered entry out of the claims of the group. -/
  | acknowledge (entry : String)
  | delete (entry : String)
  /-- The next entry that was delivered to nobody, after a wait of so many milliseconds at most. -/
  | readNew (block : Option Nat)
  | readEntry (entry : String)
  /-- Takes over entries that lay idle for so many milliseconds. -/
  | takeIdle (idle batch : Nat)
  | length
  | claimSummary
  /-- One claim of this client. -/
  | ownClaims
  | consumers
  | forget (consumer : String)
  | claimOf (id : String)
  | setClaim (id value : String)
  | dropClaim (id : String)
  | saveResult (id body : String)
  | resultOf (id : String)
  | scanResults (cursor : Nat)
  | bury (letter : String)
  | letters (stop : Int)
  | unbury (letter : String)
  | letterCount
  /-- Keeps an unreadable entry for operators. -/
  | park (body : List UInt8)
  deriving DecidableEq, Repr

namespace Settings

def key (s : Settings) (name : String) : String := s.space ++ ":" ++ name

def stream (s : Settings) : String := s.key "stream"

def claims (s : Settings) : String := s.key "claims"

def results (s : Settings) : String := s.key "results"

def dead (s : Settings) : String := s.key "dead"

def malformed (s : Settings) : String := s.key "malformed"

end Settings

/-- How many results are asked for in one page. -/
def pageSize : Nat := 100

/-- The field that holds a task. -/
def taskField : String := "task"

namespace Command

/-- A command's words; a body may be any bytes. -/
def words (s : Settings) : Command → List String × List (List UInt8)
  | .createGroup => (["XGROUP", "CREATE", s.stream, s.group, "0", "MKSTREAM"], [])
  | .append body => (["XADD", s.stream, "*", taskField], [body])
  | .acknowledge entry => (["XACK", s.stream, s.group, entry], [])
  | .delete entry => (["XDEL", s.stream, entry], [])
  | .readNew block =>
    (["XREADGROUP", "GROUP", s.group, s.consumer, "COUNT", "1"] ++
      (match block with
        | some ms => ["BLOCK", toString ms]
        | none => []) ++ ["STREAMS", s.stream, ">"], [])
  | .readEntry entry => (["XRANGE", s.stream, entry, entry], [])
  | .takeIdle idle batch =>
    (["XAUTOCLAIM", s.stream, s.group, s.consumer, toString idle, "0-0", "COUNT",
      toString batch], [])
  | .length => (["XLEN", s.stream], [])
  | .claimSummary => (["XPENDING", s.stream, s.group], [])
  | .ownClaims => (["XPENDING", s.stream, s.group, "-", "+", "1", s.consumer], [])
  | .consumers => (["XINFO", "CONSUMERS", s.stream, s.group], [])
  | .forget consumer => (["XGROUP", "DELCONSUMER", s.stream, s.group, consumer], [])
  | .claimOf id => (["HGET", s.claims, id], [])
  | .setClaim id value => (["HSET", s.claims, id, value], [])
  | .dropClaim id => (["HDEL", s.claims, id], [])
  | .saveResult id body => (["HSET", s.results, id, body], [])
  | .resultOf id => (["HGET", s.results, id], [])
  | .scanResults cursor =>
    (["HSCAN", s.results, toString cursor, "COUNT", toString pageSize], [])
  | .bury letter => (["LPUSH", s.dead, letter], [])
  | .letters stop => (["LRANGE", s.dead, "0", toString stop], [])
  | .unbury letter => (["LREM", s.dead, "1", letter], [])
  | .letterCount => (["LLEN", s.dead], [])
  | .park body => (["LPUSH", s.malformed], [body])

def bytes (s : Settings) (c : Command) : List (List UInt8) :=
  (c.words s).1.map Text.Utf8.bytes ++ (c.words s).2

end Command

end Broker

end ClaimQueue
