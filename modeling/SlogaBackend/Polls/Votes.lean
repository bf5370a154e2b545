import Mathlib.Data.FinEnum
import SlogaBackend.Base
import SlogaBackend.Lib.Counters
import SlogaBackend.Lib.Publications

/-!
# Votes on a poll

A poll and its ballots are stored apart. A vote stores the ballot, then adds what it changes to the
counts of the poll, and then looks whether the poll has been closed in the meantime; if so it puts
the ballot back and counts all ballots anew. Whoever closes a poll counts them anew too, and
announces the final results; a vote that stays is announced with the counts there are then.

The single calls to the store and the single publications are the atomic steps.
-/

namespace SlogaBackend.Polls

open Checks

/-! ## The stored documents -/

structure Poll where
  channel : String
  author : String
  /-- The ids of the answers. -/
  answers : List UInt8
  allowMultiselect : Bool
  expiresAt : Int
  closed : Bool
  counts : Counters UInt8
  totalVotes : Int

/-- One user's ballot on the poll. -/
structure PollVote where
  user : String
  answerIds : List UInt8

/-- The poll, and its ballots by their users. -/
structure Store where
  poll : Poll
  votes : Table String PollVote

def Poll.isExpired (poll : Poll) (nowMs : Int) : Bool := poll.expiresAt ≤ nowMs

/-- What the ballots count up to. -/
def tally (votes : List PollVote) : Counters UInt8 :=
  votes.foldl (fun counts vote => counts.bumpAll 1 vote.answerIds) ∅

/-! ## The calls -/

inductive Call where
  | fetchPoll
  | upsertPollVote (user : String) (answerIds : List UInt8)
  | removePollVote (user : String)
  | fetchPollVotes
  | applyPollCountDeltas (deltas : Counters UInt8) (ballotDelta : Int)
  | setPollCounts (counts : Counters UInt8) (totalVotes : Int)
  | closePollIfOpen

/-- The two changes of a ballot answer with the answer ids it had. -/
abbrev Reply : Call → Type
  | .fetchPoll => Poll
  | .upsertPollVote .. => Option (List UInt8)
  | .removePollVote _ => Option (List UInt8)
  | .fetchPollVotes => List PollVote
  | .applyPollCountDeltas .. => Unit
  | .setPollCounts .. => Unit
  | .closePollIfOpen => Bool

def perform (_ : Nat) : (c : Call) → Store → Store × Reply c
  | .fetchPoll, s => (s, s.poll)
  | .upsertPollVote user answerIds, s =>
    ({ s with votes := s.votes.insert user ⟨user, answerIds⟩ },
      (s.votes.get user).map PollVote.answerIds)
  | .removePollVote user, s =>
    ({ s with votes := s.votes.erase user }, (s.votes.get user).map PollVote.answerIds)
  | .fetchPollVotes, s => (s, s.votes.values)
  | .applyPollCountDeltas deltas ballotDelta, s =>
    ({ s with poll := { s.poll with
        counts := s.poll.counts.settleAll deltas
        totalVotes := s.poll.totalVotes + ballotDelta } }, ())
  | .setPollCounts counts totalVotes, s => ({ s with poll := { s.poll with counts, totalVotes } }, ())
  | .closePollIfOpen, s =>
    if s.poll.closed then (s, false) else ({ s with poll := { s.poll with closed := true } }, true)

/-! ## The requests -/

inductive VoteError where
  | failedValidation
  | notFound
  | pollClosed
  | invalidProperty
  /-- What the permission checks answer. -/
  | refused (error : Error)

/-- The counts of the answers and the number of ballots. -/
abbrev FinalCounts := List (UInt8 × Int) × Int

/-- The events on the topic of the channel. -/
inductive Publication where
  | pollVoteUpdate (counts : FinalCounts)
  | pollClose (counts : FinalCounts)
  deriving DecidableEq

abbrev Program (α : Type) := Prog VoteError (Public Call Publication) (Public.Answer Reply) α

/-- One call to the store. -/
def ask (c : Call) : Program (Reply c) := op (Public.call c)

def publish (event : Publication) : Program Unit := op (Public.publish event)

/-- `Poll::recount`. -/
def recount (poll : Poll) : Program FinalCounts := do
  let votes ← ask .fetchPollVotes
  let _ ← ask (.setPollCounts (tally votes) votes.length)
  return (poll.answers.map fun id => (id, (tally votes).value id), votes.length)

/-- `Poll::close`; whoever does not win publishes nothing. -/
def close (poll : Poll) : Program (Option FinalCounts) := do
  let won ← ask .closePollIfOpen
  if won then
    let counts ← recount poll
    let _ ← publish (.pollClose counts)
    return some counts
  else return none

def resolveOpenPoll (channel : String) (nowMs : Int) (permissions : Result Unit) :
    Program Poll := do
  check (permissions.mapError .refused)
  let poll ← ask .fetchPoll
  check (refuseIf (poll.channel ≠ channel) .notFound)
  check (refuseIf (poll.closed = true) .pollClosed)
  if poll.isExpired nowMs then
    let _ ← close poll
    check (.error .pollClosed)
  else return poll

def compensateWriteAfterClose (poll : Poll) (user : String) (previous : Option (List UInt8)) :
    Program Unit := do
  let _ ← match previous with
    | some answerIds => ask (.upsertPollVote user answerIds)
    | none => ask (.removePollVote user)
  let _ ← recount poll
  check (.error .pollClosed)

/-- `Poll::counts_vec`. -/
def Poll.countsVec (poll : Poll) : List (UInt8 × Int) :=
  poll.answers.map fun id => (id, poll.counts.value id)

/-- What is stored about the ballots. -/
def Poll.finalCounts (poll : Poll) : FinalCounts := (poll.countsVec, poll.totalVotes)

def publishVoteUpdate (poll : Poll) : Program Unit := publish (.pollVoteUpdate poll.finalCounts)

/-- The look at the poll after a write, as a close may have raced in between, and the
announcement. -/
def settle (user : String) (previous : Option (List UInt8)) : Program Poll := do
  let poll ← ask .fetchPoll
  if poll.closed then compensateWriteAfterClose poll user previous
  let _ ← publishVoteUpdate poll
  return poll

/-- What a request answers. -/
inductive Response where
  | poll (poll : Poll) (myVotes : Option (List UInt8)) (includeCounts : Bool)
  | close (counts : Option FinalCounts)

/-- Minus one for every answer selected before, plus one for every one selected now. -/
def voteDeltas (previous : Option (List UInt8)) (answerIds : List UInt8) : Counters UInt8 :=
  Table.retain ((Counters.bumpAll (-1) ∅ (previous.getD [])).bumpAll 1 answerIds)
    fun _ delta => delta ≠ 0

/-- `sort_unstable` and `dedup`. -/
def sortedIds (answerIds : List UInt8) : List UInt8 := (answerIds.insertionSort (· ≤ ·)).dedup

def pollVote (user channel : String) (data : List UInt8) (nowMs : Int)
    (permissions : Result Unit) : Program Response := do
  check (refuseIf (¬ (1 ≤ data.length ∧ data.length ≤ 10)) .failedValidation)
  let poll ← resolveOpenPoll channel nowMs permissions
  let answerIds := sortedIds data
  check (refuseIf (poll.allowMultiselect = false ∧ answerIds.length ≠ 1) .invalidProperty)
  check (refuseIf (¬ ∀ id ∈ answerIds, id ∈ poll.answers) .invalidProperty)
  let previous ← ask (.upsertPollVote user answerIds)
  let _ ← ask (.applyPollCountDeltas (voteDeltas previous answerIds)
    (if previous.isNone then 1 else 0))
  let poll ← settle user previous
  return .poll poll (some answerIds) true

/-- What follows the removal of a ballot. -/
def retract (user : String) : Option (List UInt8) → Program Unit
  | some removed => do
    let _ ← ask (.applyPollCountDeltas (Counters.bumpAll (-1) ∅ removed) (-1))
    let _ ← settle user (some removed)
    return ()
  | none => pure ()

def pollUnvote (user channel : String) (nowMs : Int) (permissions : Result Unit) :
    Program Response := do
  let _ ← resolveOpenPoll channel nowMs permissions
  let previous ← ask (.removePollVote user)
  let _ ← retract user previous
  let poll ← ask .fetchPoll
  return .poll poll none (poll.author = user)

/-- Every caller of `Poll::close` has read the poll, and has its own reasons to go on. -/
def closeFetched (reasons : Poll → Result Unit) : Program Response := do
  let poll ← ask .fetchPoll
  check ((reasons poll).mapError .refused)
  let counts ← close poll
  return .close counts

/-- The requests on the poll; every way to close it ends in `Poll::close`. -/
inductive Request where
  | vote (user channel : String) (data : List UInt8) (nowMs : Int) (permissions : Result Unit)
  | unvote (user channel : String) (nowMs : Int) (permissions : Result Unit)
  | close (reasons : Poll → Result Unit)

def Request.program : Request → Program Response
  | .vote user channel data nowMs permissions => pollVote user channel data nowMs permissions
  | .unvote user channel nowMs permissions => pollUnvote user channel nowMs permissions
  | .close reasons => closeFetched reasons

/-- The processes over a poll. -/
abbrev Processes := Table Nat (Process Request VoteError (Public Call Publication)
  (Public.Answer Reply) Response)

abbrev Polling := System (World Store Publication) Request VoteError (Public Call Publication)
  (Public.Answer Reply) Response

def Polling.exec : Polling → Event Request → Polling × Unit :=
  System.exec (Public.perform perform) Request.program

end SlogaBackend.Polls
