import SlogaBackend.Polls.Votes

/-!
# Where a request stands

Between two calls a request is its program, and what is ahead of it can be read off the program:
that it announces a vote next, which counts it writes next, which ballot it is going to put back
in a closed poll, and how far it is with results that are its own to announce.

* `Standing`, `standing`: all of that, for one program.
* `Moves`: what one call does to it.
* `Orderly`: every call of the program moves it so. `orderly_program` says it of every request.
-/

namespace SlogaBackend.Polls

open Checks

/-! ## Ballots and results -/

/-- A user's ballot, none for no ballot. -/
structure Ballot where
  user : String
  answerIds : Option (List UInt8)

/-- The ballot of a user among the stored ones. -/
def ballotOf (votes : Table String PollVote) (user : String) : Option (List UInt8) :=
  (votes.get user).map PollVote.answerIds

/-- The ballot that a call leaves. -/
def writtenBallot : Call → Option Ballot
  | .upsertPollVote user answerIds => some ⟨user, some answerIds⟩
  | .removePollVote user => some ⟨user, none⟩
  | _ => none

/-- What is counted from these ballots, for a poll with these answers. -/
def results (answers : List UInt8) (votes : List PollVote) : FinalCounts :=
  (answers.map fun id => (id, (tally votes).value id), votes.length)

theorem perform_close_of_open (pid : Nat) {s : Store} (hopen : s.poll.closed = false) :
    perform pid .closePollIfOpen s = ({ s with poll := { s.poll with closed := true } }, true) :=
  if_neg (by rw [hopen]; exact false_ne_true)

theorem perform_close_of_closed (pid : Nat) {s : Store} (hclosed : s.poll.closed = true) :
    perform pid .closePollIfOpen s = (s, false) := if_pos hclosed

theorem ballotOf_next (pid : Nat) (c : Call) (s : Store) (user : String) :
    ballotOf (perform pid c s).1.votes user =
      match writtenBallot c with
      | some ballot => if user = ballot.user then ballot.answerIds else ballotOf s.votes user
      | none => ballotOf s.votes user := by
  unfold ballotOf
  cases c with
  | upsertPollVote user' answerIds =>
    show ((s.votes.insert user' _).get user).map _ = _
    rw [get_insert, apply_ite (Option.map PollVote.answerIds)]
    rfl
  | removePollVote user' =>
    show ((s.votes.erase user').get user).map _ = _
    rw [get_erase, apply_ite (Option.map PollVote.answerIds)]
    rfl
  | closePollIfOpen =>
    cases hclosed : s.poll.closed with
    | true =>
      rw [perform_close_of_closed pid hclosed]
      rfl
    | false =>
      rw [perform_close_of_open pid hclosed]
      rfl
  | _ => rfl

/-! ## Read off the program -/

/-- How far a program is with a closing that it has won: it is about to read the ballots, or it has
counted them and announces these results. -/
inductive Closing where
  | idle
  | won
  | counted (finals : FinalCounts)
  deriving DecidableEq

structure Standing where
  /-- A vote is announced next. -/
  updates : Bool
  /-- The counts that are written next. -/
  writes : Option (Counters UInt8 × Int)
  /-- The ballots are read next. -/
  fetches : Bool
  closing : Closing
  /-- The ballot that is put back if the poll is closed. -/
  undoes : Option Ballot

def Standing.idle : Standing := ⟨false, none, false, .idle, none⟩

section Programs

variable {α β : Type}

def updatesNext : Program α → Bool
  | .call (.publish (.pollVoteUpdate _)) _ => true
  | _ => false

def writesNext : Program α → Option (Counters UInt8 × Int)
  | .call (.call (.setPollCounts counts totalVotes)) _ => some (counts, totalVotes)
  | _ => none

def fetchesNext : Program α → Bool
  | .call (.call .fetchPollVotes) _ => true
  | _ => false

def closing : Program α → Closing
  | .call (.publish (.pollClose finals)) _ => .counted finals
  | .call (.call (.setPollCounts _ _)) rest => closing (rest ())
  | .call (.call .fetchPollVotes) rest =>
    match closing (rest []) with
    | .counted _ => .won
    | _ => .idle
  | _ => .idle

/-- Any poll that is closed. -/
def closedPoll : Poll where
  channel := ""
  author := ""
  answers := []
  allowMultiselect := false
  expiresAt := 0
  closed := true
  counts := ∅
  totalVotes := 0

/-- A ballot is put back when it is written with the reading of all ballots to follow. -/
def undoes : Program α → Option Ballot
  | .call (.call .fetchPoll) rest => undoes (rest closedPoll)
  | .call (.call (.applyPollCountDeltas _ _)) rest => undoes (rest ())
  | .call (.call (.upsertPollVote user answerIds)) rest =>
    if fetchesNext (rest none) then some ⟨user, some answerIds⟩ else none
  | .call (.call (.removePollVote user)) rest =>
    if fetchesNext (rest none) then some ⟨user, none⟩ else none
  | _ => none

def standing (prog : Program α) : Standing :=
  ⟨updatesNext prog, writesNext prog, fetchesNext prog, closing prog, undoes prog⟩

variable {p : Program α} {k : α → Program β}

/-- What follows does not count as long as it starts with nothing of this under way. -/
theorem standing_bind (hk : ∀ a, standing (k a) = .idle) (p : Program α) :
    standing (p.bind k) = standing p := by
  have hundo : undoes (p.bind k) = undoes p ∧ closing (p.bind k) = closing p ∧
      fetchesNext (p.bind k) = fetchesNext p := by
    induction p with
    | done result =>
      cases result with
      | ok a => exact ⟨congrArg Standing.undoes (hk a), congrArg Standing.closing (hk a),
          congrArg Standing.fetches (hk a)⟩
      | error e => exact ⟨rfl, rfl, rfl⟩
    | call c rest ih =>
      cases c with
      | publish event => cases event <;> exact ⟨rfl, rfl, rfl⟩
      | call c =>
        cases c with
        | fetchPoll => exact ⟨(ih closedPoll).1, rfl, rfl⟩
        | applyPollCountDeltas deltas ballotDelta => exact ⟨(ih ()).1, rfl, rfl⟩
        | setPollCounts counts totalVotes => exact ⟨rfl, (ih ()).2.1, rfl⟩
        | fetchPollVotes =>
          refine ⟨rfl, ?_, rfl⟩
          show (match closing ((rest []).bind k) with | .counted _ => _ | _ => _) = _
          rw [(ih []).2.1]
          rfl
        | upsertPollVote user answerIds | removePollVote user =>
          refine ⟨?_, rfl, rfl⟩
          show (if fetchesNext ((rest none).bind k) then _ else _) = _
          rw [(ih none).2.2]
          rfl
        | closePollIfOpen => exact ⟨rfl, rfl, rfl⟩
  have hnext : updatesNext (p.bind k) = updatesNext p ∧ writesNext (p.bind k) = writesNext p := by
    cases p with
    | done result =>
      cases result with
      | ok a => exact ⟨congrArg Standing.updates (hk a), congrArg Standing.writes (hk a)⟩
      | error e => exact ⟨rfl, rfl⟩
    | call c rest =>
      cases c with
      | publish event => cases event <;> exact ⟨rfl, rfl⟩
      | call c => cases c <;> exact ⟨rfl, rfl⟩
  unfold standing
  rw [hundo.1, hundo.2.1, hundo.2.2, hnext.1, hnext.2]

theorem undoes_of_written {c : Call} (rest : Reply c → Program α) {ballot : Ballot}
    (hwritten : writtenBallot c = some ballot) : undoes (.call (.call c) rest) = none ∨
      undoes (.call (.call c) rest) = some ballot := by
  cases c with
  | upsertPollVote user answerIds | removePollVote user =>
    obtain rfl := some.inj hwritten
    unfold undoes
    split
    · exact .inr rfl
    · exact .inl rfl
  | _ => cases hwritten

/-! ## One call -/

/-- What a call does to a closing, for a poll with these answers. -/
def Closing.next (answers : List UInt8) (s : Store) (c : Call) (stage : Closing) : Closing :=
  match c, stage with
  | .closePollIfOpen, stage => if s.poll.closed then stage else .won
  | .fetchPollVotes, .won => .counted (results answers s.votes.values)
  | _, stage => stage

/-- Where a program stands before a call in this store, and after it. -/
structure Moves (answers : List UInt8) (s : Store) (c : Call) (before after : Standing) : Prop where
  /-- A vote is announced only right after a call that found the poll open. -/
  updates : s.poll.closed = true → after.updates = false
  /-- Counts are written right after the ballots were read, and are those of the ballots. -/
  writes : ∀ written ∈ after.writes, writtenBallot c = none ∧
    written = (tally s.votes.values, (s.votes.values.length : Int))
  closing : after.closing = before.closing.next answers s c
  keeps : s.poll.closed = true → writtenBallot c = none → after.undoes = before.undoes
  /-- Who writes a ballot in a closed poll is going to put back what was there. -/
  wrote : s.poll.closed = true → ∀ ballot ∈ writtenBallot c, before.undoes = none →
    after.undoes = some ⟨ballot.user, ballotOf s.votes ballot.user⟩ ∨
      after.undoes = none ∧ ballotOf s.votes ballot.user = ballot.answerIds
  putBack : s.poll.closed = true → ∀ ballot ∈ writtenBallot c, before.undoes.isSome = true →
    after.undoes = none

/-- Every call moves the program as it should, and after a publication nothing is under way. -/
def Orderly (answers : List UInt8) : Program α → Prop
  | .done _ => True
  | .call (.publish _) rest => standing (rest ()) = .idle ∧ Orderly answers (rest ())
  | .call (.call c) rest => ∀ pid s, s.poll.answers = answers →
    Moves answers s c (standing (.call (.call c) rest)) (standing (rest (perform pid c s).2)) ∧
      Orderly answers (rest (perform pid c s).2)

variable {answers : List UInt8}

theorem Orderly.bind (hp : Orderly answers p)
    (hk : ∀ a, Orderly answers (k a) ∧ standing (k a) = .idle) : Orderly answers (p.bind k) := by
  have hidle : ∀ a, standing (k a) = .idle := fun a => (hk a).2
  induction p with
  | done result =>
    cases result with
    | ok a => exact (hk a).1
    | error e => trivial
  | call c rest ih =>
    cases c with
    | publish event => exact ⟨(standing_bind hidle _).trans hp.1, ih () hp.2⟩
    | call c =>
      intro pid s hs
      obtain ⟨hmoves, hrest⟩ := hp pid s hs
      have hbefore := standing_bind hidle (.call (.call c) rest)
      refine ⟨?_, ih _ hrest⟩
      rw [standing_bind hidle]
      exact hbefore ▸ hmoves

/-- A program that starts with nothing under way. -/
structure Quiet (answers : List UInt8) (p : Program α) : Prop where
  orderly : Orderly answers p
  idle : standing p = .idle

theorem Quiet.bind (hp : Quiet answers p) (hk : ∀ a, Quiet answers (k a)) :
    Quiet answers (p.bind k) where
  orderly := hp.orderly.bind fun a => ⟨(hk a).orderly, (hk a).idle⟩
  idle := (standing_bind (fun a => (hk a).idle) p).trans hp.idle

theorem quiet_check (checks : Except VoteError α) :
    Quiet answers (check checks : Program α) := ⟨trivial, rfl⟩

theorem quiet_pure (a : α) : Quiet answers (pure a : Program α) := ⟨trivial, rfl⟩

/-- The moves of a call that leaves everything idle. -/
theorem moves_idle {s : Store} {c : Call} (hclose : c ≠ .closePollIfOpen)
    (hwritten : writtenBallot c = none) : Moves answers s c .idle .idle where
  updates _ := rfl
  writes := nofun
  closing := by
    cases c with
    | closePollIfOpen => exact absurd rfl hclose
    | _ => rfl
  keeps _ _ := rfl
  wrote _ ballot hballot := by
    rw [hwritten] at hballot
    cases hballot
  putBack _ _ _ := nofun

theorem quiet_fetch {k : Poll → Program α}
    (hk : ∀ poll : Poll, poll.answers = answers → Quiet answers (k poll))
    (hclosed : undoes (k closedPoll) = none) : Quiet answers ((ask .fetchPoll).bind k) := by
  have hidle : standing ((ask .fetchPoll).bind k) = .idle := by
    show Standing.mk false none false .idle (undoes (k closedPoll)) = _
    rw [hclosed]
    rfl
  refine ⟨fun pid s hs => ⟨?_, (hk s.poll hs).orderly⟩, hidle⟩
  have hafter := (hk s.poll hs).idle
  exact hafter.symm ▸ hidle.symm ▸ moves_idle nofun rfl

/-! ## The requests -/

variable {poll : Poll}

variable (answers) in
/-- A recount reads the ballots, and writes what they count up to. -/
theorem orderly_recount_bind (poll : Poll) {k : FinalCounts → Program α} (hk : ∀ counts, Quiet answers (k counts)) :
    Orderly answers ((recount poll).bind k) ∧
      standing ((recount poll).bind k) = { Standing.idle with fetches := true } := by
  have hstanding : ∀ counts, standing (k counts) = .idle := fun counts => (hk counts).idle
  have hclosing : ∀ counts, closing (k counts) = .idle := fun counts =>
    congrArg Standing.closing (hstanding counts)
  have hbefore : standing ((recount poll).bind k) = { Standing.idle with fetches := true } := by
    show Standing.mk false none true (match closing (k _) with | .counted _ => _ | _ => _) none = _
    rw [hclosing]
    rfl
  refine ⟨fun pid s _ => ⟨?_, fun pid s' _ => ⟨?_, (hk _).orderly⟩⟩, hbefore⟩
  · refine hbefore.symm ▸ ⟨fun _ => rfl, ?_, hclosing _, fun _ _ => rfl, fun _ => nofun, fun _ => nofun⟩
    exact fun written hwritten => ⟨rfl, (some.inj hwritten).symm⟩
  · show Moves answers s' (.setPollCounts _ _) (standing (.call _ fun _ => k _)) (standing (k _))
    rw [hstanding]
    refine ⟨fun _ => rfl, nofun, (hclosing _).symm, fun _ _ => rfl, fun _ => nofun, fun _ => nofun⟩

theorem quiet_close (hanswers : poll.answers = answers) : Quiet answers (close poll) where
  orderly := by
    intro pid s _
    have hlost : Quiet answers (pure none : Program (Option FinalCounts)) := quiet_pure none
    cases hclosed : s.poll.closed with
    | true =>
      rw [perform_close_of_closed pid hclosed]
      refine ⟨⟨fun _ => rfl, nofun, ?_, fun _ _ => rfl, fun _ => nofun, fun _ => nofun⟩, hlost.orderly⟩
      exact (if_pos hclosed).symm
    | false =>
      rw [perform_close_of_open pid hclosed]
      refine ⟨⟨fun _ => rfl, nofun, ?_, fun _ _ => rfl, fun _ => nofun, fun _ => nofun⟩, ?_⟩
      · exact (if_neg (by rw [hclosed]; exact false_ne_true)).symm
      · -- the winner reads the ballots, writes what it counted and announces it
        refine fun pid s _ => ⟨⟨fun _ => rfl, ?_, ?_, fun _ _ => rfl, fun _ => nofun, fun _ => nofun⟩,
          fun pid s _ => ⟨⟨fun _ => rfl, nofun, rfl, fun _ _ => rfl, fun _ => nofun, fun _ => nofun⟩,
            rfl, trivial⟩⟩
        · exact fun written hwritten => ⟨rfl, (some.inj hwritten).symm⟩
        · rw [← hanswers]
          rfl
  idle := rfl

theorem quiet_resolveOpenPoll (channel : String) (nowMs : Int) (permissions : Result Unit) :
    Quiet answers (resolveOpenPoll channel nowMs permissions) := by
  refine (quiet_check _).bind fun _ => ?_
  refine quiet_fetch (fun poll hanswers => ?_) ?_
  · refine (quiet_check _).bind fun _ => (quiet_check _).bind fun _ => ?_
    split
    · exact (quiet_close hanswers).bind fun _ => quiet_check _
    · exact quiet_pure poll
  · unfold refuseIf
    split <;> rfl

section

variable (answers) (user : String) (previous : Option (List UInt8))

/-- Putting a ballot back is answered with an error, so nothing comes after it. -/
theorem orderly_compensate (poll : Poll) (k : Unit → Program α) :
    Orderly answers ((compensateWriteAfterClose poll user previous).bind k) ∧
      standing ((compensateWriteAfterClose poll user previous).bind k) =
        { Standing.idle with undoes := some ⟨user, previous⟩ } := by
  have hrest := orderly_recount_bind answers poll (k := fun _ => (Prog.done (.error .pollClosed) : Program α)) fun _ => quiet_check _
  cases previous with
  | some answerIds | none =>
    refine ⟨fun pid s _ => ⟨?_, hrest.1⟩, rfl⟩
    show Moves answers s _ _ (standing ((recount poll).bind fun _ => _))
    rw [hrest.2]
    exact ⟨fun _ => rfl, nofun, rfl, fun _ => nofun, fun _ _ _ => nofun, fun _ _ _ _ => rfl⟩

/-- **The look at the poll after a write**: the ballot is put back if the poll is closed, and a vote
is announced if it is open. -/
theorem orderly_settle : Orderly answers (settle user previous) ∧
    standing (settle user previous) = { Standing.idle with undoes := some ⟨user, previous⟩ } := by
  have hbefore : standing (settle user previous) =
      { Standing.idle with undoes := some ⟨user, previous⟩ } := by
    cases previous <;> rfl
  refine ⟨fun pid s _ => ?_, hbefore⟩
  show Moves answers s .fetchPoll (standing (settle user previous))
      (standing (if s.poll.closed = true then (compensateWriteAfterClose s.poll user previous).bind
        fun _ => (publishVoteUpdate s.poll).bind fun _ => pure s.poll else _)) ∧
    Orderly answers (if s.poll.closed = true then _ else _)
  rw [hbefore]
  cases hclosed : s.poll.closed with
  | true =>
    obtain ⟨horderly, hafter⟩ := orderly_compensate answers user previous s.poll
      fun _ => (publishVoteUpdate s.poll).bind fun _ => pure s.poll
    refine ⟨?_, horderly⟩
    rw [if_pos rfl, hafter]
    exact ⟨fun _ => rfl, nofun, rfl, fun _ _ => rfl, fun _ => nofun, fun _ => nofun⟩
  | false =>
    have hno : s.poll.closed ≠ true := by
      rw [hclosed]
      exact false_ne_true
    exact ⟨⟨fun hopen => absurd hopen hno, nofun, rfl, fun hopen => absurd hopen hno,
      fun _ => nofun, fun _ => nofun⟩, rfl, trivial⟩

/-- The difference that a written ballot makes, and the look at the poll. -/
theorem orderly_applied (deltas : Counters UInt8) (ballotDelta : Int) {k : Poll → Program α}
    (hk : ∀ poll, Quiet answers (k poll)) :
    let program := (ask (.applyPollCountDeltas deltas ballotDelta)).bind fun _ =>
      (settle user previous).bind k
    Orderly answers program ∧
      standing program = { Standing.idle with undoes := some ⟨user, previous⟩ } := by
  obtain ⟨horderly, hstanding⟩ := orderly_settle answers user previous
  have hsettled : standing ((settle user previous).bind k) = _ :=
    (standing_bind (fun poll => (hk poll).idle) _).trans hstanding
  have hbefore : undoes ((settle user previous).bind k) = some ⟨user, previous⟩ :=
    congrArg Standing.undoes hsettled
  refine ⟨fun pid s _ => ⟨?_, horderly.bind fun poll => ⟨(hk poll).orderly, (hk poll).idle⟩⟩, ?_⟩
  · show Moves answers s _ ⟨false, none, false, .idle, undoes ((settle user previous).bind k)⟩
      (standing ((settle user previous).bind k))
    rw [hsettled, hbefore]
    exact ⟨fun _ => rfl, nofun, rfl, fun _ _ => rfl, fun _ => nofun, fun _ => nofun⟩
  · show Standing.mk false none false .idle (undoes ((settle user previous).bind k)) = _
    rw [hbefore]
    rfl

end

theorem quiet_pollVote (user channel : String) (data : List UInt8) (nowMs : Int)
    (permissions : Result Unit) : Quiet answers (pollVote user channel data nowMs permissions) := by
  refine (quiet_check _).bind fun _ => ?_
  refine (quiet_resolveOpenPoll channel nowMs permissions).bind fun poll => ?_
  refine (quiet_check _).bind fun _ => (quiet_check _).bind fun _ => ?_
  refine ⟨fun pid s _ => ?_, rfl⟩
  have hnext : (perform pid (.upsertPollVote user (sortedIds data)) s).2 = ballotOf s.votes user :=
    rfl
  rw [hnext]
  obtain ⟨horderly, hafter⟩ := orderly_applied answers user
    (ballotOf s.votes user) (voteDeltas (ballotOf s.votes user) (sortedIds data))
    (if (ballotOf s.votes user).isNone then 1 else 0)
    (k := fun poll => pure (Response.poll poll (some (sortedIds data)) true)) fun _ => quiet_pure _
  refine ⟨?_, horderly⟩
  show Moves answers s _ .idle (standing ((ask _).bind fun _ => (settle _ _).bind _))
  rw [hafter]
  refine ⟨fun _ => rfl, nofun, rfl, fun _ => nofun, fun _ ballot hballot _ => ?_, fun _ _ _ => nofun⟩
  obtain rfl := some.inj hballot
  exact .inl rfl

theorem quiet_pollUnvote (user channel : String) (nowMs : Int) (permissions : Result Unit) :
    Quiet answers (pollUnvote user channel nowMs permissions) := by
  refine (quiet_resolveOpenPoll channel nowMs permissions).bind fun _ => ?_
  have hend : Quiet answers (do
      let poll ← ask .fetchPoll
      return .poll poll none (poll.author = user) : Program Response) :=
    quiet_fetch (fun poll _ => quiet_pure _) rfl
  refine ⟨fun pid s _ => ?_, rfl⟩
  have hnext : (perform pid (.removePollVote user) s).2 = ballotOf s.votes user := rfl
  rw [hnext]
  cases hballot : ballotOf s.votes user with
  | none =>
    refine ⟨⟨fun _ => rfl, nofun, rfl, fun _ => nofun, ?_, fun _ _ _ => nofun⟩, hend.orderly⟩
    intro _ ballot hwritten _
    obtain rfl := some.inj hwritten
    exact .inr ⟨rfl, hballot⟩
  | some removed =>
    obtain ⟨horderly, hstanding⟩ := orderly_applied answers user (some removed)
      (Counters.bumpAll (-1) ∅ removed) (-1) (k := fun _ => pure ()) fun _ => quiet_pure _
    have hafter := (standing_bind (fun _ => hend.idle) (retract user (some removed))).trans hstanding
    refine ⟨?_, horderly.bind fun _ => ⟨hend.orderly, hend.idle⟩⟩
    show Moves answers s _ .idle (standing ((retract user (some removed)).bind _))
    rw [hafter]
    refine ⟨fun _ => rfl, nofun, rfl, fun _ => nofun, fun _ ballot hwritten _ => ?_,
      fun _ _ _ => nofun⟩
    obtain rfl := some.inj hwritten
    exact .inl (by rw [hballot])

/-- **Every request** starts with nothing under way and stays orderly. -/
theorem quiet_program (answers : List UInt8) (request : Request) :
    Quiet answers request.program := by
  cases request with
  | vote user channel data nowMs permissions =>
    exact quiet_pollVote user channel data nowMs permissions
  | unvote user channel nowMs permissions => exact quiet_pollUnvote user channel nowMs permissions
  | close reasons =>
    refine quiet_fetch (fun poll hanswers => ?_) ?_
    · exact (quiet_check _).bind fun _ =>
        (quiet_close hanswers).bind fun counts => quiet_pure _
    · cases reasons closedPoll <;> rfl

theorem standing_program (request : Request) : standing request.program = .idle :=
  (quiet_program [] request).idle

end Programs

end SlogaBackend.Polls
