import SlogaBackend.Polls.Standing

/-!
# Counts and ballots

The counts of a poll are changed apart from its ballots. While the poll is open, what is stored
is what the ballots count up to, less the differences that some requests have still to add. Once
it is closed, whoever still touches the ballots or the counts is going to count the ballots anew.

A recount reads the ballots in one call and writes the counts in another. Where a ballot is changed
in between, what it writes is out of date, and when nobody counts again it stays so.

* `Steady`, `Careful`, `WillRecount`: what a program still has to do, read off the program.
* `Recounting`, `Counted`: what holds between two steps, of a closed poll and of an open one.
* `counts_eq_ballots`: **when all requests have finished, the counts are those of the ballots**, in
  every interleaving where no ballot is changed between the two calls of a recount.
-/

namespace SlogaBackend.Polls

/-! ## What counts up -/

/-- What a ballot counts for an answer, or as a ballot. -/
def weight : Option UInt8 → List UInt8 → Int
  | none, _ => 1
  | some id, answerIds => answerIds.count id

/-- What ballots count up to. -/
def tallyOf (votes : Table String PollVote) (j : Option UInt8) : Int :=
  Table.total (fun vote => weight j vote.answerIds) votes

/-- What counts and a number of ballots say. -/
def countOf (counted : Counters UInt8 × Int) : Option UInt8 → Int
  | none => counted.2
  | some id => counted.1.value id

def Store.stored (s : Store) : Option UInt8 → Int := countOf (s.poll.counts, s.poll.totalVotes)

theorem value_tally (votes : List PollVote) (id : UInt8) :
    (tally votes).value id = (votes.map fun vote => weight (some id) vote.answerIds).sum := by
  have hfold : ∀ counts : Counters UInt8,
      (votes.foldl (fun counts vote => counts.bumpAll 1 vote.answerIds) counts).value id =
        counts.value id + (votes.map fun vote => weight (some id) vote.answerIds).sum := by
    induction votes with
    | nil => exact fun counts => (Int.add_zero _).symm
    | cons vote votes ih =>
      intro counts
      rw [foldl_cons, ih, Counters.value_bumpAll, map_cons, sum_cons, Int.one_mul]
      show _ = counts.value id + ((vote.answerIds.count id : Int) + _)
      omega
  exact (hfold ∅).trans (Int.zero_add _)

theorem tally_tidy (votes : List PollVote) : (tally votes).Tidy := by
  refine Counters.Positive.tidy ?_
  exact List.foldlRecOn votes _ Counters.positive_empty fun _ hpositive vote _ =>
    hpositive.bumpAll vote.answerIds

theorem countOf_tally (votes : Table String PollVote) (j : Option UInt8) :
    countOf (tally votes.values, votes.values.length) j = tallyOf votes j := by
  cases j with
  | none =>
    show _ = (votes.values.map fun _ => (1 : Int)).sum
    simp [countOf]
  | some id => exact value_tally _ _

/-- Ballots count up to the same whenever every user has the same one. -/
theorem tallyOf_congr {votes votes' : Table String PollVote}
    (hsame : ∀ user, ballotOf votes user = ballotOf votes' user) (j : Option UInt8) :
    tallyOf votes j = tallyOf votes' j := by
  refine Table.total_congr (g := fun vote => ⟨"", vote.answerIds⟩) (fun _ => rfl) fun user => ?_
  have hballot := congrArg (Option.map fun answerIds => PollVote.mk "" answerIds) (hsame user)
  simp only [ballotOf, Option.map_map] at hballot
  exact hballot

/-- These are the counts of the stored ballots. -/
def FreshCounts (s : Store) (written : Counters UInt8 × Int) : Prop :=
  written.1.Tidy ∧ ∀ j, countOf written j = tallyOf s.votes j

/-- The stored counts and the number of ballots are those that are recounted from the ballots. -/
def Exact (s : Store) : Prop :=
  (∀ id, s.poll.counts.get id = (tally s.votes.values).get id) ∧
    s.poll.totalVotes = s.votes.values.length

theorem exact_iff {s : Store} : Exact s ↔ FreshCounts s (s.poll.counts, s.poll.totalVotes) := by
  constructor
  · rintro ⟨hcounts, htotal⟩
    refine ⟨fun id => ?_, fun j => ?_⟩
    · rw [hcounts id]
      exact tally_tidy _ id
    · rw [← countOf_tally]
      cases j with
      | none => exact htotal
      | some id => exact congrArg (fun found : Option Int => found.getD 0) (hcounts id)
  · rintro ⟨htidy, hall⟩
    refine ⟨htidy.get_eq (tally_tidy _) fun id => ?_, ?_⟩
    · exact (hall (some id)).trans (countOf_tally s.votes (some id)).symm
    · exact (hall none).trans (countOf_tally s.votes none).symm

/-! ## What a program has still to do -/

section Programs

variable {α β : Type}

/-- The difference that the next call adds. -/
def debt (j : Option UInt8) : Program α → Int
  | .call (.call (.applyPollCountDeltas deltas ballotDelta)) _ =>
    match j with
    | none => ballotDelta
    | some id => deltas.value id
  | _ => 0

/-- As long as the poll is closed, the program is going to write recounted counts. -/
def WillRecount : Program α → Prop
  | .done _ => False
  | .call (.publish _) _ => False
  | .call (.call (.setPollCounts _ _)) _ => True
  | .call (.call .fetchPoll) rest => ∀ poll : Poll, poll.closed = true → WillRecount (rest poll)
  | .call (.call (.upsertPollVote _ _)) rest => ∀ previous, WillRecount (rest previous)
  | .call (.call (.removePollVote _)) rest => ∀ previous, WillRecount (rest previous)
  | .call (.call .fetchPollVotes) rest => ∀ votes, WillRecount (rest votes)
  | .call (.call (.applyPollCountDeltas _ _)) rest => WillRecount (rest ())
  | .call (.call .closePollIfOpen) rest => ∀ won, WillRecount (rest won)

/-- Whoever changes a ballot or the counts, or closes the poll, is going to recount if the poll is
closed then. -/
def Careful : Program α → Prop
  | .done _ => True
  | .call (.publish _) rest => Careful (rest ())
  | .call (.call (.setPollCounts _ _)) rest => Careful (rest ())
  | .call (.call .fetchPoll) rest => ∀ poll, Careful (rest poll)
  | .call (.call (.upsertPollVote _ _)) rest =>
    ∀ previous, WillRecount (rest previous) ∧ Careful (rest previous)
  | .call (.call (.removePollVote _)) rest =>
    (∀ answerIds, WillRecount (rest (some answerIds))) ∧ ∀ previous, Careful (rest previous)
  | .call (.call .fetchPollVotes) rest => ∀ votes, Careful (rest votes)
  | .call (.call (.applyPollCountDeltas _ _)) rest => WillRecount (rest ()) ∧ Careful (rest ())
  | .call (.call .closePollIfOpen) rest => WillRecount (rest true) ∧ ∀ won, Careful (rest won)

/-- As long as the poll is open, every change of a ballot is followed by the difference it makes, and
nothing is recounted. -/
def Steady : Program α → Prop
  | .done _ => True
  | .call (.publish _) rest => Steady (rest ()) ∧ ∀ j, debt j (rest ()) = 0
  | .call (.call (.setPollCounts _ _)) _ => False
  | .call (.call .fetchPoll) rest =>
    ∀ poll : Poll, poll.closed = false → Steady (rest poll) ∧ ∀ j, debt j (rest poll) = 0
  | .call (.call (.upsertPollVote _ answerIds)) rest => ∀ previous, Steady (rest previous) ∧
    ∀ j, debt j (rest previous) = weight j answerIds - (previous.map (weight j)).getD 0
  | .call (.call (.removePollVote _)) rest => ∀ previous, Steady (rest previous) ∧
    ∀ j, debt j (rest previous) = -(previous.map (weight j)).getD 0
  | .call (.call .fetchPollVotes) _ => False
  | .call (.call (.applyPollCountDeltas _ _)) rest => Steady (rest ()) ∧ ∀ j, debt j (rest ()) = 0
  | .call (.call .closePollIfOpen) _ => True

/-- A program that starts with no difference to add. -/
structure Sound (prog : Program α) : Prop where
  careful : Careful prog
  steady : Steady prog
  debt : ∀ j, debt j prog = 0

variable {p : Program α} {k : α → Program β}

theorem WillRecount.bind (hp : WillRecount p) : WillRecount (p.bind k) := by
  induction p with
  | done result => exact hp.elim
  | call c rest ih =>
    cases c with
    | publish event => exact hp.elim
    | call c =>
      cases c with
      | fetchPoll => exact fun poll hclosed => ih poll (hp poll hclosed)
      | applyPollCountDeltas deltas ballotDelta => exact ih () hp
      | setPollCounts counts totalVotes => exact trivial
      | _ => exact fun answer => ih answer (hp answer)

theorem Careful.bind (hp : Careful p) (hk : ∀ a, Careful (k a)) : Careful (p.bind k) := by
  induction p with
  | done result =>
    cases result with
    | ok a => exact hk a
    | error e => exact trivial
  | call c rest ih =>
    cases c with
    | publish event => exact ih () hp
    | call c =>
      cases c with
      | fetchPoll | fetchPollVotes => exact fun answer => ih answer (hp answer)
      | upsertPollVote user answerIds =>
        exact fun previous => ⟨(hp previous).1.bind, ih previous (hp previous).2⟩
      | removePollVote user =>
        exact ⟨fun answerIds => (hp.1 answerIds).bind, fun previous => ih previous (hp.2 previous)⟩
      | applyPollCountDeltas deltas ballotDelta => exact ⟨hp.1.bind, ih () hp.2⟩
      | setPollCounts counts totalVotes => exact ih () hp
      | closePollIfOpen => exact ⟨hp.1.bind, fun won => ih won (hp.2 won)⟩

theorem debt_bind (hk : ∀ a j, debt j (k a) = 0) (j : Option UInt8) :
    debt j (p.bind k) = debt j p := by
  cases p with
  | done result =>
    cases result with
    | ok a => exact hk a j
    | error e => rfl
  | call c rest =>
    cases c with
    | publish event => rfl
    | call c => cases c <;> rfl

theorem Steady.bind (hp : Steady p) (hk : ∀ a, Steady (k a))
    (hdebt : ∀ a j, debt j (k a) = 0) : Steady (p.bind k) := by
  induction p with
  | done result =>
    cases result with
    | ok a => exact hk a
    | error e => exact trivial
  | call c rest ih =>
    cases c with
    | publish event => exact ⟨ih () hp.1, fun j => (debt_bind hdebt j).trans (hp.2 j)⟩
    | call c =>
      cases c with
      | fetchPoll =>
        intro poll hopen
        obtain ⟨hrest, hnone⟩ := hp poll hopen
        exact ⟨ih poll hrest, fun j => (debt_bind hdebt j).trans (hnone j)⟩
      | upsertPollVote user answerIds | removePollVote user =>
        intro previous
        obtain ⟨hrest, howed⟩ := hp previous
        exact ⟨ih previous hrest, fun j => (debt_bind hdebt j).trans (howed j)⟩
      | fetchPollVotes | setPollCounts counts totalVotes => exact hp.elim
      | applyPollCountDeltas deltas ballotDelta =>
        exact ⟨ih () hp.1, fun j => (debt_bind hdebt j).trans (hp.2 j)⟩
      | closePollIfOpen => exact trivial

theorem Sound.bind (hp : Sound p) (hk : ∀ a, Sound (k a)) : Sound (p.bind k) where
  careful := hp.careful.bind fun a => (hk a).careful
  steady := hp.steady.bind (fun a => (hk a).steady) fun a => (hk a).debt
  debt j := (debt_bind (fun a => (hk a).debt) j).trans (hp.debt j)

theorem sound_check (checks : Except VoteError α) : Sound (check checks : Program α) :=
  ⟨trivial, trivial, fun _ => rfl⟩

theorem sound_pure (a : α) : Sound (pure a : Program α) := ⟨trivial, trivial, fun _ => rfl⟩

theorem sound_fetchPoll : Sound (ask .fetchPoll) :=
  ⟨fun _ => trivial, fun _ _ => ⟨trivial, fun _ => rfl⟩, fun _ => rfl⟩

/-! ## The programs of the requests -/

theorem willRecount_recount (poll : Poll) : WillRecount (recount poll) := fun _ => trivial

theorem careful_recount (poll : Poll) : Careful (recount poll) := fun _ => trivial

theorem sound_close (poll : Poll) : Sound (close poll) where
  careful := by
    refine ⟨(willRecount_recount poll).bind, fun won => ?_⟩
    cases won with
    | true => exact (careful_recount poll).bind fun _ => trivial
    | false => exact trivial
  steady := trivial
  debt _ := rfl

theorem sound_resolveOpenPoll (channel : String) (nowMs : Int) (permissions : Result Unit) :
    Sound (resolveOpenPoll channel nowMs permissions) := by
  refine (sound_check _).bind fun _ => ?_
  refine sound_fetchPoll.bind fun poll => ?_
  refine (sound_check _).bind fun _ => (sound_check _).bind fun _ => ?_
  split
  · exact (sound_close poll).bind fun _ => sound_check _
  · exact sound_pure poll

section

variable (user : String) (previous : Option (List UInt8))

/-- Putting a ballot back, whatever it was, ends in a recount. -/
theorem willRecount_compensate (poll : Poll) :
    WillRecount (compensateWriteAfterClose poll user previous) := by
  cases previous <;> exact fun _ => (willRecount_recount poll).bind

theorem careful_compensate (poll : Poll) :
    Careful (compensateWriteAfterClose poll user previous) := by
  have hcareful : Careful ((recount poll).bind fun _ => check (.error .pollClosed) :
      Program Unit) := (careful_recount poll).bind fun _ => trivial
  have hwill : WillRecount ((recount poll).bind fun _ => check (.error .pollClosed) :
      Program Unit) := (willRecount_recount poll).bind
  cases previous with
  | some answerIds => exact fun _ => ⟨hwill, hcareful⟩
  | none => exact ⟨fun _ => hwill, fun _ => hcareful⟩

/-- The look at the poll after a write recounts if the poll is closed, and is sound. -/
theorem willRecount_settle : WillRecount (settle user previous) := by
  intro poll hclosed
  show WillRecount (if poll.closed = true then _ else _)
  rw [if_pos hclosed]
  exact (willRecount_compensate user previous poll).bind

theorem sound_settle : Sound (settle user previous) where
  careful poll := by
    show Careful (if poll.closed = true then _ else _)
    split
    · exact (careful_compensate user previous poll).bind fun _ => trivial
    · exact trivial
  steady poll hopen := by
    have hno : ¬poll.closed = true := by
      rw [hopen]
      exact false_ne_true
    show Steady (ite _ _ _) ∧ ∀ j, debt j (ite _ _ _) = 0
    rw [if_neg hno]
    exact ⟨⟨trivial, fun _ => rfl⟩, fun _ => rfl⟩
  debt _ := rfl

variable (answerIds : List UInt8)

theorem value_voteDeltas (id : UInt8) : (voteDeltas previous answerIds).value id =
      answerIds.count id - ((previous.getD []).count id : Int) := by
  unfold voteDeltas
  rw [Counters.value_retain_ne_zero, Counters.value_bumpAll, Counters.value_bumpAll,
    Counters.value_empty]
  omega

theorem debt_vote (j : Option UInt8) (rest : Unit → Program α) :
    debt j (.call (.call (.applyPollCountDeltas (voteDeltas previous answerIds)
        (if previous.isNone then 1 else 0))) rest) =
      weight j answerIds - (previous.map (weight j)).getD 0 := by
  cases j with
  | none =>
    cases previous with
    | none | some old => rfl
  | some id =>
    refine (value_voteDeltas previous answerIds id).trans ?_
    cases previous with
    | none | some old => rfl

end

theorem debt_unvote (removed : List UInt8) (j : Option UInt8) (rest : Unit → Program α) :
    debt j (.call (.call (.applyPollCountDeltas (Counters.bumpAll (-1) ∅ removed) (-1))) rest) =
      -weight j removed := by
  cases j with
  | none => rfl
  | some id =>
    refine (Counters.value_bumpAll (-1) ∅ removed id).trans ?_
    show 0 + -1 * (removed.count id : Int) = -(removed.count id : Int)
    omega

theorem sound_pollVote (user channel : String) (data : List UInt8) (nowMs : Int)
    (permissions : Result Unit) : Sound (pollVote user channel data nowMs permissions) := by
  refine (sound_check _).bind fun _ => ?_
  refine (sound_resolveOpenPoll channel nowMs permissions).bind fun poll => ?_
  refine (sound_check _).bind fun _ => (sound_check _).bind fun _ => ?_
  have hsettled : ∀ previous, Sound ((settle user previous).bind fun poll =>
      pure (Response.poll poll (some (sortedIds data)) true)) := fun previous =>
    (sound_settle user previous).bind fun _ => sound_pure _
  have hwill : ∀ previous, WillRecount ((settle user previous).bind fun poll =>
      pure (Response.poll poll (some (sortedIds data)) true)) := fun previous =>
    (willRecount_settle user previous).bind
  refine ⟨fun previous => ⟨hwill previous, hwill previous, (hsettled previous).careful⟩,
    fun previous => ⟨⟨(hsettled previous).steady, (hsettled previous).debt⟩, ?_⟩, fun _ => rfl⟩
  exact fun j => debt_vote previous (sortedIds data) j _

theorem sound_pollUnvote (user channel : String) (nowMs : Int) (permissions : Result Unit) :
    Sound (pollUnvote user channel nowMs permissions) := by
  refine (sound_resolveOpenPoll channel nowMs permissions).bind fun _ => ?_
  have hend : Sound ((ask .fetchPoll).bind fun poll =>
      pure (.poll poll none (poll.author = user)) : Program Response) :=
    sound_fetchPoll.bind fun _ => sound_pure _
  have hretract : ∀ removed, WillRecount (retract user (some removed)) ∧
      Careful (retract user (some removed)) ∧ Steady (retract user (some removed)) := by
    intro removed
    have hwill : WillRecount ((settle user (some removed)).bind fun _ => (pure () : Program Unit)) :=
      (willRecount_settle user (some removed)).bind
    have hsettled : Sound ((settle user (some removed)).bind fun _ => (pure () : Program Unit)) :=
      (sound_settle user (some removed)).bind fun _ => sound_pure ()
    exact ⟨hwill, ⟨hwill, hsettled.careful⟩, hsettled.steady, hsettled.debt⟩
  refine ⟨⟨fun removed => (hretract removed).1.bind, fun previous => ?_⟩, fun previous => ?_,
    fun _ => rfl⟩
  · cases previous with
    | none => exact hend.careful
    | some removed => exact (hretract removed).2.1.bind fun _ => hend.careful
  · cases previous with
    | none => exact ⟨hend.steady, hend.debt⟩
    | some removed =>
      exact ⟨(hretract removed).2.2.bind (fun _ => hend.steady) fun _ => hend.debt,
        fun j => debt_unvote removed j _⟩

/-- **Every request** owes nothing at its start, and answers for what it changes. -/
theorem sound_program (request : Request) : Sound request.program := by
  cases request with
  | vote user channel data nowMs permissions =>
    exact sound_pollVote user channel data nowMs permissions
  | unvote user channel nowMs permissions => exact sound_pollUnvote user channel nowMs permissions
  | close reasons =>
    refine sound_fetchPoll.bind fun poll => (sound_check _).bind fun _ => ?_
    exact (sound_close poll).bind fun _ => sound_pure _

end Programs

/-! ## One call -/

section Call

variable {α : Type} (pid : Nat) {s : Store} {c : Call} {rest : Reply c → Program α}

theorem answers_next : (perform pid c s).1.poll.answers = s.poll.answers := by
  cases c with
  | closePollIfOpen =>
    cases hclosed : s.poll.closed with
    | true => rw [perform_close_of_closed pid hclosed]
    | false => rw [perform_close_of_open pid hclosed]
  | _ => rfl

theorem closed_stays (hclosed : s.poll.closed = true) : (perform pid c s).1.poll.closed = true := by
  cases c with
  | closePollIfOpen =>
    rw [perform_close_of_closed pid hclosed]
    exact hclosed
  | _ => exact hclosed

theorem open_stays (hopen : s.poll.closed = false) (hc : c ≠ .closePollIfOpen) :
    (perform pid c s).1.poll.closed = false := by
  cases c with
  | closePollIfOpen => exact absurd rfl hc
  | _ => exact hopen

theorem careful_next (hcareful : Careful (.call (.call c) rest)) :
    Careful (rest (perform pid c s).2) := by
  cases c with
  | fetchPoll | fetchPollVotes => exact hcareful _
  | upsertPollVote user answerIds => exact (hcareful _).2
  | applyPollCountDeltas deltas ballotDelta => exact hcareful.2
  | setPollCounts counts totalVotes => exact hcareful
  | _ => exact hcareful.2 _

theorem stored_settleAll (s : Store) (deltas : Counters UInt8) (ballotDelta : Int)
    (rest : Unit → Program α) (j : Option UInt8) :
    (perform pid (.applyPollCountDeltas deltas ballotDelta) s).1.stored j =
      s.stored j + debt j (.call (.call (.applyPollCountDeltas deltas ballotDelta)) rest) := by
  cases j with
  | none => rfl
  | some id => exact Counters.value_settleAll _ _ _

theorem at_votes (s : Store) (user : String) (j : Option UInt8) :
    Table.at_ (fun vote : PollVote => weight j vote.answerIds) s.votes user =
      ((ballotOf s.votes user).map (weight j)).getD 0 := by
  unfold ballotOf
  rw [Option.map_map]
  rfl

/-- **One call while the poll stays open**: the program stays steady, and what is stored with the
difference that it owes moves as the ballots do. -/
theorem steady_next (hsteady : Steady (.call (.call c) rest)) (hopen : s.poll.closed = false)
    (hopen' : (perform pid c s).1.poll.closed = false) : Steady (rest (perform pid c s).2) ∧
      ∀ j, (perform pid c s).1.stored j + debt j (rest (perform pid c s).2) -
          tallyOf (perform pid c s).1.votes j =
        s.stored j + debt j (.call (.call c) rest) - tallyOf s.votes j := by
  cases c with
  | fetchPoll =>
    obtain ⟨hrest, hnone⟩ := hsteady s.poll hopen
    refine ⟨hrest, fun j => ?_⟩
    show s.stored j + debt j (rest s.poll) - _ = s.stored j + 0 - _
    rw [hnone]
    rfl
  | upsertPollVote user answerIds =>
    obtain ⟨hrest, howed⟩ := hsteady (ballotOf s.votes user)
    refine ⟨hrest, fun j => ?_⟩
    have htally : tallyOf (perform pid (.upsertPollVote user answerIds) s).1.votes j =
        tallyOf s.votes j - ((ballotOf s.votes user).map (weight j)).getD 0 +
          weight j answerIds := by
      rw [← at_votes]
      exact Table.total_insert _ _ _ _
    have howed' := howed j
    show s.stored j + debt j (rest (ballotOf s.votes user)) - _ = s.stored j + 0 - _
    omega
  | removePollVote user =>
    obtain ⟨hrest, howed⟩ := hsteady (ballotOf s.votes user)
    refine ⟨hrest, fun j => ?_⟩
    have htally : tallyOf (perform pid (.removePollVote user) s).1.votes j =
        tallyOf s.votes j - ((ballotOf s.votes user).map (weight j)).getD 0 := by
      rw [← at_votes]
      exact Table.total_erase _ _ _
    have howed' := howed j
    show s.stored j + debt j (rest (ballotOf s.votes user)) - _ = s.stored j + 0 - _
    omega
  | applyPollCountDeltas deltas ballotDelta =>
    refine ⟨hsteady.1, fun j => ?_⟩
    rw [stored_settleAll pid s deltas ballotDelta rest j]
    show _ + debt j (rest ()) - tallyOf s.votes j = _
    rw [hsteady.2, Int.add_zero]
  | closePollIfOpen =>
    rw [perform_close_of_open pid hopen] at hopen'
    cases hopen'
  | _ => exact hsteady.elim

/-- A call that leaves every ballot as it was. -/
def Untouched (s : Store) (c : Call) : Prop :=
  ∀ ballot ∈ writtenBallot c, ballotOf s.votes ballot.user = ballot.answerIds

instance (s : Store) (c : Call) : Decidable (Untouched s c) :=
  inferInstanceAs (Decidable (∀ ballot ∈ writtenBallot c, _))

theorem ballotOf_untouched (huntouched : Untouched s c) (user : String) :
    ballotOf (perform pid c s).1.votes user = ballotOf s.votes user := by
  rw [ballotOf_next]
  cases hwritten : writtenBallot c with
  | none => rfl
  | some ballot =>
    show (if user = ballot.user then _ else _) = _
    split
    · rename_i hsame
      rw [hsame, huntouched ballot hwritten]
    · rfl

/-- **One call while the poll is closed**: the program is going to recount, or has just written
counts, or has changed neither ballots nor counts and was not about to recount. -/
theorem recount_next (hcareful : Careful (.call (.call c) rest)) (hclosed : s.poll.closed = true) :
    WillRecount (rest (perform pid c s).2) ∨
      (∃ counts totalVotes, c = .setPollCounts counts totalVotes) ∨
        (perform pid c s).1 = s ∧ ¬WillRecount (.call (.call c) rest) := by
  by_cases hwill : WillRecount (.call (.call c) rest)
  · cases c with
    | fetchPoll => exact .inl (hwill s.poll hclosed)
    | setPollCounts counts totalVotes => exact .inr (.inl ⟨counts, totalVotes, rfl⟩)
    | applyPollCountDeltas deltas ballotDelta => exact .inl hwill
    | _ => exact .inl (hwill _)
  · cases c with
    | applyPollCountDeltas deltas ballotDelta => exact .inl hcareful.1
    | setPollCounts counts totalVotes => exact .inr (.inl ⟨counts, totalVotes, rfl⟩)
    | upsertPollVote user answerIds => exact .inl (hcareful _).1
    | closePollIfOpen =>
      rw [perform_close_of_closed pid hclosed]
      exact .inr (.inr ⟨rfl, hwill⟩)
    | removePollVote user =>
      cases hfound : s.votes.get user with
      | some vote =>
        have hreply : (perform pid (.removePollVote user) s).2 = some vote.answerIds :=
          congrArg (Option.map PollVote.answerIds) hfound
        rw [hreply]
        exact .inl (hcareful.1 vote.answerIds)
      | none =>
        refine .inr (.inr ⟨?_, hwill⟩)
        have hsame : s.votes.erase user = s.votes :=
          AList.ext (List.kerase_of_notMem_keys (AList.lookup_eq_none.mp hfound))
        exact congrArg (fun votes => { s with votes }) hsame
    | _ => exact .inr (.inr ⟨rfl, hwill⟩)

theorem closing_next (hcareful : Careful (.call (.call c) rest)) (hopen : s.poll.closed = false)
    (hclosed : (perform pid c s).1.poll.closed = true) :
    WillRecount (rest (perform pid c s).2) := by
  by_cases hc : c = .closePollIfOpen
  · subst hc
    rw [perform_close_of_open pid hopen]
    exact hcareful.1
  · rw [open_stays pid hopen hc] at hclosed
    cases hclosed

end Call

/-! ## Interleavings -/

/-- The call to the store that a program makes next. -/
def nextCall {α : Type} : Program α → Option Call
  | .call (.call c) _ => some c
  | _ => none

/-- No ballot is changed between the reading of the ballots for a recount and the writing of the
counts: whoever changes one does so while nobody is about to write counts. -/
def Undisturbed (sys : Polling) (prog : Program Response) : Prop :=
  ∀ c ∈ nextCall prog, ¬Untouched sys.store.store c →
    EachProg (fun other => writesNext other = none) sys.processes

instance (sys : Polling) : DecidablePred (Undisturbed sys) := fun prog =>
  inferInstanceAs (Decidable (∀ c ∈ nextCall prog, _))

/-- What holds between two steps, as far as a closed poll goes. -/
structure Recounting (answers : List UInt8) (s : Store) (processes : Processes) : Prop where
  fixed : s.poll.answers = answers
  orderly : EachProg (Orderly answers) processes
  careful : EachProg Careful processes
  /-- Whoever is about to write counts writes those of the ballots there are. -/
  fresh : EachProg (fun prog => ∀ written ∈ writesNext prog, FreshCounts s written) processes
  closed : s.poll.closed = true → SomeProg WillRecount processes ∨ Exact s

/-- What the next call of a process adds. -/
def owed (j : Option UInt8) (process : Process Request VoteError (Public Call Publication)
    (Public.Answer Reply) Response) : Int := (process.prog.map (debt j)).getD 0

/-- What holds between two steps, as far as an open poll goes. -/
structure Counted (s : Store) (processes : Processes) : Prop where
  tidy : s.poll.counts.Tidy
  steady : s.poll.closed = false → EachProg Steady processes
  counted : s.poll.closed = false →
    ∀ j, s.stored j + Table.total (owed j) processes = tallyOf s.votes j

section Steps

variable {answers : List UInt8} {s : Store} {processes : Processes} {pid : Nat} {request : Request}

theorem Recounting.start (hkept : Recounting answers s processes)
    (hfree : processes.get pid = none) :
    Recounting answers s (processes.insert pid ⟨request, some request.program⟩) where
  fixed := hkept.fixed
  orderly := hkept.orderly.insert (quiet_program answers request).orderly
  careful := hkept.careful.insert (sound_program request).careful
  fresh := hkept.fresh.insert fun written hwritten => by
    have hnone : writesNext request.program = none :=
      congrArg Standing.writes (standing_program request)
    rw [hnone] at hwritten
    cases hwritten
  closed hclosed := (hkept.closed hclosed).imp_left fun hsome => hsome.insert fun _ _ hget => by
    rw [hfree] at hget
    cases hget

theorem Recounting.publish (hkept : Recounting answers s processes) {event : Publication}
    {rest : Unit → Program Response}
    (hget : processes.get pid = some ⟨request, some (.call (.publish event) rest)⟩) :
    Recounting answers s (processes.insert pid ⟨request, some (rest ())⟩) where
  fixed := hkept.fixed
  orderly := hkept.orderly.insert (hkept.orderly pid request _ hget).2
  careful := by
    have hcareful : Careful (.call (.publish event) rest) := hkept.careful pid request _ hget
    exact hkept.careful.insert hcareful
  fresh := hkept.fresh.insert fun written hwritten => by
    have hnone : writesNext (rest ()) = none :=
      congrArg Standing.writes (hkept.orderly pid request _ hget).1
    rw [hnone] at hwritten
    cases hwritten
  closed hclosed := (hkept.closed hclosed).imp_left fun hsome => hsome.insert fun _ _ hget' => by
    rw [prog_eq hget hget']
    exact id

/-- **One call keeps it**, when no ballot is changed under a recount. -/
theorem Recounting.call (hkept : Recounting answers s processes) {c : Call}
    {rest : Reply c → Program Response}
    (hget : processes.get pid = some ⟨request, some (.call (.call c) rest)⟩)
    (hundisturbed : ¬Untouched s c → EachProg (fun other => writesNext other = none) processes) :
    Recounting answers (perform pid c s).1
      (processes.insert pid ⟨request, some (rest (perform pid c s).2)⟩) := by
  have hcareful := hkept.careful pid request _ hget
  obtain ⟨hmoves, horderly⟩ := hkept.orderly pid request _ hget pid s hkept.fixed
  refine ⟨(answers_next pid).trans hkept.fixed, hkept.orderly.insert horderly,
    hkept.careful.insert (careful_next pid hcareful), EachProg.insert ?_ ?_, fun hclosed => ?_⟩
  · -- whoever is about to write counts has read the ballots that are still there
    intro pid' request' prog hget' written hwritten
    by_cases huntouched : Untouched s c
    · obtain ⟨htidy, hcounted⟩ := hkept.fresh pid' request' prog hget' written hwritten
      exact ⟨htidy, fun j => (hcounted j).trans
        (tallyOf_congr (fun user => (ballotOf_untouched pid huntouched user).symm) j)⟩
    · rw [hundisturbed huntouched pid' request' prog hget'] at hwritten
      cases hwritten
  · -- and who has just read them is about to write what they count up to
    intro written hwritten
    obtain ⟨hnone, rfl⟩ := hmoves.writes written hwritten
    have huntouched : Untouched s c := fun ballot hballot => by
      rw [hnone] at hballot
      cases hballot
    refine ⟨tally_tidy _, fun j => (countOf_tally s.votes j).trans ?_⟩
    exact tallyOf_congr (fun user => (ballotOf_untouched pid huntouched user).symm) j
  · cases hwas : s.poll.closed with
    | false => exact .inl (.insert_self (closing_next pid hcareful hwas hclosed))
    | true =>
      rcases recount_next pid hcareful hwas with hwill | ⟨counts, totalVotes, rfl⟩ | ⟨hsame, hwill⟩
      · exact .inl (.insert_self hwill)
      · exact .inr (exact_iff.mpr (hkept.fresh pid request _ hget _ rfl))
      · -- nothing has changed, and this was not the process that is going to recount
        rw [hsame]
        refine (hkept.closed hwas).imp_left fun hsome => hsome.insert fun _ _ hget' => ?_
        rw [prog_eq hget hget']
        exact hwill

theorem owed_at {j : Option UInt8} {prog : Program Response}
    (hget : processes.get pid = some ⟨request, some prog⟩) :
    Table.at_ (owed j) processes pid = debt j prog := by
  unfold Table.at_
  rw [hget]
  rfl

theorem Counted.start (hcounted : Counted s processes) (hfree : processes.get pid = none) :
    Counted s (processes.insert pid ⟨request, some request.program⟩) where
  tidy := hcounted.tidy
  steady hopen := (hcounted.steady hopen).insert (sound_program request).steady
  counted hopen j := by
    have hnone : Table.at_ (owed j) processes pid = 0 := by
      unfold Table.at_
      rw [hfree]
      rfl
    rw [Table.total_insert, hnone]
    show _ + (_ - 0 + debt j request.program) = _
    rw [(sound_program request).debt, ← hcounted.counted hopen j]
    omega

theorem Counted.publish (hcounted : Counted s processes) {event : Publication}
    {rest : Unit → Program Response}
    (hget : processes.get pid = some ⟨request, some (.call (.publish event) rest)⟩) :
    Counted s (processes.insert pid ⟨request, some (rest ())⟩) where
  tidy := hcounted.tidy
  steady hopen := (hcounted.steady hopen).insert (hcounted.steady hopen pid request _ hget).1
  counted hopen j := by
    rw [Table.total_insert, owed_at hget]
    show _ + (_ - 0 + debt j (rest ())) = _
    rw [(hcounted.steady hopen pid request _ hget).2, ← hcounted.counted hopen j]
    omega

theorem Counted.call (hcounted : Counted s processes) {c : Call} {rest : Reply c → Program Response}
    (hget : processes.get pid = some ⟨request, some (.call (.call c) rest)⟩)
    (hfresh : ∀ written ∈ writesNext (.call (.call c) rest), FreshCounts s written) :
    Counted (perform pid c s).1
      (processes.insert pid ⟨request, some (rest (perform pid c s).2)⟩) := by
  have hstep : (perform pid c s).1.poll.closed = false → _ := fun hopen => by
    have hwas : s.poll.closed = false := by
      cases hclosed : s.poll.closed with
      | false => rfl
      | true => exact (closed_stays pid hclosed).symm.trans hopen
    exact And.intro hwas (steady_next pid (hcounted.steady hwas pid request _ hget) hwas hopen)
  refine ⟨?_, fun hopen => (hcounted.steady (hstep hopen).1).insert (hstep hopen).2.1, ?_⟩
  · cases c with
    | applyPollCountDeltas deltas ballotDelta => exact hcounted.tidy.settleAll deltas
    | setPollCounts counts totalVotes => exact (hfresh _ rfl).1
    | closePollIfOpen =>
      cases hclosed : s.poll.closed with
      | true =>
        rw [perform_close_of_closed pid hclosed]
        exact hcounted.tidy
      | false =>
        rw [perform_close_of_open pid hclosed]
        exact hcounted.tidy
    | _ => exact hcounted.tidy
  · intro hopen j
    obtain ⟨hwas, -, hmoved⟩ := hstep hopen
    rw [Table.total_insert, owed_at hget]
    show _ + (_ - _ + debt j (rest (perform pid c s).2)) = _
    have hmoved' := hmoved j
    have hcounted' := hcounted.counted hwas j
    omega

end Steps

theorem counted_idle {s : Store} (hexact : Exact s) : Counted s ∅ where
  tidy := (exact_iff.mp hexact).1
  steady _ := .empty
  counted _ j := (Int.add_zero _).trans ((exact_iff.mp hexact).2 j)

variable {sys : Polling} {answers : List UInt8} {pid : Nat} {request : Request}
  {c : Public Call Publication} {rest : Public.Answer Reply c → Program Response}

theorem recounting_step (hadmits : System.StepBy Undisturbed sys (.step pid))
    (hget : sys.processes.get pid = some ⟨request, some (.call c rest)⟩)
    (hkept : Recounting answers sys.store.store sys.processes) :
    Recounting answers (Public.perform perform pid c sys.store).1.store (sys.processes.insert pid
      ⟨request, some (rest (Public.perform perform pid c sys.store).2)⟩) := by
  cases c with
  | publish event => exact hkept.publish hget
  | call c => exact hkept.call hget (hadmits _ hget _ rfl c rfl)

theorem counted_step (hget : sys.processes.get pid = some ⟨request, some (.call c rest)⟩)
    (hkept : Recounting answers sys.store.store sys.processes)
    (hcounted : Counted sys.store.store sys.processes) :
    Counted (Public.perform perform pid c sys.store).1.store (sys.processes.insert pid
      ⟨request, some (rest (Public.perform perform pid c sys.store).2)⟩) := by
  cases c with
  | publish event => exact hcounted.publish hget
  | call c => exact hcounted.call hget (hkept.fresh pid request _ hget)

theorem not_someProg {processes : Processes} {P : Program Response → Prop}
    (hended : ∀ pid process, processes.get pid = some process →
      ∃ result, process.prog = some (.done result)) (hdone : ∀ result, ¬P (.done result)) :
    ¬SomeProg P processes := by
  rintro ⟨pid, request, prog, hget, hprog⟩
  obtain ⟨result, hresult⟩ := hended pid _ hget
  rw [some.inj hresult] at hprog
  exact hdone result hprog

/-- **When all requests have finished, the counts are those of the ballots**, in every interleaving
in which no ballot is changed between the two calls of a recount. -/
theorem counts_eq_ballots {s : Store} (hexact : Exact s) {history : List (Polling × Event Request)}
    {sys : Polling}
    (hrun : Run Polling.exec (System.StepBy Undisturbed) (idle ⟨s, []⟩) history sys)
    (hended : sys.AllEnded) : Exact sys.store.store := by
  obtain ⟨hkept, hcounted⟩ : _ ∧ _ := by
    refine System.invariant (P := fun sys => Recounting s.poll.answers sys.store.store sys.processes ∧
      Counted sys.store.store sys.processes) ?_ ?_ ?_ hrun ?_
    · exact fun _ _ _ _ hfree hboth => ⟨hboth.1.start hfree, hboth.2.start hfree⟩
    · exact fun _ _ _ _ _ hadmits hget hboth =>
        ⟨recounting_step hadmits hget hboth.1, counted_step hget hboth.1 hboth.2⟩
    · exact fun _ _ _ _ _ hadmits => hadmits.elim
    · exact ⟨⟨rfl, .empty, .empty, .empty, fun _ => .inr hexact⟩, counted_idle hexact⟩
  cases hclosed : sys.store.store.poll.closed with
  | false =>
    refine exact_iff.mpr ⟨hcounted.tidy, fun j => ?_⟩
    have hsum := hcounted.counted hclosed j
    have hnone : Table.total (owed j) sys.processes = 0 := by
      refine Table.total_eq_zero fun pid process hget => ?_
      obtain ⟨result, hresult⟩ := hended pid process hget
      unfold owed
      rw [hresult]
      rfl
    rw [hnone, Int.add_zero] at hsum
    exact hsum
  | true => exact (hkept.closed hclosed).resolve_left (not_someProg hended fun _ => id)

/-! ## A ballot that is taken back during a recount -/

/-- A poll with two answers that nobody has voted on yet. -/
def newPoll : Store where
  poll :=
    { channel := "C"
      author := "A"
      answers := [0, 1]
      allowMultiselect := false
      expiresAt := 1000
      closed := false
      counts := ∅
      totalVotes := 0 }
  votes := ∅

theorem newPoll_exact : Exact newPoll := ⟨fun _ => rfl, rfl⟩

def oneVote : Request := .vote "U" "C" [0] 0 (.ok ())

def anyClose : Request := .close fun _ => .ok ()

/-- The vote is in when the poll is closed, and the closer has read it when it is taken back. -/
def takenBack : List (Event Request) :=
  [.start 0 oneVote, .step 0, .step 0, .step 0, .start 1 anyClose, .step 1, .step 1, .step 1,
    .step 0, .step 0, .step 0, .step 0, .step 1, .step 1]

set_option maxRecDepth 10000 in
/-- The closer writes the count of a ballot that is no longer there. -/
theorem stale_recount_stays : ¬∀ (s : Store) (history : List (Polling × Event Request))
    (sys : Polling), Exact s →
      Run Polling.exec System.NoCrash (idle ⟨s, []⟩) history sys → sys.AllEnded →
        Exact sys.store.store := by
  intro hall
  have hexact := hall newPoll _ (execAll Polling.exec (idle ⟨newPoll, []⟩) takenBack)
    newPoll_exact (Run.of_admitsAll (by decide)) (System.allEnded_of_all (by decide))
  have htotal : (execAll Polling.exec (idle ⟨newPoll, []⟩)
      takenBack).store.store.poll.totalVotes = 1 := by decide
  have hballots : (execAll Polling.exec (idle ⟨newPoll, []⟩)
      takenBack).store.store.votes.values.length = 0 := by decide
  have hsame := hexact.2
  rw [htotal, hballots] at hsame
  exact absurd hsame (by decide)

/-- The vote is taken back before the closer reads the ballots, and counted anew after it has. -/
def takenBackFirst : List (Event Request) :=
  [.start 0 oneVote, .step 0, .step 0, .step 0, .start 1 anyClose, .step 1, .step 1, .step 0,
    .step 0, .step 1, .step 0, .step 1, .step 0, .step 1]

set_option maxRecDepth 10000 in
theorem counts_eq_ballots_taken_back_first :
    Exact (execAll Polling.exec (idle ⟨newPoll, []⟩) takenBackFirst).store.store := by
  have hrun : Run Polling.exec (System.StepBy Undisturbed) (idle ⟨newPoll, []⟩) _
      (execAll Polling.exec (idle ⟨newPoll, []⟩) takenBackFirst) :=
    Run.of_admitsAll (by decide)
  exact counts_eq_ballots newPoll_exact hrun (System.allEnded_of_all (by decide))

end SlogaBackend.Polls
