import SlogaBackend.Polls.Counts

/-!
# Final results

Whoever closes a poll flips its flag, counts the ballots anew, writes what it counted and then
announces it. Voters write first and look at the flag afterwards, and announce what they found if
it was not flipped; if it was, they put back the ballot that was there.

* `KeepsBallots`: every user has the ballot that was counted, or somebody is going to put it back.
* `Timely`: where voters and ballots have to stand at each step.
* `final_results`: the results are announced once, nothing is announced of votes after them, and
  they are what is stored in the end, in every run whose steps are all `Timely`.
* `results_not_final`: they are neither last nor what is stored where they are not.
-/

namespace SlogaBackend.Polls

/-! ## Ballots that are put back -/

variable {c : Call}

/-- Every user has the ballot that was counted, or somebody is going to put it back. -/
structure KeepsBallots (counted votes : Table String PollVote) (processes : Processes) : Prop where
  back : EachProg (fun prog => ∀ undo ∈ undoes prog, ballotOf counted undo.user = undo.answerIds)
    processes
  kept : ∀ user, ballotOf votes user = ballotOf counted user ∨
    SomeProg (fun prog => ∃ undo ∈ undoes prog, undo.user = user) processes

section KeepsBallots

variable {counted : Table String PollVote} {s : Store} {processes : Processes} {pid : Nat}
  {request : Request} {answers : List UInt8}

theorem KeepsBallots.start {votes : Table String PollVote}
    (hkeeps : KeepsBallots counted votes processes) (hfree : processes.get pid = none) :
    KeepsBallots counted votes (processes.insert pid ⟨request, some request.program⟩) where
  back := hkeeps.back.insert fun undo hundo => by
    have hnone : undoes request.program = none :=
      congrArg Standing.undoes (standing_program request)
    rw [hnone] at hundo
    cases hundo
  kept user := (hkeeps.kept user).imp_right fun hsome => hsome.insert fun _ _ hget => by
    rw [hfree] at hget
    cases hget

theorem KeepsBallots.publish {votes : Table String PollVote}
    (hkeeps : KeepsBallots counted votes processes) {event : Publication}
    {rest : Unit → Program Response} (hidle : standing (rest ()) = .idle)
    (hget : processes.get pid = some ⟨request, some (.call (.publish event) rest)⟩) :
    KeepsBallots counted votes (processes.insert pid ⟨request, some (rest ())⟩) where
  back := hkeeps.back.insert fun undo hundo => by
    have hnone : undoes (rest ()) = none := congrArg Standing.undoes hidle
    rw [hnone] at hundo
    cases hundo
  kept user := (hkeeps.kept user).imp_right fun hsome => hsome.move hget fun ⟨_, hundo, _⟩ =>
    nomatch hundo

/-- **One call keeps the ballots**, when nobody writes a ballot that another is going to put
back. -/
theorem KeepsBallots.call (hkeeps : KeepsBallots counted s.votes processes)
    {rest : Reply c → Program Response}
    (hget : processes.get pid = some ⟨request, some (.call (.call c) rest)⟩)
    (hmoves : Moves answers s c (standing (.call (.call c) rest))
      (standing (rest (perform pid c s).2)))
    (hclosed : s.poll.closed = true)
    (halone : ∀ ballot ∈ writtenBallot c, undoes (.call (.call c) rest) = none →
      EachProg (fun other => ∀ undo ∈ undoes other, undo.user ≠ ballot.user) processes) :
    KeepsBallots counted (perform pid c s).1.votes
      (processes.insert pid ⟨request, some (rest (perform pid c s).2)⟩) := by
  have hback := hkeeps.back pid request _ hget
  cases hwritten : writtenBallot c with
  | none =>
    -- no ballot is written, and the process has to put back what it had to
    have hundoes : undoes (rest (perform pid c s).2) = undoes (.call (.call c) rest) :=
      hmoves.keeps hclosed hwritten
    refine ⟨hkeeps.back.insert (by rw [hundoes]; exact hback), fun user => ?_⟩
    rw [ballotOf_next, hwritten]
    exact (hkeeps.kept user).imp_right fun hsome => hsome.move hget (by rw [hundoes]; exact id)
  | some ballot =>
    have hother : ∀ user, user ≠ ballot.user →
        ballotOf (perform pid c s).1.votes user = ballotOf counted user ∨
          SomeProg (fun prog => ∃ undo ∈ undoes prog, undo.user = user)
            (processes.insert pid ⟨request, some (rest (perform pid c s).2)⟩) := by
      intro user huser
      rw [ballotOf_next, hwritten]
      show (if user = ballot.user then _ else _) = _ ∨ _
      rw [if_neg huser]
      refine (hkeeps.kept user).imp_right fun hsome => hsome.move hget ?_
      rintro ⟨undo, hundo, rfl⟩
      rcases undoes_of_written rest hwritten with hnone | hsame
      · rw [hnone] at hundo
        cases hundo
      · rw [hsame] at hundo
        exact absurd (congrArg Ballot.user (some.inj hundo)).symm huser
    rcases undoes_of_written rest hwritten with hnone | hsame
    · -- a ballot is written anew, over the one that was counted
      have hcounted : ballotOf s.votes ballot.user = ballotOf counted ballot.user := by
        refine (hkeeps.kept ballot.user).resolve_right ?_
        rintro ⟨pid', request', prog, hget', undo, hundo, huser⟩
        exact halone ballot hwritten hnone pid' request' prog hget' undo hundo huser
      rcases hmoves.wrote hclosed ballot hwritten hnone with hundoes | ⟨hundoes, huntouched⟩
      · have hundoes : undoes (rest (perform pid c s).2) =
          some ⟨ballot.user, ballotOf s.votes ballot.user⟩ := hundoes
        refine ⟨hkeeps.back.insert ?_, fun user => ?_⟩
        · intro undo hundo
          rw [hundoes] at hundo
          obtain rfl := some.inj hundo
          exact hcounted.symm
        · by_cases huser : user = ballot.user
          · exact .inr (.insert_self ⟨_, hundoes, huser.symm⟩)
          · exact hother user huser
      · have hundoes : undoes (rest (perform pid c s).2) = none := hundoes
        refine ⟨hkeeps.back.insert fun undo hundo => ?_, fun user => ?_⟩
        · rw [hundoes] at hundo
          cases hundo
        · by_cases huser : user = ballot.user
          · refine .inl (Eq.trans ?_ (huser ▸ hcounted))
            refine ballotOf_untouched pid (fun other hballot => ?_) user
            obtain rfl := some.inj (hwritten.symm.trans hballot)
            exact huntouched
          · exact hother user huser
    · -- the ballot that was counted is put back
      have hundoes : undoes (rest (perform pid c s).2) = none :=
        hmoves.putBack hclosed ballot hwritten (congrArg Option.isSome hsame)
      refine ⟨hkeeps.back.insert fun undo hundo => ?_, fun user => ?_⟩
      · rw [hundoes] at hundo
        cases hundo
      · by_cases huser : user = ballot.user
        · left
          rw [ballotOf_next, hwritten, huser, hback ballot hsame]
          exact if_pos rfl
        · exact hother user huser

end KeepsBallots

/-! ## When results are final -/

/-- The results that an event carries. -/
def finals? : Publication → Option FinalCounts
  | .pollClose finals => some finals
  | .pollVoteUpdate _ => none

/-- The program announces the results next. -/
def announcesNext {α : Type} : Program α → Bool
  | .call (.publish (.pollClose _)) _ => true
  | _ => false

def Closing.isCounted : Closing → Bool
  | .counted _ => true
  | _ => false

/-- The closer has read the ballots. -/
def ResultsCounted (sys : Polling) : Prop := sys.store.published.filterMap finals? ≠ [] ∨
    SomeProg (fun prog => (closing prog).isCounted = true) sys.processes

/-- The results are announced when no voter who has found the poll open has still to announce its
vote. -/
def VotersSilent (sys : Polling) (prog : Program Response) : Prop :=
  announcesNext prog = true → EachProg (fun other => updatesNext other = false) sys.processes

/-- The closer reads the ballots when no voter has still to put back another one than is there. -/
def BallotsBack (sys : Polling) (prog : Program Response) : Prop :=
  closing prog = .won → EachProg (fun other => ∀ undo ∈ undoes other,
    ballotOf sys.store.store.votes undo.user = undo.answerIds) sys.processes

/-- Once the closer has read the ballots, a late vote or retraction is written when no other of the
same user has still to be put back. -/
def LateAlone (sys : Polling) (prog : Program Response) : Prop :=
  ResultsCounted sys → ∀ c ∈ nextCall prog, ∀ ballot ∈ writtenBallot c, undoes prog = none →
    EachProg (fun other => ∀ undo ∈ undoes other, undo.user ≠ ballot.user) sys.processes

/-- Where voters and ballots have to stand before a step. -/
def Timely (sys : Polling) (prog : Program Response) : Prop :=
  Undisturbed sys prog ∧ VotersSilent sys prog ∧ BallotsBack sys prog ∧ LateAlone sys prog

instance (sys : Polling) : DecidablePred (Timely sys) := fun prog => by
  unfold Timely VotersSilent BallotsBack LateAlone ResultsCounted
  infer_instance

variable {s : Store}

/-- How far the closing of the poll is. -/
inductive Phase (answers : List UInt8) (w : World Store Publication) (processes : Processes) :
    Prop where
  | opened (hopen : w.store.poll.closed = false) (hnone : w.published.filterMap finals? = [])
      (hidle : EachProg (fun prog => closing prog = .idle) processes)
  | winning (hclosed : w.store.poll.closed = true) (hnone : w.published.filterMap finals? = [])
      {winner : Nat} {request : Request} {prog : Program Response}
      (hwinner : processes.get winner = some ⟨request, some prog⟩) (hstage : closing prog ≠ .idle)
      (hidle : ∀ pid request' prog', pid ≠ winner →
        processes.get pid = some ⟨request', some prog'⟩ → closing prog' = .idle)
      (hkeeps : ∀ finals, closing prog = .counted finals → ∃ counted,
        results answers (Table.values counted) = finals ∧
          KeepsBallots counted w.store.votes processes)
  | announced (hclosed : w.store.poll.closed = true) {counted : Table String PollVote}
      {before : List Publication}
      (hlast : w.published = before ++ [.pollClose (results answers counted.values)])
      (hnone : before.filterMap finals? = [])
      (hidle : EachProg (fun prog => closing prog = .idle) processes)
      (hsilent : EachProg (fun prog => updatesNext prog = false) processes)
      (hkeeps : KeepsBallots counted w.store.votes processes)

section Phase

variable {answers : List UInt8} {w : World Store Publication} {processes : Processes} {pid : Nat}
  {request : Request}

theorem quiet_closing (request : Request) : closing request.program = .idle :=
  congrArg Standing.closing (standing_program request)

theorem Phase.start (hphase : Phase answers w processes) (hfree : processes.get pid = none) :
    Phase answers w (processes.insert pid ⟨request, some request.program⟩) := by
  cases hphase with
  | opened hopen hnone hidle => exact .opened hopen hnone (hidle.insert (quiet_closing request))
  | winning hclosed hnone hwinner hstage hidle hkeeps =>
    rename_i winner _ _
    have hother : winner ≠ pid := by
      rintro rfl
      rw [hfree] at hwinner
      cases hwinner
    refine .winning hclosed hnone ((get_insert_of_ne hother _).trans hwinner) hstage ?_
      fun finals hfinals => ?_
    · intro pid' request'' prog' hpid' hget
      rcases get_insert_prog hget with ⟨-, rfl⟩ | ⟨-, hget⟩
      · exact quiet_closing request
      · exact hidle pid' request'' prog' hpid' hget
    · obtain ⟨counted, hcounted, hkeeps⟩ := hkeeps finals hfinals
      exact ⟨counted, hcounted, hkeeps.start hfree⟩
  | announced hclosed hlast hnone hidle hsilent hkeeps =>
    exact .announced hclosed hlast hnone (hidle.insert (quiet_closing request))
      (hsilent.insert (congrArg Standing.updates (standing_program request)))
      (hkeeps.start hfree)

theorem next_of_closed (hclosed : s.poll.closed = true) :
    Closing.next answers s c .idle = .idle := by
  cases c with
  | closePollIfOpen => exact if_pos hclosed
  | _ => rfl

theorem next_of_open (hc : c ≠ .closePollIfOpen) : Closing.next answers s c .idle = .idle := by
  cases c with
  | closePollIfOpen => exact absurd rfl hc
  | _ => rfl

/-- The winner stays ahead of its announcement; it counts when it reads the ballots. -/
theorem next_of_won (answers : List UInt8) (s : Store) (c : Call) : Closing.next answers s c .won = .won ∨
      writtenBallot c = none ∧
        Closing.next answers s c .won = .counted (results answers s.votes.values) := by
  cases c with
  | fetchPollVotes => exact .inr ⟨rfl, rfl⟩
  | closePollIfOpen => exact .inl (ite_self _)
  | _ => exact .inl rfl

theorem next_of_counted {finals : FinalCounts} (hclosed : s.poll.closed = true) :
    Closing.next answers s c (.counted finals) = .counted finals := by
  cases c with
  | closePollIfOpen => exact if_pos hclosed
  | _ => rfl

/-- **One call to the store keeps the phase**, where it is made in time. -/
theorem Phase.call (hphase : Phase answers w processes) {rest : Reply c → Program Response}
    (hget : processes.get pid = some ⟨request, some (.call (.call c) rest)⟩)
    (hmoves : Moves answers w.store c (standing (.call (.call c) rest))
      (standing (rest (perform pid c w.store).2)))
    (htimely : Timely ⟨w, processes⟩ (.call (.call c) rest)) :
    Phase answers { w with store := (perform pid c w.store).1 }
      (processes.insert pid ⟨request, some (rest (perform pid c w.store).2)⟩) := by
  obtain ⟨-, -, hback, hlate⟩ := htimely
  have hnext : closing (rest (perform pid c w.store).2) =
      (closing (.call (.call c) rest)).next answers w.store c := hmoves.closing
  cases hphase with
  | opened hopen hnone hidle =>
    have hwas := hidle pid request _ hget
    by_cases hc : c = .closePollIfOpen
    · -- this process wins the closing
      subst hc
      have hwon : closing (rest (perform pid .closePollIfOpen w.store).2) = .won := by
        rw [hnext, hwas]
        exact if_neg (by rw [hopen]; exact false_ne_true)
      refine .winning ?_ hnone get_insert_self (by rw [hwon]; nofun) ?_
        fun finals hfinals => by rw [hwon] at hfinals; cases hfinals
      · show (perform pid .closePollIfOpen w.store).1.poll.closed = true
        rw [perform_close_of_open pid hopen]
      · intro pid' request' prog' hpid' hget'
        rw [get_insert_of_ne hpid'] at hget'
        exact hidle pid' request' prog' hget'
    · exact .opened (open_stays pid hopen hc) hnone
        (hidle.insert (by rw [hnext, hwas]; exact next_of_open hc))
  | winning hclosed hnone hwinner hstage hidle hkeeps =>
    rename_i winner request' prog
    have hmoved : ∀ finals, closing prog = .counted finals → ∃ counted,
        results answers (Table.values counted) = finals ∧
          KeepsBallots counted (perform pid c w.store).1.votes
            (processes.insert pid ⟨request, some (rest (perform pid c w.store).2)⟩) := by
      intro finals hfinals
      obtain ⟨counted, hcounted, hkeeps⟩ := hkeeps finals hfinals
      refine ⟨counted, hcounted, hkeeps.call hget hmoves hclosed fun ballot hballot => ?_⟩
      refine hlate (.inr ⟨winner, request', prog, hwinner, ?_⟩) c rfl ballot hballot
      exact congrArg Closing.isCounted hfinals
    by_cases hself : pid = winner
    · -- the winner is still counting
      subst hself
      obtain rfl := prog_eq hget hwinner
      have hothers : ∀ pid' request' prog', pid' ≠ pid →
          (processes.insert pid ⟨request, some (rest (perform pid c w.store).2)⟩).get pid' =
            some ⟨request', some prog'⟩ → closing prog' = .idle := by
        intro pid' request' prog' hpid' hget'
        rw [get_insert_of_ne hpid'] at hget'
        exact hidle pid' request' prog' hpid' hget'
      cases hwas : closing (.call (.call c) rest) with
      | idle => exact absurd hwas hstage
      | counted finals =>
        rw [hwas, next_of_counted hclosed] at hnext
        refine .winning (closed_stays pid hclosed) hnone get_insert_self
          (by rw [hnext]; nofun) hothers fun finals' hfinals => hmoved finals' ?_
        rw [hwas, ← hnext, hfinals]
      | won =>
        rw [hwas] at hnext
        rcases next_of_won answers w.store c with hwon | ⟨hwritten, hcounted⟩
        · rw [hwon] at hnext
          exact .winning (closed_stays pid hclosed) hnone get_insert_self
            (by rw [hnext]; nofun) hothers fun finals hfinals => by rw [hnext] at hfinals; cases hfinals
        · -- it has read the ballots, and all that are put back from now on are among them
          rw [hcounted] at hnext
          refine .winning (closed_stays pid hclosed) hnone get_insert_self
            (by rw [hnext]; nofun) hothers fun finals hfinals => ⟨w.store.votes, ?_, ?_, ?_⟩
          · rw [hnext] at hfinals
            exact Closing.counted.inj hfinals
          · refine EachProg.insert (hback hwas) ?_
            have hundoes : undoes (rest (perform pid c w.store).2) = undoes (.call (.call c) rest) :=
              hmoves.keeps hclosed hwritten
            rw [hundoes]
            exact hback hwas pid request _ hget
          · intro user
            left
            show ballotOf (perform pid c w.store).1.votes user = _
            rw [ballotOf_next, hwritten]
    · have hwas := hidle pid request _ hself hget
      rw [hwas, next_of_closed hclosed] at hnext
      refine .winning (closed_stays pid hclosed) hnone
        ((get_insert_of_ne (Ne.symm hself) _).trans hwinner) hstage ?_ hmoved
      intro pid' request'' prog' hpid' hget'
      rcases get_insert_prog hget' with ⟨-, rfl⟩ | ⟨-, hget'⟩
      · exact hnext
      · exact hidle pid' request'' prog' hpid' hget'
  | announced hclosed hlast hnone hidle hsilent hkeeps =>
    have hwas := hidle pid request _ hget
    rw [hwas, next_of_closed hclosed] at hnext
    refine .announced (closed_stays pid hclosed) hlast hnone (hidle.insert hnext)
      (hsilent.insert (hmoves.updates hclosed)) ?_
    refine hkeeps.call hget hmoves hclosed fun ballot hballot => hlate (.inl ?_) c rfl ballot hballot
    show w.published.filterMap finals? ≠ []
    rw [hlast, List.filterMap_append]
    exact List.append_ne_nil_of_right_ne_nil _ (List.cons_ne_nil _ _)

theorem Phase.publish (hphase : Phase answers w processes) {event : Publication}
    {rest : Unit → Program Response}
    (hget : processes.get pid = some ⟨request, some (.call (.publish event) rest)⟩)
    (hrest : standing (rest ()) = .idle)
    (hsilent : (finals? event).isSome = true →
      EachProg (fun other => updatesNext other = false) processes) :
    Phase answers { w with published := w.published ++ [event] }
      (processes.insert pid ⟨request, some (rest ())⟩) := by
  have hclosing : closing (rest ()) = .idle := congrArg Standing.closing hrest
  cases event with
  | pollVoteUpdate counts =>
    have hnone' : ∀ {events : List Publication}, events.filterMap finals? = [] →
        (events ++ [Publication.pollVoteUpdate counts]).filterMap finals? = [] := fun hnone => by
      rw [List.filterMap_append, hnone]
      rfl
    cases hphase with
    | opened hopen hnone hidle => exact .opened hopen (hnone' hnone) (hidle.insert hclosing)
    | winning hclosed hnone hwinner hstage hidle hkeeps =>
      rename_i winner _ _
      have hself : pid ≠ winner := by
        rintro rfl
        obtain rfl := prog_eq hget hwinner
        exact hstage rfl
      refine .winning hclosed (hnone' hnone) ((get_insert_of_ne (Ne.symm hself) _).trans hwinner)
        hstage ?_ fun finals hfinals => ?_
      · intro pid' request'' prog' hpid' hget'
        rcases get_insert_prog hget' with ⟨-, rfl⟩ | ⟨-, hget'⟩
        · exact hclosing
        · exact hidle pid' request'' prog' hpid' hget'
      · obtain ⟨counted, hcounted, hkeeps⟩ := hkeeps finals hfinals
        exact ⟨counted, hcounted, hkeeps.publish hrest hget⟩
    | announced hclosed hlast hnone hidle hquiet hkeeps => cases hquiet pid request _ hget
  | pollClose finals =>
    cases hphase with
    | opened hopen hnone hidle | announced hclosed hlast hnone hidle hquiet hkeeps =>
      cases hidle pid request _ hget
    | winning hclosed hnone hwinner hstage hidle hkeeps =>
      rename_i winner _ _
      by_cases hself : pid = winner
      · subst hself
        obtain rfl := prog_eq hget hwinner
        obtain ⟨counted, rfl, hkept⟩ := hkeeps finals rfl
        refine .announced hclosed rfl hnone ?_
          ((hsilent rfl).insert (congrArg Standing.updates hrest)) (hkept.publish hrest hget)
        intro pid' request'' prog' hget'
        rcases get_insert_prog hget' with ⟨-, rfl⟩ | ⟨hpid', hget'⟩
        · exact hclosing
        · exact hidle pid' request'' prog' hpid' hget'
      · cases hidle pid request _ hself hget

end Phase

/-- What holds between two steps. -/
structure Kept (answers : List UInt8) (w : World Store Publication) (processes : Processes) :
    Prop where
  recounting : Recounting answers w.store processes
  phase : Phase answers w processes

theorem kept_idle (hopen : s.poll.closed = false) :
    Kept s.poll.answers ⟨s, []⟩ (∅ : Processes) where
  recounting := ⟨rfl, .empty, .empty, .empty, fun hclosed => by rw [hopen] at hclosed; cases hclosed⟩
  phase := .opened hopen rfl .empty

variable {sys : Polling}

theorem kept_step {answers : List UInt8} {pid : Nat} {request : Request}
    {c : Public Call Publication} {rest : Public.Answer Reply c → Program Response}
    (htimely : System.StepBy Timely sys (.step pid))
    (hget : sys.processes.get pid = some ⟨request, some (.call c rest)⟩)
    (hkept : Kept answers sys.store sys.processes) :
    Kept answers (Public.perform perform pid c sys.store).1 (sys.processes.insert pid
      ⟨request, some (rest (Public.perform perform pid c sys.store).2)⟩) := by
  refine ⟨recounting_step (fun process hget prog hprog => (htimely process hget prog hprog).1) hget
    hkept.recounting, ?_⟩
  have htime := htimely _ hget _ rfl
  have horderly := hkept.recounting.orderly pid request _ hget
  cases c with
  | publish event =>
    refine hkept.phase.publish hget horderly.1 fun hfinals => htime.2.1 ?_
    cases event with
    | pollClose finals => rfl
    | pollVoteUpdate counts => cases hfinals
  | call c =>
    exact hkept.phase.call hget (horderly pid sys.store.store hkept.recounting.fixed).1 htime

/-! ## The results -/

/-- A step calls `close_poll_if_open`, as every close does first. -/
def RunsClose : Polling × Event Request → Prop
  | (sys, .step pid) => ∃ process ∈ sys.processes.get pid, ∃ prog ∈ process.prog,
    nextCall prog = some .closePollIfOpen
  | _ => False

structure Final (history : List (Polling × Event Request)) (sys : Polling) : Prop where
  /-- The results are announced exactly once if any close has run. -/
  once : (∃ entry ∈ history, RunsClose entry) → sys.AllEnded →
    ∃ finals, sys.store.published.filterMap finals? = [finals]
  atMostOnce : (sys.store.published.filterMap finals?).length ≤ 1
  /-- No vote is announced after them. -/
  last : ∀ before finals after, sys.store.published = before ++ .pollClose finals :: after →
    ∀ counts, .pollVoteUpdate counts ∉ after
  /-- They are what is stored in the end. -/
  stored : sys.AllEnded → ∀ finals, .pollClose finals ∈ sys.store.published →
    sys.store.store.poll.finalCounts = finals

theorem closed_by_close (pid : Nat) : (perform pid .closePollIfOpen s).1.poll.closed = true := by
  cases hclosed : s.poll.closed with
  | true =>
    rw [perform_close_of_closed pid hclosed]
    exact hclosed
  | false => rw [perform_close_of_open pid hclosed]

theorem closed_of_runsClose {history : List (Polling × Event Request)}
    (hrun : Run Polling.exec (System.StepBy Timely) (idle ⟨s, []⟩) history sys)
    (hran : ∃ entry ∈ history, RunsClose entry) : sys.store.store.poll.closed = true := by
  obtain ⟨⟨middle, event⟩, hmem, hcloses⟩ := hran
  obtain ⟨before, after, rfl⟩ := append_of_mem hmem
  obtain ⟨-, -, hafter⟩ := hrun.split_at
  refine System.invariant (P := fun sys => sys.store.store.poll.closed = true) ?_ ?_ ?_ hafter ?_
  · exact fun _ _ _ _ _ hclosed => hclosed
  · intro _ pid _ c _ _ _ hclosed
    cases c with
    | publish event => exact hclosed
    | call c => exact closed_stays pid hclosed
  · exact fun _ _ _ _ _ _ _ hclosed => hclosed
  cases event with
  | step pid =>
    obtain ⟨⟨request, prog'⟩, hget, prog, rfl, hcall⟩ := hcloses
    cases prog with
    | done result => cases hcall
    | call c rest =>
      cases c with
      | publish event => cases hcall
      | call c =>
        obtain rfl : c = .closePollIfOpen := some.inj hcall
        have hget : middle.processes.get pid =
            some ⟨request, some (.call (.call .closePollIfOpen) rest)⟩ := hget
        simp only [Polling.exec, System.exec, hget]
        exact closed_by_close pid
  | _ => exact hcloses.elim

/-- In the end every user has the ballot that was counted, and the counts are those of the
ballots. -/
theorem finalCounts_eq {answers : List UInt8} {processes : Processes}
    {counted : Table String PollVote} (hkept : Recounting answers s processes)
    (hclosed : s.poll.closed = true) (hkeeps : KeepsBallots counted s.votes processes)
    (hended : ∀ pid process, processes.get pid = some process →
      ∃ result, process.prog = some (.done result)) :
    s.poll.finalCounts = results answers counted.values := by
  have hexact : Exact s := (hkept.closed hclosed).resolve_left (not_someProg hended fun _ => id)
  have hsame : ∀ user, ballotOf s.votes user = ballotOf counted user := fun user =>
    (hkeeps.kept user).resolve_right (not_someProg hended fun _ ⟨_, hundo, _⟩ => nomatch hundo)
  have hcount : ∀ j, s.stored j = countOf (tally counted.values, (counted.values.length : Int)) j :=
    fun j => by
      rw [countOf_tally, ← tallyOf_congr hsame]
      exact (exact_iff.mp hexact).2 j
  refine Prod.ext ?_ (hcount none)
  rw [← hkept.fixed]
  exact List.map_congr_left fun id _ => congrArg (Prod.mk id) (hcount (some id))

/-- **The results are final** in every run in which voters and ballots stand where they have to. -/
theorem final_results {s : Store} (hopen : s.poll.closed = false)
    {history : List (Polling × Event Request)} {sys : Polling}
    (hrun : Run Polling.exec (System.StepBy Timely) (idle ⟨s, []⟩) history sys) :
    Final history sys := by
  have hkept : Kept s.poll.answers sys.store sys.processes := by
    refine System.invariant (P := fun sys => Kept s.poll.answers sys.store sys.processes)
      ?_ ?_ ?_ hrun (kept_idle hopen)
    · exact fun _ _ _ _ hfree hkept => ⟨hkept.recounting.start hfree, hkept.phase.start hfree⟩
    · exact fun _ _ _ _ _ htimely hget hkept => kept_step htimely hget hkept
    · exact fun _ _ _ _ _ htimely => htimely.elim
  have habsent : ∀ {events : List Publication} {finals : FinalCounts},
      events.filterMap finals? = [] → Publication.pollClose finals ∉ events := by
    intro events finals hnone hmem
    have hfinals : finals ∈ events.filterMap finals? := mem_filterMap.mpr ⟨_, hmem, rfl⟩
    rw [hnone] at hfinals
    cases hfinals
  have hmem : ∀ {before after : List Publication} {finals : FinalCounts},
      Publication.pollClose finals ∈ before ++ .pollClose finals :: after := fun {before _ _} =>
    mem_append_right before mem_cons_self
  cases hkept.phase with
  | opened hopen hnone hidle =>
    refine ⟨fun hran => ?_, by rw [hnone]; exact Nat.zero_le 1, ?_, ?_⟩
    · rw [closed_of_runsClose hrun hran] at hopen
      cases hopen
    · exact fun before finals after heq => absurd (heq ▸ hmem) (habsent hnone)
    · exact fun _ finals hfinals => absurd hfinals (habsent hnone)
  | winning hclosed hnone hwinner hstage hidle hkeeps =>
    refine ⟨fun _ hended => ?_, by rw [hnone]; exact Nat.zero_le 1, ?_, ?_⟩
    · obtain ⟨result, hresult⟩ := hended _ _ hwinner
      rw [some.inj hresult] at hstage
      exact absurd rfl hstage
    · exact fun before finals after heq => absurd (heq ▸ hmem) (habsent hnone)
    · exact fun _ finals hfinals => absurd hfinals (habsent hnone)
  | announced hclosed hlast hnone hidle hsilent hkeeps =>
    rename_i counted _
    have hone : sys.store.published.filterMap finals? = [results s.poll.answers counted.values] := by
      rw [hlast, List.filterMap_append, hnone]
      rfl
    refine ⟨fun _ _ => ⟨_, hone⟩, by rw [hone]; exact Nat.le_refl 1, ?_, ?_⟩
    · intro before' finals' after heq counts hcounts
      rw [hlast] at heq
      rcases List.append_eq_append_iff.mp heq with ⟨middle, -, hmiddle⟩ | ⟨middle, rfl, hmiddle⟩
      · have hlength := congrArg List.length hmiddle
        have hafter : after = [] := List.eq_nil_of_length_eq_zero (by simp at hlength; omega)
        rw [hafter] at hcounts
        cases hcounts
      · cases middle with
        | nil =>
          rw [(cons.inj hmiddle).2] at hcounts
          cases hcounts
        | cons event middle =>
          rw [← (cons.inj hmiddle).1] at hnone
          exact absurd hmem (habsent hnone)
    · intro hended finals' hfinals
      rw [hlast] at hfinals
      rcases mem_append.mp hfinals with hbefore | hsame
      · exact absurd hbefore (habsent hnone)
      · rw [Publication.pollClose.inj (mem_singleton.mp hsame)]
        exact finalCounts_eq hkept.recounting hclosed hkeeps hended

/-- One vote is counted. Another, on a poll found open, is written when the results have been
counted, and taken back when they have been announced. -/
def votedLate : List (Event Request) :=
  [.start 0 oneVote, .step 0, .start 1 (.vote "V" "C" [1] 0 (.ok ())), .step 1, .step 1, .step 1,
    .step 1, .step 1, .start 2 anyClose, .step 2, .step 2, .step 2, .step 2, .step 0, .step 2,
    .step 0, .step 0, .step 0, .step 0, .step 0]

set_option maxRecDepth 10000 in
theorem final_results_voted_late :
    Final (historyOf Polling.exec (idle ⟨newPoll, []⟩) votedLate)
        (execAll Polling.exec (idle ⟨newPoll, []⟩) votedLate) ∧
      (execAll Polling.exec (idle ⟨newPoll, []⟩) votedLate).store.published =
        [.pollVoteUpdate ([(0, 0), (1, 1)], 1), .pollClose ([(0, 0), (1, 1)], 1)] := by
  have hrun : Run Polling.exec (System.StepBy Timely) (idle ⟨newPoll, []⟩) _
      (execAll Polling.exec (idle ⟨newPoll, []⟩) votedLate) :=
    Run.of_admitsAll (by decide)
  exact ⟨final_results rfl hrun, by decide⟩

/-! ## Results that are not final -/

/-- The voter finds the poll open and announces its vote when the results are out. -/
def announcedLate : List (Event Request) :=
  [.start 0 oneVote, .step 0, .step 0, .step 0, .step 0, .start 1 anyClose, .step 1, .step 1,
    .step 1, .step 1, .step 1, .step 0]

def countedAndTakenBack : List (Event Request) :=
  [.start 0 oneVote, .step 0, .step 0, .step 0, .start 1 anyClose, .step 1, .step 1, .step 1,
    .step 1, .step 1, .step 0, .step 0, .step 0, .step 0]

set_option maxRecDepth 10000 in
/-- A vote can be announced after the results, and the stored counts can end up other than the
results. -/
theorem results_not_final :
    (¬∀ (s : Store) (history : List (Polling × Event Request)) (sys : Polling),
      s.poll.closed = false → Run Polling.exec System.NoCrash (idle ⟨s, []⟩) history sys →
        ∀ before finals after, sys.store.published = before ++ .pollClose finals :: after →
          ∀ counts, .pollVoteUpdate counts ∉ after) ∧
      ¬∀ (s : Store) (history : List (Polling × Event Request)) (sys : Polling),
        s.poll.closed = false → Run Polling.exec System.NoCrash (idle ⟨s, []⟩) history sys →
          sys.AllEnded → ∀ finals, .pollClose finals ∈ sys.store.published →
            sys.store.store.poll.finalCounts = finals := by
  constructor
  · intro hall
    have hpublished : (execAll Polling.exec (idle ⟨newPoll, []⟩) announcedLate).store.published
        = [] ++ .pollClose ([(0, 1), (1, 0)], 1) :: [.pollVoteUpdate ([(0, 1), (1, 0)], 1)] := by
      decide
    exact hall newPoll _ _ rfl (Run.of_admitsAll (by decide)) _ _ _ hpublished _ mem_cons_self
  · intro hall
    have hfinals : Publication.pollClose ([(0, 1), (1, 0)], 1) ∈
        (execAll Polling.exec (idle ⟨newPoll, []⟩) countedAndTakenBack).store.published := by
      decide
    have hstored := hall newPoll _ _ rfl (Run.of_admitsAll (by decide))
      (System.allEnded_of_all (by decide)) _ hfinals
    exact absurd hstored (by decide)

end SlogaBackend.Polls
