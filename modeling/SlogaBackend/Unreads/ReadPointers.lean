import SlogaBackend.Unreads.Acker
import SlogaBackend.Unreads.DeletedChannels

/-!
# The order of committed pointers

crond commits whatever it has taken out of Redis, with an unconditional `$set`. So the
committed pointer of a user in a channel can move backwards: a worker that has taken an older id
and stalls commits it over the newer one that another worker has committed in the meantime.

What the order rests on is that no older id is left behind. Ids are on their way in two
places, in Redis and in the hands of workers (`Hand`). If an ack is recorded only for a message
that is not older than the committed pointer, and an id is committed only while no older one is
on its way, then the pointer never moves backwards (`last_id_never_decreases`).
-/

namespace SlogaBackend.Unreads

/-! ## What workers hold -/

/-- What a worker has in hand: the id it has taken out of Redis and may still commit or put
back, and a channel it has found to be gone. -/
structure Hand where
  held : Option ((String × String) × String)
  gone : Option String

/-- What a call and its answer leave in hand. -/
def Hand.note (hand : Hand) (c : Call) (answer : Answer c) : Hand :=
  match c, answer with
  | .getDel user channel, .ok (some message) =>
    { hand with held := some ((user, channel), message) }
  | .getDel _ _, _ => { hand with held := none }
  | .setNx _ _ _, _ => { hand with held := none }
  -- the commit is complete, so that the id is not put back
  | .findChannel _, .ok (some _) => ⟨none, none⟩
  | .findChannel channel, .ok none => { hand with gone := some channel }
  | .purgeUnreads _, .ok _ => ⟨none, none⟩
  | _, _ => hand

/-- The calls that the acks and crond make: they commit and put back only what they hold, and
purge only what is gone. -/
def Hand.allowed (hand : Hand) : Call → Prop
  | .findOneAndUpdate channel user message => hand.held = some ((user, channel), message)
  | .setNx user channel message => hand.held = some ((user, channel), message)
  | .purgeUnreads channels => ∃ channel, channels = [channel] ∧ hand.gone = some channel
  | .updateOne _ _ _ => False
  | .updateMany _ _ _ => False
  | .deleteUnreads _ _ => False
  | .insertMany _ => False
  | .deleteOneChannel _ => False
  | _ => True

def ackDiscipline : Discipline Call Answer Hand where
  init := ⟨none, none⟩
  note := Hand.note
  allowed := Hand.allowed
  possible _ _ := True

/-- Calls that every worker may make and that leave its hand alone. -/
def Neutral : Call → Prop
  | .set _ _ _ => True
  | .scan => True
  | .processAck _ => True
  | .settle _ _ => True
  | .fetchUnread _ _ => True
  | .fetchUnreads _ => True
  | .findChannels _ _ => True
  | .fetchThreadIdsByParents _ => True
  | .elsewhere _ _ => True
  | _ => False

section Programs

variable {α β : Type} {p : Program α}

theorem frames_neutrally (hp : p.Only Neutral) : p.Frames ackDiscipline id := by
  induction p with
  | done result => exact Frames.done result
  | call c rest ih =>
    refine Frames.call (fun hand => ?_) (fun hand answer => ?_) fun answer => ih _ (hp.2 _)
    · cases c <;> first | trivial | exact absurd hp.1 id
    · cases c <;> first | rfl | exact absurd hp.1 id

/-- Every call of the program is neutral. -/
def Neutrally (p : Program α) : Prop := p.Only Neutral

theorem neutrally_ask {c : Call} (h : Neutral c) : Neutrally (ask c) := only_ask h

theorem neutrally_return (a : α) : Neutrally (return a : Program α) := trivial

theorem Neutrally.bind {k : α → Program β} (hp : Neutrally p) (hk : ∀ a, Neutrally (k a))
    : Neutrally (p.bind k) := Only.bind hk hp

theorem Neutrally.attempt (hp : Neutrally p) : Neutrally p.attempt := Prog.Only.attempt hp

theorem neutrally_recordAndPublish (user channel message : String) (server : Option String) :
    Neutrally (recordAndPublish user channel message server) := by
  have hset : Neutrally (ask (.set user channel message)) := neutrally_ask trivial
  exact hset.bind fun _ => neutrally_ask trivial

theorem neutrally_recordAll (user server : String) (targets : List (String × String)) :
    Neutrally (recordAll user server targets) := by
  induction targets with
  | nil => exact neutrally_return ()
  | cons target targets ih =>
    exact (neutrally_recordAndPublish user target.1 target.2 (some server)).bind fun _ => ih

theorem neutrally_topLevelAckTargets (channels : List ChannelDocument)
    (visibleParents : List String) : Neutrally (topLevelAckTargets channels visibleParents) := by
  induction channels generalizing visibleParents with
  | nil => exact neutrally_return _
  | cons channel channels ih =>
    have hper : Neutrally (ask (.elsewhere "find_one" "server_members")) := neutrally_ask trivial
    unfold topLevelAckTargets
    split
    · refine hper.attempt.bind fun permission => ?_
      split
      · split
        · exact ih visibleParents
        · refine (ih _).bind fun ⟨targets, parents⟩ => ?_
          dsimp only
          split
          · exact neutrally_return _
          · exact neutrally_return _
      · exact ih visibleParents
    · exact ih visibleParents

theorem neutrally_fetchJoinedThreadIds (server : String) :
    Neutrally (fetchJoinedThreadIds server) := by
  have hmbs : Neutrally (ask (.elsewhere "find" "thread_members")) := neutrally_ask trivial
  refine hmbs.bind fun threads => ?_
  split
  · exact neutrally_return _
  · have hfn : Neutrally (ask (.findChannels "find" threads)) := neutrally_ask trivial
    exact hfn.bind fun _ => neutrally_return _

theorem neutrally_threadAckTargets (user server : String) (visibleParents : List String) :
    Neutrally (threadAckTargets user server visibleParents) := by
  unfold threadAckTargets
  split
  · exact neutrally_return _
  · have hthread : Neutrally (ask (.fetchThreadIdsByParents visibleParents)) :=
      neutrally_ask trivial
    refine hthread.bind fun threads => ?_
    split
    · exact neutrally_return _
    · have hunr : Neutrally (ask (.fetchUnreads user)) := neutrally_ask trivial
      refine (neutrally_fetchJoinedThreadIds server).bind fun joined => hunr.bind fun unreads => ?_
      dsimp only
      split
      · exact neutrally_return _
      · have hfet : ∀ ids, Neutrally (ask (.findChannels "fetch" ids)) :=
          fun _ => neutrally_ask trivial
        exact (hfet _).bind fun _ => neutrally_return _

theorem neutrally_ackServer (user server : String) (channels : List String) :
    Neutrally (ackServer user server channels) := by
  have hfet : Neutrally (ask (.findChannels "fetch" channels)) := neutrally_ask trivial
  have htar : Neutrally (serverAckTargets user server channels) := by
    refine hfet.bind fun documents => (neutrally_topLevelAckTargets documents []).bind fun found =>
      (neutrally_threadAckTargets user server found.2).attempt.bind fun threads => ?_
    split
    · exact neutrally_return _
    · exact neutrally_return _
  exact htar.bind (neutrally_recordAll user server)

variable {post : Hand → Result α → Prop}

/-- **The rule for one call.** -/
theorem obeys_ask {c : Call} {k : Value c → Program α} {hand : Hand} (hall : hand.allowed c)
    (herr : ∀ e, post (hand.note c (.error e)) (.error e))
    (hok : ∀ v, (k v).Obeys ackDiscipline post (hand.note c (.ok v))) :
    ((ask c).bind k).Obeys ackDiscipline post hand := by
  refine ⟨hall, fun answer _ => ?_⟩
  cases answer with
  | error e => exact herr e
  | ok v => exact hok v

theorem obeys_attempt {c : Call} {k : Result (Value c) → Program α} {hand : Hand}
    (hall : hand.allowed c)
    (hk : ∀ answer, (k answer).Obeys ackDiscipline post (hand.note c answer)) :
    ((ask c).attempt.bind k).Obeys ackDiscipline post hand :=
  ⟨hall, fun answer _ => hk answer⟩

/-- A program that has failed still holds the id. -/
def HeldOnError (held : Option ((String × String) × String)) (hand : Hand) (r : Result α) : Prop :=
  ∀ e, r = .error e → hand.held = held

theorem heldOnError_ok (held : Option ((String × String) × String)) (hand : Hand) (a : α) :
    HeldOnError held hand (.ok a : Result α) := nofun

theorem obeys_discard (channel : String) (hand : Hand) :
    (discardUnreadsIfChannelGone channel).Obeys ackDiscipline (HeldOnError hand.held) hand := by
  refine obeys_ask trivial (fun _ _ _ => rfl) fun found => ?_
  cases found with
  | some document => exact heldOnError_ok _ _ _
  | none => exact obeys_ask ⟨channel, rfl, rfl⟩ (fun _ _ _ => rfl) fun _ => heldOnError_ok _ _ _

variable {user channel message : String} {hand : Hand}

theorem obeys_acknowledgeMessage (hhl : hand.held = some ((user, channel), message)) :
    (acknowledgeMessage channel user message).Obeys ackDiscipline (HeldOnError hand.held) hand := by
  refine obeys_ask hhl (fun _ _ _ => rfl) fun unread => ?_
  refine Obeys.bind ((obeys_discard channel hand).mono fun hand' r h => ?_)
  cases r with
  | ok gone => exact heldOnError_ok _ _ _
  | error e => exact fun _ _ => h e rfl

theorem obeys_commitAck (hhl : hand.held = some ((user, channel), message)) :
    (commitAck user channel message).Obeys ackDiscipline (HeldOnError hand.held) hand := by
  refine obeys_ask trivial (fun _ _ _ => rfl) fun unread => ?_
  refine Obeys.bind ((obeys_acknowledgeMessage hhl).mono fun hand' r h => ?_)
  cases r with
  | error e => exact fun _ _ => h e rfl
  | ok updated =>
    -- after the commit nothing fails
    dsimp only
    split
    · split
      · exact obeys_attempt trivial fun _ => heldOnError_ok _ _ _
      · exact heldOnError_ok _ _ _
    · exact heldOnError_ok _ _ _

variable (user channel hand) in
theorem obeys_processChannelAck :
    (processChannelAck user channel).Obeys ackDiscipline (fun _ _ => True) hand := by
  refine obeys_ask trivial (fun _ => trivial) fun message => ?_
  cases message with
  | none => exact trivial
  | some message =>
    have hhl : (hand.note (.getDel user channel) (.ok (some message))).held =
      some ((user, channel), message) := rfl
    refine Obeys.bind (Obeys.attempt ((obeys_commitAck hhl).mono fun hand' r h => ?_))
    cases r with
    | ok _ => exact trivial
    | error e => exact obeys_attempt ((h e rfl).trans hhl) fun _ => trivial

theorem obeys_sweepKeys (keys : List (String × String)) (hand : Hand) :
    (sweepKeys keys).Obeys ackDiscipline (fun _ _ => True) hand := by
  induction keys generalizing hand with
  | nil => exact trivial
  | cons key keys ih =>
    refine Obeys.bind (Obeys.attempt ?_)
    exact (obeys_processChannelAck key.1 key.2 hand).mono fun hand' _ _ => ih hand'

theorem obeys_program (request : AckRequest) (hand : Hand) :
    request.program.Obeys ackDiscipline (fun _ _ => True) hand := by
  have hneut : ∀ {p : Program Unit}, Neutrally p → p.Obeys ackDiscipline (fun _ _ => True) hand :=
    fun hp => (frames_neutrally hp hand).mono fun _ _ _ => trivial
  cases request with
  | ackChannel user channel message =>
    exact hneut (neutrally_recordAndPublish user channel message none)
  | ackServer user server channels => exact hneut (neutrally_ackServer user server channels)
  | sweep => exact obeys_ask trivial (fun _ => trivial) fun keys => obeys_sweepKeys keys _
  | delivery payload redelivered =>
    show (handleDelivery payload redelivered).Obeys _ _ _
    unfold handleDelivery
    split
    · exact obeys_attempt trivial fun _ => trivial
    · rename_i channel _
      refine Obeys.bind (Obeys.attempt ?_)
      refine (obeys_processChannelAck payload.userId channel hand).mono fun hand' r _ => ?_
      cases r with
      | ok _ => exact obeys_attempt trivial fun _ => trivial
      | error e => exact obeys_attempt trivial fun _ => trivial

end Programs

/-! ## Workers -/

/-- The services, and what each worker has in hand. -/
structure World where
  store : Store
  hands : Nat → Hand

namespace World

/-- Nobody works yet. -/
def idle (store : Store) : World := ⟨store, fun _ => ackDiscipline.init⟩

def perform (pid : Nat) (c : Call) (w : World) : World × Answer c :=
  (⟨(Unreads.perform pid c w.store).1,
    Function.update w.hands pid ((w.hands pid).note c (Unreads.perform pid c w.store).2)⟩,
    (Unreads.perform pid c w.store).2)

def GoneIsGone (w : World) : Prop :=
  ∀ pid channel, (w.hands pid).gone = some channel → ¬w.store.Exists channel

theorem hands_perform_self (pid : Nat) (c : Call) (w : World) :
    (perform pid c w).1.hands pid = (w.hands pid).note c (perform pid c w).2 :=
  update_self _ _ _

theorem hands_perform_of_ne {pid other : Nat} (hne : other ≠ pid) (c : Call) (w : World) :
    (perform pid c w).1.hands other = w.hands other := update_of_ne hne _ _

end World

abbrev AckWorkers := System World AckRequest Error Call Answer Unit

namespace AckWorkers

abbrev exec := System.exec World.perform AckRequest.program

/-- The id a running worker holds. -/
def holds (sys : AckWorkers) (pid : Nat) : Option ((String × String) × String) :=
  if (sys.nextCall pid).isSome then (sys.store.hands pid).held else none

/-- Nothing older than what is recorded or committed is left behind: a pointer is recorded only
if it is not older than the committed one, and committed only while neither Redis nor another
worker has an older one. -/
def MayMake (sys : AckWorkers) (pid : Nat) : Call → Prop
  | .set user channel message =>
    ∀ committed ∈ sys.store.store.lastId user channel, committed ≤ message
  | .findOneAndUpdate channel user message =>
    (∀ waiting ∈ sys.store.store.pending.get (user, channel), message ≤ waiting) ∧
      ∀ other, other ≠ pid → ∀ taken ∈ sys.holds other, taken.1 = (user, channel) →
        message ≤ taken.2
  | _ => True

def InOrder (sys : AckWorkers) : Event AckRequest → Prop
  | .step pid => ∀ c ∈ sys.nextCall pid, sys.MayMake pid c
  | _ => True

theorem mem_keys_of_holds {sys : AckWorkers} {pid : Nat} {taken : (String × String) × String}
    (h : sys.holds pid = some taken) : pid ∈ sys.processes.keys := by
  unfold holds System.nextCall at h
  cases hg : sys.processes.get pid with
  | none => simp [hg] at h
  | some process => exact mem_keys_of_get hg

instance decidableMayMake (sys : AckWorkers) (pid : Nat) (c : Call) :
    Decidable (sys.MayMake pid c) :=
  match c with
  | .set _ _ message => inferInstanceAs (Decidable (∀ committed ∈ _, committed ≤ message))
  | .findOneAndUpdate channel user message =>
    decidable_of_iff ((∀ waiting ∈ sys.store.store.pending.get (user, channel), message ≤ waiting) ∧
      ∀ other ∈ sys.processes.keys, other ≠ pid → ∀ taken ∈ sys.holds other,
        taken.1 = (user, channel) → message ≤ taken.2)
      (and_congr_right fun _ => ⟨fun h other hne taken htaken =>
        h other (mem_keys_of_holds htaken) hne taken htaken, fun h other _ => h other⟩)
  | .getDel _ _ | .setNx _ _ _ | .scan | .processAck _ | .settle _ _ | .fetchUnread _ _
  | .fetchUnreads _ | .updateOne _ _ _ | .updateMany _ _ _ | .deleteUnreads _ _ | .insertMany _
  | .purgeUnreads _ | .findChannel _ | .findChannels _ _ | .fetchThreadIdsByParents _
  | .deleteOneChannel _ | .elsewhere _ _ => isTrue trivial

instance decidableInOrder (sys : AckWorkers) : ∀ event, Decidable (sys.InOrder event)
  | .step pid => inferInstanceAs (Decidable (∀ c ∈ sys.nextCall pid, sys.MayMake pid c))
  | .start _ _ => isTrue trivial
  | .crash _ => isTrue trivial

end AckWorkers

/-! ## One call -/

section Effects

variable {hand : Hand} {c : Call} {user channel : String}

/-- What an allowed call does to a committed pointer: nothing, or it commits an id, or it purges
the row. -/
theorem lastId_reach (hall : hand.allowed c) (s : Store) (user channel : String) :
    (reach c s).1.lastId user channel = s.lastId user channel ∨
      (∃ message, c = .findOneAndUpdate channel user message ∧
        (reach c s).1.lastId user channel = some message) ∨ c = .purgeUnreads [channel] ∧
        (reach c s).1.unreads.findOne (unreadKey channel user) = none := by
  cases c with
  | findOneAndUpdate channel' user' message =>
    by_cases hkey : unreadKey channel user = unreadKey channel' user'
    · obtain ⟨rfl, rfl⟩ : channel = channel' ∧ user = user' := by simpa [unreadKey] using hkey
      refine .inr (.inl ⟨message, rfl, ?_⟩)
      exact congrArg (·.bind ChannelUnread.lastId)
        (findOne_upsert_self s.unreads (ChannelUnread.acknowledge_id message))
    · exact .inl (congrArg (·.bind ChannelUnread.lastId)
        (findOne_upsert_of_ne s.unreads (ChannelUnread.acknowledge_id message) hkey))
  | purgeUnreads channels =>
    obtain ⟨channel', rfl, -⟩ := hall
    have haft : (reach (.purgeUnreads [channel']) s).1.unreads.findOne (unreadKey channel user) =
        (s.unreads.findOne (unreadKey channel user)).filter
          fun row => !(([channel'] : List String).contains row.id.channel) := findOne_deleteWhere _ _ _
    unfold Store.lastId
    rw [haft]
    cases hsto : s.unreads.findOne (unreadKey channel user) with
    | none => exact .inl rfl
    | some row =>
      have hid : row.id.channel = channel := congrArg UnreadKey.channel
        (key_of_findOne hsto)
      by_cases hch : channel' = channel
      · subst hch
        exact .inr (.inr ⟨rfl, by simp [hid]⟩)
      · exact .inl (by simp [Option.filter, hid, Ne.symm hch])
  | setNx user' channel' message | settle payload requeue =>
    simp only [reach]
    split <;> exact .inl rfl
  | updateOne | updateMany | deleteUnreads | insertMany | deleteOneChannel => exact absurd hall id
  | _ => exact .inl rfl

theorem pending_reach (c : Call) (s : Store) (user channel : String) :
    (reach c s).1.pending.get (user, channel) = s.pending.get (user, channel) ∨
      (reach c s).1.pending.get (user, channel) = none ∨
      ∃ message, (c = .set user channel message ∨ c = .setNx user channel message) ∧
        (reach c s).1.pending.get (user, channel) = some message := by
  cases c with
  | set user' channel' message =>
    by_cases hkey : (user, channel) = (user', channel')
    · cases hkey
      exact .inr (.inr ⟨message, .inl rfl, get_insert_self⟩)
    · exact .inl ((get_insert _ _ _ _).trans (if_neg hkey))
  | setNx user' channel' message =>
    simp only [reach]
    split
    · exact .inl rfl
    · by_cases hkey : (user, channel) = (user', channel')
      · cases hkey
        exact .inr (.inr ⟨message, .inr rfl, get_insert_self⟩)
      · exact .inl ((get_insert _ _ _ _).trans (if_neg hkey))
  | getDel user' channel' =>
    have hg := get_erase s.pending (user', channel') (user, channel)
    split at hg
    · exact .inr (.inl hg)
    · exact .inl hg
  | settle payload requeue | updateMany channel' users messages =>
    simp only [reach]
    split <;> exact .inl rfl
  | _ => exact .inl rfl

theorem held_perform (pid : Nat) (c : Call) (w : World) :
    ((World.perform pid c w).1.hands pid).held = (w.hands pid).held ∨
      ((World.perform pid c w).1.hands pid).held = none ∨
      ∃ user channel message, c = .getDel user channel ∧
        w.store.pending.get (user, channel) = some message ∧
        ((World.perform pid c w).1.hands pid).held = some ((user, channel), message) := by
  rw [World.hands_perform_self]
  cases c with
  | getDel user channel =>
    cases hans : (World.perform pid (.getDel user channel) w).2 with
    | error e => exact .inr (.inl rfl)
    | ok message =>
      cases message with
      | none => exact .inr (.inl rfl)
      | some message =>
        have hg : w.store.pending.get (user, channel) = some message := ok.inj (perform_ok hans).2.1
        exact .inr (.inr ⟨user, channel, message, rfl, hg, rfl⟩)
  | setNx user channel message => exact .inr (.inl rfl)
  | findChannel channel =>
    cases (World.perform pid (.findChannel channel) w).2 with
    | error e => exact .inl rfl
    | ok found =>
      cases found with
      | none => exact .inl rfl
      | some document => exact .inr (.inl rfl)
  | purgeUnreads channels =>
    cases (World.perform pid (.purgeUnreads channels) w).2 with
    | error e => exact .inl rfl
    | ok _ => exact .inr (.inl rfl)
  | _ => exact .inl rfl

theorem gone_perform (pid : Nat) (c : Call) (w : World) :
    ((World.perform pid c w).1.hands pid).gone = (w.hands pid).gone ∨
      ((World.perform pid c w).1.hands pid).gone = none ∨ ∃ channel, ¬w.store.Exists channel ∧
        ((World.perform pid c w).1.hands pid).gone = some channel := by
  rw [World.hands_perform_self]
  cases c with
  | getDel user channel =>
    cases (World.perform pid (.getDel user channel) w).2 with
    | error e => exact .inl rfl
    | ok message => cases message <;> exact .inl rfl
  | findChannel channel =>
    cases hans : (World.perform pid (.findChannel channel) w).2 with
    | error e => exact .inl rfl
    | ok found =>
      cases found with
      | none =>
        have hfnd : w.store.channels.findOne channel = none := ok.inj (perform_ok hans).2.1
        exact .inr (.inr ⟨channel, not_not_intro hfnd, rfl⟩)
      | some document => exact .inr (.inl rfl)
  | purgeUnreads channels =>
    cases (World.perform pid (.purgeUnreads channels) w).2 with
    | error e => exact .inl rfl
    | ok _ => exact .inr (.inl rfl)
  | _ => exact .inl rfl

theorem lastId_of_discarded {s : Store} {user channel : String}
    (h : s.unreads.findOne (unreadKey channel user) = none) : s.lastId user channel = none := by
  unfold Store.lastId
  rw [h]
  rfl

theorem lastId_perform (hall : hand.allowed c) (pid : Nat) (s : Store) (user channel : String) :
    (perform pid c s).1.lastId user channel = s.lastId user channel ∨
      (∃ message, c = .findOneAndUpdate channel user message ∧
        (perform pid c s).1.lastId user channel = some message) ∨ c = .purgeUnreads [channel] ∧
        (perform pid c s).1.unreads.findOne (unreadKey channel user) = none := by
  rcases perform_store pid c s with heq | heq
  · rw [heq]
    exact .inl rfl
  · rw [heq]
    exact lastId_reach hall s user channel

theorem pending_perform (pid : Nat) (c : Call) (s : Store) (user channel : String) :
    (perform pid c s).1.pending.get (user, channel) = s.pending.get (user, channel) ∨
      (perform pid c s).1.pending.get (user, channel) = none ∨
      ∃ message, (c = .set user channel message ∨ c = .setNx user channel message) ∧
        (perform pid c s).1.pending.get (user, channel) = some message := by
  rcases perform_store pid c s with heq | heq
  · rw [heq]
    exact .inl rfl
  · rw [heq]
    exact pending_reach c s user channel

end Effects

/-! ## Runs -/

namespace AckWorkers

/-- No id that is on its way is older than the committed one. -/
structure NothingOlder (sys : AckWorkers) : Prop where
  pending : ∀ user channel, ∀ waiting ∈ sys.store.store.pending.get (user, channel),
    ∀ committed ∈ sys.store.store.lastId user channel, committed ≤ waiting
  held : ∀ pid user channel message, sys.holds pid = some ((user, channel), message) →
    ∀ committed ∈ sys.store.store.lastId user channel, committed ≤ message

/-- What is found gone is gone, and workers keep the discipline. -/
abbrev Disciplined (sys : AckWorkers) : Prop :=
  System.Lawful ackDiscipline World.hands (fun _ _ _ => True) World.GoneIsGone sys

variable {pid other : Nat} {c : Call} {sys sys' : AckWorkers}

theorem goneIsGone_perform {w : World} (hgn : w.GoneIsGone) :
    (World.perform pid c w).1.GoneIsGone := by
  have hsta : ∀ channel, ¬w.store.Exists channel →
      ¬(World.perform pid c w).1.store.Exists channel := fun _ => staysGone_perform pid c w.store
  intro other channel hoth
  by_cases hpid : other = pid
  · subst hpid
    obtain hsm | hno | ⟨channel', hfnd, hnow⟩ := gone_perform other c w
    · exact hsta channel (hgn other channel (hsm.symm.trans hoth))
    · cases hno.symm.trans hoth
    · obtain rfl : channel' = channel := some.inj (hnow.symm.trans hoth)
      exact hsta channel' hfnd
  · rw [World.hands_perform_of_ne hpid] at hoth
    exact hsta channel (hgn other channel hoth)

variable {event : Event AckRequest}

theorem disciplined_exec (h : Disciplined sys) : Disciplined (exec sys event).1 := by
  have hadm : System.StepAdmits (fun _ => True) (fun _ _ _ => True) sys event := by
    cases event <;> first | trivial | exact fun _ _ => trivial
  exact System.lawful_exec World.hands_perform_self
    (fun pid c w q hne => World.hands_perform_of_ne hne c w)
    (fun request _ => obeys_program request _)
    (fun pid c w hgn _ _ => ⟨goneIsGone_perform hgn, trivial⟩) sys event hadm h

theorem holds_of_nextCall (hnx : sys.nextCall pid = some c) :
    sys.holds pid = (sys.store.hands pid).held := by
  unfold holds
  rw [hnx]
  rfl

theorem held_of_holds {taken : (String × String) × String} (h : sys.holds pid = some taken) :
    (sys.store.hands pid).held = some taken := by
  unfold holds at h
  split at h
  · exact h
  · cases h

theorem holds_congr (hproc : sys'.processes.get pid = sys.processes.get pid)
    (hhn : sys'.store.hands pid = sys.store.hands pid) : sys'.holds pid = sys.holds pid := by
  unfold holds System.nextCall
  rw [hproc, hhn]

theorem waiting_perform {w : World} {user channel waiting : String} (hall : (w.hands pid).allowed c)
    (h : (World.perform pid c w).1.store.pending.get (user, channel) = some waiting) :
    w.store.pending.get (user, channel) = some waiting ∨ c = .set user channel waiting ∨
      (∃ message, c = .setNx user channel message) ∧
        (w.hands pid).held = some ((user, channel), waiting) := by
  obtain hsm | hno | ⟨message, hset | hsetNx, hnow⟩ := pending_perform pid c w.store user channel
  · exact .inl (hsm.symm.trans h)
  · cases hno.symm.trans h
  · obtain rfl : message = waiting := some.inj (hnow.symm.trans h)
    exact .inr (.inl hset)
  · obtain rfl : message = waiting := some.inj (hnow.symm.trans h)
    subst hsetNx
    exact .inr (.inr ⟨⟨message, rfl⟩, hall⟩)

theorem taken_step (hnx : sys.nextCall pid = some c)
    (hst : sys'.store = (World.perform pid c sys.store).1)
    (hoths : ∀ other, other ≠ pid → sys'.processes.get other = sys.processes.get other)
    {user channel message : String} (h : sys'.holds other = some ((user, channel), message)) :
    sys.holds other = some ((user, channel), message) ∨
      c = .getDel user channel ∧ sys.store.store.pending.get (user, channel) = some message := by
  by_cases hpid : other = pid
  · subst hpid
    have haft := held_of_holds h
    rw [hst] at haft
    obtain hsm | hno | ⟨user', channel', message', rfl, hwait, hnow⟩ :=
      held_perform other c sys.store
    · exact .inl ((holds_of_nextCall hnx).trans (hsm.symm.trans haft))
    · cases hno.symm.trans haft
    · obtain ⟨⟨rfl, rfl⟩, rfl⟩ : (user' = user ∧ channel' = channel) ∧ message' = message := by
        simpa using hnow.symm.trans haft
      exact .inr ⟨rfl, hwait⟩
  · have hhn : sys'.store.hands other = sys.store.hands other := by
      rw [hst, World.hands_perform_of_ne hpid]
    exact .inl ((holds_congr (hoths other hpid) hhn).symm.trans h)

/-- **One step.** -/
theorem nothingOlder_step (hnx : sys.nextCall pid = some c)
    (hall : (sys.store.hands pid).allowed c) (hmay : sys.MayMake pid c)
    (hst : sys'.store = (World.perform pid c sys.store).1)
    (hoths : ∀ other, other ≠ pid → sys'.processes.get other = sys.processes.get other)
    (h : NothingOlder sys) : NothingOlder sys' := by
  have hpid : sys.holds pid = (sys.store.hands pid).held := holds_of_nextCall hnx
  refine ⟨fun user channel waiting hwait committed hcom => ?_,
    fun other user channel message hoth committed hcom => ?_⟩
  · rw [hst] at hwait hcom
    have hori := waiting_perform hall hwait
    obtain hsm | ⟨message, rfl, hnow⟩ | ⟨-, hno⟩ :=
      lastId_perform hall pid sys.store.store user channel
    · replace hcom := hsm.symm.trans hcom
      obtain hold | rfl | ⟨-, hhl⟩ := hori
      · exact h.pending user channel waiting hold committed hcom
      · exact hmay committed hcom
      · exact h.held pid user channel waiting (hpid.trans hhl) committed hcom
    · -- a commit: what waits is not older, and was there before
      cases hnow.symm.trans hcom
      obtain hold | hset | ⟨⟨_, hsetNx⟩, -⟩ := hori
      · exact hmay.1 waiting hold
      · cases hset
      · cases hsetNx
    · cases (lastId_of_discarded hno).symm.trans hcom
  · have hori := taken_step hnx hst hoths hoth
    rw [hst] at hcom
    obtain hsm | ⟨pointer, rfl, hnow⟩ | ⟨-, hno⟩ :=
      lastId_perform hall pid sys.store.store user channel
    · replace hcom := hsm.symm.trans hcom
      obtain hold | ⟨-, hwai⟩ := hori
      · exact h.held other user channel message hold committed hcom
      · exact h.pending user channel message hwai committed hcom
    · obtain rfl : pointer = committed := some.inj (hnow.symm.trans hcom)
      obtain hold | ⟨hgetDel, -⟩ := hori
      · by_cases hsl : other = pid
        · -- the worker has committed what it holds
          subst hsl
          obtain rfl : pointer = message := by simpa using hall.symm.trans (hpid.symm.trans hold)
          exact le_refl pointer
        · exact hmay.2 other hsl _ hold rfl
      · cases hgetDel
    · cases (lastId_of_discarded hno).symm.trans hcom

theorem get_insert_of_ne (hne : other ≠ pid) (process : Process AckRequest Error Call Answer Unit) :
    (sys.processes.insert pid process).get other = sys.processes.get other := by
  rw [get_insert, if_neg hne]

theorem nothingOlder_insert (h : NothingOlder sys)
    {process : Process AckRequest Error Call Answer Unit}
    (hnot : holds ⟨sys.store, sys.processes.insert pid process⟩ pid = none) :
    NothingOlder ⟨sys.store, sys.processes.insert pid process⟩ := by
  refine ⟨h.pending, fun other user channel message hoth => ?_⟩
  by_cases hpid : other = pid
  · subst hpid
    cases hnot.symm.trans hoth
  · have hsm : holds ⟨sys.store, sys.processes.insert pid process⟩ other = sys.holds other :=
      holds_congr (get_insert_of_ne hpid process) rfl
    exact h.held other user channel message (hsm.symm.trans hoth)

/-- **One event.** -/
theorem nothingOlder_exec (hdis : Disciplined sys) (hord : sys.InOrder event) (h : NothingOlder sys)
    : NothingOlder (exec sys event).1 := by
  obtain hsm | ⟨pid, request, rfl, hno, haft⟩ | ⟨pid, request, c, rest, rfl, hg, haft⟩ |
    ⟨pid, request, c, rest, rfl, hg, haft⟩ := exec_cases World.perform AckRequest.program sys event
  · rw [hsm]
    exact h
  · rw [haft]
    refine nothingOlder_insert h ?_
    have hfr : sys.store.hands pid = ackDiscipline.init := hdis.fresh pid hno
    unfold holds
    rw [show (sys.store.hands pid).held = none from congrArg Hand.held hfr, ite_self]
  · have hnx : sys.nextCall pid = some c := by
      simp only [System.nextCall, hg]
      rfl
    exact nothingOlder_step hnx (hdis.allowed hnx) (hord c hnx) (congrArg System.store haft)
      (fun other hne => by rw [haft, get_insert_of_ne hne]) h
  · rw [haft]
    refine nothingOlder_insert h ?_
    unfold holds System.nextCall
    rw [get_insert_self]
    rfl

theorem nothingOlder_of_run {store : Store}
    (hstar : ∀ user channel, ∀ waiting ∈ store.pending.get (user, channel),
      ∀ committed ∈ store.lastId user channel, committed ≤ waiting)
    {h : List (AckWorkers × Event AckRequest)}
    (hrun : Run exec InOrder (idle (.idle store)) h sys) :
    Disciplined sys ∧ NothingOlder sys := by
  refine hrun.invariant (P := fun sys => Disciplined sys ∧ NothingOlder sys)
    (fun sys event hord hsys => ⟨disciplined_exec hsys.1,
      nothingOlder_exec hsys.1 hord hsys.2⟩) ⟨?_, hstar, ?_⟩
  · exact System.lawful_idle (fun _ _ hgn => absurd hgn (by simp [World.idle, ackDiscipline]))
      fun _ => rfl
  · exact fun pid user channel message hhl => absurd (held_of_holds hhl)
      (by simp [World.idle, ackDiscipline, idle])

end AckWorkers

/-- **The committed pointer never moves backwards** where nothing older is left behind: in every
interleaving of acks, server acks, deliveries and sweeps, with lost answers and crashes, whose
steps are all in order, each step leaves the `last_id` of a row where it was or moves it
forward, or discards the row of a channel that is gone. -/
theorem last_id_never_decreases {store : Store}
    (hstart : ∀ user channel, ∀ waiting ∈ store.pending.get (user, channel),
      ∀ committed ∈ store.lastId user channel, committed ≤ waiting)
    {h : List (AckWorkers × Event AckRequest)} {sys : AckWorkers}
    (hrun : Run AckWorkers.exec AckWorkers.InOrder (idle (.idle store)) h sys)
    {before : AckWorkers} {event : Event AckRequest} (hmem : (before, event) ∈ h)
    {user channel old : String} (hold : before.store.store.lastId user channel = some old) :
    (∃ new, (AckWorkers.exec before event).1.store.store.lastId user channel = some new ∧
      old ≤ new) ∨
    ((AckWorkers.exec before event).1.store.store.unreads.findOne (unreadKey channel user) = none ∧
      ¬before.store.store.Exists channel) := by
  obtain ⟨h₁, h₂, rfl⟩ := append_of_mem hmem
  obtain ⟨hrun₁, horder, -⟩ := hrun.split_at
  obtain ⟨hdisciplined, hnothing⟩ := AckWorkers.nothingOlder_of_run hstart hrun₁
  have hstays : (AckWorkers.exec before event).1.store = before.store →
      ∃ new, (AckWorkers.exec before event).1.store.store.lastId user channel = some new ∧
        old ≤ new := by
    intro hstore
    rw [hstore]
    exact ⟨old, hold, le_refl old⟩
  obtain hsame | ⟨pid, request, rfl, -, hafter⟩ | ⟨pid, request, c, rest, rfl, hget, hafter⟩ |
    ⟨pid, request, c, rest, rfl, -, hafter⟩ :=
      exec_cases World.perform AckRequest.program before event
  · exact .inl (hstays (by rw [hsame]))
  · exact .inl (hstays (by rw [hafter]))
  · have hnext : before.nextCall pid = some c := by
      simp only [System.nextCall, hget]
      rfl
    have hallowed : (before.store.hands pid).allowed c := hdisciplined.allowed hnext
    rw [congrArg System.store hafter]
    obtain hsame | ⟨message, rfl, hnow⟩ | ⟨rfl, hnone⟩ :=
      lastId_perform hallowed pid before.store.store user channel
    · exact .inl ⟨old, hsame.trans hold, le_refl old⟩
    · refine .inl ⟨message, hnow, hnothing.held pid user channel message ?_ old hold⟩
      exact (AckWorkers.holds_of_nextCall hnext).trans hallowed
    · obtain ⟨channel', heq, hgone⟩ := hallowed
      obtain rfl : channel = channel' := List.head_eq_of_cons_eq heq
      exact .inr ⟨hnone, hdisciplined.store pid channel hgone⟩
  · exact .inl (hstays (by rw [hafter]))

/-! ## A sweep that stalls -/

namespace Stalled

/-- A channel, and services that answer. -/
def store : Store where
  pending := ∅
  events := []
  channels := Collection.put .empty ⟨"c", .topLevel, some "2"⟩
  unreads := .empty
  faults _ := none
  others _ := []
  tick := 0

def start : AckWorkers := idle (.idle store)

/-- The user acks the first message, a sweep takes it, and the user acks the second. -/
def taken : List (Event AckRequest) :=
  [.start 1 (.ackChannel "u" "c" "1"), .step 1, .step 1, .start 2 .sweep, .step 2, .step 2,
    .start 3 (.ackChannel "u" "c" "2"), .step 3, .step 3]

/-- crond takes the second message for the event of an ack, and commits it in the next step. -/
def delivered : List (Event AckRequest) :=
  [.start 4 (.delivery ⟨"u", some "c", none⟩ false), .step 4, .step 4]

/-- The sweep looks at the row, commits the first message and looks for the channel. -/
def swept : List (Event AckRequest) := [.step 2, .step 2, .step 2]

/-- The sweep has committed before crond does. -/
def before : AckWorkers := execAll AckWorkers.exec start (taken ++ swept ++ delivered)

end Stalled

open Stalled in
/-- The pointer goes from the first message to the second. -/
theorem last_id_never_decreases_swept :
    ∃ new, (AckWorkers.exec before (.step 4)).1.store.store.lastId "u" "c" = some new ∧
      "1" ≤ new := by
  have hbefore : AdmitsAll AckWorkers.exec AckWorkers.InOrder start (taken ++ swept ++ delivered) := by
    decide
  have hcommit : before.InOrder (.step 4) := by decide
  have hthere : before.store.store.Exists "c" := by
    unfold Store.Exists
    decide
  refine (last_id_never_decreases ?_ ((Run.of_admitsAll hbefore).append (.cons hcommit (.nil _)))
    (mem_append_right _ mem_cons_self) (by decide)).resolve_right
    fun hgone => hgone.2 hthere
  exact fun _ _ _ hwaiting => absurd hwaiting (by simp [store])

open Stalled in
/-- The delivery commits before the sweep: the pointer goes from the second message back to the
first. -/
theorem last_id_decreases_stalled :
    (execAll AckWorkers.exec start (taken ++ delivered ++ [.step 4, .step 2])).store.store.lastId "u" "c" =
        some "2" ∧
      (execAll AckWorkers.exec start
        (taken ++ delivered ++ [.step 4, .step 2, .step 2])).store.store.lastId "u" "c" = some "1" ∧ "1" < "2" := by
  decide

end SlogaBackend.Unreads
