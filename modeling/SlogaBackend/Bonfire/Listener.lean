import SlogaBackend.Lib.Runs
import SlogaBackend.Bonfire.State

/-!
# The listener

One connection: its state, the topics that Redis sends it, and the listener that makes the changes
which the state has queued. Between two flushes the state is changed by the handler of an event
and by the requests of the client.

`insert_subscription` and `remove_subscription` push to the queue and do not take back what is
queued already, as `subscribe_topic` and `unsubscribe_topic` do. A topic that goes through both
between two flushes is in both lists, and the listener and the record flush it in opposite orders.

* `owed_step`: what the queue holds is what upstream differs in, whatever was pushed.
* `upstream_eq_subscribed`: **after each flush Redis sends exactly what is recorded**, when no
  topic is in both lists.
-/

namespace SlogaBackend.Bonfire

open FollowsServers

variable {κ : Type}

/-- Something the log of a connection remembers of its active servers. -/
inductive Follow where
  | touched (id : String) (at_ : Nat)
  | evicted (id : String)

structure Connection (κ : Type) where
  state : State κ
  /-- The topics that Redis is subscribed to. -/
  upstream : Finset String
  /-- What the clock last said. -/
  clock : Nat
  /-- The servers asked for and evicted, the last one first; nothing reads it. -/
  log : List Follow

/-- What can happen to a connection. -/
inductive Op (κ : Type) where
  | subscribe (id : String) (now : Nat)
  | cache (cache : κ)
  | resetState
  | insertSubscription (subscription : String)
  | removeSubscription (subscription : String)
  | removeMemberTopic (serverId : String)
  | applyState (iteration : Iteration) (now : Nat)

/-- A new connection: Redis sends nothing yet. -/
def Connection.new (cache : κ) (userId : String) (privileged : Bool) (sessionId : String)
    (clock : Nat) : Connection κ where
  state := .from_ cache userId privileged sessionId
  upstream := ∅
  clock
  log := []

/-- The listener makes a change of the subscriptions; `subscribed` is what the state has. -/
def listen (upstream subscribed : Finset String) : SubscriptionStateChange → Finset String
  | .reset => subscribed
  | .change queue => queue.flushUpstream upstream
  | .none => upstream

variable [FollowsServers κ]

/-- One step of a connection; nothing is a panic. -/
def perform (c : Connection κ) : Op κ → Option (Connection κ)
  | .subscribe id now =>
    let (activeServers, evicted) := c.state.activeServers.touch id now
    some { c with
      state := { c.state with activeServers }
      clock := now
      log := evicted.toList.map .evicted ++ .touched id now :: c.log }
  | .cache cache => some { c with state := { c.state with cache } }
  | .resetState => some { c with state := c.state.resetState }
  | .insertSubscription subscription =>
    some { c with state := c.state.insertSubscription subscription }
  | .removeSubscription subscription =>
    (c.state.removeSubscription subscription).map fun state => { c with state }
  | .removeMemberTopic serverId => some { c with state := c.state.removeMemberTopic serverId }
  | .applyState iteration now =>
    let (state, change) := c.state.applyState iteration now
    some { c with state, upstream := listen c.upstream state.subscribed change, clock := now }

def step (c : Connection κ) (op : Op κ) : Connection κ × Option Unit :=
  ((perform c op).getD c, (perform c op).map fun _ => ())

/-! ## What the queue owes -/

/-- The queue of a state; none while everything is going to be subscribed anew. -/
def SubscriptionStateChange.pending : SubscriptionStateChange → Option (ChangeQueue String)
  | .none => some .empty
  | .change queue => some queue
  | .reset => Option.none

/-- Whatever is queued balances the record against upstream. -/
def Owed (upstream : Finset String) (s : State κ) : Prop :=
  ∀ queue ∈ s.state.pending, queue.Balanced s.subscribed upstream

/-- The queue is settled besides. -/
def SettledState (upstream : Finset String) (s : State κ) : Prop :=
  ∀ queue ∈ s.state.pending, queue.Settled s.subscribed upstream

omit [FollowsServers κ] in
theorem pending_subscribeTopic (s : State κ) (topic : String) :
    (s.subscribeTopic topic).state.pending =
      s.state.pending.map fun queue => queue.cancelOrAdd s.subscribed topic := by
  unfold State.subscribeTopic
  cases s.state with
  | none =>
    show SubscriptionStateChange.pending (if topic ∉ s.subscribed then _ else _) =
      some (ChangeQueue.cancelOrAdd .empty s.subscribed topic)
    rw [ChangeQueue.cancelOrAdd_empty]
    by_cases htop : topic ∉ s.subscribed
    · rw [if_pos htop, if_pos htop]
      rfl
    · rw [if_neg htop, if_neg htop]
      rfl
  | _ => rfl

omit [FollowsServers κ] in
theorem pending_unsubscribeTopic (s : State κ) (topic : String) :
    (s.unsubscribeTopic topic).state.pending =
      s.state.pending.map fun queue => queue.cancelOrRemove s.subscribed topic := by
  unfold State.unsubscribeTopic
  cases s.state with
  | none =>
    show SubscriptionStateChange.pending (if topic ∈ s.subscribed then _ else _) =
      some (ChangeQueue.cancelOrRemove .empty s.subscribed topic)
    rw [ChangeQueue.cancelOrRemove_empty]
    by_cases htop : topic ∈ s.subscribed
    · rw [if_pos htop, if_pos htop]
      rfl
    · rw [if_neg htop, if_neg htop]
      rfl
  | _ => rfl

variable {upstream : Finset String} {s : State κ}

omit [FollowsServers κ] in
theorem SettledState.subscribeTopic (hset : SettledState upstream s) (topic : String) :
    SettledState upstream (s.subscribeTopic topic) := by
  intro queue hq
  rw [pending_subscribeTopic, Option.mem_map] at hq
  obtain ⟨before, hbef, rfl⟩ := hq
  exact (hset before hbef).cancelOrAdd topic

omit [FollowsServers κ] in
theorem SettledState.unsubscribeTopic (hset : SettledState upstream s) (topic : String) :
    SettledState upstream (s.unsubscribeTopic topic) := by
  intro queue hq
  rw [pending_unsubscribeTopic, Option.mem_map] at hq
  obtain ⟨before, hbef, rfl⟩ := hq
  exact (hset before hbef).cancelOrRemove topic

section

variable (hset : SettledState upstream s) (iteration : Iteration) (now : Nat)
include hset

theorem SettledState.reconcileMemberTopics :
    SettledState upstream (s.reconcileMemberTopics iteration now) := by
  have hrem : SettledState upstream (s.dropRemovals iteration) :=
    List.foldlRecOn _ _ hset fun s hs topic _ => hs.unsubscribeTopic topic
  have hreq : SettledState upstream ((s.dropRemovals iteration).requestedServers now).1 := by
    unfold State.requestedServers
    split
    · exact hrem
    · exact hrem
  have hunw : ∀ requested, SettledState upstream
      (((s.dropRemovals iteration).requestedServers now).1.dropUnwanted iteration requested) :=
    fun requested => List.foldlRecOn _ _ hreq fun s hs topic _ =>
      SettledState.unsubscribeTopic (s := { s with memberTopics := s.memberTopics.erase topic })
        hs topic
  exact List.foldlRecOn _ _ (hunw _) fun s hs topic _ =>
    SettledState.subscribeTopic (s := { s with memberTopics := insert topic s.memberTopics })
      hs topic

/-- **A flush of a settled queue** leaves upstream and the record the same. -/
theorem SettledState.listen_eq :
    listen upstream (s.applyState iteration now).1.subscribed (s.applyState iteration now).2 =
        (s.reconcileMemberTopics iteration now).subscribed ∧
      (s.applyState iteration now).1.subscribed =
        (s.reconcileMemberTopics iteration now).subscribed := by
  have hrec := hset.reconcileMemberTopics iteration now
  unfold State.applyState
  dsimp only
  cases hst : (s.reconcileMemberTopics iteration now).state with
  | reset => exact ⟨rfl, rfl⟩
  | none =>
    have hemp := (hrec .empty (by rw [hst]; rfl)).upstream_eq
    rw [ChangeQueue.flushUpstream_empty] at hemp
    exact ⟨hemp, rfl⟩
  | change queue =>
    have hq := hrec queue (by rw [hst]; rfl)
    exact ⟨hq.upstream_eq, hq.record_eq⟩

end

/-! ## Every step -/

/-- Nothing is removed while everything is going to be subscribed anew. -/
def Allowed (c : Connection κ) : Op κ → Prop
  | .removeSubscription _ => c.state.state ≠ .reset
  | _ => True

/-- Besides, no topic is in both lists when they are flushed. -/
def Clean (c : Connection κ) : Op κ → Prop
  | .removeSubscription _ => c.state.state ≠ .reset
  | .applyState _ _ => ∀ queue ∈ c.state.state.pending, queue.Apart
  | _ => True

omit [FollowsServers κ] in
theorem Owed.settled (how : Owed upstream s) (hapa : ∀ queue ∈ s.state.pending, queue.Apart) :
    SettledState upstream s :=
  fun queue hq => ⟨how queue hq, hapa queue hq⟩

omit [FollowsServers κ] in
theorem owed_reset (hres : s.state = .reset) : Owed upstream s := by
  intro queue hq
  rw [hres] at hq
  exact nomatch hq

omit [FollowsServers κ] in
theorem Owed.insertSubscription (how : Owed upstream s) (subscription : String) :
    Owed upstream (s.insertSubscription subscription) := by
  unfold State.insertSubscription
  by_cases hsub : subscription ∈ s.subscribed
  · rw [if_pos hsub]
    exact how
  · rw [if_neg hsub]
    intro queue hq
    cases hst : s.state with
    | none =>
      rw [hst] at hq
      cases hq
      exact (how .empty (by rw [hst]; rfl)).pushAdd hsub
    | change before =>
      rw [hst] at hq
      cases hq
      exact (how before (by rw [hst]; rfl)).pushAdd hsub
    | reset =>
      rw [hst] at hq
      exact nomatch hq

omit [FollowsServers κ] in
theorem Owed.removeSubscription (how : Owed upstream s) {subscription : String} {s' : State κ}
    (hs' : s.removeSubscription subscription = some s') : Owed upstream s' := by
  unfold State.removeSubscription at hs'
  by_cases hsub : subscription ∈ s.subscribed
  · rw [if_neg (not_not_intro hsub)] at hs'
    cases hst : s.state with
    | none =>
      rw [hst] at hs'
      cases hs'
      rintro queue ⟨rfl⟩
      exact (how .empty (by rw [hst]; rfl)).pushRemove hsub
    | change before =>
      rw [hst] at hs'
      cases hs'
      rintro queue ⟨rfl⟩
      exact (how before (by rw [hst]; rfl)).pushRemove hsub
    | reset =>
      rw [hst] at hs'
      exact nomatch hs'
  · rw [if_pos hsub] at hs'
    exact Option.some.inj hs' ▸ how

theorem step_removeSubscription (c : Connection κ) (subscription : String) :
    (step c (.removeSubscription subscription)).1 =
      { c with state := (c.state.removeSubscription subscription).getD c.state } := by
  show ((c.state.removeSubscription subscription).map
    fun state => ({ c with state } : Connection κ)).getD c = _
  cases c.state.removeSubscription subscription <;> rfl

variable {c : Connection κ} {topic other : String}

/-- **One step keeps the queue owed**, as long as what is flushed is clean. -/
theorem owed_step (how : Owed c.upstream c.state) {op : Op κ} (hcle : Clean c op) :
    Owed (step c op).1.upstream (step c op).1.state := by
  cases op with
  | resetState => exact owed_reset rfl
  | insertSubscription subscription => exact how.insertSubscription subscription
  | removeSubscription subscription =>
    rw [step_removeSubscription]
    cases hremo : c.state.removeSubscription subscription with
    | none => exact how
    | some s' => exact how.removeSubscription hremo
  | applyState iteration now =>
    obtain ⟨hups, hsub⟩ := (how.settled hcle).listen_eq iteration now
    rintro queue ⟨rfl⟩
    show ChangeQueue.empty.Balanced (c.state.applyState iteration now).1.subscribed
      (listen c.upstream (c.state.applyState iteration now).1.subscribed
        (c.state.applyState iteration now).2)
    rw [hups, hsub]
    exact (ChangeQueue.settled_empty _).balanced
  | _ => exact how

/-- **Right after each flush Redis sends exactly the topics that are recorded**, along every run
whose flushes are clean. -/
theorem upstream_eq_subscribed (cache : κ) (userId : String) (privileged : Bool)
    (sessionId : String) (clock : Nat) {history : List (Connection κ × Op κ)} {c : Connection κ}
    (hrun : Run step Clean (.new cache userId privileged sessionId clock) history c)
    {iteration : Iteration} {now : Nat} (hclean : Clean c (.applyState iteration now)) :
    (step c (.applyState iteration now)).1.upstream =
      (step c (.applyState iteration now)).1.state.subscribed := by
  have howed : Owed c.upstream c.state :=
    hrun.invariant (P := fun c => Owed c.upstream c.state)
      (fun _ _ hadm howed => owed_step howed hadm) (owed_reset rfl)
  obtain ⟨hupstream, hsubscribed⟩ := (howed.settled hclean).listen_eq iteration now
  exact hupstream.trans hsubscribed.symm

/-! ## A channel that is lost and regained -/

/-- What the subscriptions read of a cache, and nothing else. -/
structure Roster where
  isBot : Bool
  servers : Finset String

instance : FollowsServers Roster := ⟨Roster.isBot, Roster.servers⟩

/-- A user in one server, who has one channel. -/
def oneChannel : List (Op Roster) := [.insertSubscription "01CHANNEL", .applyState .sorted 1]

def newConnection : Connection Roster :=
  .new { isBot := false, servers := {"01SERVER"} } "01USER" false "01SESSION" 0

/-- The user loses the channel, and another one comes. -/
theorem upstream_eq_subscribed_one_channel :
    (step (execAll step newConnection (oneChannel ++ [.removeSubscription "01CHANNEL",
      .insertSubscription "02CHANNEL"])) (.applyState .sorted 2)).1.upstream =
    (step (execAll step newConnection (oneChannel ++ [.removeSubscription "01CHANNEL",
      .insertSubscription "02CHANNEL"])) (.applyState .sorted 2)).1.state.subscribed := by
  refine upstream_eq_subscribed _ _ _ _ _ (Run.of_admitsAll ?_) ?_
  · refine ⟨trivial, ?_, ?_, trivial, trivial⟩
    · exact nofun
    · exact nofun
  · rintro queue ⟨rfl⟩
    decide

/-- The user loses the channel and gets it back before the flush: Redis goes on sending it, and it
is not recorded. -/
theorem regained_channel_differs :
    let ops := oneChannel ++ [.removeSubscription "01CHANNEL", .insertSubscription "01CHANNEL"]
    let before := execAll step newConnection ops
    let after := (step before (.applyState .sorted 2)).1
    AdmitsAll step Allowed newConnection (ops ++ [.applyState .sorted 2]) ∧
      "01CHANNEL" ∈ before.upstream ∧ "01CHANNEL" ∈ before.state.subscribed ∧
      "01CHANNEL" ∈ after.upstream ∧ "01CHANNEL" ∉ after.state.subscribed := by
  refine ⟨⟨trivial, trivial, ?_, trivial, trivial, trivial⟩, by decide⟩
  exact nofun

end SlogaBackend.Bonfire
