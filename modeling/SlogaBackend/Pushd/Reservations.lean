import SlogaBackend.Pushd.Generations

/-!
# Reservations are counted exactly

What is in flight at a destination is the number of its live tickets, in every state that calls
lead to: entries come and go, tickets outlive them, and a ticket of an entry that was evicted must
not be taken for one of the entry that came after it. The generations tell them apart until their
counter starts again.

* `reservations_exact`: while no more than `2 ^ 64` entries were created, what is in flight is
  counted exactly and within its limit, a ticket of an evicted entry changes no entry, a send waits
  only for one that is live, an entry that is busy is evicted only when all are, and the maps keep
  within their bounds.
* `reused_generation_miscounts`: one entry more, and the tickets of two entries are no longer told
  apart.
-/

namespace SlogaBackend.Pushd

open Table

variable {limiter : UpLimiter} {w : World} {call : Call}

/-! ## What is in flight -/

/-- What is in flight is counted by live tickets, within the limit. -/
structure Counted (limiter : UpLimiter) (w : World) : Prop where
  exact : ∀ key dest, w.state.dest.get key = some dest →
    dest.inFlight = w.liveOf key dest.generation
  atMost : ∀ key dest, w.state.dest.get key = some dest →
    dest.inFlight ≤ (limiter.limits.dest key).maxInFlight.toNat

theorem counted_initial (limiter : UpLimiter) : Counted limiter World.initial :=
  ⟨fun _ _ h => (nomatch h), fun _ _ h => (nomatch h)⟩

variable {n : ℕ}

theorem liveOf_fresh (h : Issued n w) (hn : n + 1 ≤ 2 ^ 64) (key : DestKey) :
    w.liveOf key (wrappingAddU64 w.state.generations 1) = 0 := by
  refine List.countP_eq_zero.mpr fun ticket hmem hcnt => ?_
  exact (h.live ticket hmem).ne h.fresh hn (of_decide_eq_true hcnt).2

theorem counted_exec (h : Counted limiter w) (hiss : Issued n w) (harm : w.Armed)
    (hhld : Holds w call) (hn : limiter.next n w call ≤ 2 ^ 64) :
    Counted limiter (limiter.exec w call).1 := by
  have hbt : ∀ key dest', (limiter.exec w call).1.state.dest.get key = some dest' →
      dest'.inFlight = (limiter.exec w call).1.liveOf key dest'.generation ∧
        dest'.inFlight ≤ (limiter.limits.dest key).maxInFlight.toNat := by
    intro key dest' hg
    refine inFlight_exec harm hhld
      (fun dest hds => ⟨h.exact key dest hds, h.atMost key dest hds⟩) (fun hno => ?_) hg
    rcases stamped_exec hiss harm hhld hg with ⟨dest, hold, -⟩ | ⟨-, hnx, -⟩
    · rw [hold] at hno
      cases hno
    · exact liveOf_fresh hiss (hnx ▸ hn) key
  exact ⟨fun key dest' hg => (hbt key dest' hg).1, fun key dest' hg => (hbt key dest' hg).2⟩

/-! ## The bounds of the maps -/

/-- The maps keep within their bounds. -/
structure Bounded (limits : UpLimits) (s : State) : Prop where
  dest : candidates s.dest ≤ limits.maxDestKeys
  user : s.user.keys.length ≤ limits.maxUserKeys
  subs : s.subs.keys.length ≤ limits.maxSubKeys

namespace Bounded

variable {limits : UpLimits} {iteration : Iteration} {userId : String} {sub : SubKey}
  {key : DestKey} {now : Instant} {generation : ℕ} {s : State}

theorem initial (limits : UpLimits) : Bounded limits .initial :=
  ⟨Nat.zero_le _, Nat.zero_le _, Nat.zero_le _⟩

variable {dest : Dest}

section

variable (h : Bounded limits s)
include h

theorem setDest (hg : s.dest.get key = some dest) (dest' : Dest)
    : Bounded limits (s.setDest key dest') :=
  ⟨(countKeys_insert_of_get dest' hg).trans_le h.dest, h.user, h.subs⟩

theorem setSub {entry : SubEntry} (hg : s.subs.get sub = some entry)
    (entry' : SubEntry) : Bounded limits (s.setSub sub entry') :=
  ⟨h.dest, h.user, (length_keys_insert_of_get entry' hg).trans_le h.subs⟩

theorem setUser (bucket : TokenBucket) : Bounded limits (s.setUser userId key bucket) := by
  refine ⟨h.dest, ?_, h.subs⟩
  show (Table.modify s.user (userId, key) _).keys.length ≤ _
  unfold Table.modify
  split
  · rename_i hg
    exact (length_keys_insert_of_get _ hg).trans_le h.user
  · exact h.user

theorem bumpCalls : Bounded limits s.bumpCalls := ⟨h.dest, h.user, h.subs⟩

end

section

variable (iteration : Iteration)

theorem destFor (key : DestKey) (now : Instant) (h : Bounded limits s)
    (hpos : 0 < limits.maxDestKeys) : Bounded limits (s.destFor limits iteration key now).1 := by
  refine ⟨?_, h.user, h.subs⟩
  unfold State.destFor
  cases hg : s.dest.get key with
  | some dest =>
    rw [if_neg (fun hbt => by simp at hbt)]
    exact (countKeys_insert_of_get _ hg).trans_le h.dest
  | none =>
    have hins := fun (map : Table DestKey Dest) dest => countKeys_insert_le evictable map key dest
    cases hkey : evictable key with
    | true =>
      refine (hins _ _).trans ?_
      rw [hkey]
      exact candidates_makeDestRoom_lt hpos s.dest
    | false =>
      refine (hins _ _).trans ?_
      rw [hkey]
      exact h.dest

theorem userFor (userId : String) (key : DestKey) (now : Instant)
    (h : Bounded limits s) (hpos : 0 < limits.maxUserKeys) :
    Bounded limits (s.userFor limits iteration userId key now).1 := by
  refine ⟨h.dest, ?_, h.subs⟩
  unfold State.userFor
  split
  · exact (length_keys_insert_le _ _ _).trans (length_makeUserRoom_lt hpos s.user)
  · rename_i hpres
    obtain ⟨entry, hg⟩ := ne_none_iff_exists'.mp hpres
    exact (length_keys_insert_of_get _ hg).trans_le h.user

theorem subEntry (sub : SubKey) (now : Instant) (h : Bounded limits s)
    (hpos : 0 < limits.maxSubKeys) : Bounded limits (s.subEntry limits iteration sub now).1 := by
  refine ⟨h.dest, h.user, ?_⟩
  unfold State.subEntry
  split
  · exact (length_keys_insert_le _ _ _).trans (length_makeSubRoom_lt hpos s.subs)
  · rename_i hpres
    obtain ⟨entry, hg⟩ := ne_none_iff_exists'.mp hpres
    exact (length_keys_insert_of_get _ hg).trans_le h.subs

end

theorem get_subEntry (limits : UpLimits) (iteration : Iteration) (sub : SubKey) (now : Instant)
    (s : State) : ∃ entry, (s.subEntry limits iteration sub now).1.subs.get sub = some entry :=
  ⟨_, get_insert_self⟩

theorem admitAt (h : Bounded limits s) (hpos : 0 < limits.maxUserKeys)
    (hg : s.dest.get key = some dest) :
    Bounded limits (s.admitAt limits iteration userId sub key now dest).1 := by
  unfold State.admitAt
  split
  · exact h.setDest hg _
  · split
    · exact h
    · split
      · exact h.setDest hg _
      · have huse := h.userFor iteration userId key now hpos
        dsimp only
        split
        · exact huse.setUser _
        · exact (huse.setDest hg _).setUser _

theorem releaseSlot (key : DestKey) (generation : ℕ) (h : Bounded limits s) :
    Bounded limits (s.releaseSlot key generation) := by
  unfold State.releaseSlot
  cases hlv : s.liveDest key generation with
  | some dest => exact h.setDest (State.liveDest_eq_some.mp hlv).1 _
  | none => exact h

theorem dropped (h : Bounded limits s) (ticket : Ticket) : Bounded limits (ticket.dropped s) := by
  unfold Ticket.dropped
  split
  · exact h.releaseSlot _ _
  · exact h

theorem completeSuccess (h : Bounded limits s) :
    Bounded limits (s.completeSuccess key generation sub) := by
  have hrel := h.releaseSlot key generation
  unfold State.completeSuccess
  dsimp only
  split
  · rename_i entry hg
    have hset := hrel.setSub hg entry.clearCooldown.2
    split
    · exact ⟨hset.dest, hset.user, (length_keys_erase_le _ _).trans hset.subs⟩
    · exact hset
  · exact hrel

theorem completeRejected (h : Bounded limits s) (hpos : 0 < limits.maxSubKeys) (prunes : Bool)
    (status : Option UInt16) : Bounded limits (s.completeRejected limits iteration userId sub key
      generation prunes status now).1 := by
  have hset : ∀ s : State, Bounded limits s → ∀ entry, Bounded limits
      ((s.subEntry limits iteration sub now).1.setSub sub entry) := by
    intro s hs entry
    obtain ⟨stored, hsto⟩ := get_subEntry limits iteration sub now s
    exact (hs.subEntry iteration sub now hpos).setSub hsto entry
  refine hset _ ?_ _
  split
  · rename_i hlv
    exact h.bumpCalls.setDest (State.liveDest_eq_some.mp hlv).1 _
  · exact h.bumpCalls

end Bounded

theorem bounded_exec (h : Bounded limiter.limits w.state) :
    Bounded limiter.limits (limiter.exec w call).1.state := by
  obtain ⟨now, iteration, op⟩ := call
  cases op with
  | admitSend userId sub key =>
    show Bounded limiter.limits
      (State.admitSend limiter.limits iteration userId sub key now w.state).1
    rcases State.admit_cases limiter.limits iteration w.state userId sub key now with
      ⟨entry, first, ⟨stored, hsto⟩, heq⟩ | heq
    · rw [heq]
      exact h.bumpCalls.setSub hsto entry
    · obtain ⟨visited, hsnd, hg, -⟩ :=
        State.visited_destFor limiter.limits iteration key now w.state.bumpCalls
      have hds : Bounded limiter.limits
          (w.state.bumpCalls.destFor limiter.limits iteration key now).1 :=
        h.bumpCalls.destFor iteration key now limiter.maxDestKeys_pos
      rw [heq, hsnd]
      exact hds.admitAt limiter.maxUserKeys_pos hg
  | success ticket => exact h.completeSuccess
  | rejected ticket prunes status => exact h.completeRejected limiter.maxSubKeys_pos prunes status
  | drop ticket => exact h.dropped ticket
  | drainUser userId key =>
    exact (h.bumpCalls.userFor iteration userId key now limiter.maxUserKeys_pos).setUser _
  | topSenders key =>
    show Bounded limiter.limits (State.topSenders key w.state).1
    unfold State.topSenders
    split
    · rename_i hg
      exact h.setDest hg _
    · exact h
  | firstRefusal sub =>
    show Bounded limiter.limits (State.firstRefusal limiter.limits iteration sub now w.state).1
    have hsub := h.subEntry iteration sub now limiter.maxSubKeys_pos
    obtain ⟨stored, hsto⟩ := Bounded.get_subEntry limiter.limits iteration sub now w.state
    unfold State.firstRefusal
    dsimp only
    split
    · exact hsub.setSub hsto _
    · exact hsub

/-! ## Runs -/

/-- What is known of a world after so many entries were created. -/
structure Tracked (limiter : UpLimiter) (n : ℕ) (w : World) : Prop where
  armed : w.Armed
  issued : Issued n w
  counted : Counted limiter w
  bounded : Bounded limiter.limits w.state

theorem tracked_initial (limiter : UpLimiter) : Tracked limiter 0 World.initial :=
  ⟨fun _ h => absurd h not_mem_nil, issued_initial, counted_initial limiter,
    Bounded.initial limiter.limits⟩

theorem tracked_exec (h : Tracked limiter n w) (hhld : Holds w call)
    (hn : limiter.next n w call ≤ 2 ^ 64) :
    Tracked limiter (limiter.next n w call) (limiter.exec w call).1 :=
  ⟨armed_exec h.armed, issued_exec h.issued h.armed hhld,
    counted_exec h.counted h.issued h.armed hhld hn, bounded_exec h.bounded⟩

theorem created_cons (n : ℕ) (w : World) (call : Call) (h : List (World × Call)) :
    n + limiter.created ((w, call) :: h) = limiter.next n w call + limiter.created h := by
  unfold UpLimiter.created UpLimiter.next
  rw [List.countP_cons]
  simp
  omega

variable {h : List (World × Call)} {dest : Dest}

theorem tracked_run {w w' : World} (hrun : Run limiter.exec Holds w h w') :
    ∀ {n : ℕ}, Tracked limiter n w → n + limiter.created h ≤ 2 ^ 64 →
      Tracked limiter (n + limiter.created h) w' := by
  induction hrun with
  | nil w => exact fun h _ => h
  | cons hhld _ ih =>
    intro n htrk hn
    rw [created_cons] at hn ⊢
    exact ih (tracked_exec htrk hhld (le_of_add_le_left hn)) hn

theorem stamped_run {w w' : World} (hrun : Run limiter.exec Holds w h w') {lo : ℕ} {key : DestKey} :
    ∀ {n : ℕ}, Tracked limiter n w → lo ≤ n → n + limiter.created h ≤ 2 ^ 64 →
      (∀ dest, w.state.dest.get key = some dest → Stamped lo n dest.generation) →
      ∀ dest, w'.state.dest.get key = some dest →
        Stamped lo (n + limiter.created h) dest.generation := by
  induction hrun with
  | nil w => exact fun _ _ _ h => h
  | @cons w w' call h hhld _ ih =>
    intro n htrk hlo hn hstam
    rw [created_cons] at hn ⊢
    have hle : n ≤ limiter.next n w call := Nat.le_add_right _ _
    refine ih (tracked_exec htrk hhld (le_of_add_le_left hn)) (hlo.trans hle) hn ?_
    intro dest' hg
    rcases stamped_exec htrk.issued htrk.armed hhld hg with
      ⟨dest, hold, hgen⟩ | ⟨-, hnx, hgen⟩
    · rw [hgen]
      exact (hstam dest hold).mono hle
    · obtain ⟨m, hm, hm', heq⟩ := htrk.issued.fresh
      rw [hnx, hgen]
      exact ⟨m, hlo.trans_lt hm, hm', heq⟩

theorem dest_of_stale {ticket : Ticket} (hcom : ticket ∈ call.op.completes)
    (hstal : ∀ dest, w.state.dest.get ticket.key = some dest →
      dest.generation ≠ ticket.generation) : (limiter.exec w call).1.state.dest = w.state.dest := by
  have hlv := State.liveDest_eq_none.mpr hstal
  have hrel : (w.state.releaseSlot ticket.key ticket.generation).dest = w.state.dest := by
    unfold State.releaseSlot
    rw [hlv]
  obtain ⟨now, iteration, op⟩ := call
  cases op with
  | success ticket' =>
    obtain rfl := mem_singleton.mp hcom
    exact (State.completeSuccess_dest _ _ _ _).trans hrel
  | rejected ticket' prunes status =>
    obtain rfl := mem_singleton.mp hcom
    show (State.completeRejected _ _ _ _ _ _ _ _ _ w.state).1.dest = _
    rw [State.completeRejected_dest]
    rw [hlv]
  | drop ticket' =>
    obtain rfl := mem_singleton.mp hcom
    show (Ticket.dropped ticket w.state).dest = _
    unfold Ticket.dropped
    split
    · exact hrel
    · rfl
  | _ => exact absurd hcom not_mem_nil

/-- Tickets of the entry are live, or its budget is spent at the instant. -/
def Busy (limiter : UpLimiter) (w : World) (now : Instant) (key : DestKey) (dest : Dest) : Prop :=
  0 < w.liveOf key dest.generation ∨ (dest.refill (limiter.limits.dest key) now).paused = true

theorem busy_iff {now : Instant} {key : DestKey} (h : Counted limiter w)
    (hg : w.state.dest.get key = some dest) : Busy limiter w now key dest ↔
      (dest.refill (limiter.limits.dest key) now).isProtected = true := by
  have hexa := h.exact key dest hg
  unfold Busy Dest.isProtected
  rw [or_eq_true, decide_eq_true_eq, Dest.refill_inFlight, hexa]
  exact or_comm

/-- **Reservations are counted exactly.** -/
theorem reservations_exact (limiter : UpLimiter) {h : List (World × Call)} {w : World}
    (hrun : Run limiter.exec Holds .initial h w) (hcreated : limiter.created h ≤ 2 ^ 64) :
    -- what is in flight is the live tickets of the entry
    (∀ key dest, w.state.dest.get key = some dest → dest.inFlight = w.liveOf key dest.generation ∧
        dest.inFlight ≤ (limiter.limits.dest key).maxInFlight.toNat) ∧
    -- a ticket of an entry that was evicted changes no entry
    (∀ e ∈ h, ∀ ticket : Ticket, ∀ dest, e.1.state.dest.get ticket.key = some dest →
      dest.generation = ticket.generation →
      (limiter.exec e.1 e.2).1.state.dest.get ticket.key = none →
      ∀ call : Call, ticket ∈ call.op.completes →
        (limiter.exec w call).1.state.dest = w.state.dest) ∧
    -- a send waits for one that is live
    (∀ now iteration userId sub key,
      (limiter.exec w ⟨now, iteration, .admitSend userId sub key⟩).2 = .admission .wait →
      1 ≤ (limiter.limits.dest key).maxInFlight.toNat →
      ∃ ticket ∈ w.live, ticket.key = key ∧ ∃ dest,
        (limiter.exec w ⟨now, iteration, .admitSend userId sub key⟩).1.state.dest.get key =
            some dest ∧
          dest.generation = ticket.generation) ∧
    -- what is evicted is generic, and busy only when every generic entry is
    (∀ call key dest, w.state.dest.get key = some dest →
      (limiter.exec w call).1.state.dest.get key = none →
      key ≠ .ntfy ∧ (Busy limiter w call.now key dest →
        ∀ key' dest', key' ≠ .ntfy → w.state.dest.get key' = some dest' →
          Busy limiter w call.now key' dest')) ∧
    -- the maps keep within their bounds
    candidates w.state.dest ≤ limiter.limits.maxDestKeys ∧
    w.state.user.keys.length ≤ limiter.limits.maxUserKeys ∧
    w.state.subs.keys.length ≤ limiter.limits.maxSubKeys := by
  have hcreated' : 0 + limiter.created h ≤ 2 ^ 64 := by
    rw [Nat.zero_add]
    exact hcreated
  have htracked := tracked_run hrun (tracked_initial limiter) hcreated'
  refine ⟨fun key dest hget => ⟨htracked.counted.exact key dest hget,
    htracked.counted.atMost key dest hget⟩, ?_, ?_, ?_, htracked.bounded.dest,
    htracked.bounded.user, htracked.bounded.subs⟩
  · rintro ⟨m, evicting⟩ hmem ticket dest hget hgen hgone call hcompletes
    refine dest_of_stale hcompletes fun dest' hget' => ?_
    obtain ⟨before, after, rfl⟩ := append_of_mem hmem
    obtain ⟨hbefore, hholds, hafter⟩ := hrun.split_at
    have hsplit : 0 + limiter.created (before ++ (m, evicting) :: after) =
        limiter.next (0 + limiter.created before) m evicting + limiter.created after := by
      rw [← created_cons, Nat.zero_add, Nat.zero_add]
      exact List.countP_append
    rw [hsplit] at hcreated'
    have hnext := le_of_add_le_left hcreated'
    have hm := tracked_run hbefore (tracked_initial limiter) ((Nat.le_add_right _ _).trans hnext)
    -- the entry was stamped before it went, what is there now was stamped after
    have hold : Stamped 0 (limiter.next (0 + limiter.created before) m evicting)
        ticket.generation := by
      rw [← hgen]
      exact (hm.issued.entries ticket.key dest hget).mono (Nat.le_add_right _ _)
    have hnew := stamped_run hafter (tracked_exec hm hholds hnext) le_rfl hcreated'
      (fun dest'' hget'' => by
        rw [hgone] at hget''
        cases hget'') dest' hget'
    exact (hold.ne hnew hcreated').symm
  · intro now iteration userId sub key hwait hmax
    have hwait' : (w.state.admitSend limiter.limits iteration userId sub key now).2 = .wait :=
      Answer.admission.inj hwait
    obtain ⟨dest, hget, hfull⟩ := State.admit_of_wait hwait'
    have hlive : 0 < dest.inFlight := by
      rcases hfull with hfull | hlive
      · exact Nat.lt_of_lt_of_le hmax hfull
      · exact hlive
    have hholds : Holds w ⟨now, iteration, .admitSend userId sub key⟩ :=
      fun ticket hmem => absurd hmem not_mem_nil
    -- the entry was there before, with as much in flight
    have hstep := entryStep_exec limiter key htracked.armed hholds
    have hdeed : limiter.deed key w ⟨now, iteration, .admitSend userId sub key⟩ = .other := by
      refine if_neg ?_
      rw [hwait]
      exact fun hsent => (nomatch hsent)
    have hget' : (limiter.exec w ⟨now, iteration, .admitSend userId sub key⟩).1.state.dest.get key =
        some dest := hget
    rw [hdeed, hget'] at hstep
    have hstored : ∃ stored, w.state.dest.get key = some stored ∧
        stored.inFlight = dest.inFlight ∧ stored.generation = dest.generation := by
      generalize w.state.dest.get key = entry at hstep
      cases hstep with
      | kept halike => exact ⟨_, rfl, halike.inFlight.symm, halike.generation.symm⟩
      | visited hvisit =>
        cases hvisit with
        | stored halike => exact ⟨_, rfl, halike.inFlight.symm, halike.generation.symm⟩
        | created halike =>
          rw [halike.inFlight] at hlive
          exact absurd hlive (Nat.lt_irrefl 0)
      | stale hdeed => rcases hdeed with h | ⟨status, h⟩ <;> cases h
    obtain ⟨stored, hstored, hinFlight, hgen⟩ := hstored
    rw [← hinFlight, htracked.counted.exact key stored hstored] at hlive
    obtain ⟨ticket, hmem, hcounted⟩ := List.countP_pos_iff.mp hlive
    obtain ⟨hkey, hticket⟩ := of_decide_eq_true hcounted
    exact ⟨ticket, hmem, hkey, dest, hget', hgen.symm.trans hticket.symm⟩
  · intro call key dest hget hgone
    have hroom := room_of_gone hget hgone
    constructor
    · rintro rfl
      rcases get_makeDestRoom limiter.limits call.iteration call.now w.state.dest .ntfy with
        h | h | ⟨-, h⟩
      · rw [hroom, hget] at h
        cases h
      · rw [hroom, hget] at h
        cases h
      · cases h
    · intro hbusy key' dest' hkey' hget'
      rw [busy_iff htracked.counted hget']
      rw [busy_iff htracked.counted hget] at hbusy
      exact protected_of_evicted htracked.bounded.dest hget hroom hbusy hget' (decide_eq_true hkey')

/-! ## A limiter with room for one destination -/

/-- A limiter that keeps one generic destination at a time. -/
def crowded : UpLimiter := .with_ { UpLimits.default with maxDestKeys := 1 }

/-- The destinations that drive each other out. -/
def turnKey (n : ℕ) : DestKey := if n % 2 = 0 then .ip (.v4 1) else .ip (.v4 2)

/-- A send to the one, then to the other, and so on. -/
def turn (n : ℕ) : Call := ⟨0, .stored, .admitSend "ada" ⟨0⟩ (turnKey n)⟩

def firstTicket : Ticket := ⟨"ada", ⟨0⟩, turnKey 0, 1, true⟩

/-- The second send evicts the entry of the first, whose ticket is then dropped. -/
def twoTurns : List Call := [turn 0, turn 1, ⟨0, .stored, .drop firstTicket⟩]

theorem reservations_exact_two_turns :
    ∃ dest, (execAll crowded.exec .initial twoTurns).state.dest.get (turnKey 1) = some dest ∧
      dest.inFlight = (execAll crowded.exec .initial twoTurns).liveOf (turnKey 1)
        dest.generation := by
  have hrun : Run crowded.exec Holds .initial (historyOf crowded.exec .initial twoTurns)
      (execAll crowded.exec .initial twoTurns) := Run.of_admitsAll (by decide +kernel)
  have hexact := (reservations_exact crowded hrun (by decide +kernel)).1 (turnKey 1)
  obtain ⟨dest, hget⟩ : ∃ dest,
      (execAll crowded.exec .initial twoTurns).state.dest.get (turnKey 1) = some dest :=
    isSome_iff_exists.mp (by decide +kernel)
  exact ⟨dest, hget, (hexact dest hget).1⟩

/-- The world after so many turns. -/
def afterTurns : ℕ → World
  | 0 => .initial
  | n + 1 => (crowded.exec (afterTurns n) (turn n)).1

theorem evictable_turnKey (n : ℕ) : evictable (turnKey n) = true := by
  unfold turnKey
  split <;> rfl

theorem turnKey_succ_ne (n : ℕ) : turnKey (n + 1) ≠ turnKey n := by
  unfold turnKey
  rcases Nat.mod_two_eq_zero_or_one n with h | h
  · rw [if_neg (by omega), if_pos h]
    decide
  · rw [if_pos (by omega), if_neg (by omega)]
    decide

theorem holds_turn (w : World) (n : ℕ) : Holds w (turn n) := fun _ hmem => absurd hmem not_mem_nil

theorem reachable_afterTurns (n : ℕ) : Reachable crowded.exec Holds .initial (afterTurns n) := by
  induction n with
  | zero => exact ⟨[], Run.nil _⟩
  | succ n ih => exact ih.step (holds_turn _ n)

theorem get_eq_none_of_bounded {map : Table DestKey Dest} (hboun : candidates map ≤ 1)
    {key key' : DestKey} (hg : map.get key = some dest) (hne : key' ≠ key)
    (hkey : evictable key = true) (hkey' : evictable key' = true) : map.get key' = none := by
  cases hg' : map.get key' with
  | none => rfl
  | some dest' =>
    unfold candidates at hboun
    rw [← card_keySet] at hboun
    have hmem := mem_keySet.mpr ⟨⟨dest, hg⟩, hkey⟩
    have hmem' := mem_keySet.mpr ⟨⟨dest', hg'⟩, hkey'⟩
    exact absurd (Finset.card_le_one.mp hboun key' hmem' key hmem) hne

theorem admit_of_no_subs (limits : UpLimits) (iteration : Iteration) (userId : String)
    (sub : SubKey) (key : DestKey) (now : Instant) {s : State} (hsb : s.subs = ∅) :
    (s.admitSend limits iteration userId sub key now).1.subs = ∅ ∧
      (∃ dest, (s.admitSend limits iteration userId sub key now).1.dest.get key = some dest) ∧
      (s.dest.get key = none → (s.admitSend limits iteration userId sub key now).1.generations =
        wrappingAddU64 s.generations 1) := by
  rcases State.admit_cases limits iteration s userId sub key now with
    ⟨entry, first, ⟨stored, hsto⟩, -⟩ | heq
  · rw [hsb] at hsto
    cases hsto
  · obtain ⟨visited, hsnd, hg, -⟩ := State.visited_destFor limits iteration key now s.bumpCalls
    obtain ⟨dest', hg', -, -⟩ := State.admitAt_cases limits iteration userId sub now hg
    rw [heq, hsnd]
    refine ⟨?_, ⟨dest', hg'⟩, fun hno => ?_⟩
    · unfold State.admitAt
      split
      · exact hsb
      · split
        · exact hsb
        · split
          · exact hsb
          · dsimp only
            split <;> exact hsb
    · rw [State.generations_admitAt, State.generations_destFor]
      exact if_pos hno

theorem turn_of_no_subs {w : World} (hsb : w.state.subs = ∅) (n : ℕ) :
    (crowded.exec w (turn n)).1.state.subs = ∅ ∧
      (∃ dest, (crowded.exec w (turn n)).1.state.dest.get (turnKey n) = some dest) ∧
      (w.state.dest.get (turnKey n) = none →
        (crowded.exec w (turn n)).1.state.generations = wrappingAddU64 w.state.generations 1) :=
  admit_of_no_subs crowded.limits .stored "ada" ⟨0⟩ (turnKey n) 0 hsb

/-- What every turn keeps: the destination of the last turn is the only one, and the first ticket
is live. -/
structure Turned (n : ℕ) (w : World) : Prop where
  armed : w.Armed
  bounded : Bounded crowded.limits w.state
  subs : w.state.subs = ∅
  generations : w.state.generations = (n + 1) % 2 ^ 64
  last : ∃ dest, w.state.dest.get (turnKey n) = some dest
  first : firstTicket ∈ w.live

theorem turned_first : Turned 0 (afterTurns 1) where
  armed := armed_exec (fun _ h => absurd h not_mem_nil)
  bounded := bounded_exec (Bounded.initial crowded.limits)
  subs := (turn_of_no_subs (w := .initial) rfl 0).1
  generations := (turn_of_no_subs (w := .initial) rfl 0).2.2 rfl
  last := (turn_of_no_subs (w := .initial) rfl 0).2.1
  first := by decide +kernel

theorem Turned.absent {w : World} (h : Turned n w) : w.state.dest.get (turnKey (n + 1)) = none := by
  obtain ⟨dest, hg⟩ := h.last
  exact get_eq_none_of_bounded h.bounded.dest hg (turnKey_succ_ne n) (evictable_turnKey n)
    (evictable_turnKey (n + 1))

theorem Turned.next {w : World} (h : Turned n w) :
    Turned (n + 1) (crowded.exec w (turn (n + 1))).1 where
  armed := armed_exec h.armed
  bounded := bounded_exec h.bounded
  subs := (turn_of_no_subs h.subs (n + 1)).1
  generations := by
    rw [(turn_of_no_subs h.subs (n + 1)).2.2 h.absent, h.generations]
    unfold wrappingAddU64
    omega
  last := (turn_of_no_subs h.subs (n + 1)).2.1
  first := mem_append_right _ h.first

theorem turned_afterTurns (n : ℕ) : Turned n (afterTurns (n + 1)) := by
  induction n with
  | zero => exact turned_first
  | succ n ih => exact ih.next

/-- An entry that is created with the generation of the first ticket miscounts: it was not
reserved on for it. -/
theorem Turned.miscounts {w : World} (h : Turned n w) (hkey : turnKey (n + 1) = turnKey 0)
    (hgen : w.state.generations = 0) :
    ¬ ∀ key dest, (crowded.exec w (turn (n + 1))).1.state.dest.get key = some dest →
      dest.inFlight = (crowded.exec w (turn (n + 1))).1.liveOf key dest.generation := by
  intro hexa
  have hhld := holds_turn w (n + 1)
  have habs := h.absent
  obtain ⟨dest, hg⟩ := (turn_of_no_subs h.subs (n + 1)).2.1
  rw [hkey] at habs hg
  have hequ := hexa _ dest hg
  have hst := entryStep_exec crowded (turnKey 0) h.armed hhld
  obtain ⟨hoth, htk, -⟩ := liveOf_exec crowded (turnKey 0) dest.generation hhld
  rw [habs, hg, hgen] at hst
  have hone : dest.generation = 1 := by
    rcases generation_of_entryStep hst with ⟨_, h, -⟩ | ⟨-, h⟩
    · cases h
    · exact h
  have hlv : 0 < w.liveOf (turnKey 0) dest.generation := by
    rw [hone]
    exact List.countP_pos_iff.mpr ⟨firstTicket, h.first, by decide⟩
  generalize crowded.deed (turnKey 0) w (turn (n + 1)) = deed at hst hoth htk
  cases hst with
  | visited hvis =>
    cases hvis with
    | created hal =>
      rw [hoth rfl, hal.inFlight] at hequ
      exact absurd hlv (hequ ▸ Nat.lt_irrefl 0)
  | taken hvis hop hal =>
    cases hvis with
    | created hnew =>
      obtain ⟨dest', hg', htak⟩ := htk rfl
      cases hg.symm.trans hg'
      rw [htak, if_pos rfl, hal.inFlight, taken_inFlight hop, hnew.inFlight] at hequ
      have hzr : (Dest.new (crowded.limits.dest (turnKey 0)) (turn (n + 1)).now
          (wrappingAddU64 0 1)).inFlight = 0 := rfl
      omega

/-- The turns until the counter of the generations has gone round. -/
def rounds : ℕ := 2 ^ 64

/-- **A generation that comes again miscounts.** When the counter of the generations has gone
round, the entry that is created carries the generation of the first ticket, which is still live. -/
theorem reused_generation_miscounts :
    Reachable crowded.exec Holds .initial (afterTurns (rounds + 1)) ∧
      ¬ ∀ key dest, (afterTurns (rounds + 1)).state.dest.get key = some dest →
        dest.inFlight = (afterTurns (rounds + 1)).liveOf key dest.generation := by
  refine ⟨reachable_afterTurns (rounds + 1), ?_⟩
  obtain ⟨n, hn⟩ : ∃ n, rounds = n + 1 := ⟨2 ^ 64 - 1, by unfold rounds; omega⟩
  have hkey : turnKey rounds = turnKey 0 := by
    unfold turnKey rounds
    rw [if_pos (by omega), if_pos (by omega)]
  have hzero : rounds % 2 ^ 64 = 0 := by
    unfold rounds
    omega
  rw [hn] at hkey hzero ⊢
  have hturned := turned_afterTurns n
  exact hturned.miscounts hkey (hturned.generations.trans hzero)

end SlogaBackend.Pushd
