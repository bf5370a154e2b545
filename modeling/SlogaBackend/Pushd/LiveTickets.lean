import SlogaBackend.Pushd.EntrySteps

/-!
# Live tickets

How many tickets of a destination and of a generation are live follows from what a call does to
the destination (`liveOf_exec`), and so what is in flight there stays the number of live tickets
(`inFlight_exec`).
-/

namespace SlogaBackend.Pushd

open Table

variable {limiter : UpLimiter} {w : World} {call : Call}

/-- The live tickets of a destination and a generation. -/
def World.liveOf (w : World) (key : DestKey) (generation : ℕ) : ℕ :=
  w.live.countP fun ticket => ticket.key = key ∧ ticket.generation = generation

/-- The generation of the ticket that a deed hands in. -/
def Deed.returns : Deed → Option ℕ
  | .give generation | .reject generation _ => some generation
  | _ => none

theorem Admit.tickets_of_sentTo {admission : Admit} (h : admission.sentTo = none) :
    admission.tickets = [] := by
  cases admission with
  | allowed ticket => cases h
  | _ => rfl

/-- The tickets that an admission hands out are live from then on. -/
theorem UpLimiter.live_admitSend (limiter : UpLimiter) (w : World) (now : Instant)
    (iteration : Iteration) (userId : String) (sub : SubKey) (key : DestKey) :
    (limiter.exec w ⟨now, iteration, .admitSend userId sub key⟩).1.live =
      (w.state.admitSend limiter.limits iteration userId sub key now).2.tickets ++ w.live := rfl

variable {ticket : Ticket}

theorem World.liveOf_erase {w : World} (state : State) (h : ticket ∈ w.live) (key : DestKey)
    (generation : ℕ) : World.liveOf ⟨state, w.live.erase ticket⟩ key generation +
        (if ticket.key = key ∧ ticket.generation = generation then 1 else 0) =
      w.liveOf key generation := by
  have hpr := List.perm_cons_erase h
  unfold World.liveOf
  rw [hpr.countP_eq, List.countP_cons]
  simp

theorem mem_live_exec (hmem : ticket ∈ (limiter.exec w call).1.live) :
    ticket ∈ w.live ∨ ticket.armed = true ∧ ∃ dest',
      (limiter.exec w call).1.state.dest.get ticket.key = some dest' ∧
        ticket.generation = dest'.generation := by
  obtain ⟨now, iteration, op⟩ := call
  cases op with
  | admitSend userId sub key =>
    rw [limiter.live_admitSend] at hmem
    rcases mem_append.mp hmem with hnew | hold
    · cases hsn : (w.state.admitSend limiter.limits iteration userId sub key now).2.sentTo with
      | none =>
        rw [Admit.tickets_of_sentTo hsn] at hnew
        exact absurd hnew not_mem_nil
      | some sent =>
        obtain ⟨dest', hg', hall⟩ := w.state.ticket_of_admitSend hsn
        rw [hall] at hnew
        obtain rfl := mem_singleton.mp hnew
        exact .inr ⟨rfl, dest', hg', rfl⟩
    · exact .inl hold
  | drainUser userId key | topSenders key | firstRefusal sub => exact .inl hmem
  | _ => exact .inl (List.mem_of_mem_erase hmem)

theorem armed_exec (harm : w.Armed) : (limiter.exec w call).1.Armed := by
  intro ticket hmem
  rcases mem_live_exec hmem with hold | ⟨hnew, -⟩
  · exact harm ticket hold
  · exact hnew

/-- **How many tickets are live follows from the deed.** -/
theorem liveOf_exec (limiter : UpLimiter) (key : DestKey) (generation : ℕ) (hhld : Holds w call) :
    (limiter.deed key w call = .other →
        (limiter.exec w call).1.liveOf key generation = w.liveOf key generation) ∧
      (limiter.deed key w call = .take → ∃ dest',
        (limiter.exec w call).1.state.dest.get key = some dest' ∧
          (limiter.exec w call).1.liveOf key generation =
            w.liveOf key generation + if dest'.generation = generation then 1 else 0) ∧
      (∀ returned, (limiter.deed key w call).returns = some returned →
        (limiter.exec w call).1.liveOf key generation +
            (if returned = generation then 1 else 0) = w.liveOf key generation) := by
  obtain ⟨now, iteration, op⟩ := call
  -- a ticket of another key is not counted, neither before nor after
  have hretu : ∀ (state : State) (ticket : Ticket) (deed : Deed), ticket ∈ w.live →
      deed.returns = some ticket.generation →
      ((if ticket.key = key then deed else .other) = .other →
          World.liveOf ⟨state, w.live.erase ticket⟩ key generation = w.liveOf key generation) ∧
        ((if ticket.key = key then deed else .other) = .take → False) ∧
        (∀ returned, (if ticket.key = key then deed else .other).returns = some returned →
          World.liveOf ⟨state, w.live.erase ticket⟩ key generation +
              (if returned = generation then 1 else 0) = w.liveOf key generation) := by
    intro state ticket deed hmem hde
    have hera := World.liveOf_erase state hmem key generation
    by_cases hkey : ticket.key = key
    · simp only [if_pos hkey]
      refine ⟨fun h => ?_, fun h => ?_, fun returned h => ?_⟩
      · rw [h] at hde
        cases hde
      · rw [h] at hde
        cases hde
      · cases hde.symm.trans h
        simpa only [hkey, true_and] using hera
    · simp only [if_neg hkey]
      refine ⟨fun _ => ?_, fun h => (nomatch h), fun _ h => (nomatch h)⟩
      rw [if_neg (fun h => hkey h.1), Nat.add_zero] at hera
      exact hera
  cases op with
  | admitSend userId sub key' =>
    have hde : limiter.deed key w ⟨now, iteration, .admitSend userId sub key'⟩ =
        if (limiter.exec w ⟨now, iteration, .admitSend userId sub key'⟩).2.sentTo = some key then
          .take
        else .other := rfl
    rw [hde]
    cases hsn : (limiter.exec w ⟨now, iteration, .admitSend userId sub key'⟩).2.sentTo with
    | none =>
      refine ⟨fun _ => ?_, fun h => (nomatch h), fun _ h => (nomatch h)⟩
      have hno : (w.state.admitSend limiter.limits iteration userId sub key' now).2.tickets = [] :=
        Admit.tickets_of_sentTo hsn
      unfold World.liveOf
      rw [limiter.live_admitSend, hno, List.nil_append]
    | some sent =>
      obtain ⟨dest', hg', hall⟩ := w.state.ticket_of_admitSend hsn
      obtain rfl : sent = key' := w.state.sentTo_admitSend hsn
      have hlv : (limiter.exec w ⟨now, iteration, .admitSend userId sub sent⟩).1.liveOf key
          generation = w.liveOf key generation +
            if sent = key ∧ dest'.generation = generation then 1 else 0 := by
        unfold World.liveOf
        rw [limiter.live_admitSend, hall]
        show List.countP _ (_ :: w.live) = _
        rw [List.countP_cons]
        simp only [decide_eq_true_eq]
      by_cases hkey : sent = key
      · subst hkey
        rw [if_pos rfl]
        refine ⟨fun h => (nomatch h), fun _ => ⟨dest', hg', ?_⟩, fun _ h => (nomatch h)⟩
        simpa only [true_and] using hlv
      · rw [if_neg (fun h => hkey (some.inj h))]
        refine ⟨fun _ => ?_, fun h => (nomatch h), fun _ h => (nomatch h)⟩
        rw [hlv, if_neg (fun h => hkey h.1), Nat.add_zero]
  | success ticket =>
    obtain ⟨hoth, htk, hret⟩ := hretu (ticket.success w.state) ticket
      (.give ticket.generation) (hhld ticket mem_cons_self) rfl
    exact ⟨hoth, fun h => absurd h htk, hret⟩
  | rejected ticket prunes status =>
    obtain ⟨hoth, htk, hret⟩ := hretu
      (ticket.rejected limiter.limits iteration prunes status now w.state).1 ticket
      (.reject ticket.generation status) (hhld ticket mem_cons_self) rfl
    exact ⟨hoth, fun h => absurd h htk, hret⟩
  | drop ticket =>
    obtain ⟨hoth, htk, hret⟩ := hretu (ticket.dropped w.state) ticket
      (.give ticket.generation) (hhld ticket mem_cons_self) rfl
    exact ⟨hoth, fun h => absurd h htk, hret⟩
  | _ => exact ⟨fun _ => rfl, fun h => (nomatch h), fun _ h => (nomatch h)⟩

theorem taken_inFlight {limits : DestLimits} {dest : Dest} (hop : dest.Open limits) :
    dest.taken.inFlight = dest.inFlight + 1 := by
  have hsl := hop.slot
  have hboun := limits.maxInFlight.toNat_lt
  show min (dest.inFlight + 1) u32Max = dest.inFlight + 1
  unfold u32Max
  omega

/-- **What is in flight stays counted.** When an entry is exact, or there is none and no live
ticket carries the next generation, what the call leaves is exact. -/
theorem inFlight_exec {key : DestKey} (harm : w.Armed) (hhld : Holds w call)
    (hexa : ∀ dest, w.state.dest.get key = some dest →
      dest.inFlight = w.liveOf key dest.generation ∧
        dest.inFlight ≤ (limiter.limits.dest key).maxInFlight.toNat)
    (hfr : w.state.dest.get key = none →
      w.liveOf key (wrappingAddU64 w.state.generations 1) = 0) {dest' : Dest}
    (hg : (limiter.exec w call).1.state.dest.get key = some dest') :
    dest'.inFlight = (limiter.exec w call).1.liveOf key dest'.generation ∧
      dest'.inFlight ≤ (limiter.limits.dest key).maxInFlight.toNat := by
  have hst := entryStep_exec limiter key harm hhld
  obtain ⟨hoth, htk, hretu⟩ := liveOf_exec limiter key dest'.generation hhld
  -- what was visited counted the tickets that were live
  have hvisi : ∀ visited : Dest, dest'.generation = visited.generation →
      Visited (limiter.limits.dest key) call.now (wrappingAddU64 w.state.generations 1)
        (w.state.dest.get key) visited →
      visited.inFlight = w.liveOf key dest'.generation ∧
        visited.inFlight ≤ (limiter.limits.dest key).maxInFlight.toNat := by
    intro visited hgen hvis
    generalize hent : w.state.dest.get key = entry at hvis
    cases hvis with
    | @stored dest _ hal =>
      have hsm : dest'.generation = dest.generation := hgen.trans hal.generation
      have hinFlight : visited.inFlight = dest.inFlight := hal.inFlight
      rw [hsm, hinFlight]
      exact hexa dest hent
    | created hal =>
      rw [hgen, hal.generation, hal.inFlight]
      exact ⟨(hfr hent).symm, Nat.zero_le _⟩
  rw [hg] at hst
  generalize hde : limiter.deed key w call = deed at hst hoth htk hretu
  generalize hent : w.state.dest.get key = entry at hst hvisi
  cases hst with
  | kept hal =>
    rw [hoth rfl, hal.inFlight, hal.generation]
    exact hexa _ hent
  | visited hvis =>
    rw [hoth rfl]
    exact hvisi dest' rfl hvis
  | taken hvis hop hal =>
    obtain ⟨dest'', hg'', hlv⟩ := htk rfl
    cases hg.symm.trans hg''
    rename_i visited
    have hcnt := hvisi visited hal.generation hvis
    have hsl := hop.slot
    rw [hlv, if_pos rfl, hal.inFlight, taken_inFlight hop, hcnt.1]
    exact ⟨rfl, by omega⟩
  | given hgen =>
    have hretur := hretu _ rfl
    obtain ⟨hcnt, hms⟩ := hexa _ hent
    rw [Dest.release_generation, if_pos hgen.symm] at hretur
    rw [Dest.release_generation, Dest.release_inFlight]
    exact ⟨by omega, by omega⟩
  | rejected userId hgen hal =>
    have hretur := hretu _ rfl
    obtain ⟨hcnt, hms⟩ := hexa _ hent
    have hsm := hal.generation.trans (Dest.rejectOne_generation _ _ _ _ _)
    rw [hsm, if_pos hgen.symm] at hretur
    rw [hsm, hal.inFlight, Dest.rejectOne_inFlight]
    exact ⟨by omega, by omega⟩
  | @stale deed entry generation hrej hne =>
    obtain ⟨hcnt, hms⟩ := hexa _ hent
    have hretur : deed.returns = some generation := by rcases hrej with rfl | ⟨status, rfl⟩ <;> rfl
    have hlv := hretu generation hretur
    rw [if_neg (fun heq => hne dest' rfl heq.symm), Nat.add_zero] at hlv
    rw [hlv]
    exact ⟨hcnt, hms⟩

end SlogaBackend.Pushd
