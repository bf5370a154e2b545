import SlogaBackend.Pushd.Room

/-!
# What a call does to a destination

Seen from one destination key, a call takes a reservation, gives one back, rejects one, or does
something else. `EntryStep` lists what can then become of the entry under the key, and
`entryStep_exec` says that every call does one of these. An entry goes only when room is made for
another destination (`room_of_gone`).
-/

namespace SlogaBackend.Pushd

open Table

/-! ## Deeds -/

/-- The destination that a send was admitted to. -/
def Admit.sentTo : Admit → Option DestKey
  | .allowed ticket => some ticket.key
  | _ => none

def Answer.sentTo : Answer → Option DestKey
  | .admission answer => answer.sentTo
  | _ => none

/-- What a call does, seen from a destination. -/
inductive Deed where
  | other
  /-- A send is admitted. -/
  | take
  /-- A ticket of the generation is completed at no cost, or dropped. -/
  | give (generation : ℕ)
  /-- A ticket of the generation is completed as a rejection. -/
  | reject (generation : ℕ) (status : Option UInt16)
  deriving DecidableEq

def UpLimiter.deed (limiter : UpLimiter) (key : DestKey) (w : World) (call : Call) : Deed :=
  match call.op with
  | .success ticket | .drop ticket => if ticket.key = key then .give ticket.generation else .other
  | .rejected ticket _ status =>
    if ticket.key = key then .reject ticket.generation status else .other
  | _ => if (limiter.exec w call).2.sentTo = some key then .take else .other

/-! ## Entries -/

/-- The same entry, but for what is kept of users, denials and times of use. -/
structure Dest.Alike (dest' dest : Dest) : Prop where
  sendTokens : dest'.send.tokens = dest.send.tokens
  sendLast : dest'.send.last = dest.send.last
  rejectTokens : dest'.reject.tokens = dest.reject.tokens
  rejectLast : dest'.reject.last = dest.reject.last
  inFlight : dest'.inFlight = dest.inFlight
  generation : dest'.generation = dest.generation

theorem Dest.Alike.refl (dest : Dest) : dest.Alike dest := ⟨rfl, rfl, rfl, rfl, rfl, rfl⟩

theorem Dest.Alike.trans {dest dest' dest'' : Dest} (h : dest''.Alike dest')
    (h' : dest'.Alike dest) : dest''.Alike dest :=
  ⟨h.sendTokens.trans h'.sendTokens, h.sendLast.trans h'.sendLast,
    h.rejectTokens.trans h'.rejectTokens, h.rejectLast.trans h'.rejectLast,
    h.inFlight.trans h'.inFlight, h.generation.trans h'.generation⟩

/-- An entry with one more send in flight. -/
def Dest.taken (dest : Dest) : Dest :=
  { dest with
    send := { dest.send with tokens := dest.send.tokens - 1 }
    inFlight := saturatingAddU32 dest.inFlight 1 }

/-- An entry at which a send is admitted. -/
structure Dest.Open (limits : DestLimits) (dest : Dest) : Prop where
  slot : dest.inFlight < limits.maxInFlight.toNat
  budget : 1 ≤ dest.reject.tokens - dest.inFlight
  send : 1 ≤ dest.send.tokens

/-- What is found under a key that is asked for: the entry there, or a new one. -/
inductive Visited (limits : DestLimits) (now : Instant) (fresh : ℕ) : Option Dest → Dest → Prop
  | stored {dest visited : Dest} (h : visited.Alike (dest.refill limits now)) :
      Visited limits now fresh (some dest) visited
  | created {visited : Dest} (h : visited.Alike (.new limits now fresh)) :
      Visited limits now fresh none visited

variable {limits : DestLimits} {fresh : ℕ} {entry : Option Dest}

theorem Visited.of_alike {now : Instant} {dest dest' : Dest}
    (h : Visited limits now fresh entry dest) (hal : dest'.Alike dest) :
    Visited limits now fresh entry dest' := by
  cases h with
  | stored h => exact .stored (hal.trans h)
  | created h => exact .created (hal.trans h)

/-- What a deed can make of the entry under the key. -/
inductive EntryStep (limits : DestLimits) (evictable : Bool) (now : Instant) (fresh : ℕ) :
    Deed → Option Dest → Option Dest → Prop
  | absent : EntryStep limits evictable now fresh .other none none
  | kept {dest dest' : Dest} (h : dest'.Alike dest) :
      EntryStep limits evictable now fresh .other (some dest) (some dest')
  | visited {entry : Option Dest} {dest' : Dest} (h : Visited limits now fresh entry dest') :
      EntryStep limits evictable now fresh .other entry (some dest')
  | evicted {dest : Dest} (h : evictable = true) :
      EntryStep limits evictable now fresh .other (some dest) none
  | taken {entry : Option Dest} {visited dest' : Dest} (h : Visited limits now fresh entry visited)
      (hopen : visited.Open limits) (htaken : dest'.Alike visited.taken) :
      EntryStep limits evictable now fresh .take entry (some dest')
  | given {dest : Dest} {generation : ℕ} (h : dest.generation = generation) :
      EntryStep limits evictable now fresh (.give generation) (some dest) (some dest.release)
  | rejected {dest dest' : Dest} {generation : ℕ} {status : Option UInt16} (userId : String)
      (h : dest.generation = generation)
      (halike : dest'.Alike (dest.rejectOne limits userId
        (status = some 503 ∧ 0 < limits.pauseOn503Secs) now).1) :
      EntryStep limits evictable now fresh (.reject generation status) (some dest) (some dest')
  | stale {deed : Deed} {entry : Option Dest} {generation : ℕ}
      (hdeed : deed = .give generation ∨ ∃ status, deed = .reject generation status)
      (h : ∀ dest, entry = some dest → dest.generation ≠ generation) :
      EntryStep limits evictable now fresh deed entry entry

variable {deed : Deed}

theorem EntryStep.weaken {now : Instant} {entry' : Option Dest}
    (h : EntryStep limits false now fresh deed entry entry') :
    EntryStep limits true now fresh deed entry entry' := by
  cases h with
  | absent => exact .absent
  | kept hal => exact .kept hal
  | visited hvisi => exact .visited hvisi
  | evicted => exact .evicted rfl
  | taken hvisi hon hal => exact .taken hvisi hon hal
  | given hgen => exact .given hgen
  | rejected userId hgen hal => exact .rejected userId hgen hal
  | stale hret hne => exact .stale hret hne

theorem generation_of_entryStep {mayEvict : Bool} {now : Instant} {dest' : Dest}
    (h : EntryStep limits mayEvict now fresh deed entry (some dest')) :
    (∃ dest, entry = some dest ∧ dest'.generation = dest.generation) ∨
      entry = none ∧ dest'.generation = fresh := by
  have hvis : ∀ {entry : Option Dest} {visited dest' : Dest},
      Visited limits now fresh entry visited → dest'.generation = visited.generation →
      (∃ dest, entry = some dest ∧ dest'.generation = dest.generation) ∨
        entry = none ∧ dest'.generation = fresh := by
    intro entry visited dest' hvisi hgen
    cases hvisi with
    | stored hal => exact .inl ⟨_, rfl, hgen.trans hal.generation⟩
    | created hal => exact .inr ⟨rfl, hgen.trans hal.generation⟩
  cases h with
  | kept hal => exact .inl ⟨_, rfl, hal.generation⟩
  | visited hvisi => exact hvis hvisi rfl
  | taken hvisi _ hal => exact hvis hvisi hal.generation
  | rejected userId _ hal =>
    exact .inl ⟨_, rfl, hal.generation.trans (Dest.rejectOne_generation _ _ _ _ _)⟩
  | _ => exact .inl ⟨_, rfl, rfl⟩

/-! ## What the parts of a call do -/

namespace State

variable {limits : UpLimits} {iteration : Iteration} {userId : String} {sub : SubKey}
  {key key' : DestKey} {now : Instant} {generation : ℕ}

theorem get_setDest (s : State) (key key' : DestKey) (dest : Dest) :
    (s.setDest key dest).dest.get key' = if key' = key then some dest else s.dest.get key' :=
  get_insert _ _ _ _

theorem get_setDest_self (s : State) (key : DestKey) (dest : Dest) :
    (s.setDest key dest).dest.get key = some dest := by
  rw [get_setDest, if_pos rfl]

theorem get_setDest_of_ne (s : State) {key key' : DestKey} (h : key' ≠ key) (dest : Dest) :
    (s.setDest key dest).dest.get key' = s.dest.get key' := by
  rw [get_setDest, if_neg h]

theorem get_room (s : State) (key : DestKey) :
    (if evictable key = true ∧ s.dest.get key = none then makeDestRoom limits iteration now s.dest
      else s.dest).get key = s.dest.get key := by
  split
  · rename_i habs
    rcases get_makeDestRoom limits iteration now s.dest key with h | h | h
    · exact h
    · rw [h, habs.2, map_none]
    · rw [h.1, habs.2]
  · rfl

section

variable (limits : UpLimits) (iteration : Iteration) (key : DestKey) (now : Instant) (s : State)

theorem visited_destFor : ∃ visited, (s.destFor limits iteration key now).2 = visited ∧
      (s.destFor limits iteration key now).1.dest.get key = some visited ∧
      Visited (limits.dest key) now (wrappingAddU64 s.generations 1) (s.dest.get key) visited := by
  refine ⟨_, rfl, ?_, ?_⟩
  · unfold destFor
    rw [get_insert_self]
  · unfold destFor
    dsimp only
    rw [get_room]
    cases s.dest.get key with
    | some dest => exact .stored ⟨rfl, rfl, rfl, rfl, rfl, rfl⟩
    | none =>
      -- a new entry is full, and a refill leaves it so
      have hfl : ∀ rate : Rate, min (rate.burst + secsSince now now * rate.refillPerSec)
          rate.burst = rate.burst := by
        intro rate
        rw [secsSince_of_le le_rfl, zero_mul, add_zero, min_self]
      exact .created ⟨hfl _, max_self now, hfl _, max_self now, rfl, rfl⟩

theorem generations_destFor : (s.destFor limits iteration key now).1.generations =
      if s.dest.get key = none then wrappingAddU64 s.generations 1 else s.generations := by
  unfold destFor
  dsimp only
  rw [get_room]
  cases s.dest.get key <;> rfl

end

theorem get_destFor_of_ne (limits : UpLimits) (iteration : Iteration) (now : Instant) (s : State)
    (h : key' ≠ key) : (s.destFor limits iteration key now).1.dest.get key' = s.dest.get key' ∨
      (s.destFor limits iteration key now).1.dest.get key' =
        (s.dest.get key').map (fun dest => dest.refill (limits.dest key') now) ∨
      (s.destFor limits iteration key now).1.dest.get key' = none ∧ evictable key' = true := by
  unfold destFor
  rw [get_insert, if_neg h]
  split
  · exact get_makeDestRoom limits iteration now s.dest key'
  · exact .inl rfl

variable {s : State} {mayEvict : Bool} {dest : Dest} {fresh : ℕ}

section

variable (limits : UpLimits) (iteration : Iteration)

theorem admitAt_cases (userId : String) (sub : SubKey)
    (now : Instant) (hg : s.dest.get key = some dest) :
    ∃ dest', (s.admitAt limits iteration userId sub key now dest).1.dest.get key = some dest' ∧
      (∀ key', key' ≠ key →
        (s.admitAt limits iteration userId sub key now dest).1.dest.get key' = s.dest.get key') ∧
      ((s.admitAt limits iteration userId sub key now dest).2.sentTo = none ∧ dest'.Alike dest ∨
        (s.admitAt limits iteration userId sub key now dest).2 =
            .allowed ⟨userId, sub, key, dest.generation, true⟩ ∧
          dest.Open (limits.dest key) ∧ dest'.Alike dest.taken) := by
  unfold admitAt
  split
  · exact ⟨_, get_setDest_self _ _ _, fun _ h => get_setDest_of_ne _ h _,
      .inl ⟨rfl, rfl, rfl, rfl, rfl, rfl, rfl⟩⟩
  · split
    · exact ⟨dest, hg, fun _ _ => rfl, .inl ⟨rfl, .refl dest⟩⟩
    · rename_i hfr
      split
      · exact ⟨_, get_setDest_self _ _ _, fun _ h => get_setDest_of_ne _ h _,
          .inl ⟨rfl, rfl, rfl, rfl, rfl, rfl, rfl⟩⟩
      · rename_i hsn
        dsimp only
        split
        · exact ⟨dest, hg, fun _ _ => rfl, .inl ⟨rfl, .refl dest⟩⟩
        · refine ⟨_, get_setDest_self _ _ _, fun _ h => get_setDest_of_ne _ h _,
            .inr ⟨rfl, ⟨?_, ?_, not_lt.mp hsn⟩, rfl, rfl, rfl, rfl, rfl, rfl⟩⟩
          · exact not_le.mp fun hle => hfr (.inl hle)
          · exact not_lt.mp fun hlt => hfr (.inr hlt)

/-- A cooling subscription is refused, or the destination is asked for. -/
theorem admit_cases (s : State) (userId : String) (sub : SubKey) (key : DestKey) (now : Instant) :
    (∃ entry first, (∃ stored, s.subs.get sub = some stored) ∧
        s.admitSend limits iteration userId sub key now =
          (s.bumpCalls.setSub sub entry, .denied first .subscription)) ∨
      s.admitSend limits iteration userId sub key now =
        (s.bumpCalls.destFor limits iteration key now).1.admitAt limits iteration userId sub key now
          (s.bumpCalls.destFor limits iteration key now).2 := by
  unfold admitSend
  dsimp only
  split
  · rename_i entry hcool
    have hsto := (filter_eq_some_iff.mp hcool).1
    exact .inl ⟨entry.deny.2, entry.deny.1, ⟨entry, hsto⟩, rfl⟩
  · exact .inr rfl

end

section

variable (s : State) (userId : String) (sub : SubKey)

theorem entryStep_admit_self :
    EntryStep (limits.dest key) (evictable key) now (wrappingAddU64 s.generations 1)
      (if (s.admitSend limits iteration userId sub key now).2.sentTo = some key then .take
        else .other)
      (s.dest.get key) ((s.admitSend limits iteration userId sub key now).1.dest.get key) := by
  rcases admit_cases limits iteration s userId sub key now with
    ⟨entry, first, -, heq⟩ | heq
  · rw [heq, if_neg (by simp [Admit.sentTo])]
    show EntryStep _ _ _ _ _ _ (s.dest.get key)
    cases s.dest.get key with
    | none => exact .absent
    | some dest => exact .kept (.refl dest)
  · obtain ⟨visited, hsnd, hg, hvis⟩ := visited_destFor limits iteration key now s.bumpCalls
    rw [heq, hsnd]
    obtain ⟨dest', hg', -, hcas⟩ := admitAt_cases limits iteration userId sub now hg
    rw [hg']
    rcases hcas with ⟨hno, hal⟩ | ⟨hall, hon, hal⟩
    · rw [hno, if_neg (by simp)]
      exact .visited (hvis.of_alike hal)
    · have hst : (Admit.allowed ⟨userId, sub, key, visited.generation, true⟩).sentTo = some key :=
        rfl
      rw [hall, if_pos hst]
      exact .taken hvis hon hal

theorem entryStep_admit_of_ne (h : key' ≠ key) (fresh : ℕ) :
    EntryStep (limits.dest key') (evictable key') now fresh .other (s.dest.get key')
      ((s.admitSend limits iteration userId sub key now).1.dest.get key') := by
  have hsm : EntryStep (limits.dest key') (evictable key') now fresh .other (s.dest.get key')
      (s.dest.get key') := by
    cases s.dest.get key' with
    | none => exact .absent
    | some dest => exact .kept (.refl dest)
  rcases admit_cases limits iteration s userId sub key now with
    ⟨entry, first, -, heq⟩ | heq
  · rw [heq]
    exact hsm
  · obtain ⟨visited, hsnd, hg, -⟩ := visited_destFor limits iteration key now s.bumpCalls
    rw [heq, hsnd]
    obtain ⟨-, -, hoths, -⟩ := admitAt_cases limits iteration userId sub now hg
    rw [hoths key' h]
    rcases get_destFor_of_ne limits iteration now s.bumpCalls h with hkp | href | ⟨hgn, hkey⟩
    · rw [hkp]
      exact hsm
    · rw [href]
      show EntryStep _ _ _ _ _ (s.dest.get key') ((s.dest.get key').map _)
      cases s.dest.get key' with
      | none => exact .absent
      | some dest => exact .visited (.stored (.refl _))
    · rw [hgn]
      cases s.dest.get key' with
      | none => exact .absent
      | some dest => exact .evicted hkey

end

theorem admitAt_of_wait (h : (s.admitAt limits iteration userId sub key now dest).2 = .wait) :
    (s.admitAt limits iteration userId sub key now dest).1 = s ∧
      ((limits.dest key).maxInFlight.toNat ≤ dest.inFlight ∨ 0 < dest.inFlight) := by
  unfold admitAt at h ⊢
  by_cases hpaus : dest.paused = true
  · rw [if_pos hpaus] at h
    cases h
  · rw [if_neg hpaus] at h ⊢
    by_cases hfl : (limits.dest key).maxInFlight.toNat ≤ dest.inFlight ∨
        dest.reject.tokens - dest.inFlight < 1
    · rw [if_pos hfl]
      refine ⟨rfl, hfl.imp_right fun hres => ?_⟩
      -- the budget holds a whole token, so that something is reserved
      have htok : 1 ≤ dest.reject.tokens := not_lt.mp fun hlt => hpaus (decide_eq_true hlt)
      by_contra hno
      rw [Nat.eq_zero_of_not_pos hno, Nat.cast_zero, sub_zero] at hres
      exact absurd htok (not_le.mpr hres)
    · rw [if_neg hfl] at h
      by_cases hsn : dest.send.tokens < 1
      · rw [if_pos hsn] at h
        cases h
      · rw [if_neg hsn] at h
        dsimp only at h
        split at h <;> cases h

theorem admit_of_wait (h : (s.admitSend limits iteration userId sub key now).2 = .wait) :
    ∃ dest, (s.admitSend limits iteration userId sub key now).1.dest.get key = some dest ∧
      ((limits.dest key).maxInFlight.toNat ≤ dest.inFlight ∨ 0 < dest.inFlight) := by
  rcases admit_cases limits iteration s userId sub key now with ⟨entry, first, -, heq⟩ | heq
  · rw [heq] at h
    cases h
  · obtain ⟨visited, hsnd, hg, -⟩ := visited_destFor limits iteration key now s.bumpCalls
    rw [heq, hsnd] at h ⊢
    obtain ⟨hsm, hfl⟩ := admitAt_of_wait h
    exact ⟨visited, by rw [hsm]; exact hg, hfl⟩

theorem liveDest_eq_some : s.liveDest key generation = some dest ↔
      s.dest.get key = some dest ∧ dest.generation = generation := by
  unfold liveDest
  rw [filter_eq_some_iff, decide_eq_true_eq]

theorem liveDest_eq_none : s.liveDest key generation = none ↔
      ∀ dest, s.dest.get key = some dest → dest.generation ≠ generation := by
  rw [Option.eq_none_iff_forall_ne_some]
  constructor
  · exact fun h dest hg hgen => h dest (liveDest_eq_some.mpr ⟨hg, hgen⟩)
  · exact fun h dest hlv => h dest (liveDest_eq_some.mp hlv).1 (liveDest_eq_some.mp hlv).2

theorem entryStep_of_eq {limits : DestLimits} {entry entry' : Option Dest} (h : entry' = entry) :
    EntryStep limits mayEvict now fresh .other entry entry' := by
  rw [h]
  cases entry with
  | none => exact .absent
  | some dest => exact .kept (.refl dest)

theorem entryStep_releaseSlot (s : State) (key key' : DestKey) (generation : ℕ)
    {limits : DestLimits} :
    EntryStep limits mayEvict now fresh (if key = key' then .give generation else .other)
      (s.dest.get key') ((s.releaseSlot key generation).dest.get key') := by
  unfold releaseSlot
  by_cases hkey : key = key'
  · subst hkey
    rw [if_pos rfl]
    cases hlv : s.liveDest key generation with
    | some dest =>
      obtain ⟨hg, hgen⟩ := liveDest_eq_some.mp hlv
      rw [hg]
      rw [get_setDest_self]
      exact .given hgen
    | none => exact .stale (.inl rfl) (liveDest_eq_none.mp hlv)
  · rw [if_neg hkey]
    refine entryStep_of_eq ?_
    cases s.liveDest key generation with
    | some dest => exact get_setDest_of_ne _ (Ne.symm hkey) _
    | none => rfl

theorem completeSuccess_dest (s : State) (key : DestKey) (generation : ℕ) (sub : SubKey) :
    (s.completeSuccess key generation sub).dest = (s.releaseSlot key generation).dest := by
  unfold completeSuccess
  dsimp only
  split
  · split <;> rfl
  · rfl

theorem completeRejected_dest (s : State) (prunes : Bool) (status : Option UInt16) :
    (s.completeRejected limits iteration userId sub key generation prunes status now).1.dest =
      match s.liveDest key generation with
      | some dest => s.dest.insert key
          ({ dest with touched := s.bumpCalls.calls }.rejectOne (limits.dest key) userId
            (status = some 503 ∧ 0 < (limits.dest key).pauseOn503Secs) now).1
      | none => s.dest := by
  unfold completeRejected
  have hlv : s.bumpCalls.liveDest key generation = s.liveDest key generation := rfl
  dsimp only
  rw [hlv]
  cases s.liveDest key generation <;> rfl

theorem entryStep_completeRejected (s : State) (userId : String) (sub : SubKey) (key key' : DestKey)
    (generation : ℕ) (prunes : Bool) (status : Option UInt16) :
    EntryStep (limits.dest key') mayEvict now fresh
      (if key = key' then .reject generation status else .other) (s.dest.get key')
      ((s.completeRejected limits iteration userId sub key generation prunes status
        now).1.dest.get key') := by
  rw [completeRejected_dest]
  by_cases hkey : key = key'
  · subst hkey
    rw [if_pos rfl]
    cases hlv : s.liveDest key generation with
    | some dest =>
      obtain ⟨hg, hgen⟩ := liveDest_eq_some.mp hlv
      rw [hg]
      rw [get_insert_self]
      refine .rejected userId hgen ⟨?_, ?_, ?_, ?_, ?_, ?_⟩
      · rw [Dest.rejectOne_send, Dest.rejectOne_send]
      · rw [Dest.rejectOne_send, Dest.rejectOne_send]
      · rw [Dest.rejectOne_reject, Dest.rejectOne_reject]
        rfl
      · rw [Dest.rejectOne_reject, Dest.rejectOne_reject]
      · rw [Dest.rejectOne_inFlight, Dest.rejectOne_inFlight]
      · rw [Dest.rejectOne_generation, Dest.rejectOne_generation]
    | none => exact .stale (.inr ⟨status, rfl⟩) (liveDest_eq_none.mp hlv)
  · rw [if_neg hkey]
    refine entryStep_of_eq ?_
    cases s.liveDest key generation with
    | some dest => rw [get_insert, if_neg (Ne.symm hkey)]
    | none => rfl

/-! ## Which keys have an entry -/

theorem get_setDest_eq_none (hg : s.dest.get key = some dest) (dest' : Dest) :
    (s.setDest key dest').dest.get key' = none ↔ s.dest.get key' = none := by
  rw [get_setDest]
  split
  · rename_i hkey
    rw [hkey, hg]
    simp
  · exact Iff.rfl

section

variable (s : State) (key : DestKey) (generation : ℕ)

theorem releaseSlot_generations : (s.releaseSlot key generation).generations = s.generations := by
  unfold releaseSlot
  split <;> rfl

theorem releaseSlot_get_eq_none :
    (s.releaseSlot key generation).dest.get key' = none ↔ s.dest.get key' = none := by
  unfold releaseSlot
  split
  · rename_i hlv
    exact get_setDest_eq_none (liveDest_eq_some.mp hlv).1 _
  · exact Iff.rfl

theorem completeSuccess_generations (sub : SubKey) :
    (s.completeSuccess key generation sub).generations = s.generations := by
  have hrel := releaseSlot_generations s key generation
  unfold completeSuccess
  dsimp only
  split
  · split <;> exact hrel
  · exact hrel

end

section

variable (s : State) (prunes : Bool) (status : Option UInt16)

theorem completeRejected_generations :
    (s.completeRejected limits iteration userId sub key generation prunes status
      now).1.generations = s.generations := by
  unfold completeRejected
  dsimp only
  cases s.bumpCalls.liveDest key generation <;> rfl

theorem completeRejected_get_eq_none :
    (s.completeRejected limits iteration userId sub key generation prunes status
      now).1.dest.get key' = none ↔ s.dest.get key' = none := by
  rw [completeRejected_dest]
  cases hlv : s.liveDest key generation with
  | none => exact Iff.rfl
  | some dest => exact get_setDest_eq_none (liveDest_eq_some.mp hlv).1 _

end

section

variable (s : State) {sent : DestKey}
  (h : (s.admitSend limits iteration userId sub key now).2.sentTo = some sent)
include h

theorem ticket_of_admitSend :
    ∃ dest', (s.admitSend limits iteration userId sub key now).1.dest.get key = some dest' ∧
      (s.admitSend limits iteration userId sub key now).2 =
        .allowed ⟨userId, sub, key, dest'.generation, true⟩ := by
  rcases admit_cases limits iteration s userId sub key now with
    ⟨entry, first, -, heq⟩ | heq
  · rw [heq] at h
    cases h
  · obtain ⟨visited, hsnd, hg, -⟩ := visited_destFor limits iteration key now s.bumpCalls
    obtain ⟨dest', hg', -, hcas⟩ := admitAt_cases limits iteration userId sub now hg
    rw [heq, hsnd] at h ⊢
    rcases hcas with ⟨hno, -⟩ | ⟨hall, -, hal⟩
    · rw [hno] at h
      cases h
    · refine ⟨dest', hg', ?_⟩
      rw [hall, hal.generation]
      rfl

theorem sentTo_admitSend : sent = key := by
  obtain ⟨dest', -, hall⟩ := s.ticket_of_admitSend h
  rw [hall] at h
  exact (some.inj h).symm

end

end State

/-! ## Calls -/

/-- A live ticket was neither completed nor dropped. -/
def World.Armed (w : World) : Prop := ∀ ticket ∈ w.live, ticket.armed = true

variable {limiter : UpLimiter} {w : World} {call : Call}

/-- **What a call makes of the entry under a key.** -/
theorem entryStep_exec (limiter : UpLimiter) (key : DestKey) (harm : w.Armed)
    (hhld : Holds w call) : EntryStep (limiter.limits.dest key) (evictable key) call.now
      (wrappingAddU64 w.state.generations 1) (limiter.deed key w call) (w.state.dest.get key)
      ((limiter.exec w call).1.state.dest.get key) := by
  obtain ⟨now, iteration, op⟩ := call
  cases op with
  | admitSend userId sub key' =>
    by_cases hkey : key = key'
    · subst hkey
      exact State.entryStep_admit_self w.state userId sub
    · have hde : limiter.deed key w ⟨now, iteration, .admitSend userId sub key'⟩ = .other := by
        refine if_neg fun hst => ?_
        exact hkey (State.sentTo_admitSend w.state hst)
      rw [hde]
      exact State.entryStep_admit_of_ne w.state userId sub hkey _
  | success ticket =>
    show EntryStep _ _ _ _ _ _ (Table.get (State.dest (Ticket.success ticket w.state)) key)
    have hds : (ticket.success w.state).dest =
        (w.state.releaseSlot ticket.key ticket.generation).dest :=
      State.completeSuccess_dest _ _ _ _
    rw [hds]
    exact State.entryStep_releaseSlot w.state ticket.key key ticket.generation
  | drop ticket =>
    have hlv : ticket.armed = true := harm ticket (hhld ticket mem_cons_self)
    have hdrop : ticket.dropped w.state =
        w.state.releaseSlot ticket.key ticket.generation := if_pos hlv
    show EntryStep _ _ _ _ _ _ (Table.get (State.dest (Ticket.dropped ticket w.state)) key)
    rw [hdrop]
    exact State.entryStep_releaseSlot w.state ticket.key key ticket.generation
  | rejected ticket prunes status =>
    exact State.entryStep_completeRejected w.state ticket.userId ticket.sub ticket.key key
      ticket.generation prunes status
  | drainUser userId key' => exact State.entryStep_of_eq rfl
  | firstRefusal sub =>
    refine State.entryStep_of_eq ?_
    show Table.get (State.dest (State.firstRefusal _ _ sub now w.state).1) key = _
    unfold State.firstRefusal
    dsimp only
    split <;> rfl
  | topSenders key' =>
    show EntryStep _ _ _ _ .other _ (Table.get (State.dest (State.topSenders key' w.state).1) key)
    unfold State.topSenders
    cases hg : w.state.dest.get key' with
    | none => exact State.entryStep_of_eq rfl
    | some dest =>
      by_cases hkey : key = key'
      · subst hkey
        rw [State.get_setDest_self, hg]
        exact .kept ⟨rfl, rfl, rfl, rfl, rfl, rfl⟩
      · rw [State.get_setDest_of_ne _ hkey]
        exact State.entryStep_of_eq rfl

/-- **Only an admission creates an entry, or evicts one.** -/
theorem exec_of_not_admitSend (limiter : UpLimiter) (w : World)
    (hop : ∀ userId sub key, call.op ≠ .admitSend userId sub key) :
    (limiter.exec w call).1.state.generations = w.state.generations ∧
      ∀ key, (limiter.exec w call).1.state.dest.get key = none ↔ w.state.dest.get key = none := by
  obtain ⟨now, iteration, op⟩ := call
  cases op with
  | admitSend userId sub key => exact absurd rfl (hop userId sub key)
  | success ticket =>
    have hds : (ticket.success w.state).dest =
        (w.state.releaseSlot ticket.key ticket.generation).dest :=
      State.completeSuccess_dest _ _ _ _
    refine ⟨State.completeSuccess_generations _ _ _ _, fun key => ?_⟩
    show Table.get (State.dest (Ticket.success ticket w.state)) key = none ↔ _
    rw [hds]
    exact State.releaseSlot_get_eq_none _ _ _
  | rejected ticket prunes status =>
    exact ⟨State.completeRejected_generations _ _ _, fun key =>
      State.completeRejected_get_eq_none _ _ _⟩
  | drop ticket =>
    show (Ticket.dropped ticket w.state).generations = _ ∧
      ∀ key, (Ticket.dropped ticket w.state).dest.get key = none ↔ _
    unfold Ticket.dropped
    split
    · exact ⟨State.releaseSlot_generations _ _ _, fun key => State.releaseSlot_get_eq_none _ _ _⟩
    · exact ⟨rfl, fun _ => Iff.rfl⟩
  | drainUser userId key => exact ⟨rfl, fun _ => Iff.rfl⟩
  | firstRefusal sub =>
    show (State.firstRefusal limiter.limits iteration sub now w.state).1.generations = _ ∧ ∀ key,
      (State.firstRefusal limiter.limits iteration sub now w.state).1.dest.get key = none ↔ _
    unfold State.firstRefusal
    dsimp only
    split
    · exact ⟨rfl, fun _ => Iff.rfl⟩
    · exact ⟨rfl, fun _ => Iff.rfl⟩
  | topSenders key' =>
    show (State.topSenders key' w.state).1.generations = _ ∧
      ∀ key, (State.topSenders key' w.state).1.dest.get key = none ↔ _
    unfold State.topSenders
    split
    · rename_i hg
      exact ⟨rfl, fun key => State.get_setDest_eq_none hg _⟩
    · exact ⟨rfl, fun _ => Iff.rfl⟩

/-- **An entry goes only when room is made for another destination.** -/
theorem room_of_gone {key : DestKey} {dest : Dest} (hg : w.state.dest.get key = some dest)
    (hgn : (limiter.exec w call).1.state.dest.get key = none) :
    (makeDestRoom limiter.limits call.iteration call.now w.state.dest).get key = none := by
  have hpres : w.state.dest.get key ≠ none := by
    rw [hg]
    exact some_ne_none dest
  by_cases hop : ∀ userId sub key, call.op ≠ .admitSend userId sub key
  · exact absurd (((exec_of_not_admitSend limiter w hop).2 key).mp hgn) hpres
  · obtain ⟨now, iteration, op⟩ := call
    push Not at hop
    obtain ⟨userId, sub, key', rfl⟩ := hop
    change (w.state.admitSend limiter.limits iteration userId sub key' now).1.dest.get key = none
      at hgn
    rcases State.admit_cases limiter.limits iteration w.state userId sub key' now with
      ⟨entry, first, -, heq⟩ | heq
    · rw [heq] at hgn
      exact absurd hgn hpres
    · obtain ⟨visited, hsnd, hvis, -⟩ :=
        State.visited_destFor limiter.limits iteration key' now w.state.bumpCalls
      obtain ⟨dest', hg', hoths, -⟩ :=
        State.admitAt_cases limiter.limits iteration userId sub now hvis
      rw [heq, hsnd] at hgn
      by_cases hkey : key = key'
      · rw [hkey, hg'] at hgn
        cases hgn
      · rw [hoths key hkey] at hgn
        unfold State.destFor at hgn
        rw [get_insert, if_neg hkey] at hgn
        split at hgn
        · exact hgn
        · exact absurd hgn hpres

end SlogaBackend.Pushd
