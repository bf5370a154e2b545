import Mathlib.Tactic.FieldSimp
import SlogaBackend.Lib.Metering
import SlogaBackend.Pushd.LiveTickets

/-!
# No destination rejects more than its budget

A send reserves a token of the rejection budget before its outcome is known, and may come back as a
rejection at any time after. A 503 drives the budget below zero, and what is rejected while it is
there costs nothing, or a part of a token. What pays for it is what was reserved: a destination
bears as many rejections as are in flight, or as its budget holds, whichever is more, and every
rejection takes one from that (`Dest.rejectOne_spends`).

* `rejections_within_budget`: of ntfy.sh and of every destination that is never evicted, no window
  of time sees more rejections, or more sends, than the burst and what is earned in it; and ntfy.sh
  answers at most `2 * NTFY_MAX_IN_FLIGHT` sends with a 503 in any 600 seconds.
-/

namespace SlogaBackend.Pushd

open Table Metering

/-- The destination whose ticket is completed as a rejection. -/
def Op.rejectedBy : Op → Option DestKey
  | .rejected ticket _ _ => some ticket.key
  | _ => none

/-- The status that a ticket is rejected with. -/
def Op.status : Op → Option UInt16
  | .rejected _ _ status => status
  | _ => none

variable (limiter : UpLimiter) (key : DestKey)

/-- A send to the destination is admitted. -/
def Sent (w : World) (call : Call) : Prop := (limiter.exec w call).2.sentTo = some key

/-- A rejection is reported for the destination. -/
def Refused (_ : World) (call : Call) : Prop := call.op.rejectedBy = some key

/-- A rejection with status 503 is reported for the destination. -/
def Struck (_ : World) (call : Call) : Prop :=
  call.op.rejectedBy = some key ∧ call.op.status = some 503

instance (w : World) (call : Call) : Decidable (Sent limiter key w call) :=
  inferInstanceAs (Decidable (_ = _))

instance (w : World) (call : Call) : Decidable (Refused key w call) :=
  inferInstanceAs (Decidable (_ = _))

instance (w : World) (call : Call) : Decidable (Struck key w call) :=
  inferInstanceAs (Decidable (_ ∧ _))

/-- The call does not evict the entry of the destination. -/
def Stays (w : World) (call : Call) : Prop :=
  w.state.dest.get key ≠ none → (limiter.exec w call).1.state.dest.get key ≠ none

instance (w : World) (call : Call) : Decidable (Stays limiter key w call) :=
  inferInstanceAs (Decidable (_ → _))

/-- A ticket is completed by who holds it, and the entry of the destination stays. -/
def HoldsAndStays (w : World) (call : Call) : Prop := Holds w call ∧ Stays limiter key w call

/-- The rates of a destination are not negative. -/
structure DestLimits.NonNeg (limits : DestLimits) : Prop where
  sendBurst : 0 ≤ limits.sendBurst
  sendRefillPerSec : 0 ≤ limits.sendRefillPerSec
  rejectBurst : 0 ≤ limits.rejectBurst
  rejectRefillPerSec : 0 ≤ limits.rejectRefillPerSec

variable {limiter key} {w : World} {call : Call}

theorem stays_ntfy : Stays limiter .ntfy w call := by
  intro hpres hgn
  obtain ⟨dest, hg⟩ := ne_none_iff_exists'.mp hpres
  have hrm := room_of_gone hg hgn
  rcases get_makeDestRoom limiter.limits call.iteration call.now w.state.dest .ntfy with
    h | h | ⟨-, h⟩
  · rw [hrm, hg] at h
    cases h
  · rw [hrm, hg] at h
    cases h
  · cases h

/-! ## Deeds and what is counted -/

theorem deed_of_sent : Sent limiter key w call ↔ limiter.deed key w call = .take := by
  obtain ⟨now, iteration, op⟩ := call
  have htic : ∀ (ticket : Ticket) (deed : Deed), deed ≠ .take →
      (if ticket.key = key then deed else .other) ≠ Deed.take := by
    intro ticket deed hne
    split
    · exact hne
    · exact fun h => (nomatch h)
  have hans : ∀ {sent : Prop} [Decidable sent],
      sent ↔ (if sent then Deed.take else .other) = .take := by
    intro sent _
    by_cases hsn : sent
    · rw [if_pos hsn]
      exact iff_of_true hsn rfl
    · rw [if_neg hsn]
      exact iff_of_false hsn fun h => (nomatch h)
  cases op with
  | success ticket | rejected ticket prunes status | drop ticket =>
    exact iff_of_false (fun h => (nomatch h)) (htic ticket _ fun h => (nomatch h))
  | _ => exact hans

theorem deed_of_refused (h : Refused key w call) (hhld : Holds w call) :
    ∃ ticket ∈ w.live, ticket.key = key ∧
      limiter.deed key w call = .reject ticket.generation call.op.status := by
  obtain ⟨now, iteration, op⟩ := call
  cases op with
  | rejected ticket prunes status =>
    have hkey : ticket.key = key := some.inj h
    exact ⟨ticket, hhld ticket mem_cons_self, hkey, if_pos hkey⟩
  | _ => cases h

/-! ## What is known of a destination that stays -/

/-- The tickets of the destination belong to its entry, which reserved for all of them. -/
structure Sound (limiter : UpLimiter) (key : DestKey) (w : World) : Prop where
  armed : w.Armed
  owned : ∀ ticket ∈ w.live, ticket.key = key →
    ∃ dest, w.state.dest.get key = some dest ∧ dest.generation = ticket.generation
  counted : ∀ dest, w.state.dest.get key = some dest →
    dest.inFlight = w.liveOf key dest.generation ∧
      dest.inFlight ≤ (limiter.limits.dest key).maxInFlight.toNat
  reserved : ∀ dest, w.state.dest.get key = some dest →
    (dest.inFlight : ℚ) ≤ (limiter.limits.dest key).rejectBurst
  sends : ∀ dest, w.state.dest.get key = some dest → 0 ≤ dest.send.tokens

theorem sound_initial (limiter : UpLimiter) (key : DestKey) : Sound limiter key .initial where
  armed _ h := absurd h not_mem_nil
  owned _ h := absurd h not_mem_nil
  counted _ h := by cases h
  reserved _ h := by cases h
  sends _ h := by cases h

/-- A rejection of a destination that stays is counted, and something is in flight there. -/
theorem Sound.live_of_refused (h : Sound limiter key w) (hhld : Holds w call)
    (href : Refused key w call) :
    ∃ dest generation, w.state.dest.get key = some dest ∧ dest.generation = generation ∧
      0 < dest.inFlight ∧ limiter.deed key w call = .reject generation call.op.status := by
  obtain ⟨ticket, hmem, hkey, hde⟩ := deed_of_refused href hhld
  obtain ⟨dest, hg, hgen⟩ := h.owned ticket hmem hkey
  refine ⟨dest, ticket.generation, hg, hgen, ?_, hde⟩
  rw [(h.counted dest hg).1, hgen]
  exact List.countP_pos_iff.mpr ⟨ticket, hmem, by simp [hkey]⟩

/-! ## What an entry bears -/

/-- The sends that are left at an instant; a new entry would have all. -/
def sendsAt (limits : DestLimits) (entry : Option Dest) (t : Instant) : ℚ :=
  entry.elim limits.sendBurst fun dest => dest.send.levelAt limits.send t

/-- The rejection budget that is left at an instant. -/
def budgetsAt (limits : DestLimits) (entry : Option Dest) (t : Instant) : ℚ :=
  entry.elim limits.rejectBurst fun dest => dest.budgetAt limits t

def inFlightOf (entry : Option Dest) : ℕ := entry.elim 0 Dest.inFlight

/-- The rejections that an entry bears: those that are in flight, or the budget, whichever is
more. -/
def bearsAt (limits : DestLimits) (entry : Option Dest) (t : Instant) : ℚ :=
  max (inFlightOf entry : ℚ) (budgetsAt limits entry t)

section Entries

variable {limits : DestLimits} {now : Instant} {fresh : ℕ} {deed : Deed}
  {entry entry' : Option Dest}

theorem visited_holds {visited : Dest} (h : Visited limits now fresh entry visited) :
    visited.send.tokens = sendsAt limits entry now ∧ now ≤ visited.send.last ∧
      visited.reject.tokens = budgetsAt limits entry now ∧ now ≤ visited.reject.last ∧
      visited.inFlight = inFlightOf entry := by
  cases h with
  | stored hal =>
    rw [hal.sendLast, hal.rejectLast]
    exact ⟨hal.sendTokens, TokenBucket.le_refill_last _ _ _, hal.rejectTokens,
      TokenBucket.le_refill_last _ _ _, hal.inFlight⟩
  | created hal =>
    rw [hal.sendLast, hal.rejectLast]
    exact ⟨hal.sendTokens, le_rfl, hal.rejectTokens, le_rfl, hal.inFlight⟩

theorem levelAt_le_tokens {bucket : TokenBucket} (rate : Rate) (h : now ≤ bucket.last) :
    bucket.levelAt rate now ≤ bucket.tokens := by
  rw [TokenBucket.levelAt_of_le h]
  exact min_le_left _ _

section

variable (limits : DestLimits) (entry : Option Dest) (t : Instant)

theorem sendsAt_le : sendsAt limits entry t ≤ limits.sendBurst := by
  cases entry with
  | none => exact le_rfl
  | some dest => exact TokenBucket.levelAt_le_burst _ _ _

theorem budgetsAt_le : budgetsAt limits entry t ≤ limits.rejectBurst := by
  cases entry with
  | none => exact le_rfl
  | some dest => exact TokenBucket.levelAt_le_burst _ _ _

end

theorem sendsAt_nonneg (hrat : limits.NonNeg)
    (hsen : ∀ dest, entry = some dest → 0 ≤ dest.send.tokens) (t : Instant) :
    0 ≤ sendsAt limits entry t := by
  cases entry with
  | none => exact hrat.sendBurst
  | some dest =>
    exact TokenBucket.levelAt_nonneg (hsen dest rfl) hrat.sendBurst hrat.sendRefillPerSec t

variable {t t' : Instant} {dest : Dest}

theorem earned_nonneg {rate : ℚ} (hrt : 0 ≤ rate) (h : t ≤ t') :
    0 ≤ ((t' - t : ℤ) : ℚ) * (rate / nanosPerSec) := by
  refine mul_nonneg ?_ (div_nonneg hrt (Nat.cast_nonneg _))
  exact_mod_cast Int.sub_nonneg_of_le h

theorem sendsAt_grows (hrat : limits.NonNeg) (entry : Option Dest) (h : t ≤ t') :
    sendsAt limits entry t' ≤
      sendsAt limits entry t + ((t' - t : ℤ) : ℚ) * (limits.sendRefillPerSec / nanosPerSec) := by
  cases entry with
  | none => exact le_add_of_nonneg_right (earned_nonneg hrat.sendRefillPerSec h)
  | some dest => exact TokenBucket.levelAt_grows _ h hrat.sendRefillPerSec

theorem bearsAt_grows (hrat : limits.NonNeg) (entry : Option Dest) (h : t ≤ t') :
    bearsAt limits entry t' ≤
      bearsAt limits entry t + ((t' - t : ℤ) : ℚ) * (limits.rejectRefillPerSec / nanosPerSec) := by
  have hear := earned_nonneg hrat.rejectRefillPerSec h
  have hbud : budgetsAt limits entry t' ≤ budgetsAt limits entry t +
      ((t' - t : ℤ) : ℚ) * (limits.rejectRefillPerSec / nanosPerSec) := by
    cases entry with
    | none => exact le_add_of_nonneg_right hear
    | some dest => exact TokenBucket.levelAt_grows _ h hrat.rejectRefillPerSec
  refine max_le ?_ ?_
  · exact (le_max_left _ _).trans (le_add_of_nonneg_right hear)
  · exact hbud.trans (by gcongr; exact le_max_right _ _)

variable (hstep : EntryStep limits true now fresh deed entry entry')
  (hstays : entry ≠ none → entry' ≠ none)

include hstep hstays

/-- **A send that is admitted costs a token of the sends.** -/
theorem sendsAt_step :
    sendsAt limits entry' now + (if deed = .take then 1 else 0) ≤ sendsAt limits entry now := by
  cases hstep with
  | kept hal =>
    rw [if_neg (fun h => (nomatch h)), add_zero]
    exact (TokenBucket.levelAt_congr hal.sendTokens hal.sendLast now).le
  | visited hvis =>
    obtain ⟨htok, hls, -⟩ := visited_holds hvis
    rw [if_neg (fun h => (nomatch h)), add_zero, ← htok]
    exact levelAt_le_tokens _ hls
  | evicted => exact absurd rfl (hstays (some_ne_none _))
  | taken hvis hop hal =>
    obtain ⟨htok, hls, -⟩ := visited_holds hvis
    rename_i dest'
    have hls' : now ≤ dest'.send.last := hal.sendLast ▸ hls
    have hlev := levelAt_le_tokens limits.send hls'
    rw [hal.sendTokens] at hlev
    rw [if_pos rfl, ← htok]
    exact add_le_of_le_sub_right hlev
  | rejected userId _ hal =>
    rw [if_neg (fun h => (nomatch h)), add_zero]
    refine (TokenBucket.levelAt_congr ?_ ?_ now).le
    · rw [hal.sendTokens, Dest.rejectOne_send]
    · rw [hal.sendLast, Dest.rejectOne_send]
  | stale hret =>
    rcases hret with rfl | ⟨status, rfl⟩
    · exact (add_zero _).le
    · exact (add_zero _).le
  | _ => exact (add_zero _).le

theorem bearsAt_step : bearsAt limits entry' now ≤ bearsAt limits entry now := by
  cases hstep with
  | @kept dest dest' hal =>
    have hbud : dest'.budgetAt limits now = dest.budgetAt limits now :=
      TokenBucket.levelAt_congr hal.rejectTokens hal.rejectLast now
    show max (dest'.inFlight : ℚ) (dest'.budgetAt limits now) ≤ max _ _
    rw [hbud, hal.inFlight]
    exact le_rfl
  | @visited _ dest' hvis =>
    obtain ⟨-, -, htok, hls, hinFlight⟩ := visited_holds hvis
    show max (dest'.inFlight : ℚ) (dest'.budgetAt limits now) ≤ max _ _
    rw [hinFlight, ← htok]
    exact max_le_max_left _ (levelAt_le_tokens _ hls)
  | evicted => exact absurd rfl (hstays (some_ne_none _))
  | @taken _ visited dest' hvis hop hal =>
    obtain ⟨-, -, htok, hls, hinFlight⟩ := visited_holds hvis
    have hls' : now ≤ dest'.reject.last := hal.rejectLast ▸ hls
    have hlev := levelAt_le_tokens limits.reject hls'
    have hbud := hop.budget
    rw [hal.rejectTokens] at hlev
    show max (dest'.inFlight : ℚ) (dest'.budgetAt limits now) ≤ max _ _
    rw [hal.inFlight, taken_inFlight hop, ← htok, Nat.cast_add, Nat.cast_one]
    -- the budget had room for one more
    exact max_le (le_max_of_le_right (by linarith)) (le_max_of_le_right hlev)
  | @given dest =>
    have hfew : ((dest.inFlight - 1 : ℕ) : ℚ) ≤ dest.inFlight := Nat.cast_le.mpr (Nat.sub_le _ 1)
    exact max_le_max_right _ hfew
  | @rejected dest dest' _ _ userId _ hal =>
    have hfew : ((dest.inFlight - 1 : ℕ) : ℚ) ≤ dest.inFlight := Nat.cast_le.mpr (Nat.sub_le _ 1)
    have hbud : dest'.budgetAt limits now =
        (dest.rejectOne limits userId _ now).1.budgetAt limits now :=
      TokenBucket.levelAt_congr hal.rejectTokens hal.rejectLast now
    show max (dest'.inFlight : ℚ) (dest'.budgetAt limits now) ≤ max _ _
    rw [hbud, hal.inFlight, Dest.rejectOne_inFlight]
    exact max_le_max hfew (Dest.rejectOne_tokens_le userId _)
  | _ => exact le_rfl

omit hstep

/-- **While the budget is spent, nothing is taken.** -/
theorem shut_step (hrt : 0 ≤ limits.rejectRefillPerSec) {x : Instant} (hnow : now ≤ x)
    (hent : entry = some dest) (hsh : dest.budgetAt limits x < 1)
    (hstep : EntryStep limits true now fresh deed entry entry') :
    ∃ dest', entry' = some dest' ∧ dest'.inFlight ≤ dest.inFlight ∧
      dest'.budgetAt limits x ≤ dest.budgetAt limits x := by
  cases hstep with
  | absent => cases hent
  | @kept _ dest' hal =>
    cases hent
    refine ⟨dest', rfl, hal.inFlight.le, ?_⟩
    exact (TokenBucket.levelAt_congr hal.rejectTokens hal.rejectLast x).le
  | @visited _ dest' hvis =>
    subst hent
    cases hvis with
    | stored hal =>
      refine ⟨dest', rfl, hal.inFlight.le, ?_⟩
      refine (TokenBucket.levelAt_congr hal.rejectTokens hal.rejectLast x).trans_le ?_
      exact TokenBucket.levelAt_refill_le dest.reject hnow
  | evicted => exact absurd rfl (hstays (some_ne_none _))
  | @taken _ visited _ hvis hop _ =>
    subst hent
    -- it would have needed a whole token
    obtain ⟨-, -, htok, -⟩ := visited_holds hvis
    have hlev : dest.budgetAt limits now ≤ dest.budgetAt limits x :=
      TokenBucket.levelAt_mono dest.reject hnow hrt
    have hbud := hop.budget
    rw [htok] at hbud
    change 1 ≤ dest.budgetAt limits now - visited.inFlight at hbud
    linarith
  | given =>
    cases hent
    exact ⟨_, rfl, Nat.sub_le _ 1, le_rfl⟩
  | @rejected _ dest' _ _ userId _ hal =>
    cases hent
    refine ⟨dest', rfl, ?_, ?_⟩
    · rw [hal.inFlight, Dest.rejectOne_inFlight]
      exact Nat.sub_le _ 1
    · refine (TokenBucket.levelAt_congr hal.rejectTokens hal.rejectLast x).trans_le ?_
      exact Dest.budgetAt_rejectOne_le userId _ hnow
  | stale => exact ⟨dest, hent, le_rfl, le_rfl⟩

omit hstays

variable {generation : ℕ}

/-- **A rejection takes one from what the entry bears**, whatever it costs of the budget. -/
theorem bearsAt_reject {status : Option UInt16} (hgen : dest.generation = generation)
    (hlv : 0 < dest.inFlight)
    (hstep : EntryStep limits true now fresh (.reject generation status) (some dest) entry') :
    bearsAt limits entry' now + 1 ≤ bearsAt limits (some dest) now := by
  cases hstep with
  | @rejected _ dest' _ _ userId _ hal =>
    have hbud : dest'.budgetAt limits now =
        (dest.rejectOne limits userId _ now).1.budgetAt limits now :=
      TokenBucket.levelAt_congr hal.rejectTokens hal.rejectLast now
    show max (dest'.inFlight : ℚ) (dest'.budgetAt limits now) + 1 ≤ max _ _
    rw [hbud, hal.inFlight]
    exact Dest.rejectOne_spends userId _ hlv
  | stale hret hne =>
    rcases hret with h | ⟨status', h⟩
    · cases h
    · cases h
      exact absurd hgen (hne dest rfl)

theorem struck_of_reject (hgen : dest.generation = generation) (hlv : 0 < dest.inFlight)
    (hpaus : 0 < limits.pauseOn503Secs)
    (hstep : EntryStep limits true now fresh (.reject generation (some 503)) (some dest) entry') :
    ∃ dest', entry' = some dest' ∧ dest'.inFlight + 1 ≤ dest.inFlight ∧
      dest'.budgetAt limits now ≤ -(limits.pauseOn503Secs * limits.rejectRefillPerSec) := by
  cases hstep with
  | @rejected _ dest' _ _ userId _ hal =>
    have hpau : decide (some (503 : UInt16) = some 503 ∧ 0 < limits.pauseOn503Secs) = true :=
      decide_eq_true ⟨rfl, hpaus⟩
    rw [hpau] at hal
    have hbud : dest'.budgetAt limits now =
        (dest.rejectOne limits userId true now).1.budgetAt limits now :=
      TokenBucket.levelAt_congr hal.rejectTokens hal.rejectLast now
    refine ⟨dest', rfl, ?_, ?_⟩
    · rw [hal.inFlight, Dest.rejectOne_inFlight]
      omega
    · rw [hbud]
      exact Dest.rejectOne_pauses userId
  | stale hret hne =>
    rcases hret with h | ⟨status', h⟩
    · cases h
    · cases h
      exact absurd hgen (hne dest rfl)

/-- What a pause takes is not earned back within it. -/
theorem budgetAt_of_pause (hrt : 0 ≤ limits.rejectRefillPerSec)
    (hbud : dest.budgetAt limits now ≤ -(limits.pauseOn503Secs * limits.rejectRefillPerSec))
    {pause : ℕ} (hlen : (pause : ℚ) ≤ limits.pauseOn503Secs * nanosPerSec) :
    dest.budgetAt limits (now + pause) < 1 := by
  have hle : now ≤ now + (pause : ℤ) := le_add_of_nonneg_right (Int.natCast_nonneg pause)
  have hgrow : dest.budgetAt limits (now + pause) ≤ dest.budgetAt limits now +
      ((now + (pause : ℤ) - now : ℤ) : ℚ) * (limits.rejectRefillPerSec / nanosPerSec) :=
    TokenBucket.levelAt_grows dest.reject hle hrt
  have hear : (pause : ℚ) * (limits.rejectRefillPerSec / nanosPerSec) ≤
      limits.pauseOn503Secs * limits.rejectRefillPerSec := by
    have hnan : (0 : ℚ) < nanosPerSec := by
      unfold nanosPerSec
      norm_num
    have hscal := mul_le_mul_of_nonneg_right hlen (div_nonneg hrt hnan.le)
    refine hscal.trans_eq ?_
    field_simp
  have hpas : ((now + (pause : ℤ) - now : ℤ) : ℚ) = pause := by
    push_cast
    ring
  rw [hpas] at hgrow
  linarith

end Entries

theorem sound_exec (hrat : (limiter.limits.dest key).NonNeg) (h : Sound limiter key w)
    (hadm : HoldsAndStays limiter key w call) : Sound limiter key (limiter.exec w call).1 := by
  obtain ⟨hhld, hstays⟩ := hadm
  have hstep := entryStep_exec limiter key h.armed hhld
  have hnol : w.state.dest.get key = none → ∀ generation, w.liveOf key generation = 0 := by
    intro hno generation
    refine List.countP_eq_zero.mpr fun ticket hmem hcnt => ?_
    obtain ⟨dest, hg, -⟩ := h.owned ticket hmem (of_decide_eq_true hcnt).1
    rw [hno] at hg
    cases hg
  have hbt : ∀ dest', (limiter.exec w call).1.state.dest.get key = some dest' →
      (dest'.inFlight : ℚ) ≤ (limiter.limits.dest key).rejectBurst ∧ 0 ≤ dest'.send.tokens := by
    intro dest' hg
    rw [hg] at hstep
    have hres := h.reserved
    have hsen := h.sends
    generalize w.state.dest.get key = entry at hstep hres hsen
    generalize limiter.deed key w call = deed at hstep
    cases hstep with
    | kept hal =>
      rw [hal.inFlight, hal.sendTokens]
      exact ⟨hres _ rfl, hsen _ rfl⟩
    | visited hvis =>
      obtain ⟨htok, -, -, -, hinFlight⟩ := visited_holds hvis
      rw [htok, hinFlight]
      refine ⟨?_, sendsAt_nonneg hrat hsen _⟩
      cases entry with
      | none => exact Nat.cast_zero.trans_le hrat.rejectBurst
      | some dest => exact hres dest rfl
    | taken hvis hop hal =>
      obtain ⟨-, -, htok, -⟩ := visited_holds hvis
      have hwit := budgetsAt_le (limiter.limits.dest key) entry call.now
      have hbud := hop.budget
      have hsd := hop.send
      rw [hal.inFlight, hal.sendTokens, taken_inFlight hop, Nat.cast_add, Nat.cast_one]
      refine ⟨by linarith, ?_⟩
      show 0 ≤ _ - (1 : ℚ)
      linarith
    | @given dest =>
      have hfew : ((dest.inFlight - 1 : ℕ) : ℚ) ≤ dest.inFlight := Nat.cast_le.mpr (Nat.sub_le _ 1)
      exact ⟨hfew.trans (hres dest rfl), hsen dest rfl⟩
    | @rejected dest _ _ _ userId _ hal =>
      have hfew : ((dest.inFlight - 1 : ℕ) : ℚ) ≤ dest.inFlight := Nat.cast_le.mpr (Nat.sub_le _ 1)
      rw [hal.inFlight, hal.sendTokens, Dest.rejectOne_inFlight, Dest.rejectOne_send]
      exact ⟨hfew.trans (hres dest rfl), hsen dest rfl⟩
    | stale => exact ⟨hres _ rfl, hsen _ rfl⟩
  refine ⟨armed_exec h.armed, ?_, ?_, fun dest' hg => (hbt dest' hg).1,
    fun dest' hg => (hbt dest' hg).2⟩
  · intro ticket hmem hkey
    rcases mem_live_exec hmem with hold | ⟨-, dest', hg', hgen⟩
    · obtain ⟨dest, hg, hgen⟩ := h.owned ticket hold hkey
      have hpres : w.state.dest.get key ≠ none := by
        rw [hg]
        exact some_ne_none dest
      obtain ⟨dest', hg'⟩ := ne_none_iff_exists'.mp (hstays hpres)
      rw [hg, hg'] at hstep
      refine ⟨dest', hg', ?_⟩
      rcases generation_of_entryStep hstep with ⟨stored, hsto, hsm⟩ | ⟨hno, -⟩
      · rw [hsm, ← some.inj hsto, hgen]
      · cases hno
    · rw [hkey] at hg'
      exact ⟨dest', hg', hgen.symm⟩
  · intro dest' hg
    exact inFlight_exec h.armed hhld h.counted (fun hno => hnol hno _) hg

/-! ## Budgets over runs -/

theorem entryStep_of_stays (h : Sound limiter key w) (hadm : HoldsAndStays limiter key w call) :
    EntryStep (limiter.limits.dest key) true call.now (wrappingAddU64 w.state.generations 1)
      (limiter.deed key w call) (w.state.dest.get key)
      ((limiter.exec w call).1.state.dest.get key) := by
  have hstep := entryStep_exec limiter key h.armed hadm.1
  cases hkey : evictable key with
  | true =>
    rw [hkey] at hstep
    exact hstep
  | false =>
    rw [hkey] at hstep
    exact hstep.weaken

def sendCredit (hrates : (limiter.limits.dest key).NonNeg) :
    Credit limiter.exec (HoldsAndStays limiter key) Call.now (Sent limiter key)
      (limiter.limits.dest key).sendBurst
      ((limiter.limits.dest key).sendRefillPerSec / nanosPerSec) where
  Good := Sound limiter key
  credit w t := sendsAt (limiter.limits.dest key) (w.state.dest.get key) t
  keeps _ _ hadm h := sound_exec hrates h hadm
  nonneg w t h := sendsAt_nonneg hrates h.sends t
  capped w t _ := sendsAt_le _ _ t
  grows w t t' _ hle := sendsAt_grows hrates _ hle
  pays w call hadm h := by
    have hcost := sendsAt_step (entryStep_of_stays h hadm) hadm.2
    simpa only [← deed_of_sent] using hcost

/-- The reservations and the budget pay for the rejections. -/
def rejectCredit (hrates : (limiter.limits.dest key).NonNeg) :
    Credit limiter.exec (HoldsAndStays limiter key) Call.now (Refused key)
      (limiter.limits.dest key).rejectBurst
      ((limiter.limits.dest key).rejectRefillPerSec / nanosPerSec) where
  Good := Sound limiter key
  credit w t := bearsAt (limiter.limits.dest key) (w.state.dest.get key) t
  keeps _ _ hadm h := sound_exec hrates h hadm
  nonneg w t _ := (Nat.cast_nonneg _).trans (le_max_left _ _)
  capped w t h := by
    refine max_le ?_ (budgetsAt_le _ _ t)
    cases hget : w.state.dest.get key with
    | none => exact Nat.cast_zero.trans_le hrates.rejectBurst
    | some dest => exact h.reserved dest hget
  grows w t t' _ hle := bearsAt_grows hrates _ hle
  pays w call hadm h := by
    have hstep := entryStep_of_stays h hadm
    by_cases hrefused : Refused key w call
    · obtain ⟨dest, generation, hget, hgen, hlive, hdeed⟩ := h.live_of_refused hadm.1 hrefused
      rw [hdeed, hget] at hstep
      rw [if_pos hrefused, hget]
      exact bearsAt_reject hgen hlive hstep
    · rw [if_neg hrefused, add_zero]
      exact bearsAt_step hstep hadm.2

/-- The budget holds no whole token up to the instant. -/
def ShutUntil (limiter : UpLimiter) (key : DestKey) (w : World) (x : Instant) : Prop :=
  ∃ dest, w.state.dest.get key = some dest ∧ dest.budgetAt (limiter.limits.dest key) x < 1

/-- A 503 keeps the destination shut for its pause. -/
def strikeBreaker (hrates : (limiter.limits.dest key).NonNeg) {pause : ℕ}
    (hpause : 0 < (limiter.limits.dest key).pauseOn503Secs)
    (hlength : (pause : ℚ) ≤ (limiter.limits.dest key).pauseOn503Secs * nanosPerSec) :
    Breaker limiter.exec (HoldsAndStays limiter key) Call.now (Struck key)
      (limiter.limits.dest key).maxInFlight.toNat pause where
  Good := Sound limiter key
  load w := inFlightOf (w.state.dest.get key)
  Shut := ShutUntil limiter key
  keeps _ _ hadm h := sound_exec hrates h hadm
  capped w h := by
    cases hget : w.state.dest.get key with
    | none => exact Nat.zero_le _
    | some dest => exact (h.counted dest hget).2
  trips w call hadm h hstruck := by
    obtain ⟨dest, generation, hget, hgen, hlive, hdeed⟩ := h.live_of_refused hadm.1 hstruck.1
    have hstep := entryStep_of_stays h hadm
    rw [hdeed, hget, hstruck.2] at hstep
    rw [hget]
    obtain ⟨dest', hget', hload, hbudget⟩ := struck_of_reject hgen hlive hpause hstep
    refine ⟨by rw [hget']; exact hload, dest', hget', ?_⟩
    exact budgetAt_of_pause hrates.rejectRefillPerSec hbudget hlength
  holds w call x hadm h hshut hnow := by
    obtain ⟨dest, hget, hbudget⟩ := hshut
    have hstep := entryStep_of_stays h hadm
    rw [hget] at hstep
    obtain ⟨dest', hget', hload, hbudget'⟩ :=
      shut_step (hget ▸ hadm.2) hrates.rejectRefillPerSec hnow rfl hbudget hstep
    refine ⟨?_, dest', hget', hbudget'.trans_lt hbudget⟩
    rw [hget, hget']
    exact hload

theorem nonNeg_default : (UpLimits.default.dest .ntfy).NonNeg := by
  refine ⟨?_, ?_, ?_, ?_⟩
  · show (0 : ℚ) ≤ 300
    norm_num
  · show (0 : ℚ) ≤ 6 / 10
    norm_num
  · show (0 : ℚ) ≤ 20
    norm_num
  · show (0 : ℚ) ≤ 1 / 15
    norm_num

/-- **No destination rejects more than its budget.** -/
theorem rejections_within_budget (limiter : UpLimiter) {h : List (World × Call)} {w : World}
    (hrun : Run limiter.exec Holds .initial h w) (hforward : Forward Call.now h) :
    (∀ key, (key = .ntfy ∨ ∀ e ∈ h, Stays limiter key e.1 e.2) →
      (limiter.limits.dest key).NonNeg → ∀ (a : Instant) (length : ℕ),
        (within Call.now (Refused key) a (a + length) h : ℚ) ≤
            (limiter.limits.dest key).rejectBurst +
              (length : ℚ) / nanosPerSec * (limiter.limits.dest key).rejectRefillPerSec ∧
          (within Call.now (Sent limiter key) a (a + length) h : ℚ) ≤
            (limiter.limits.dest key).sendBurst +
              (length : ℚ) / nanosPerSec * (limiter.limits.dest key).sendRefillPerSec) ∧
    (limiter.limits = .default → ∀ a : Instant,
      within Call.now (Struck .ntfy) a (a + seconds 600) h ≤ 2 * ntfyMaxInFlight.toNat) := by
  constructor
  · intro key hstays hrates a length
    have hstays' : ∀ e ∈ h, Stays limiter key e.1 e.2 := by
      rcases hstays with rfl | hstays
      · exact fun e _ => stays_ntfy
      · exact hstays
    have hrun' := hrun.strengthen hstays'
    have hsound := sound_initial limiter key
    constructor
    · refine ((rejectCredit hrates).within_le hrun' hsound hforward a length).trans_eq ?_
      ring
    · refine ((sendCredit hrates).within_le hrun' hsound hforward a length).trans_eq ?_
      ring
  · intro hdefault a
    have hlimits : limiter.limits.dest .ntfy = UpLimits.default.dest .ntfy := by rw [hdefault]
    have hrates : (limiter.limits.dest .ntfy).NonNeg := by
      rw [hlimits]
      exact nonNeg_default
    have hpause : 0 < (limiter.limits.dest .ntfy).pauseOn503Secs := by
      rw [hlimits]
      show (0 : ℚ) < 300
      norm_num
    have hlength : ((300 * nanosPerSec : ℕ) : ℚ) ≤
        (limiter.limits.dest .ntfy).pauseOn503Secs * nanosPerSec := by
      rw [hlimits, Nat.cast_mul]
      exact le_rfl
    have hstays : ∀ e ∈ h, Stays limiter .ntfy e.1 e.2 := fun e _ => stays_ntfy
    have hrun' := hrun.strengthen hstays
    have hwindow : a + seconds 600 ≤ a + 2 * ((300 * nanosPerSec : ℕ) : ℤ) := by
      have htwice : seconds 600 = 2 * ((300 * nanosPerSec : ℕ) : ℤ) := by decide
      rw [htwice]
    have hstrikes := (strikeBreaker hrates hpause hlength).within_le hwindow hrun'
      (sound_initial limiter .ntfy) hforward
    rw [hlimits] at hstrikes
    exact hstrikes

/-- Two sends, one answered with a 503 and the other, while the budget is spent, with a 429. -/
def twoSends : List Call :=
  [⟨0, .stored, .admitSend "ada" ⟨0⟩ .ntfy⟩, ⟨0, .stored, .admitSend "ada" ⟨1⟩ .ntfy⟩,
    ⟨seconds 1, .stored, .rejected ⟨"ada", ⟨0⟩, .ntfy, 1, true⟩ false (some 503)⟩,
    ⟨seconds 9, .stored, .rejected ⟨"ada", ⟨1⟩, .ntfy, 1, true⟩ false (some 429)⟩]

theorem rejections_within_budget_two_sends : ((within Call.now (Refused .ntfy) 0 (0 + (10 : ℕ))
        (historyOf UpLimiter.new.exec .initial twoSends) : ℚ) ≤
      (UpLimiter.new.limits.dest .ntfy).rejectBurst + ((10 : ℕ) : ℚ) / nanosPerSec *
        (UpLimiter.new.limits.dest .ntfy).rejectRefillPerSec) ∧
    within Call.now (Struck .ntfy) 0 (0 + seconds 600)
      (historyOf UpLimiter.new.exec .initial twoSends) ≤ 2 * ntfyMaxInFlight.toNat := by
  have hrun : Run UpLimiter.new.exec Holds .initial (historyOf UpLimiter.new.exec .initial twoSends)
      (execAll UpLimiter.new.exec .initial twoSends) := Run.of_admitsAll (by decide +kernel)
  have hbudget := rejections_within_budget .new hrun (by decide +kernel)
  exact ⟨(hbudget.1 .ntfy (.inl rfl) nonNeg_default 0 10).1, hbudget.2 rfl 0⟩

end SlogaBackend.Pushd
