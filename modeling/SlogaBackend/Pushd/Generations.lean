import SlogaBackend.Pushd.LiveTickets

/-!
# Generations of entries

An entry is stamped with a generation when it is created, a counter of 64 bits that starts again
when it is full. Which generations are in use is kept apart from what they are compared for:
`Stamped lo hi` are the generations stamped after the first `lo` and among the first `hi`, and two
of them are different as long as no more than `2 ^ 64` were stamped (`Stamped.ne`).

`issued_exec` keeps count of them along a run.
-/

namespace SlogaBackend.Pushd

open Table

/-! ## Generations -/

/-- The call creates an entry. -/
def UpLimiter.Creates (limiter : UpLimiter) (w : World) (call : Call) : Prop :=
  (limiter.exec w call).1.state.generations ≠ w.state.generations

instance (limiter : UpLimiter) (w : World) (call : Call) : Decidable (limiter.Creates w call) :=
  inferInstanceAs (Decidable (_ ≠ _))

/-- How many entries were created. -/
def UpLimiter.created (limiter : UpLimiter) (h : List (World × Call)) : ℕ :=
  h.countP fun e => limiter.Creates e.1 e.2

/-- A generation stamped after the first `lo` and among the first `hi`. -/
def Stamped (lo hi generation : ℕ) : Prop := ∃ n, lo < n ∧ n ≤ hi ∧ generation = n % 2 ^ 64

variable {lo hi generation n : ℕ}

theorem Stamped.mono {hi' : ℕ} (h : Stamped lo hi generation) (hle : hi ≤ hi') :
    Stamped lo hi' generation := by
  obtain ⟨n, hlo, hhi, hgen⟩ := h
  exact ⟨n, hlo, hhi.trans hle, hgen⟩

/-- No generation is stamped twice before the counter starts again. -/
theorem Stamped.ne {generation' : ℕ} (h : Stamped 0 lo generation) (h' : Stamped lo hi generation')
    (hle : hi ≤ 2 ^ 64) : generation ≠ generation' := by
  obtain ⟨n, hpos, hn, rfl⟩ := h
  obtain ⟨n', hn', hhi, rfl⟩ := h'
  omega

variable {limiter : UpLimiter} {w : World} {call : Call}

namespace State

variable {limits : UpLimits} {iteration : Iteration} {userId : String} {sub : SubKey}
  {key key' : DestKey} {now : Instant} {generation : ℕ}

theorem generations_admitAt (s : State) (dest : Dest) :
    (s.admitAt limits iteration userId sub key now dest).1.generations = s.generations := by
  unfold admitAt
  split
  · rfl
  · split
    · rfl
    · split
      · rfl
      · dsimp only
        split <;> rfl

theorem generations_admitSend (s : State) :
    ((s.admitSend limits iteration userId sub key now).1.generations = s.generations ∧
        ∀ key', s.dest.get key' = none →
          (s.admitSend limits iteration userId sub key now).1.dest.get key' = none) ∨
      (s.admitSend limits iteration userId sub key now).1.generations =
        wrappingAddU64 s.generations 1 := by
  rcases admit_cases limits iteration s userId sub key now with
    ⟨entry, first, -, heq⟩ | heq
  · rw [heq]
    exact .inl ⟨rfl, fun _ h => h⟩
  · obtain ⟨visited, hsnd, hg, -⟩ := visited_destFor limits iteration key now s.bumpCalls
    obtain ⟨-, -, hoths, -⟩ := admitAt_cases limits iteration userId sub now hg
    have hgen := generations_destFor limits iteration key now s.bumpCalls
    rw [heq, hsnd, generations_admitAt, hgen]
    by_cases habs : s.dest.get key = none
    · exact .inr (if_pos habs)
    · refine .inl ⟨if_neg habs, fun key' hno => ?_⟩
      have hne : key' ≠ key := by
        rintro rfl
        exact habs hno
      rw [hoths key' hne]
      rcases get_destFor_of_ne limits iteration now s.bumpCalls hne with h | h | h
      · exact h.trans hno
      · rw [h]
        exact (congrArg _ hno).trans (map_none _)
      · exact h.1

end State

/-- **A call that stamps no generation creates no entry.** -/
theorem generations_exec (limiter : UpLimiter) (w : World) (call : Call) :
    ((limiter.exec w call).1.state.generations = w.state.generations ∧
        ∀ key, w.state.dest.get key = none → (limiter.exec w call).1.state.dest.get key = none) ∨
      (limiter.exec w call).1.state.generations = wrappingAddU64 w.state.generations 1 := by
  by_cases hop : ∀ userId sub key, call.op ≠ .admitSend userId sub key
  · obtain ⟨hsm, hky⟩ := exec_of_not_admitSend limiter w hop
    exact .inl ⟨hsm, fun key => (hky key).mpr⟩
  · obtain ⟨now, iteration, op⟩ := call
    push Not at hop
    obtain ⟨userId, sub, key, rfl⟩ := hop
    exact State.generations_admitSend w.state

/-- Which generations are in use after so many entries. -/
structure Issued (n : ℕ) (w : World) : Prop where
  counter : w.state.generations = n % 2 ^ 64
  entries : ∀ key dest, w.state.dest.get key = some dest → Stamped 0 n dest.generation
  live : ∀ ticket ∈ w.live, Stamped 0 n ticket.generation

theorem issued_initial : Issued 0 World.initial where
  counter := rfl
  entries _ _ h := by cases h
  live _ h := absurd h not_mem_nil

theorem Issued.fresh (h : Issued n w) :
    Stamped n (n + 1) (wrappingAddU64 w.state.generations 1) := by
  refine ⟨n + 1, Nat.lt_succ_self n, le_rfl, ?_⟩
  unfold wrappingAddU64
  rw [h.counter]
  omega

/-- The count after the call. -/
def UpLimiter.next (limiter : UpLimiter) (n : ℕ) (w : World) (call : Call) : ℕ :=
  n + if limiter.Creates w call then 1 else 0

theorem next_of_created (h : Issued n w)
    (hgen : (limiter.exec w call).1.state.generations = wrappingAddU64 w.state.generations 1) :
    limiter.next n w call = n + 1 := by
  have hcreat : limiter.Creates w call := by
    intro hsm
    rw [hgen, h.counter] at hsm
    unfold wrappingAddU64 at hsm
    omega
  unfold UpLimiter.next
  rw [if_pos hcreat]

theorem next_of_same (hgen : (limiter.exec w call).1.state.generations = w.state.generations) :
    limiter.next n w call = n := by
  unfold UpLimiter.next
  rw [if_neg (fun hcreat => hcreat hgen), Nat.add_zero]

theorem stamped_exec (h : Issued n w) (harm : w.Armed) (hhld : Holds w call) {key : DestKey}
    {dest' : Dest} (hg : (limiter.exec w call).1.state.dest.get key = some dest') :
    (∃ dest, w.state.dest.get key = some dest ∧ dest'.generation = dest.generation) ∨
      w.state.dest.get key = none ∧ limiter.next n w call = n + 1 ∧
        dest'.generation = wrappingAddU64 w.state.generations 1 := by
  have hst := entryStep_exec limiter key harm hhld
  rw [hg] at hst
  rcases generation_of_entryStep hst with hold | ⟨hno, hgen⟩
  · exact .inl hold
  · refine .inr ⟨hno, ?_, hgen⟩
    rcases generations_exec limiter w call with ⟨-, hsm⟩ | hnew
    · rw [hsm key hno] at hg
      cases hg
    · exact next_of_created h hnew

theorem issued_exec (h : Issued n w) (harm : w.Armed) (hhld : Holds w call) :
    Issued (limiter.next n w call) (limiter.exec w call).1 := by
  have hle : n ≤ limiter.next n w call := Nat.le_add_right _ _
  have hents : ∀ key dest', (limiter.exec w call).1.state.dest.get key = some dest' →
      Stamped 0 (limiter.next n w call) dest'.generation := by
    intro key dest' hg
    rcases stamped_exec h harm hhld hg with ⟨dest, hold, hgen⟩ | ⟨-, hnx, hgen⟩
    · rw [hgen]
      exact (h.entries key dest hold).mono hle
    · obtain ⟨m, hlo, hhi, heq⟩ := h.fresh
      rw [hnx, hgen]
      exact ⟨m, Nat.zero_lt_of_lt hlo, hhi, heq⟩
  refine ⟨?_, hents, ?_⟩
  · rcases generations_exec limiter w call with ⟨hsm, -⟩ | hnew
    · rw [next_of_same hsm, hsm]
      exact h.counter
    · rw [next_of_created h hnew, hnew, h.counter]
      unfold wrappingAddU64
      omega
  · intro ticket hmem
    rcases mem_live_exec hmem with hold | ⟨-, dest', hg', hgen⟩
    · exact (h.live ticket hold).mono hle
    · rw [hgen]
      exact hents ticket.key dest' hg'

end SlogaBackend.Pushd
