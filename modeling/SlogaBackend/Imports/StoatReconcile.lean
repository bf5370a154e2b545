import SlogaBackend.Base

/-!
# The reconcile of the Stoat bot

Once an hour the bot leaves the servers that no import is using, those it joined first before the
others and at most `LEAVE_BATCH` in one run. A leave that Stoat refuses counts too, and the server
is among the first again in the next run: `all_attempted_iff` says when the others are reached.
-/

namespace SlogaBackend.Imports.Stoat

def leaveBatch : ℕ := 20

structure BotMembership where
  serverId : String
  joinedAt : Option Timestamp
  deriving DecidableEq

/-- What one run did. -/
structure Outcome where
  /-- The bot's memberships. -/
  seen : ℕ
  /-- Joined within the grace. -/
  recent : ℕ
  noJoinTime : ℕ
  /-- An active import job uses the server. -/
  inUse : ℕ
  /-- Not judged: the job lookup failed on the first of these. -/
  unchecked : ℕ
  left : ℕ
  /-- Stoat refused or did not answer the leave. -/
  failed : ℕ
  /-- Past the per-run cap, left for the next run. -/
  deferred : ℕ

def cutoff (now : Timestamp) (afterHours : UInt32) : Timestamp :=
  (now.checkedSub (afterHours.toNat * 3600 * 1000000000)).getD 0

/-- The order of the candidates; all of them have a join time. -/
def JoinedBefore (a b : BotMembership) : Prop := a.joinedAt.getD 0 ≤ b.joinedAt.getD 0

instance : DecidableRel JoinedBefore := fun _ _ => inferInstanceAs (Decidable (_ ≤ _))

instance : Std.Total JoinedBefore := ⟨fun _ _ => le_total _ _⟩

instance : IsTrans BotMembership JoinedBefore := ⟨fun _ _ _ => le_trans⟩

/-- The memberships the grace no longer protects, oldest join first, and the counts of those it
kept. -/
def pastGrace (memberships : List BotMembership) (now : Timestamp) (afterHours : UInt32) :
    List BotMembership × ℕ × ℕ :=
  ((memberships.filter fun m => m.joinedAt.any (· ≤ cutoff now afterHours)).insertionSort
      JoinedBefore,
    memberships.countP fun m => m.joinedAt.any (cutoff now afterHours < ·),
    memberships.countP fun m => m.joinedAt.isNone)

variable (inUse : String → Option Bool) (leave : String → Bool)

/-- The loop over the candidates, and the servers that it asks to leave. -/
def visitAll : List BotMembership → Outcome → Outcome × List String
  | [], outcome => (outcome, [])
  | membership :: rest, outcome =>
    if leaveBatch ≤ outcome.left + outcome.failed then
      ({ outcome with deferred := rest.length + 1 }, [])
    else
      match inUse membership.serverId with
      | some true => visitAll rest { outcome with inUse := outcome.inUse + 1 }
      | none => ({ outcome with unchecked := rest.length + 1 }, [])
      | some false =>
        let result := visitAll rest <|
          if leave membership.serverId then { outcome with left := outcome.left + 1 }
          else { outcome with failed := outcome.failed + 1 }
        (result.1, membership.serverId :: result.2)

/-- `run_with`, once the memberships are read. -/
def runWith (memberships : List BotMembership) (now : Timestamp) (afterHours : UInt32) :
    Outcome × List String :=
  let past := pastGrace memberships now afterHours
  visitAll inUse leave past.1 ⟨memberships.length, past.2.1, past.2.2, 0, 0, 0, 0, 0⟩

/-- `run`: `None` where it is switched off, has no token, or cannot read the memberships. -/
def run (token : Bool) (memberships : Option (List BotMembership)) (now : Timestamp)
    (afterHours : UInt32) : Option (Outcome × List String) :=
  if afterHours = 0 ∨ token = false then none
  else memberships.map fun memberships => runWith inUse leave memberships now afterHours

variable {inUse leave}

/-! ## One run -/

/-- The counts of a run. -/
structure Outcome.Adds (outcome : Outcome) : Prop where
  capped : outcome.left + outcome.failed ≤ leaveBatch
  seen : outcome.seen = outcome.recent + outcome.noJoinTime + outcome.inUse + outcome.unchecked +
    outcome.left + outcome.failed + outcome.deferred

theorem adds_visitAll {candidates : List BotMembership} {outcome : Outcome}
    (hcap : outcome.left + outcome.failed ≤ leaveBatch) (hunchecked : outcome.unchecked = 0)
    (hdeferred : outcome.deferred = 0) (hseen : outcome.seen = outcome.recent +
      outcome.noJoinTime + outcome.inUse + outcome.left + outcome.failed + candidates.length) :
    (visitAll inUse leave candidates outcome).1.Adds := by
  induction candidates generalizing outcome with
  | nil => exact ⟨hcap, by simp only [visitAll, List.length_nil] at hseen ⊢; omega⟩
  | cons membership rest ih =>
    rw [List.length_cons] at hseen
    unfold visitAll
    by_cases hfull : leaveBatch ≤ outcome.left + outcome.failed
    · rw [if_pos hfull]
      exact ⟨hcap, by dsimp only; omega⟩
    · rw [if_neg hfull]
      split
      · exact ih hcap hunchecked hdeferred (by dsimp only; omega)
      · exact ⟨hcap, by dsimp only; omega⟩
      · dsimp only
        split_ifs
        · exact ih (by dsimp only; omega) hunchecked hdeferred (by dsimp only; omega)
        · exact ih (by dsimp only; omega) hunchecked hdeferred (by dsimp only; omega)

theorem adds_runWith (memberships : List BotMembership) (now : Timestamp) (afterHours : UInt32) :
    (runWith inUse leave memberships now afterHours).1.Adds := by
  refine adds_visitAll (Nat.zero_le _) rfl rfl ?_
  simp only [pastGrace, List.length_insertionSort, ← List.countP_eq_length_filter]
  induction memberships with
  | nil => rfl
  | cons m memberships ih =>
    cases hjoin : m.joinedAt with
    | none => simp [hjoin]; omega
    | some joined =>
      by_cases hle : joined ≤ cutoff now afterHours
      · simp [hjoin, hle, not_lt.mpr hle]; omega
      · simp [hjoin, hle, not_le.mp hle]; omega

/-! ## Run after run -/

/-- The servers that a sequence of runs asks to leave; one that was left is not listed again. -/
def attempted (leave : String → Bool) (afterHours : UInt32) :
    List BotMembership → List Timestamp → List String
  | _, [] => []
  | memberships, now :: nows =>
    let asked := ((run (fun _ => some false) leave true (some memberships) now afterHours).map
      Prod.snd).getD []
    asked ++ attempted leave afterHours
      (memberships.filter fun m => m.serverId ∉ asked ∨ leave m.serverId = false) nows

/-- How far a run reaches in the order of the candidates, after runs that reached `d` of them:
those before that refuse are asked again first. -/
def reach (leave : String → Bool) (order : List BotMembership) (d : ℕ) : ℕ :=
  d + (leaveBatch - (order.take d).countP fun m => !leave m.serverId)

theorem attempts_visitAll {candidates : List BotMembership} {outcome : Outcome} :
    (visitAll (fun _ => some false) leave candidates outcome).2 =
      (candidates.take (leaveBatch - (outcome.left + outcome.failed))).map
        BotMembership.serverId := by
  induction candidates generalizing outcome with
  | nil => simp [visitAll]
  | cons membership rest ih =>
    unfold visitAll
    by_cases hfull : leaveBatch ≤ outcome.left + outcome.failed
    · rw [if_pos hfull, Nat.sub_eq_zero_of_le hfull]
      rfl
    · obtain ⟨k, hk⟩ := Nat.exists_eq_succ_of_ne_zero (Nat.sub_ne_zero_of_lt (not_le.mp hfull))
      rw [if_neg hfull, hk, List.take_succ_cons, List.map_cons]
      dsimp only
      rw [ih]
      congr 3
      split_ifs <;> dsimp only <;> omega

theorem orderedInsert_filter (keep : BotMembership → Bool) (a : BotMembership)
    {l : List BotMembership} (hl : l.Pairwise JoinedBefore) :
    (l.orderedInsert JoinedBefore a).filter keep =
      if keep a then (l.filter keep).orderedInsert JoinedBefore a else l.filter keep := by
  induction l with
  | nil => cases hkeep : keep a <;> simp [hkeep]
  | cons b l ih =>
    obtain ⟨hb, hl⟩ := List.pairwise_cons.mp hl
    rw [List.orderedInsert_cons]
    by_cases hab : JoinedBefore a b
    · rw [if_pos hab, List.filter_cons]
      split_ifs with hkeep
      · cases hrest : (b :: l).filter keep with
        | nil => rfl
        | cons c rest =>
          have hc : c ∈ b :: l := List.mem_of_mem_filter (hrest ▸ List.mem_cons_self)
          refine (List.orderedInsert_cons_of_le _ _ ?_).symm
          rcases List.mem_cons.mp hc with rfl | hc
          · exact hab
          · exact le_trans hab (hb c hc)
      · rfl
    · rw [if_neg hab, List.filter_cons, ih hl, List.filter_cons]
      split_ifs with hkeepb hkeepa
      · exact (List.orderedInsert_of_not_le _ _ hab).symm
      · rfl
      · rfl
      · rfl

/-- A stable sort commutes with a filter. -/
theorem insertionSort_filter (keep : BotMembership → Bool) (l : List BotMembership) :
    (l.filter keep).insertionSort JoinedBefore = (l.insertionSort JoinedBefore).filter keep := by
  induction l with
  | nil => rfl
  | cons a l ih =>
    rw [List.insertionSort_cons, orderedInsert_filter keep a (List.pairwise_insertionSort _ l),
      ← ih, List.filter_cons]
    split_ifs <;> rfl

/-- What is attempted in the runs from where `d` of the candidates have been: those before that
refuse, and the next ones. -/
theorem attempted_spec {afterHours : UInt32} (hafter : afterHours ≠ 0)
    {order memberships : List BotMembership} {nows : List Timestamp} {d : ℕ}
    (hdist : (order.map BotMembership.serverId).Nodup)
    (hpast : ∀ now ∈ nows, ∀ m ∈ memberships, m.joinedAt.any (· ≤ cutoff now afterHours))
    (hsort : memberships.insertionSort JoinedBefore =
      ((order.take d).filter fun m => !leave m.serverId) ++ order.drop d) (id : String) :
    (id ∈ (order.take d).map BotMembership.serverId ∨
        id ∈ attempted leave afterHours memberships nows) ↔
      id ∈ (order.take ((reach leave order)^[nows.length] d)).map BotMembership.serverId := by
  induction nows generalizing memberships d with
  | nil => simp [attempted]
  | cons now nows ih =>
    have hcand : memberships.filter (fun m => m.joinedAt.any (· ≤ cutoff now afterHours)) =
        memberships := List.filter_eq_self.mpr (hpast now List.mem_cons_self)
    have hasked : ((run (fun _ => some false) leave true (some memberships) now afterHours).map
        Prod.snd).getD [] = ((memberships.insertionSort JoinedBefore).take leaveBatch).map
          BotMembership.serverId := by
      simp [run, hafter, runWith, attempts_visitAll, pastGrace, hcand]
    rw [attempted, hasked, hsort]
    set old := (order.take d).filter fun m => !leave m.serverId with hold
    set new := (order.drop d).take (leaveBatch - old.length) with hnew
    have hreach : order.take (reach leave order d) = order.take d ++ new := by
      rw [reach, List.countP_eq_length_filter, List.take_add]
    have hdrop : order.drop d = new ++ order.drop (reach leave order d) := by
      rw [reach, List.countP_eq_length_filter, ← List.drop_drop]
      exact (List.take_append_drop _ _).symm
    have htake : (old ++ order.drop d).take leaveBatch = old.take leaveBatch ++ new :=
      List.take_append
    rw [htake]
    have hnext : (memberships.filter fun m => m.serverId ∉ (old.take leaveBatch ++ new).map
          BotMembership.serverId ∨ leave m.serverId = false).insertionSort JoinedBefore =
        ((order.take (reach leave order d)).filter fun m => !leave m.serverId) ++
          order.drop (reach leave order d) := by
      have hasks : ∀ m ∈ old.take leaveBatch ++ new, m ∈ order.take (reach leave order d) := by
        intro m hm
        rw [hreach]
        rcases List.mem_append.mp hm with hm | hm
        · exact List.mem_append_left _ (List.mem_of_mem_filter (List.mem_of_mem_take hm))
        · exact List.mem_append_right _ hm
      have hrest : ∀ m ∈ order.drop (reach leave order d),
          m.serverId ∉ (old.take leaveBatch ++ new).map BotMembership.serverId := by
        intro m hm hask
        obtain ⟨other, hoth, heq⟩ := List.mem_map.mp hask
        rw [← List.take_append_drop (reach leave order d) order, List.map_append] at hdist
        exact List.disjoint_of_nodup_append hdist (List.mem_map_of_mem (hasks other hoth))
          (heq ▸ List.mem_map_of_mem hm)
      rw [insertionSort_filter, hsort, hdrop, hreach, List.filter_append, List.filter_append,
        List.filter_append, List.append_assoc]
      refine congrArg₂ _ (List.filter_eq_self.mpr fun m hm => ?_)
        (congrArg₂ _ (List.filter_congr fun m hm => ?_) (List.filter_eq_self.mpr fun m hm => ?_))
      · simpa using Or.inr (List.mem_filter.mp hm).2
      · have hask : m.serverId ∈ (old.take leaveBatch ++ new).map BotMembership.serverId :=
          List.mem_map_of_mem (List.mem_append_right _ hm)
        simp only [hask, not_true_eq_false, false_or]
        cases leave m.serverId <;> rfl
      · exact decide_eq_true (.inl (hrest m hm))
    have hmem := ih (fun now hnow m hm => hpast now (List.mem_cons_of_mem _ hnow) m
      (List.mem_of_mem_filter hm)) hnext
    rw [List.length_cons, Function.iterate_succ_apply, ← hmem, hreach, List.map_append,
      List.mem_append, List.mem_append, List.map_append, List.mem_append]
    have hsub : id ∈ (old.take leaveBatch).map BotMembership.serverId →
        id ∈ (order.take d).map BotMembership.serverId := fun h =>
      ((List.take_sublist _ _).trans List.filter_sublist).map _ |>.subset h
    tauto

/-- **Every server is asked in its turn** exactly if those that refuse leave room for the rest. -/
theorem all_attempted_iff {afterHours : UInt32} (hafter : afterHours ≠ 0)
    {memberships : List BotMembership} {nows : List Timestamp}
    (hdist : (memberships.map BotMembership.serverId).Nodup)
    (hpast : ∀ now ∈ nows, ∀ m ∈ memberships, m.joinedAt.any (· ≤ cutoff now afterHours))
    (hruns : nows.length = (memberships.length + (leaveBatch - 1)) / leaveBatch) :
    ((∀ m ∈ memberships, m.serverId ∈ attempted leave afterHours memberships nows) ∧
      ∀ inUse leave memberships now, (runWith inUse leave memberships now afterHours).1.Adds) ↔
      memberships.length ≤ (reach leave (memberships.insertionSort JoinedBefore))^[
        (memberships.length + (leaveBatch - 1)) / leaveBatch] 0 := by
  rw [← hruns, and_iff_left fun inUse leave memberships now => adds_runWith memberships now afterHours]
  set order := memberships.insertionSort JoinedBefore with horder
  have hperm : order.Perm memberships := List.perm_insertionSort _ _
  have hnodup : (order.map BotMembership.serverId).Nodup :=
    (hperm.map BotMembership.serverId).nodup_iff.mpr hdist
  have hmem := @attempted_spec leave _ hafter order memberships nows 0 hnodup hpast horder.symm
  simp only [List.take_zero, List.map_nil, List.not_mem_nil, false_or] at hmem
  simp only [hmem]
  constructor
  · intro hall
    have hsub : order.map BotMembership.serverId ⊆
        (order.take ((reach leave order)^[nows.length] 0)).map BotMembership.serverId := by
      intro id hid
      obtain ⟨m, hm, rfl⟩ := List.mem_map.mp hid
      exact hall m (hperm.subset hm)
    have hle := (List.subperm_of_subset hnodup hsub).length_le
    rw [List.length_map, List.length_map, List.length_take, hperm.length_eq] at hle
    exact hle.trans (min_le_left _ _)
  · intro hle m hm
    rw [List.take_of_length_le (hperm.length_eq.le.trans hle)]
    exact List.mem_map_of_mem (hperm.symm.subset hm)

namespace Sample

/-- One server more than a run has leaves for. -/
def memberships : List BotMembership := (List.range 21).map fun n => ⟨n.repr, some 0⟩

theorem memberships_dist : (memberships.map BotMembership.serverId).Nodup := by
  decide

end Sample

/-- Where Stoat answers every leave, two runs are enough. -/
theorem all_attempted_iff_answered : (∀ m ∈ Sample.memberships,
      m.serverId ∈ attempted (fun _ => true) 1 Sample.memberships [.maximum, .maximum]) ∧
    ∀ inUse leave memberships now, (runWith inUse leave memberships now 1).1.Adds :=
  (all_attempted_iff (by decide) Sample.memberships_dist (by decide) rfl).mpr (by decide)

/-- Where Stoat refuses the twenty oldest, the last one is never asked to leave. -/
theorem last_never_attempted : ¬∀ (leave : String → Bool) (memberships : List BotMembership)
    (nows : List Timestamp), (memberships.map BotMembership.serverId).Nodup →
    (∀ now ∈ nows, ∀ m ∈ memberships, m.joinedAt.any (· ≤ cutoff now 1)) →
    nows.length = (memberships.length + (leaveBatch - 1)) / leaveBatch →
    ∀ m ∈ memberships, m.serverId ∈ attempted leave 1 memberships nows := by
  intro h
  have hlast := h (fun id => id = "20") Sample.memberships [.maximum, .maximum]
    Sample.memberships_dist (by decide) rfl ⟨"20", some 0⟩ (by decide)
  exact absurd hlast (by decide)

end SlogaBackend.Imports.Stoat
