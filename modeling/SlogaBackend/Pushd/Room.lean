import SlogaBackend.Pushd.UpLimiter

/-!
# Making room

What each of the three maps loses when room is made in it, and that there is room afterwards.

* `candidates_makeDestRoom_lt`, `length_makeUserRoom_lt`, `length_makeSubRoom_lt`: one more entry
  fits.
* `get_makeDestRoom`: an entry that stays is refilled at most, and the entry for ntfy.sh stays.
* `protected_of_evicted`: an entry that is protected goes only when every generic one is.
-/

namespace SlogaBackend.Pushd

open Table

theorem Reordering.mem {α : Type} (order : Reordering α) {l : List α} {a : α} :
    a ∈ order.apply l ↔ a ∈ l := (order.perm l).mem_iff

theorem exists_argmin {α β : Type*} [Preorder β] [DecidableLT β] (f : α → β) {l : List α}
    (h : l ≠ []) : ∃ a, l.argmin f = some a ∧ a ∈ l := by
  cases hmin : l.argmin f with
  | none => exact absurd (List.argmin_eq_none.mp hmin) h
  | some a => exact ⟨a, rfl, List.argmin_mem hmin⟩

variable {limits : UpLimits} {iteration : Iteration} {now : Instant}

/-! ## Destinations -/

section Destinations

variable {map : Table DestKey Dest} {key : DestKey}

theorem allProtected_iff : allProtected map = true ↔
    ∀ key dest, map.get key = some dest → evictable key = true → dest.isProtected = true := by
  unfold allProtected
  rw [all_eq_true]
  constructor
  · intro hall key dest hg hkey
    have hent := hall ⟨key, dest⟩ (get_eq_some_iff.mp hg)
    rw [hkey] at hent
    simpa using hent
  · rintro hall ⟨key, dest⟩ hmem
    cases hkey : evictable key with
    | false => rfl
    | true => exact hall key dest (get_eq_some_iff.mpr hmem) hkey

theorem of_destVictim (h : destVictim limits iteration map = some key) :
    ∃ dest, map.get key = some dest ∧ evictable key = true ∧
      (dest.isProtected = true → allProtected map = true) := by
  obtain ⟨⟨key', dest⟩, hmin, rfl⟩ := map_eq_some_iff.mp h
  obtain ⟨hmem, hallo⟩ := mem_filter.mp (List.argmin_mem hmin)
  rw [and_eq_true, or_eq_true] at hallo
  refine ⟨dest, get_eq_some_iff.mpr (iteration.dest.mem.mp hmem), hallo.1, fun hprot => ?_⟩
  rcases hallo.2 with hall | hfr
  · exact hall
  · rw [hprot] at hfr
    cases hfr

theorem exists_destVictim (h : 0 < candidates map) :
    ∃ key dest, destVictim limits iteration map = some key ∧ map.get key = some dest := by
  -- either all are protected and any generic entry will do, or one that is not is found
  have hsm : ∃ e ∈ map.entries,
      (evictable e.1 && (allProtected map || !e.2.isProtected)) = true := by
    cases hall : allProtected map with
    | true =>
      obtain ⟨key, dest, hg, hkey⟩ := exists_get_of_countKeys_pos h
      exact ⟨⟨key, dest⟩, get_eq_some_iff.mp hg, by simp [hkey]⟩
    | false =>
      obtain ⟨e, hmem, hnot⟩ := List.all_eq_false.mp hall
      exact ⟨e, hmem, by simpa using hnot⟩
  obtain ⟨e, hmem, hallo⟩ := hsm
  have hne : ((iteration.dest.apply map.entries).filter fun e =>
      evictable e.1 && (allProtected map || !e.2.isProtected)) ≠ [] :=
    ne_nil_of_mem (mem_filter.mpr ⟨iteration.dest.mem.mpr hmem, hallo⟩)
  obtain ⟨e', hmin, -⟩ := exists_argmin (fun e : Sigma fun _ : DestKey => Dest =>
    evictFirst (e.2.fullness (limits.dest e.1)) e.2.touched) hne
  have hvic : destVictim limits iteration map = some e'.1 := by
    unfold destVictim
    rw [hmin, map_some]
  obtain ⟨dest, hg, -⟩ := of_destVictim hvic
  exact ⟨e'.1, dest, hvic, hg⟩

theorem get_dropIdleFull (limits : UpLimits) (now : Instant) (map : Table DestKey Dest)
    (key : DestKey) : (dropIdleFull limits now map).get key =
      ((map.get key).map fun dest => dest.refill (limits.dest key) now).filter fun dest =>
        !evictable key || !dest.idleFull (limits.dest key) := by
  unfold dropIdleFull
  rw [get_retain, get_mapRows]

/-- **There is room for one more destination.** -/
theorem candidates_makeDestRoom_lt (hpos : 0 < limits.maxDestKeys) (map : Table DestKey Dest) :
    candidates (makeDestRoom limits iteration now map) < limits.maxDestKeys := by
  unfold makeDestRoom
  split
  · assumption
  · have hrm := evict_not_full (t := dropIdleFull limits now map)
      (fun map => decide (limits.maxDestKeys ≤ candidates map)) (destVictim limits iteration)
      fun map' _ hfl => exists_destVictim (hpos.trans_le (of_decide_eq_true hfl))
    exact not_le.mp (of_decide_eq_false hrm)

theorem get_makeDestRoom (limits : UpLimits) (iteration : Iteration) (now : Instant)
    (map : Table DestKey Dest) (key : DestKey) :
    (makeDestRoom limits iteration now map).get key = map.get key ∨
      (makeDestRoom limits iteration now map).get key =
        (map.get key).map (fun dest => dest.refill (limits.dest key) now) ∨
      (makeDestRoom limits iteration now map).get key = none ∧ evictable key = true := by
  unfold makeDestRoom
  split
  · exact .inl rfl
  · right
    generalize hrm : evict _ _ (dropIdleFull limits now map) = room
    cases hg : room.get key with
    | some dest =>
      left
      have hdr : (dropIdleFull limits now map).get key = some dest := by
        rw [← hrm] at hg
        exact part_evict _ _ _ hg
      rw [get_dropIdleFull] at hdr
      exact ((filter_eq_some_iff.mp hdr).1).symm
    | none =>
      cases hmap : map.get key with
      | none => exact .inl rfl
      | some dest =>
        refine .inr ⟨rfl, ?_⟩
        have hdr := get_dropIdleFull limits now map key
        rw [hmap, map_some] at hdr
        cases hkp : (dropIdleFull limits now map).get key with
        | none =>
          rw [hkp] at hdr
          by_contra hkey
          rw [Bool.not_eq_true] at hkey
          rw [Option.filter_some, hkey] at hdr
          cases hdr
        | some dest' =>
          rw [← hrm] at hg
          obtain ⟨map', -, -, hvic, -⟩ := exists_victim hkp hg
          obtain ⟨-, -, hkey, -⟩ := of_destVictim hvic
          exact hkey

/-- **A protected entry goes only when every generic one is protected.** -/
theorem protected_of_evicted (hboun : candidates map ≤ limits.maxDestKeys) {dest : Dest}
    (hg : map.get key = some dest) (hgn : (makeDestRoom limits iteration now map).get key = none)
    (hprot : (dest.refill (limits.dest key) now).isProtected = true) {key' : DestKey}
    {dest' : Dest} (hg' : map.get key' = some dest') (hkey' : evictable key' = true) :
    (dest'.refill (limits.dest key') now).isProtected = true := by
  unfold makeDestRoom at hgn
  split at hgn
  · rw [hg] at hgn
    cases hgn
  · -- a protected entry is not dropped for being idle and full
    have hid : (dest.refill (limits.dest key) now).idleFull (limits.dest key) = false := by
      generalize dest.refill (limits.dest key) now = dest at hprot ⊢
      unfold Dest.isProtected at hprot
      unfold Dest.idleFull
      rw [or_eq_true, decide_eq_true_eq] at hprot
      rcases hprot with hpaus | hlv
      · simp [hpaus]
      · have hne : (dest.inFlight == 0) = false := by
          rw [beq_eq_false_iff_ne]
          omega
        simp [hne]
    have hkt : (dropIdleFull limits now map).get key =
        some (dest.refill (limits.dest key) now) := by
      rw [get_dropIdleFull, hg, map_some, Option.filter_some, if_pos (by simp [hid])]
    obtain ⟨map', hpr, hfl, hvic, hstl⟩ := exists_victim hkt hgn
    -- it was chosen from a map that had lost no generic entry
    obtain ⟨dest'', hg'', -, hall⟩ := of_destVictim hvic
    obtain rfl : dest.refill (limits.dest key) now = dest'' := some.inj (hstl.symm.trans hg'')
    have hpr' : map'.Part (map.mapRows fun key dest => dest.refill (limits.dest key) now) :=
      hpr.trans (part_retain _ _)
    have hcnt : (map.mapRows fun key dest => dest.refill (limits.dest key) now).countKeys
        evictable ≤ map'.countKeys evictable := by
      rw [countKeys_mapRows]
      exact hboun.trans (of_decide_eq_true hfl)
    refine allProtected_iff.mp (hall hprot) key' _ ?_ hkey'
    refine get_of_countKeys_le hpr' hcnt ?_ hkey'
    rw [get_mapRows, hg', map_some]

end Destinations

/-! ## Users and subscriptions -/

/-- Where a victim is the least entry, a table that is not empty has one. -/
theorem exists_least {κ V β : Type} [DecidableEq κ] [Preorder β] [DecidableLT β]
    (order : Reordering (Sigma fun _ : κ => V)) (f : (Sigma fun _ : κ => V) → β) {map : Table κ V}
    (h : 0 < map.keys.length) :
    ∃ k v, ((order.apply map.entries).argmin f).map Sigma.fst = some k ∧ map.get k = some v := by
  have hne : map.entries ≠ [] := by
    rintro hnil
    have hky : map.keys = [] := by
      unfold AList.keys
      rw [hnil]
      rfl
    rw [hky] at h
    exact absurd h (Nat.lt_irrefl 0)
  have hne' : order.apply map.entries ≠ [] := fun hnil =>
    hne (List.nil_perm.mp (hnil ▸ order.perm map.entries))
  obtain ⟨⟨k, v⟩, hmin, hmem⟩ := exists_argmin f hne'
  exact ⟨k, v, by rw [hmin, map_some], get_eq_some_iff.mpr (order.mem.mp hmem)⟩

theorem length_makeUserRoom_lt (hpos : 0 < limits.maxUserKeys)
    (map : Table (String × DestKey) UserEntry) :
    (makeUserRoom limits iteration now map).keys.length < limits.maxUserKeys := by
  unfold makeUserRoom
  split
  · assumption
  · dsimp only
    generalize Table.retain _ _ = kept
    have hrm := evict_not_full (t := kept)
      (fun map => decide (limits.maxUserKeys ≤ map.keys.length)) (userVictim limits iteration)
      fun map' _ hfl => exists_least _ _ (hpos.trans_le (of_decide_eq_true hfl))
    exact not_le.mp (of_decide_eq_false hrm)

theorem length_makeSubRoom_lt {maxKeys : ℕ} (hpos : 0 < maxKeys) (map : Table SubKey SubEntry) :
    (makeSubRoom maxKeys iteration now map).keys.length < maxKeys := by
  unfold makeSubRoom
  split
  · assumption
  · generalize Table.retain _ _ = kept
    have hrm := evict_not_full (t := kept)
      (fun map => decide (maxKeys ≤ map.keys.length)) (subVictim iteration)
      fun map' _ hfl => exists_least _ _ (hpos.trans_le (of_decide_eq_true hfl))
    exact not_le.mp (of_decide_eq_false hrm)

end SlogaBackend.Pushd
