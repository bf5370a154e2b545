import Mathlib.Data.Finset.Card

/-!
# Queues of additions and removals

A set is kept in two places: a record, which is changed at once, and a copy of it upstream, which
learns of the changes when they are flushed. What it still has to learn stands in two lists, of
the members to add and of those to remove.

The two sides flush the lists in opposite orders: the record inserts and then erases, upstream
erases and then inserts. A member that is in both lists comes out differently.

* `Balanced`: the counts of the lists say how the record differs from upstream; pushing keeps it.
* `Settled`: balanced, and no member is in both lists. Cancelling keeps it, and it makes both
  flushes agree (`Settled.record_eq`, `Settled.upstream_eq`).
-/

namespace SlogaBackend

/-- The changes that upstream has not seen yet. -/
structure ChangeQueue (α : Type*) where
  add : List α
  remove : List α

namespace ChangeQueue

variable {α : Type*} [DecidableEq α]

def empty : ChangeQueue α := ⟨[], []⟩

/-- The flush of the record: insert, then erase. -/
def flushRecord (q : ChangeQueue α) (record : Finset α) : Finset α :=
  (record ∪ q.add.toFinset) \ q.remove.toFinset

/-- The flush upstream: erase, then insert. -/
def flushUpstream (q : ChangeQueue α) (upstream : Finset α) : Finset α :=
  (upstream \ q.remove.toFinset) ∪ q.add.toFinset

theorem mem_flushRecord {q : ChangeQueue α} {record : Finset α} {x : α} :
    x ∈ q.flushRecord record ↔ (x ∈ record ∨ x ∈ q.add) ∧ x ∉ q.remove := by
  unfold flushRecord
  rw [Finset.mem_sdiff, Finset.mem_union, List.mem_toFinset, List.mem_toFinset]

theorem mem_flushUpstream {q : ChangeQueue α} {upstream : Finset α} {x : α} :
    x ∈ q.flushUpstream upstream ↔ x ∈ upstream ∧ x ∉ q.remove ∨ x ∈ q.add := by
  unfold flushUpstream
  rw [Finset.mem_union, Finset.mem_sdiff, List.mem_toFinset, List.mem_toFinset]

/-! ## Changes -/

def pushAdd (q : ChangeQueue α) (x : α) : ChangeQueue α := { q with add := q.add ++ [x] }

def pushRemove (q : ChangeQueue α) (x : α) : ChangeQueue α := { q with remove := q.remove ++ [x] }

/-- Add a member: take back its removal, or else push what the record lacks. -/
def cancelOrAdd (q : ChangeQueue α) (record : Finset α) (x : α) : ChangeQueue α :=
  if x ∈ q.remove then { q with remove := q.remove.erase x }
  else if x ∉ record then q.pushAdd x
  else q

/-- Remove a member: take back its addition, or else push what the record has. -/
def cancelOrRemove (q : ChangeQueue α) (record : Finset α) (x : α) : ChangeQueue α :=
  if x ∈ q.add then { q with add := q.add.erase x }
  else if x ∈ record then q.pushRemove x
  else q

theorem cancelOrAdd_empty (record : Finset α) (x : α) :
    (empty : ChangeQueue α).cancelOrAdd record x = if x ∉ record then ⟨[x], []⟩ else empty :=
  if_neg List.not_mem_nil

theorem cancelOrRemove_empty (record : Finset α) (x : α) :
    (empty : ChangeQueue α).cancelOrRemove record x = if x ∈ record then ⟨[], [x]⟩ else empty :=
  if_neg List.not_mem_nil

@[simp] theorem flushUpstream_empty (upstream : Finset α) :
    (empty : ChangeQueue α).flushUpstream upstream = upstream := by
  ext x
  rw [mem_flushUpstream]
  constructor
  · rintro (⟨hups, -⟩ | hadd)
    · exact hups
    · exact absurd hadd List.not_mem_nil
  · exact fun hups => .inl ⟨hups, List.not_mem_nil⟩

/-! ## Counting -/

/-- How often a member is there, which is once or never. -/
def indicator (s : Finset α) (x : α) : Nat := if x ∈ s then 1 else 0

/-- The record is upstream with what is to be added and without what is to be removed, each
counted as often as it is queued. -/
def Balanced (q : ChangeQueue α) (record upstream : Finset α) : Prop :=
  ∀ x, indicator upstream x + q.add.count x = indicator record x + q.remove.count x

/-- No member is in both lists. -/
def Apart (q : ChangeQueue α) : Prop := ∀ x ∈ q.add, x ∉ q.remove

instance (q : ChangeQueue α) : Decidable q.Apart :=
  inferInstanceAs (Decidable (∀ x ∈ q.add, x ∉ q.remove))

/-- The lists hold what the two sides differ in, each once. -/
structure Settled (q : ChangeQueue α) (record upstream : Finset α) : Prop where
  balanced : q.Balanced record upstream
  apart : q.Apart

variable {s : Finset α}

theorem indicator_of_mem {x : α} (hx : x ∈ s) : indicator s x = 1 := if_pos hx

theorem indicator_of_notMem {x : α} (hx : x ∉ s) : indicator s x = 0 := if_neg hx

theorem indicator_le_one (s : Finset α) (x : α) : indicator s x ≤ 1 := by
  unfold indicator
  split <;> omega

theorem mem_of_indicator {x : α} (hx : indicator s x ≠ 0) : x ∈ s := by
  by_contra habs
  exact hx (indicator_of_notMem habs)

theorem indicator_insert_of_ne {x y : α} (hxy : x ≠ y) :
    indicator (insert y s) x = indicator s x := by
  unfold indicator
  simp only [Finset.mem_insert, or_iff_right hxy]

theorem indicator_erase_of_ne {x y : α} (hxy : x ≠ y) :
    indicator (s.erase y) x = indicator s x := by
  unfold indicator
  simp only [Finset.mem_erase, ne_eq, hxy, not_false_eq_true, true_and]

theorem settled_empty (s : Finset α) : (empty : ChangeQueue α).Settled s s where
  balanced _ := rfl
  apart _ hx := absurd hx List.not_mem_nil

variable {q : ChangeQueue α} {record upstream : Finset α} {x : α}

theorem Balanced.update {q' : ChangeQueue α} {record' : Finset α}
    (hbal : q.Balanced record upstream) (hadd : ∀ y, y ≠ x → q'.add.count y = q.add.count y)
    (hrem : ∀ y, y ≠ x → q'.remove.count y = q.remove.count y)
    (hrec : ∀ y, y ≠ x → indicator record' y = indicator record y)
    (hx : indicator upstream x + q'.add.count x = indicator record' x + q'.remove.count x) :
    q'.Balanced record' upstream := by
  intro y
  by_cases hxy : y = x
  · subst hxy
    exact hx
  · rw [hadd y hxy, hrem y hxy, hrec y hxy]
    exact hbal y

theorem count_append_singleton_of_ne {l : List α} {y : α} (hxy : y ≠ x) :
    (l ++ [x]).count y = l.count y := by
  rw [List.count_append, List.count_singleton, if_neg (by simpa using Ne.symm hxy), Nat.add_zero]

theorem count_append_singleton_self (l : List α) (x : α) : (l ++ [x]).count x = l.count x + 1 := by
  rw [List.count_append, List.count_singleton_self]

theorem Balanced.pushAdd (hbal : q.Balanced record upstream) (hx : x ∉ record) :
    (q.pushAdd x).Balanced (insert x record) upstream := by
  refine hbal.update (x := x) (fun y hxy => count_append_singleton_of_ne hxy)
    (fun y _ => rfl) (fun y hxy => indicator_insert_of_ne hxy) ?_
  have hcnt := hbal x
  rw [indicator_of_notMem hx] at hcnt
  show _ + (q.add ++ [x]).count x = _ + q.remove.count x
  rw [count_append_singleton_self, indicator_of_mem (Finset.mem_insert_self x record)]
  omega

theorem Balanced.pushRemove (hbal : q.Balanced record upstream) (hx : x ∈ record) :
    (q.pushRemove x).Balanced (record.erase x) upstream := by
  refine hbal.update (x := x) (fun y _ => rfl)
    (fun y hxy => count_append_singleton_of_ne hxy) (fun y hxy => indicator_erase_of_ne hxy) ?_
  have hcnt := hbal x
  rw [indicator_of_mem hx] at hcnt
  show _ + q.add.count x = _ + (q.remove ++ [x]).count x
  rw [count_append_singleton_self, indicator_of_notMem (Finset.notMem_erase x record)]
  omega

/-! ## Settled queues -/

section

variable (hset : q.Settled record upstream)
include hset

theorem Settled.of_mem_add (hx : x ∈ q.add) : x ∈ record ∧ x ∉ upstream ∧ q.add.count x = 1 := by
  have hcnt := hset.balanced x
  have hpos := List.count_pos_iff.mpr hx
  have hle := indicator_le_one record x
  rw [List.count_eq_zero.mpr (hset.apart x hx)] at hcnt
  refine ⟨mem_of_indicator (by omega), fun hups => ?_, by omega⟩
  rw [indicator_of_mem hups] at hcnt
  omega

theorem Settled.of_mem_remove (hx : x ∈ q.remove) :
    x ∉ record ∧ x ∈ upstream ∧ q.remove.count x = 1 := by
  have hcnt := hset.balanced x
  have hpos := List.count_pos_iff.mpr hx
  have hle := indicator_le_one upstream x
  rw [List.count_eq_zero.mpr fun hadd => hset.apart x hadd hx] at hcnt
  refine ⟨fun hrec => ?_, mem_of_indicator (by omega), by omega⟩
  rw [indicator_of_mem hrec] at hcnt
  omega

theorem Settled.mem_iff (hadd : x ∉ q.add) (hrem : x ∉ q.remove) : x ∈ record ↔ x ∈ upstream := by
  have hcnt := hset.balanced x
  rw [List.count_eq_zero.mpr hadd, List.count_eq_zero.mpr hrem] at hcnt
  by_cases hrec : x ∈ record
  · rw [indicator_of_mem hrec] at hcnt
    exact iff_of_true hrec (mem_of_indicator (by omega))
  · rw [indicator_of_notMem hrec] at hcnt
    refine iff_of_false hrec fun hups => ?_
    rw [indicator_of_mem hups] at hcnt
    omega

/-- **The record of a settled queue** stays what it is when it is flushed. -/
theorem Settled.record_eq : q.flushRecord record = record := by
  ext x
  rw [mem_flushRecord]
  constructor
  · rintro ⟨hrec | hadd, -⟩
    · exact hrec
    · exact (hset.of_mem_add hadd).1
  · exact fun hrec => ⟨.inl hrec, fun hrem => (hset.of_mem_remove hrem).1 hrec⟩

/-- **Upstream becomes the record** when a settled queue is flushed. -/
theorem Settled.upstream_eq : q.flushUpstream upstream = record := by
  ext x
  rw [mem_flushUpstream]
  constructor
  · rintro (⟨hups, hrem⟩ | hadd)
    · by_cases hadd : x ∈ q.add
      · exact (hset.of_mem_add hadd).1
      · exact (hset.mem_iff hadd hrem).mpr hups
    · exact (hset.of_mem_add hadd).1
  · intro hrec
    by_cases hadd : x ∈ q.add
    · exact .inr hadd
    · have hrem : x ∉ q.remove := fun hrem => (hset.of_mem_remove hrem).1 hrec
      exact .inl ⟨(hset.mem_iff hadd hrem).mp hrec, hrem⟩

theorem Settled.cancelOrAdd (x : α) :
    (q.cancelOrAdd record x).Settled (insert x record) upstream := by
  unfold ChangeQueue.cancelOrAdd
  by_cases hrem : x ∈ q.remove
  · -- still upstream, and in the record again
    rw [if_pos hrem]
    obtain ⟨hrec, hups, hcnt⟩ := hset.of_mem_remove hrem
    refine ⟨hset.balanced.update (x := x) (fun y _ => rfl)
      (fun y hxy => List.count_erase_of_ne hxy) (fun y hxy => indicator_insert_of_ne hxy) ?_,
      fun y hy hy' => hset.apart y hy (List.mem_of_mem_erase hy')⟩
    have hbal := hset.balanced x
    rw [indicator_of_notMem hrec] at hbal
    show _ + q.add.count x = _ + (q.remove.erase x).count x
    rw [indicator_of_mem (Finset.mem_insert_self x record), List.count_erase_self]
    omega
  · rw [if_neg hrem]
    by_cases hrec : x ∈ record
    · rw [if_neg (not_not_intro hrec), Finset.insert_eq_of_mem hrec]
      exact hset
    · rw [if_pos hrec]
      refine ⟨hset.balanced.pushAdd hrec, fun y hy => ?_⟩
      rcases List.mem_append.mp hy with hadd | hnew
      · exact hset.apart y hadd
      · rw [List.mem_singleton.mp hnew]
        exact hrem

theorem Settled.cancelOrRemove (x : α) :
    (q.cancelOrRemove record x).Settled (record.erase x) upstream := by
  unfold ChangeQueue.cancelOrRemove
  by_cases hadd : x ∈ q.add
  · -- it never reached upstream
    rw [if_pos hadd]
    obtain ⟨hrec, hups, hcnt⟩ := hset.of_mem_add hadd
    refine ⟨hset.balanced.update (x := x) (fun y hxy => List.count_erase_of_ne hxy)
      (fun y _ => rfl) (fun y hxy => indicator_erase_of_ne hxy) ?_,
      fun y hy => hset.apart y (List.mem_of_mem_erase hy)⟩
    have hbal := hset.balanced x
    rw [indicator_of_mem hrec] at hbal
    show _ + (q.add.erase x).count x = _ + q.remove.count x
    rw [indicator_of_notMem (Finset.notMem_erase x record), List.count_erase_self]
    omega
  · rw [if_neg hadd]
    by_cases hrec : x ∈ record
    · rw [if_pos hrec]
      refine ⟨hset.balanced.pushRemove hrec, fun y hy hy' => ?_⟩
      rcases List.mem_append.mp hy' with hrem | hnew
      · exact hset.apart y hy hrem
      · rw [List.mem_singleton.mp hnew] at hy
        exact hadd hy
    · rw [if_neg hrec, Finset.erase_eq_of_notMem hrec]
      exact hset

end

end ChangeQueue
end SlogaBackend
