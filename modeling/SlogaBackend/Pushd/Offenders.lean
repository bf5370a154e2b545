import Mathlib.Algebra.Order.BigOperators.Group.List
import Mathlib.Data.List.MinMax
import SlogaBackend.Pushd.UpLimits

/-!
# Heavy offenders

The table of offenders has room for `maxOffenders` users, and a newcomer to a full table takes over
the smallest count. `Sketch` is what a table keeps of the calls that filled it, whatever the order
of its entries: the counts sum to the number of calls, none is below the calls of its user, and
none is below the calls of a user that the table leaves out. So a user with more calls than an
even share of the table is in it, and one with more than an even share of a longer report is in
the report.
-/

namespace SlogaBackend.Pushd

/-- What a table of offenders keeps of the users that it has counted. -/
structure Sketch (users : List String) (table : List Offender) : Prop where
  distinct : (table.map Offender.userId).Nodup
  sum_eq : (table.map Offender.rejections).sum = users.length
  count_le : ∀ o ∈ table, users.count o.userId ≤ o.rejections
  left_out : ∀ user, (∀ o ∈ table, o.userId ≠ user) → users.count user = 0 ∨
      maxOffenders ≤ table.length ∧ ∀ o ∈ table, users.count user ≤ o.rejections

namespace Sketch

variable {users : List String} {table rest : List Offender} {o : Offender} {user : String}

theorem perm (hsket : Sketch users table) (hpr : table.Perm rest) : Sketch users rest where
  distinct := (hpr.map _).nodup_iff.mp hsket.distinct
  sum_eq := by rw [← (hpr.map _).sum_eq, hsket.sum_eq]
  count_le o ho := hsket.count_le o (hpr.mem_iff.mpr ho)
  left_out := by simpa only [hpr.mem_iff, hpr.length_eq] using hsket.left_out

theorem add (hsket : Sketch users table) (hnew : ∀ o ∈ table, o.userId ≠ user)
    (hrm : table.length < maxOffenders) : Sketch (users ++ [user]) (⟨user, 1⟩ :: table) := by
  have hzr : ∀ user', (∀ o ∈ table, o.userId ≠ user') → users.count user' = 0 := by
    intro user' hout
    rcases hsket.left_out user' hout with h | ⟨hfl, -⟩ <;> omega
  refine ⟨by simpa [hsket.distinct] using hnew, by simp [hsket.sum_eq, add_comm], ?_, ?_⟩
  · refine List.forall_mem_cons.mpr ⟨by simp [hzr user hnew], fun o ho => ?_⟩
    simpa [(hnew o ho).symm] using hsket.count_le o ho
  · intro user' hout
    obtain ⟨hne, hout⟩ := List.forall_mem_cons.mp hout
    simp [hzr user' hout, show user ≠ user' from hne]

/-- One entry counts a call more: the caller's own, or the smallest of a full table, which the
caller takes over. -/
theorem raise (hsketch : Sketch users (o :: rest))
    (hwhich : o.userId = user ∨ (∀ o' ∈ o :: rest, o'.userId ≠ user) ∧
      maxOffenders ≤ (o :: rest).length ∧ ∀ o' ∈ o :: rest, o.rejections ≤ o'.rejections) :
    Sketch (users ++ [user]) (⟨user, o.rejections + 1⟩ :: rest) := by
  obtain ⟨hfresh, hdistinct⟩ := List.nodup_cons.mp hsketch.distinct
  obtain ⟨hown, hcount⟩ := List.forall_mem_cons.mp hsketch.count_le
  have hcalls : users.count user ≤ o.rejections ∧ ∀ o' ∈ rest, o'.userId ≠ user := by
    rcases hwhich with rfl | ⟨hnew, -⟩
    · exact ⟨hown, fun o' ho' hsame => hfresh (hsame ▸ List.mem_map_of_mem ho')⟩
    · rcases hsketch.left_out user hnew with h | ⟨-, hle⟩
      · exact ⟨by omega, (List.forall_mem_cons.mp hnew).2⟩
      · exact ⟨hle o List.mem_cons_self, (List.forall_mem_cons.mp hnew).2⟩
  refine ⟨by simpa [hdistinct] using hcalls.2, ?_, ?_, ?_⟩
  · have hsum := hsketch.sum_eq
    simp only [List.map_cons, List.sum_cons, List.length_append, List.length_singleton] at hsum ⊢
    omega
  · refine List.forall_mem_cons.mpr ⟨by simpa using hcalls.1, fun o' ho' => ?_⟩
    simpa [(hcalls.2 o' ho').symm] using hcount o' ho'
  · intro user' hout
    obtain ⟨hne, hout⟩ := List.forall_mem_cons.mp hout
    have hkept : (users ++ [user]).count user' = users.count user' := by
      simp [show user ≠ user' from hne]
    -- one who gives way had no more calls than the smallest count
    have hbound : users.count user' = 0 ∨ maxOffenders ≤ (o :: rest).length ∧
        ∀ o' ∈ o :: rest, users.count user' ≤ o'.rejections := by
      by_cases hgone : o.userId = user'
      · rcases hwhich with huse | ⟨-, hfull, hsmallest⟩
        · exact absurd (huse.symm.trans hgone) hne
        · exact .inr ⟨hfull, fun o' ho' => (hgone ▸ hown).trans (hsmallest o' ho')⟩
      · exact hsketch.left_out user' (List.forall_mem_cons.mpr ⟨hgone, hout⟩)
    rw [hkept]
    refine hbound.imp_right fun ⟨hfull, hle⟩ => ⟨hfull, ?_⟩
    obtain ⟨hle, hrest⟩ := List.forall_mem_cons.mp hle
    exact List.forall_mem_cons.mpr ⟨Nat.le_succ_of_le hle, hrest⟩

end Sketch

/-! ## A call -/

theorem modify_of_findIdx {α : Type} {p : α → Bool} {xs : List α} {i : ℕ} (f : α → α)
    (hfn : xs.findIdx? p = some i) :
    ∃ x rest, p x = true ∧ xs.Perm (x :: rest) ∧ (xs.modify i f).Perm (f x :: rest) := by
  obtain ⟨hi, hp, -⟩ := List.findIdx?_eq_some_iff_getElem.mp hfn
  refine ⟨xs[i], xs.take i ++ xs.drop (i + 1), hp, ?_, ?_⟩
  · nth_rewrite 1 [← List.take_append_drop i xs]
    rw [← List.cons_getElem_drop_succ]
    exact List.perm_middle
  · rw [List.modify_eq_take_cons_drop hi]
    exact List.perm_middle

theorem Sketch.record {users : List String} {table : List Offender} (hsket : Sketch users table)
    (hlt : users.length < u32Max) (user : String) :
    Sketch (users ++ [user]) (recordOffender table user) := by
  have hsat : ∀ o ∈ table, saturatingAddU32 o.rejections 1 = o.rejections + 1 := by
    intro o ho
    have hle := List.le_sum_of_mem (List.mem_map_of_mem (f := Offender.rejections) ho)
    rw [hsket.sum_eq] at hle
    exact Nat.min_eq_left (by omega)
  unfold recordOffender
  cases hfn : table.findIdx? fun o => o.userId = user with
  | some i =>
    obtain ⟨o, rest, huse, hold, hnew⟩ := modify_of_findIdx
      (fun o => { o with rejections := saturatingAddU32 o.rejections 1 }) hfn
    have huse : o.userId = user := of_decide_eq_true huse
    rw [hsat o (hold.mem_iff.mpr List.mem_cons_self), huse] at hnew
    exact ((hsket.perm hold).raise (.inl huse)).perm hnew.symm
  | none =>
    have hnew : ∀ o ∈ table, o.userId ≠ user := by simpa using List.findIdx?_eq_none_iff.mp hfn
    dsimp only
    by_cases hrm : table.length < maxOffenders
    · rw [if_pos hrm]
      exact (hsket.add hnew hrm).perm (List.perm_append_singleton _ _).symm
    · rw [if_neg hrm]
      cases hsmal : table.findIdx? fun o => table.all fun o' => o.rejections ≤ o'.rejections with
      | some i =>
        obtain ⟨o, rest, hle, hold, hmod⟩ := modify_of_findIdx
          (fun o => ⟨user, saturatingAddU32 o.rejections 1⟩) hsmal
        rw [hsat o (hold.mem_iff.mpr List.mem_cons_self)] at hmod
        refine ((hsket.perm hold).raise (.inr ?_)).perm hmod.symm
        simp only [← hold.mem_iff, ← hold.length_eq]
        exact ⟨hnew, Nat.not_lt.mp hrm, by simpa using hle⟩
      | none =>
        -- a full table has a smallest entry
        cases hmin : table.argmin Offender.rejections with
        | none =>
          rw [List.argmin_eq_none.mp hmin] at hrm
          exact absurd (by decide) hrm
        | some o =>
          have hno := List.findIdx?_eq_none_iff.mp hsmal o (List.argmin_mem hmin)
          simp only [List.all_eq_false, decide_eq_true_eq] at hno
          obtain ⟨o', ho', hlt⟩ := hno
          exact absurd (List.le_of_mem_argmin ho' hmin) hlt

theorem sketch_foldl (users : List String) (hlt : users.length < u32Max) :
    Sketch users (users.foldl recordOffender []) := by
  induction users using List.reverseRecOn with
  | nil => exact ⟨by simp, rfl, by simp, by simp⟩
  | append_singleton users user ih =>
    rw [List.length_append, List.length_singleton] at hlt
    rw [List.foldl_append]
    exact (ih (by omega)).record (by omega) user

/-! ## The report -/

theorem Offender.pairwise_sorted (table : List Offender) :
    (table.mergeSort Offender.before).Pairwise fun a b => a.before b = true := by
  refine List.pairwise_mergeSort (fun a b c hab hbc => ?_) (fun a b => ?_) table
  · simp only [before, Bool.or_eq_true, Bool.and_eq_true, decide_eq_true_eq] at *
    grind
  · simp only [before, Bool.or_eq_true, Bool.and_eq_true, decide_eq_true_eq]
    grind

/-- A user of the table whom the report leaves out has no more than an even share of it. -/
theorem mul_le_sum_of_not_top {table : List Offender} {o : Offender} (ho : o ∈ table)
    (hout : o ∉ (takeTop table).1) :
    (topOffenders + 1) * o.rejections ≤ (table.map Offender.rejections).sum := by
  have hpr := List.mergeSort_perm table Offender.before
  have hsor := Offender.pairwise_sorted table
  rw [← (hpr.map _).sum_eq]
  have hmem := hpr.mem_iff.mpr ho
  unfold takeTop at hout
  generalize table.mergeSort Offender.before = sorted at *
  rw [← List.take_append_drop topOffenders sorted] at hmem hsor ⊢
  have hrs := (List.mem_append.mp hmem).resolve_left hout
  have hln : (sorted.take topOffenders).length = topOffenders := by
    have hlt := List.length_pos_of_mem hrs
    rw [List.length_drop] at hlt
    rw [List.length_take]
    omega
  have htop := List.card_nsmul_le_sum ((sorted.take topOffenders).map Offender.rejections)
    o.rejections fun rejections hrej => by
      obtain ⟨o', ho', rfl⟩ := List.mem_map.mp hrej
      have hbef := (List.pairwise_append.mp hsor).2.2 o' ho' o hrs
      simp only [Offender.before, Bool.or_eq_true, Bool.and_eq_true, decide_eq_true_eq] at hbef
      omega
  have hown := List.le_sum_of_mem (List.mem_map_of_mem (f := Offender.rejections) hrs)
  rw [List.length_map, hln, nsmul_eq_mul, Nat.cast_id] at htop
  rw [List.map_append, List.sum_append, Nat.succ_mul]
  omega

/-- **A heavy offender is never left out**, of a table that has counted fewer calls than a `u32`
holds, nor of what is reported of it. -/
theorem heavy_offender_named (users : List String) (hlt : users.length < u32Max) :
    let table := users.foldl recordOffender []
    (table.map Offender.rejections).sum = users.length ∧
      (∀ o ∈ table, users.count o.userId ≤ o.rejections) ∧
      (∀ user, users.length / maxOffenders < users.count user → ∃ o ∈ table, o.userId = user) ∧
      ∀ user, users.length / (topOffenders + 1) < users.count user →
        ∃ o ∈ (takeTop table).1, o.userId = user := by
  intro table
  have hsketch : Sketch users table := sketch_foldl users hlt
  have hin : ∀ user, users.length / maxOffenders < users.count user →
      ∃ o ∈ table, o.userId = user := by
    intro user hheavy
    rw [Nat.div_lt_iff_lt_mul (by decide), mul_comm] at hheavy
    by_contra hnone
    rcases hsketch.left_out user (by simpa using hnone) with hzero | ⟨hfull, hle⟩
    · rw [hzero] at hheavy
      omega
    · have hsum := List.card_nsmul_le_sum (table.map Offender.rejections) (users.count user)
        (by simpa using hle)
      rw [hsketch.sum_eq, List.length_map, nsmul_eq_mul, Nat.cast_id] at hsum
      have hshare := Nat.mul_le_mul_right (users.count user) hfull
      omega
  refine ⟨hsketch.sum_eq, hsketch.count_le, hin, fun user hheavy => ?_⟩
  obtain ⟨o, ho, rfl⟩ := hin user ((Nat.div_le_div_left (by decide) (by decide)).trans_lt hheavy)
  refine ⟨o, ?_, rfl⟩
  by_contra hout
  have hshare := mul_le_sum_of_not_top ho hout
  have hcount := Nat.mul_le_mul_left (topOffenders + 1) (hsketch.count_le o ho)
  rw [Nat.div_lt_iff_lt_mul (by decide), mul_comm, ← hsketch.sum_eq] at hheavy
  omega

/-- Sixteen users fill the table, two newcomers each take over an entry, and one of them goes on. -/
def crowd : List String :=
  ["a", "b", "c", "d", "e", "f", "g", "h", "i", "j", "k", "l", "m", "n", "o", "p", "eve"] ++
    List.replicate 10 "alice"

set_option maxRecDepth 10000 in
/-- The table leaves users out and counts for others what was not theirs; the heavy one is named. -/
theorem heavy_offender_named_in_a_crowd :
    let table := crowd.foldl recordOffender []
    table.length = maxOffenders ∧ (∃ user ∈ crowd, ∀ o ∈ table, o.userId ≠ user) ∧
      (∃ o ∈ table, crowd.count o.userId < o.rejections) ∧
      (table.map Offender.rejections).sum = 27 ∧ (∃ o ∈ table, o.userId = "alice") ∧
      ∃ o ∈ (takeTop table).1, o.userId = "alice" := by
  obtain ⟨hsum, -, hkept, hnamed⟩ := heavy_offender_named crowd (by decide)
  exact ⟨by decide, by decide, by decide, hsum, hkept "alice" (by decide),
    hnamed "alice" (by decide)⟩

end SlogaBackend.Pushd
