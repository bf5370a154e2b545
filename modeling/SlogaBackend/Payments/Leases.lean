import SlogaBackend.Payments.Steps

/-!
# What a lease protects

A worker's copy of an order is a copy of the stored row for as long as the worker is the
one that took the lease last: nobody else's write goes through meanwhile, because taking a
lease moves the version and a write needs the version of its copy. An account deletion may
still unlink the buyer, and a release clears the lease; neither touches anything else.

Losing the lease loses this, and only the writes of the order itself notice. A worker that
stalls past its lease goes on with its copy, and what it does elsewhere (a membership, the
ledger, a refund) is decided by a copy that may be old.
-/

namespace SlogaBackend.Payments

variable {sha256 : List UInt8 → List UInt8}

/-- The row is the copy, but for the version, the buyer and the lease. -/
def Agrees (c row : PaymentOrder) : Prop :=
  row = { c with version := row.version, userId := row.userId, leaseUntil := row.leaseUntil }

theorem Agrees.refl (c : PaymentOrder) : Agrees c c := rfl

variable {c row : PaymentOrder} {w : World} {id : String}

theorem Agrees.state (h : Agrees c row) : row.state = c.state := by
  rw [h]

theorem Agrees.voidReason (h : Agrees c row) : row.voidReason = c.voidReason := by
  rw [h]

theorem Agrees.isDisputed (h : Agrees c row) : isDisputed row = isDisputed c := by
  rw [h]
  rfl

/-- No lease of the worker was taken over. -/
def World.LeasesKept (w : World) (pid : Nat) : Prop :=
  ∀ id ∈ (w.locals pid).copies.keys, w.holders.get id = some pid

instance (w : World) (pid : Nat) : Decidable (w.LeasesKept pid) :=
  inferInstanceAs (Decidable (∀ id ∈ (w.locals pid).copies.keys, w.holders.get id = some pid))

variable {pid q : Nat}

theorem World.LeasesKept.holds (h : w.LeasesKept pid) (hcp : (w.locals pid).copies.get id = some c)
    :
    w.holders.get id = some pid := h id (mem_keys_of_get hcp)

/-- How a worker's copy relates to the stored row. -/
structure Tracked (w : World) (pid : Nat) (id : String) (c row : PaymentOrder) : Prop where
  version_le : c.version ≤ row.version
  holder : c.version = row.version → w.holders.get id = some pid
  agrees : w.holders.get id = some pid → Agrees c row
  sku : row.sku = c.sku

/-- Every copy is of a stored row and tracks it. -/
structure CopiesTrack (w : World) : Prop where
  keyed : w.store.Keyed
  copies : ∀ pid id c, (w.locals pid).copies.get id = some c →
    ∃ row, w.store.orders.get id = some row ∧ Tracked w pid id c row

theorem CopiesTrack.start {store : Store} (h : store.Keyed) : CopiesTrack (World.start store) :=
  ⟨h, fun _ _ _ hg => absurd hg (by simp [World.start, Local.init])⟩

theorem Tracked.frame {w' : World} (h : Tracked w pid id c row)
    (hhol : w'.holders.get id = w.holders.get id) : Tracked w' pid id c row :=
  ⟨h.version_le, fun hver => hhol.trans (h.holder hver),
    fun hhold => h.agrees (hhol.symm.trans hhold), h.sku⟩

/-- A copy falls behind where somebody else moves the version and holds the order. -/
theorem Tracked.overtaken {w' : World} {row' : PaymentOrder} (h : Tracked w pid id c row)
    (hversion : row'.version = row.version + 1) (hholder : w'.holders.get id ≠ some pid)
    (hsku : row'.sku = row.sku) : Tracked w' pid id c row' := by
  have hle := h.version_le
  exact ⟨by omega, fun heq => by omega, fun hhold => absurd hhold hholder, hsku.trans h.sku⟩

/-- What is written over an order was made from the copy that is held. -/
def Local.WritesHeld (l : Local) (c : Call) : Prop :=
  ∀ o expected, c = .orders (.update o expected) →
    ∃ c₀, l.copies.get o.id = some c₀ ∧ o.version = c₀.version ∧ o.sku = c₀.sku

theorem Local.writesHeld_of_may {l : Local} {c : Call} (h : l.may c) : l.WritesHeld c := by
  rintro o expected rfl
  obtain ⟨c0, hcp, -, hws⟩ := h
  exact ⟨c0, hcp, hws.version, hws.sku⟩

/-- **One call.** -/
theorem CopiesTrack.perform (h : CopiesTrack w) (pid : Nat) (c : Call)
    (hhl : (w.locals pid).WritesHeld c) : CopiesTrack (w.perform sha256 pid c).1 := by
  refine ⟨keyed_perform h.keyed pid c, fun q id copy hcp => ?_⟩
  have hoth := locals_other sha256 pid c w q
  have hold : ((w.perform sha256 pid c).1.locals pid).copies.get id = (w.locals pid).copies.get id →
      (w.locals q).copies.get id = some copy := by
    intro hsm
    by_cases hq : q = pid
    · subst hq
      rw [← hsm, hcp]
    · rw [← hoth hq, hcp]
  cases orderStep sha256 pid c w with
  | same htab hcop hhol =>
    obtain ⟨row, hg, htrk⟩ := h.copies q id copy (hold (by rw [hcop]))
    exact ⟨row, by rw [htab, hg], htrk.frame (by rw [hhol])⟩
  | inserted o hcl hno htab hloc hhol =>
    obtain ⟨row, hg, htrk⟩ := h.copies q id copy (hold (by rw [hloc]))
    -- the order is new, so nobody has a copy of it
    have hid : id ≠ o.id := by
      rintro rfl
      cases hno.symm.trans hg
    exact ⟨row, by rw [htab, get_insert, if_neg hid, hg], htrk.frame (by rw [hhol])⟩
  | acquired id' now untilMs row' hcl hg' htab hloc hhol =>
    by_cases hid : id = id'
    · subst hid
      refine ⟨_, by rw [htab, get_insert_self], ?_⟩
      by_cases hq : q = pid
      · subst hq
        rw [hloc, get_insert_self] at hcp
        cases hcp
        exact ⟨le_refl _, fun _ => by rw [hhol, get_insert_self], fun _ => Agrees.refl _, rfl⟩
      · -- the lease was taken over
        rw [hoth hq] at hcp
        obtain ⟨row, hg, htrk⟩ := h.copies q id copy hcp
        cases hg'.symm.trans hg
        refine htrk.overtaken rfl (fun hhold => ?_) rfl
        rw [hhol, get_insert_self] at hhold
        exact hq (some.inj hhold).symm
    · have hsm := hold (by rw [hloc, get_insert, if_neg hid])
      obtain ⟨row, hg, htrk⟩ := h.copies q id copy hsm
      exact ⟨row, by rw [htab, get_insert, if_neg hid, hg],
        htrk.frame (by rw [hhol, get_insert, if_neg hid])⟩
  | written o expected row' hcl hg' hst hver hleas huse htab hloc hhol =>
    obtain ⟨c0, hcp0, hcur, hsku⟩ := hhl o expected hcl
    obtain ⟨row0, hg0, htrk0⟩ := h.copies pid o.id c0 hcp0
    cases hg'.symm.trans hg0
    have hhold : w.holders.get o.id = some pid := htrk0.holder (hcur.symm.trans hver.symm)
    by_cases hid : id = o.id
    · subst hid
      refine ⟨_, by rw [htab, get_insert_self], ?_⟩
      by_cases hq : q = pid
      · subst hq
        have hcop : ((w.locals q).wrote o).copies.get o.id =
            some { o with version := o.version + 1 } :=
          get_insert_self
        rw [hloc, hcop] at hcp
        cases hcp
        exact ⟨le_refl _, fun _ => by rw [hhol, hhold], fun _ => Agrees.refl _, rfl⟩
      · rw [hoth hq] at hcp
        obtain ⟨row, hg, htrk⟩ := h.copies q o.id copy hcp
        cases hg'.symm.trans hg
        refine htrk.overtaken (congrArg Nat.succ hver.symm) (fun hhold' => ?_)
          (hsku.trans htrk0.sku.symm)
        rw [hhol, hhold] at hhold'
        exact hq (some.inj hhold').symm
    · have hsm := hold (by rw [hloc]; exact (get_insert _ _ _ _).trans (if_neg hid))
      obtain ⟨row, hg, htrk⟩ := h.copies q id copy hsm
      exact ⟨row, by rw [htab, get_insert, if_neg hid, hg], htrk.frame (by rw [hhol])⟩
  | released id' untilMs hcl htab hloc hhol =>
    have hcp' : (w.locals q).copies.get id = some copy ∧ (q = pid → id ≠ id') := by
      by_cases hq : q = pid
      · subst hq
        rw [hloc, get_erase] at hcp
        split at hcp
        · cases hcp
        · rename_i hid
          exact ⟨hcp, fun _ => hid⟩
      · exact ⟨by rw [← hoth hq, hcp], fun h => absurd h hq⟩
    obtain ⟨row, hg, htrk⟩ := h.copies q id copy hcp'.1
    -- whoever else holds the order goes on holding it
    have hkp : w.holders.get id = some q ↔ (w.perform sha256 pid c).1.holders.get id = some q := by
      rcases hhol with hsm | ⟨hpid, hera⟩
      · rw [hsm]
      · rw [hera, get_erase]
        split
        · rename_i hid
          subst hid
          rw [hpid]
          constructor
          · intro heq
            exact absurd rfl (hcp'.2 (some.inj heq).symm)
          · intro heq
            cases heq
        · rfl
    have htrk' : Tracked (w.perform sha256 pid c).1 q id copy row :=
      ⟨htrk.version_le, fun heq => hkp.mp (htrk.holder heq),
        fun hhold => htrk.agrees (hkp.mpr hhold), htrk.sku⟩
    rcases htab with htab | ⟨row', hg', htab⟩
    · exact ⟨row, by rw [htab, hg], htrk'⟩
    · by_cases hid : id = id'
      · subst hid
        obtain rfl : row' = row := some.inj (hg'.symm.trans hg)
        refine ⟨{ row' with leaseUntil := none }, by rw [htab, get_insert_self],
          htrk'.version_le, htrk'.holder, fun hhold => ?_, htrk'.sku⟩
        have hagr := htrk'.agrees hhold
        unfold Agrees at hagr ⊢
        rw [hagr]
      · exact ⟨row, by rw [htab, get_insert, if_neg hid, hg], htrk'⟩
  | unlinked userId hcl htab hloc hhol =>
    have hcp' : (w.locals q).copies.get id = some copy := by
      by_cases hq : q = pid
      · subst hq
        rw [← hloc, hcp]
      · rw [← hoth hq, hcp]
    obtain ⟨row, hg, htrk⟩ := h.copies q id copy hcp'
    obtain ⟨row', hg', hunl⟩ := (htab id).2 row hg
    have htrk' := htrk.frame (by rw [hhol])
    refine ⟨row', hg', ?_⟩
    rcases hunl with rfl | ⟨-, rfl⟩
    · exact htrk'
    · have hle := htrk.version_le
      refine ⟨by show copy.version ≤ row.version + 1; omega, fun heq => ?_, fun hhold => ?_,
        htrk.sku⟩
      · have heq' : copy.version = row.version + 1 := heq
        omega
      · have hagr := htrk'.agrees hhold
        unfold Agrees at hagr ⊢
        rw [hagr]

theorem CopiesTrack.version_le (h : CopiesTrack w) (hcp : (w.locals q).copies.get id = some c)
    (hg : w.store.orders.get id = some row) : c.version ≤ row.version := by
  obtain ⟨row', hg', htrk⟩ := h.copies q id c hcp
  cases hg'.symm.trans hg
  exact htrk.version_le

theorem CopiesTrack.order_stays (h : CopiesTrack w) (pid : Nat) (c : Call)
    (hmay : (w.locals pid).may c) (hg : w.store.orders.get id = some row) :
    ∃ row', (w.perform sha256 pid c).1.store.orders.get id = some row' ∧ row'.sku = row.sku := by
  obtain ⟨row', hg', hrow⟩ := rowStep sha256 pid c hg
  refine ⟨row', hg', ?_⟩
  cases hrow with
  | written o expected hcl hid =>
    subst hcl hid
    obtain ⟨c0, hcp, -, hws⟩ := hmay
    obtain ⟨row0, hg0, htrk⟩ := h.copies pid o.id c0 hcp
    cases hg0.symm.trans hg
    exact hws.sku.trans htrk.sku.symm
  | unlinked userId row' hcl hunl => rcases hunl with rfl | ⟨-, rfl⟩ <;> rfl
  | _ => rfl

/-- A worker that holds a lease after a call held it before, or has taken it just now and
knows nothing of numbers. -/
theorem held_cases {c : Call} (hmay : (w.locals pid).may c) {copy : PaymentOrder}
    (hcp : ((w.perform sha256 pid c).1.locals q).copies.get id = some copy)
    (hhld : (w.perform sha256 pid c).1.holders.get id = some q) :
    (∃ copy', (w.locals q).copies.get id = some copy' ∧ w.holders.get id = some q) ∨
      (((w.perform sha256 pid c).1.locals q).numbers.get id = none ∧
        ((w.perform sha256 pid c).1.locals q).unheld = none) := by
  have hoth := locals_other sha256 pid c w q
  cases orderStep sha256 pid c w with
  | same htab hcop hhol | unlinked userId hcl htab hcop hhol =>
    rw [hhol] at hhld
    refine .inl ⟨copy, ?_, hhld⟩
    by_cases hq : q = pid
    · subst hq
      rw [← hcop, hcp]
    · rw [← hoth hq, hcp]
  | inserted o hcl =>
    subst hcl
    exact False.elim hmay
  | acquired id' now untilMs row hcl hg htab hloc hhol =>
    rw [hhol, get_insert] at hhld
    split at hhld
    · rename_i hid
      subst hid
      cases hhld
      refine .inr ⟨?_, by rw [hloc]⟩
      rw [hloc, get_erase, if_pos rfl]
    · rename_i hid
      refine .inl ⟨copy, ?_, hhld⟩
      by_cases hq : q = pid
      · subst hq
        rw [hloc, get_insert, if_neg hid] at hcp
        exact hcp
      · rw [← hoth hq, hcp]
  | written o expected row hcl hg hst hver hleas huse htab hloc hhol =>
    rw [hhol] at hhld
    by_cases hq : q = pid
    · subst hq
      subst hcl
      obtain ⟨c0, hcp0, -⟩ := hmay
      by_cases hid : id = o.id
      · subst hid
        exact .inl ⟨c0, hcp0, hhld⟩
      · rw [hloc] at hcp
        exact .inl ⟨copy, ((get_insert _ _ _ _).trans (if_neg hid)).symm.trans hcp, hhld⟩
    · exact .inl ⟨copy, by rw [← hoth hq, hcp], hhld⟩
  | released id' untilMs hcl htab hloc hhol =>
    refine .inl ⟨copy, ?_, ?_⟩
    · by_cases hq : q = pid
      · subst hq
        rw [hloc, get_erase] at hcp
        split at hcp
        · cases hcp
        · exact hcp
      · rw [← hoth hq, hcp]
    · rcases hhol with hsm | ⟨-, hera⟩
      · rw [← hsm, hhld]
      · rw [hera, get_erase] at hhld
        split at hhld
        · cases hhld
        · exact hhld

end SlogaBackend.Payments
