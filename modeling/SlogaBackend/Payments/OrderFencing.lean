import SlogaBackend.Payments.Checkout
import SlogaBackend.Lib.Runs

/-!
# Leases fence the writes of an order

Any number of workers take leases, write and release, and may stall between any two
calls for as long as they like; checkouts insert orders and account deletions unlink
them. Two ghosts watch the run. `Held.left` is what the worker's own last acquire or
write left in the store, read back from the store, and `holders` names the worker whose
acquire of an order succeeded last and which has not released it since.

## The invariant

A worker's copy is never ahead of the stored row, and where the versions agree the row is
the one the worker left (`Tracks`). Beyond that a worker is in one of two places (`Tenure`). It is
the holder, and the stored lease carries its token. Or its lease has run out and was
taken over: then the version has moved past its copy, for good, and its token lies before
the latest acquire, so that no later lease carries it again.

The second half is where the clock enters. A lease is taken over only after its token,
and the token of a new lease does not lie before the moment it is taken; with `now` never
going back, tokens of one order do not repeat across a takeover. Across a release they
may (two leases taken in one millisecond), which is harmless only because a released lease
leaves no worker behind.
-/

namespace SlogaBackend.Payments

/-! ## Workers over the collection -/

/-- A worker's lease, and what its last acquire or write left in the store. -/
structure Held where
  leased : Leased
  left : Option PaymentOrder

/-- The collection, the workers over it, who holds which order, and the moment of the
latest acquire. -/
structure Fencing where
  orders : PaymentOrders
  workers : Table Nat Held
  holders : Table String Nat
  clock : Int

/-- One store call, or a change a worker makes to its own copy without writing it (a
region void notes the country there). -/
inductive OrderCall where
  | insert (o : PaymentOrder)
  | acquire (worker : Nat) (id : String) (now : Int)
  | edit (worker : Nat) (change : OrderChange)
  | write (worker : Nat) (change : OrderChange)
  | release (worker : Nat)
  | unlink (userId : String)

/-- What the caller sees of it. -/
inductive OrderAnswer where
  | inserted (result : Result Unit)
  | acquired (result : Result (Option PaymentOrder))
  | edited
  | written (result : Result Leased)
  | released
  | unlinked (result : Result Unit)
  | noLease

namespace Fencing

/-- One call. A release uses the lease up; a write or a release without a lease does not
happen. -/
def exec (s : Fencing) : OrderCall → Fencing × OrderAnswer
  | .insert o =>
    ({ s with orders := (insertPaymentOrder o s.orders).1 },
      .inserted (insertPaymentOrder o s.orders).2)
  | .acquire worker id now =>
    match acquirePaymentOrderLease id now (leaseToken now) s.orders with
    | (orders, .ok (some order)) =>
      ({ orders := orders
         workers := s.workers.insert worker ⟨⟨order, leaseToken now⟩, orders.get id⟩
         holders := s.holders.insert id worker
         clock := now }, .acquired (.ok (some order)))
    | (orders, answer) => ({ s with orders := orders, clock := now }, .acquired answer)
  | .edit worker change =>
    match s.workers.get worker with
    | none => (s, .noLease)
    | some held =>
      ({ s with
          workers := s.workers.insert worker
            ⟨⟨change.apply held.leased.order, held.leased.untilMs⟩, held.left⟩ }, .edited)
  | .write worker change =>
    match s.workers.get worker with
    | none => (s, .noLease)
    | some held =>
      match write held.leased change s.orders with
      | (orders, .ok leased) =>
        ({ s with
            orders := orders
            workers := s.workers.insert worker ⟨leased, orders.get leased.order.id⟩ },
          .written (.ok leased))
      | (orders, .error e) => ({ s with orders := orders }, .written (.error e))
  | .release worker =>
    match s.workers.get worker with
    | none => (s, .noLease)
    | some held =>
      let id := held.leased.order.id
      ({ s with
          orders := releasePaymentOrderLease id held.leased.untilMs s.orders
          workers := s.workers.erase worker
          holders := if s.holders.get id = some worker then s.holders.erase id else s.holders },
        .released)
  | .unlink userId =>
    ({ s with orders := (unlinkPaymentOrdersByUser userId s.orders).1 },
      .unlinked (unlinkPaymentOrdersByUser userId s.orders).2)

/-- The moments of the acquires are `i64` values and do not go back. -/
def Admits (s : Fencing) : OrderCall → Prop
  | .acquire _ _ now => s.clock ≤ now ∧ now ≤ maxI64
  | _ => True

instance (s : Fencing) (call : OrderCall) : Decidable (s.Admits call) := by
  cases call
  case acquire => exact inferInstanceAs (Decidable (_ ∧ _))
  all_goals exact inferInstanceAs (Decidable True)

/-- No worker has a lease yet, and every order is stored under its id. -/
structure Fresh (s : Fencing) : Prop where
  keyed : ∀ id row, s.orders.get id = some row → row.id = id
  idle : ∀ worker, s.workers.get worker = none

/-! ## The invariant -/

/-- A worker's copy is not ahead of the stored row, and where the versions agree the row
is the one the worker left. -/
structure Tracks (held : Held) (row : PaymentOrder) : Prop where
  version_le : held.leased.order.version ≤ row.version
  eq_of_version : held.leased.order.version = row.version → held.left = some row

/-- Where a worker stands: it holds the order, or its lease was taken over. -/
inductive Tenure (s : Fencing) (worker : Nat) (leased : Leased) (row : PaymentOrder) : Prop where
  | holds (hholder : s.holders.get leased.order.id = some worker)
      (hlease : row.leaseUntil = some leased.untilMs)
  | superseded (hversion : leased.order.version < row.version)
      (hpast : leased.untilMs < s.clock) (hlease : row.leaseUntil ≠ some leased.untilMs)

/-- What holds of one worker's lease. -/
structure HeldInv (s : Fencing) (worker : Nat) (held : Held) (row : PaymentOrder) : Prop where
  tracks : Tracks held row
  tenure : Tenure s worker held.leased row

/-- The invariant. -/
structure Inv (s : Fencing) : Prop where
  keyed : ∀ id row, s.orders.get id = some row → row.id = id
  held : ∀ worker held, s.workers.get worker = some held →
    ∃ row, s.orders.get held.leased.order.id = some row ∧ HeldInv s worker held row

variable {s s' : Fencing}

theorem Fresh.inv (hs : s.Fresh) : s.Inv :=
  ⟨hs.keyed, fun worker held hg => absurd hg (by rw [hs.idle]; simp)⟩

variable {held : Held} {row : PaymentOrder} {worker : Nat}

theorem Tracks.of_lt (h : held.leased.order.version < row.version) : Tracks held row :=
  ⟨h.le, fun heq => absurd heq (by omega)⟩

theorem Tracks.refl (row : PaymentOrder) (untilMs : Int) : Tracks ⟨⟨row, untilMs⟩, some row⟩ row :=
  ⟨le_rfl, fun _ => rfl⟩

theorem HeldInv.of_eq (h : HeldInv s worker held row) (hhold : s'.holders = s.holders)
    (hcloc : s.clock ≤ s'.clock) : HeldInv s' worker held row := by
  refine ⟨h.tracks, ?_⟩
  cases h.tenure with
  | holds hhol hleas => exact .holds (by rw [hhold]; exact hhol) hleas
  | superseded hver hps hleas => exact .superseded hver (hps.trans_le hcloc) hleas

theorem HeldInv.of_version_lt {row' : PaymentOrder} (h : HeldInv s worker held row)
    (hhold : s'.holders = s.holders) (hcloc : s.clock ≤ s'.clock) (hlt : row.version < row'.version)
    (hleas : row'.leaseUntil = row.leaseUntil) : HeldInv s' worker held row' := by
  have hver : held.leased.order.version < row'.version := h.tracks.version_le.trans_lt hlt
  refine ⟨.of_lt hver, ?_⟩
  cases h.tenure with
  | holds hhol hrow => exact .holds (by rw [hhold]; exact hhol) (by rw [hleas]; exact hrow)
  | superseded _ hps hrow => exact .superseded hver (hps.trans_le hcloc) (by rw [hleas]; exact hrow)

/-! ## One call -/

section Steps

variable {s : Fencing} {id : String} {worker : Nat}

theorem keyed_insert {orders : PaymentOrders} {row : PaymentOrder}
    (hkey : ∀ id row, orders.get id = some row → row.id = id) (hid : row.id = id) :
    ∀ id' row', (orders.insert id row).get id' = some row' → row'.id = id' := by
  intro id' row' hg
  rw [get_insert] at hg
  split at hg
  · rename_i heq
    cases hg
    rw [hid, heq]
  · exact hkey id' row' hg

theorem inv_insert (hinv : s.Inv) (o : PaymentOrder) : (s.exec (.insert o)).1.Inv := by
  simp only [exec]
  rcases insertPaymentOrder_cases o s.orders with heq | ⟨hno, -, heq⟩
  · rw [heq]
    exact ⟨hinv.keyed, hinv.held⟩
  · rw [heq]
    refine ⟨keyed_insert hinv.keyed rfl, fun worker held hwk => ?_⟩
    obtain ⟨row, hg, hhl⟩ := hinv.held worker held hwk
    have hne : held.leased.order.id ≠ o.id := by
      intro hid
      rw [hid, hno] at hg
      cases hg
    refine ⟨row, ?_, hhl.of_eq rfl le_rfl⟩
    rw [get_insert, if_neg hne]
    exact hg

theorem acquire_cases (s : Fencing) (worker : Nat) (id : String) (now : Int) :
    ((s.exec (.acquire worker id now)).1 = { s with clock := now } ∧
        ∀ o, (s.exec (.acquire worker id now)).2 ≠ .acquired (.ok (some o))) ∨
      ∃ row, s.orders.get id = some row ∧ leaseFree row now = true ∧
        s.exec (.acquire worker id now) = (let taken : PaymentOrder :=
            { row with version := row.version + 1, leaseUntil := some (leaseToken now) }
           ({ orders := s.orders.insert id taken
              workers := s.workers.insert worker ⟨⟨taken, leaseToken now⟩, some taken⟩
              holders := s.holders.insert id worker
              clock := now }, .acquired (.ok (some taken)))) := by
  simp only [exec]
  rcases acquirePaymentOrderLease_cases id now (leaseToken now) s.orders with
    ⟨hsm, href⟩ | ⟨row, hg, hfr, -, heq⟩
  · refine .inl ?_
    split
    · rename_i order heq
      exact absurd (congrArg Prod.snd heq) (href order)
    · rename_i orders _ _ heq
      rw [heq] at hsm href
      obtain rfl : orders = s.orders := hsm
      refine ⟨rfl, fun o hok => ?_⟩
      injection hok with hok
      exact href o hok
  · refine .inr ⟨row, hg, hfr, ?_⟩
    rw [heq]
    dsimp only
    rw [get_insert_self]

theorem inv_acquire (hinv : s.Inv) {now : Int} (hadm : s.Admits (.acquire worker id now))
    : (s.exec (.acquire worker id now)).1.Inv := by
  obtain ⟨hcloc, hmax⟩ := hadm
  rcases acquire_cases s worker id now with ⟨heq, -⟩ | ⟨row, hg, hfr, heq⟩
  · rw [heq]
    refine ⟨hinv.keyed, fun worker' held hwk => ?_⟩
    obtain ⟨row, hg, hhl⟩ := hinv.held worker' held hwk
    exact ⟨row, hg, hhl.of_eq rfl hcloc⟩
  · rw [heq]
    refine ⟨keyed_insert hinv.keyed (hinv.keyed id row hg), fun worker' held hwk => ?_⟩
    have hid : row.id = id := hinv.keyed id row hg
    rw [get_insert] at hwk
    split at hwk
    · -- the worker that took the lease
      rename_i hsm
      cases hwk
      refine ⟨{ row with version := row.version + 1, leaseUntil := some (leaseToken now) }, ?_,
        .refl _ _, .holds ?_ rfl⟩
      · simp only [hid]
        rw [get_insert_self]
      · simp only [hid]
        rw [get_insert_self, hsm]
    · obtain ⟨row', hg', hhl⟩ := hinv.held worker' held hwk
      by_cases hsm : held.leased.order.id = id
      · -- another worker on this order: its lease has run out, and is taken over here
        obtain rfl : row' = row := by
          rw [hsm, hg] at hg'
          exact (some.inj hg').symm
        have hps : held.leased.untilMs < now := by
          cases hhl.tenure with
          | holds _ hleas =>
            simp only [leaseFree, hleas, decide_eq_true_eq] at hfr
            exact hfr
          | superseded _ hps _ => exact hps.trans_le hcloc
        have hver : held.leased.order.version < row'.version + 1 :=
          Nat.lt_succ_of_le hhl.tracks.version_le
        refine ⟨_, by rw [hsm, get_insert_self], .of_lt hver, .superseded hver hps ?_⟩
        intro heq
        have htok : leaseToken now = held.leased.untilMs := some.inj heq
        have := le_leaseToken hmax
        omega
      · refine ⟨row', by rw [get_insert, if_neg hsm]; exact hg', hhl.tracks, ?_⟩
        cases hhl.tenure with
        | holds hhol hleas => exact .holds (by rw [get_insert, if_neg hsm]; exact hhol) hleas
        | superseded hver hps hleas => exact .superseded hver (hps.trans_le hcloc) hleas

theorem inv_edit (hinv : s.Inv) (worker : Nat) (change : OrderChange) :
    (s.exec (.edit worker change)).1.Inv := by
  simp only [exec]
  cases hwk : s.workers.get worker with
  | none => exact hinv
  | some held =>
    refine ⟨hinv.keyed, fun worker' held' hwk' => ?_⟩
    rw [get_insert] at hwk'
    split at hwk'
    · rename_i hsm
      cases hwk'
      obtain ⟨row, hg, hhl⟩ := hinv.held worker held hwk
      have hid : (change.apply held.leased.order).id = held.leased.order.id := change.id_eq _
      have hver : (change.apply held.leased.order).version = held.leased.order.version :=
        change.version_eq _
      refine ⟨row, by rw [hid]; exact hg, ⟨by rw [hver]; exact hhl.tracks.version_le,
          fun heq => hhl.tracks.eq_of_version (hver.symm.trans heq)⟩, ?_⟩
      cases hhl.tenure with
      | holds hhol hleas => exact .holds (by rw [hid, hsm]; exact hhol) hleas
      | superseded hlt hps hleas => exact .superseded (by rw [hver]; exact hlt) hps hleas
    · obtain ⟨row, hg, hhl⟩ := hinv.held worker' held' hwk'
      exact ⟨row, hg, hhl.of_eq rfl le_rfl⟩

/-- What a write does: nothing, or it replaces a row that agrees with the worker's copy
on version, lease and buyer. -/
theorem write_step_cases (s : Fencing) (worker : Nat) (change : OrderChange) :
    ((s.exec (.write worker change)).1 = s ∧
        ∀ leased, (s.exec (.write worker change)).2 ≠ .written (.ok leased)) ∨
      ∃ held row, s.workers.get worker = some held ∧ s.orders.get held.leased.order.id = some row ∧
        row.version = held.leased.order.version ∧
        row.leaseUntil = held.leased.order.leaseUntil ∧ row.userId = held.leased.order.userId ∧
        s.exec (.write worker change) = (let next : PaymentOrder :=
            { change.apply held.leased.order with version := held.leased.order.version + 1 }
           ({ s with
                orders := s.orders.insert held.leased.order.id next
                workers := s.workers.insert worker ⟨⟨next, held.leased.untilMs⟩, some next⟩ },
            .written (.ok ⟨next, held.leased.untilMs⟩))) := by
  simp only [exec]
  cases hwk : s.workers.get worker with
  | none => exact .inl ⟨rfl, fun leased h => by simp at h⟩
  | some held =>
    dsimp only
    rcases write_cases held.leased change s.orders with
      ⟨hsm, href⟩ | ⟨row, hg, -, hver, hleas, huse, heq⟩
    · refine .inl ?_
      split
      · rename_i leased heq
        exact absurd (congrArg Prod.snd heq) (href leased)
      · rename_i orders _ heq
        rw [heq] at hsm
        obtain rfl : orders = s.orders := hsm
        exact ⟨rfl, fun leased h => by simp at h⟩
    · refine .inr ⟨held, row, rfl, hg, hver, hleas, huse, ?_⟩
      rw [heq]
      dsimp only
      rw [change.id_eq, get_insert_self]

theorem inv_write (hinv : s.Inv) (worker : Nat) (change : OrderChange) :
    (s.exec (.write worker change)).1.Inv := by
  rcases write_step_cases s worker change with
    ⟨heq, -⟩ | ⟨held, row, hwk, hg, hver, hleas, -, heq⟩
  · rw [heq]
    exact hinv
  · rw [heq]
    obtain ⟨row', hg', hhl⟩ := hinv.held worker held hwk
    obtain rfl : row' = row := some.inj (hg'.symm.trans hg)
    have hid : (change.apply held.leased.order).id = held.leased.order.id := change.id_eq _
    have hleas' : (change.apply held.leased.order).leaseUntil = row'.leaseUntil := by
      rw [change.leaseUntil_eq, hleas]
    refine ⟨keyed_insert hinv.keyed hid, fun worker' held' hwk' => ?_⟩
    rw [get_insert] at hwk'
    split at hwk'
    · -- the writer goes on from the row it stored
      rename_i hsm
      cases hwk'
      refine ⟨_, by rw [hid, get_insert_self], .refl _ _, ?_⟩
      cases hhl.tenure with
      | holds hhol hrow => exact .holds (by rw [hid, hsm]; exact hhol) (by rw [hleas']; exact hrow)
      | superseded hlt _ _ => exact absurd hver (by omega)
    · obtain ⟨row'', hg'', hhl'⟩ := hinv.held worker' held' hwk'
      by_cases hsm : held'.leased.order.id = held.leased.order.id
      · obtain rfl : row'' = row' := by
          rw [hsm, hg] at hg''
          exact (some.inj hg'').symm
        have hnx : row''.version < held.leased.order.version + 1 := by omega
        refine ⟨_, by rw [hsm, get_insert_self], ?_⟩
        exact hhl'.of_version_lt rfl le_rfl hnx hleas'
      · refine ⟨row'', by rw [get_insert, if_neg hsm]; exact hg'', ?_⟩
        exact hhl'.of_eq rfl le_rfl

theorem release_step_cases (hinv : s.Inv) {held : Held} (hwk : s.workers.get worker = some held) :
    (s.holders.get held.leased.order.id = some worker ∧
        ∃ row, s.orders.get held.leased.order.id = some row ∧ (s.exec (.release worker)).1.orders =
            s.orders.insert held.leased.order.id { row with leaseUntil := none }) ∨
      ((s.exec (.release worker)).1.orders = s.orders ∧
        ∀ row, s.orders.get held.leased.order.id = some row →
          row.leaseUntil ≠ some held.leased.untilMs) := by
  simp only [exec, hwk]
  obtain ⟨row, hg, hhl⟩ := hinv.held worker held hwk
  rcases releasePaymentOrderLease_cases held.leased.order.id held.leased.untilMs s.orders with
    ⟨heq, hleas⟩ | ⟨row', hg', hleas, heq⟩
  · exact .inr ⟨heq, hleas⟩
  · obtain rfl : row' = row := some.inj (hg'.symm.trans hg)
    refine .inl ⟨?_, row', hg', heq⟩
    cases hhl.tenure with
    | holds hhol _ => exact hhol
    | superseded _ _ hne => exact absurd hleas hne

theorem inv_release (hinv : s.Inv) (worker : Nat) : (s.exec (.release worker)).1.Inv := by
  cases hwk : s.workers.get worker with
  | none =>
    simp only [exec, hwk]
    exact hinv
  | some held =>
    have hwor : (s.exec (.release worker)).1.workers = s.workers.erase worker := by
      simp only [exec, hwk]
    have hcloc : (s.exec (.release worker)).1.clock = s.clock := by simp only [exec, hwk]
    have hhold : ∀ id other, other ≠ worker → s.holders.get id = some other →
        (s.exec (.release worker)).1.holders.get id = some other := by
      intro id other hne hg
      simp only [exec, hwk]
      split
      · rename_i hhol
        rw [get_erase, if_neg]
        · exact hg
        · intro hid
          rw [hid, hhol] at hg
          exact hne (some.inj hg).symm
      · exact hg
    -- whose row is cleared: nobody else holds it, and the superseded took other leases
    have hrw : ∀ id row, s.orders.get id = some row → ∃ row',
        (s.exec (.release worker)).1.orders.get id = some row' ∧
          (row' = row ∨ (id = held.leased.order.id ∧ s.holders.get id = some worker ∧
            row' = { row with leaseUntil := none })) := by
      intro id row hg
      rcases release_step_cases hinv hwk with ⟨hhol, cleared, hclear, heq⟩ | ⟨heq, -⟩
      · rw [heq, get_insert]
        by_cases hid : id = held.leased.order.id
        · obtain rfl : cleared = row := by
            rw [hid, hclear] at hg
            exact some.inj hg
          exact ⟨_, if_pos hid, .inr ⟨hid, hid ▸ hhol, rfl⟩⟩
        · exact ⟨row, by rw [if_neg hid]; exact hg, .inl rfl⟩
      · exact ⟨row, by rw [heq]; exact hg, .inl rfl⟩
    refine ⟨fun id row hg => ?_, fun worker' held' hwk' => ?_⟩
    · rcases release_step_cases hinv hwk with ⟨-, cleared, hclear, heq⟩ | ⟨heq, -⟩
      · rw [heq] at hg
        refine keyed_insert hinv.keyed ?_ id row hg
        exact hinv.keyed _ cleared hclear
      · rw [heq] at hg
        exact hinv.keyed id row hg
    · rw [hwor, get_erase] at hwk'
      split at hwk'
      · cases hwk'
      · rename_i hoth
        obtain ⟨row, hg, hhl⟩ := hinv.held worker' held' hwk'
        obtain ⟨row', hg', hrow'⟩ := hrw _ row hg
        refine ⟨row', hg', ?_⟩
        rcases hrow' with rfl | ⟨-, hhol, rfl⟩
        · refine ⟨hhl.tracks, ?_⟩
          cases hhl.tenure with
          | holds hhol hleas => exact .holds (hhold _ _ hoth hhol) hleas
          | superseded hver hps hleas => exact .superseded hver (by rw [hcloc]; exact hps) hleas
        · cases hhl.tenure with
          | holds hhol' _ => exact absurd (some.inj (hhol'.symm.trans hhol)) hoth
          | superseded hver hps _ =>
            exact ⟨.of_lt hver, .superseded hver (by rw [hcloc]; exact hps) (by simp)⟩

theorem inv_unlink (hinv : s.Inv) (userId : String) : (s.exec (.unlink userId)).1.Inv := by
  simp only [exec]
  refine ⟨fun id row' hg' => ?_, fun worker held hwk => ?_⟩
  · dsimp only at hg'
    obtain ⟨hno, hso⟩ := unlinkPaymentOrdersByUser_spec userId s.orders id
    cases hg : s.orders.get id with
    | none => cases (hno hg).symm.trans hg'
    | some row =>
      obtain ⟨row'', hg'', hunl, -⟩ := hso row hg
      obtain rfl : row'' = row' := some.inj (hg''.symm.trans hg')
      rcases hunl with rfl | ⟨-, rfl⟩
      · exact hinv.keyed id row'' hg
      · exact hinv.keyed id row hg
  · obtain ⟨row, hg, hhl⟩ := hinv.held worker held hwk
    obtain ⟨row', hg', hunl, -⟩ :=
      (unlinkPaymentOrdersByUser_spec userId s.orders held.leased.order.id).2 row hg
    refine ⟨row', hg', ?_⟩
    rcases hunl with rfl | ⟨-, rfl⟩
    · exact hhl.of_eq rfl le_rfl
    · exact hhl.of_version_lt rfl le_rfl (Nat.lt_succ_self _) rfl

/-- **One call keeps the invariant.** -/
theorem inv_exec (s : Fencing) (call : OrderCall) (hadm : s.Admits call) (hinv : s.Inv) :
    (s.exec call).1.Inv := by
  cases call with
  | insert o => exact inv_insert hinv o
  | acquire worker id now => exact inv_acquire hinv hadm
  | edit worker change => exact inv_edit hinv worker change
  | write worker change => exact inv_write hinv worker change
  | release worker => exact inv_release hinv worker
  | unlink userId => exact inv_unlink hinv userId

end Steps

/-! ## Whole runs -/

/-- What a call of a run does to the orders, said of the call and the state it is made
in. -/
structure FencedCall (s : Fencing) (call : OrderCall) : Prop where
  acquire : ∀ worker id now o, call = .acquire worker id now →
    (s.exec call).2 = .acquired (.ok (some o)) → ∃ row, s.orders.get id = some row ∧
      (s.exec call).1.orders.get id = some o ∧ row.version < o.version
  write : ∀ worker change leased, call = .write worker change →
    (s.exec call).2 = .written (.ok leased) → ∃ held row row',
      s.workers.get worker = some held ∧ s.orders.get held.leased.order.id = some row ∧
      held.left = some row ∧
      (s.exec call).1.orders.get held.leased.order.id = some row' ∧ row.version < row'.version
  release : ∀ worker, call = .release worker → (s.exec call).1.orders ≠ s.orders →
    ∃ held, s.workers.get worker = some held ∧ s.holders.get held.leased.order.id = some worker
  unlink : ∀ userId id row, call = .unlink userId → (s.exec call).2 = .unlinked (.ok ()) →
    s.orders.get id = some row → row.userId = some userId → ∃ row',
      (s.exec call).1.orders.get id = some row' ∧ row'.userId = none ∧ row.version < row'.version

theorem write_replaces_left (hinv : s.Inv) {worker : Nat} {change : OrderChange} {leased : Leased}
    (hok : (s.exec (.write worker change)).2 = .written (.ok leased)) :
    ∃ held row row', s.workers.get worker = some held ∧
      s.orders.get held.leased.order.id = some row ∧ held.left = some row ∧
      (s.exec (.write worker change)).1.orders.get held.leased.order.id = some row' ∧
      row.version < row'.version := by
  rcases write_step_cases s worker change with
    ⟨-, href⟩ | ⟨held, row, hwk, hg, hver, -, -, heq⟩
  · exact absurd hok (href leased)
  · obtain ⟨row', hg', hhl⟩ := hinv.held worker held hwk
    obtain rfl : row' = row := some.inj (hg'.symm.trans hg)
    have hlf : held.left = some row' := hhl.tracks.eq_of_version hver.symm
    have hnx : row'.version < held.leased.order.version + 1 := by omega
    rw [heq]
    exact ⟨held, row', _, hwk, hg, hlf, get_insert_self, hnx⟩

theorem fencedCall (hinv : s.Inv) (call : OrderCall) : FencedCall s call where
  acquire worker id now o hcl hok := by
    subst hcl
    rcases acquire_cases s worker id now with ⟨-, href⟩ | ⟨row, hg, -, heq⟩
    · exact absurd hok (href o)
    · rw [heq] at hok ⊢
      injection hok with hok
      cases ok.inj hok
      exact ⟨row, hg, get_insert_self, Nat.lt_succ_self _⟩
  write worker change leased hcl hok := by
    subst hcl
    exact write_replaces_left hinv hok
  release worker hcl hchan := by
    subst hcl
    cases hwk : s.workers.get worker with
    | none => exact absurd (by simp only [exec, hwk]) hchan
    | some held =>
      rcases release_step_cases hinv hwk with ⟨hhol, -⟩ | ⟨heq, -⟩
      · exact ⟨held, rfl, hhol⟩
      · exact absurd heq hchan
  unlink userId id row hcl hok hg huse := by
    subst hcl
    obtain ⟨row', hg', hunl, hmov⟩ := (unlinkPaymentOrdersByUser_spec userId s.orders id).2 row hg
    injection hok with hok
    rcases hunl with hsm | ⟨-, rfl⟩
    · exact absurd hsm (hmov hok huse)
    · exact ⟨_, hg', rfl, Nat.lt_succ_self _⟩

/-- An order without a buyer. -/
def Unowned (s : Fencing) (id : String) : Prop :=
  ∃ row, s.orders.get id = some row ∧ row.userId = none

theorem unowned_exec (s : Fencing) (call : OrderCall) {id : String} (h : s.Unowned id) :
    (s.exec call).1.Unowned id := by
  obtain ⟨row, hg, huse⟩ := h
  cases call with
  | insert o =>
    simp only [exec, Unowned]
    rcases insertPaymentOrder_cases o s.orders with heq | ⟨hno, -, heq⟩
    · rw [heq]
      exact ⟨row, hg, huse⟩
    · have hne : id ≠ o.id := by
        rintro rfl
        cases hno.symm.trans hg
      rw [heq]
      exact ⟨row, by rw [get_insert, if_neg hne]; exact hg, huse⟩
  | acquire worker id' now =>
    rcases acquire_cases s worker id' now with ⟨heq, -⟩ | ⟨row', hg', -, heq⟩
    · rw [heq]
      exact ⟨row, hg, huse⟩
    · rw [heq]
      by_cases hid : id = id'
      · subst hid
        cases hg'.symm.trans hg
        exact ⟨_, get_insert_self, huse⟩
      · exact ⟨row, (get_insert _ _ _ _).trans ((if_neg hid).trans hg), huse⟩
  | edit worker change =>
    simp only [exec]
    cases hwk : s.workers.get worker with
    | none | some held => exact ⟨row, hg, huse⟩
  | write worker change =>
    rcases write_step_cases s worker change with
      ⟨heq, -⟩ | ⟨held, row', -, hg', -, -, huse', heq⟩
    · rw [heq]
      exact ⟨row, hg, huse⟩
    · rw [heq]
      by_cases hid : id = held.leased.order.id
      · subst hid
        cases hg'.symm.trans hg
        refine ⟨_, get_insert_self, ?_⟩
        exact (change.userId_eq _).trans (huse'.symm.trans huse)
      · exact ⟨row, (get_insert _ _ _ _).trans ((if_neg hid).trans hg), huse⟩
  | release worker =>
    simp only [exec]
    cases hwk : s.workers.get worker with
    | none => exact ⟨row, hg, huse⟩
    | some held =>
      simp
      rcases releasePaymentOrderLease_cases held.leased.order.id held.leased.untilMs s.orders with
        ⟨heq, -⟩ | ⟨row', hg', -, heq⟩
      · rw [heq]
        exact ⟨row, hg, huse⟩
      · rw [heq]
        by_cases hid : id = held.leased.order.id
        · subst hid
          cases hg'.symm.trans hg
          exact ⟨_, get_insert_self, huse⟩
        · exact ⟨row, (get_insert _ _ _ _).trans ((if_neg hid).trans hg), huse⟩
  | unlink userId =>
    obtain ⟨row', hg', hunl, -⟩ := (unlinkPaymentOrdersByUser_spec userId s.orders id).2 row hg
    refine ⟨row', hg', ?_⟩
    rcases hunl with rfl | ⟨-, rfl⟩
    · exact huse
    · rfl

/-- **No lost update on a payment order.** In every run each successful acquire, write
and unlink moves the version of its order on; a successful write replaces the very record
that the worker's own last acquire or write left; a release changes the collection only
for the worker that still holds the lease; and an order that has lost its buyer never has
one again. -/
theorem order_fencing {s t : Fencing} {h : List (Fencing × OrderCall)} (hs : s.Fresh)
    (hrun : Run exec Admits s h t) :
    (∀ m call, (m, call) ∈ h → FencedCall m call) ∧
      ∀ h₁ m call h₂ id, h = h₁ ++ (m, call) :: h₂ → m.Unowned id → t.Unowned id := by
  constructor
  · intro m call hmem
    obtain ⟨h₁, h₂, rfl⟩ := append_of_mem hmem
    exact fencedCall (hrun.split_at.1.invariant inv_exec hs.inv) call
  · rintro h₁ m call h₂ id rfl hunowned
    obtain ⟨-, hadm, hrest⟩ := hrun.split_at
    exact hrest.invariant (P := fun s => s.Unowned id) (fun s call _ => unowned_exec s call)
      (unowned_exec m call hunowned)

namespace Sample

/-- An order waiting for its payment. -/
def order : PaymentOrder :=
  { newOrder "01O" "01U" (.cipherNew .t99) 9900 0 with
    checkoutSessionId := some "cs_1"
    sessionExpiresAt := some 1800000
    state := .pending }

/-- The change that marks an order paid. -/
def pay : OrderChange where
  apply o := { o with state := .paid }
  id_eq _ := rfl
  version_eq _ := rfl
  leaseUntil_eq _ := rfl
  userId_eq _ := rfl

/-- One stored order and no worker. -/
def start : Fencing := ⟨(∅ : PaymentOrders).insert order.id order, ∅, ∅, 0⟩

/-- The first worker stalls past its lease; the second takes it over and writes before
the first wakes up. -/
def takeover : List OrderCall :=
  [.acquire 1 "01O" 0, .acquire 2 "01O" 120001, .write 2 pay, .write 1 pay, .release 1,
    .unlink "01U", .release 2]

end Sample

open Sample

/-- The takeover is a run, and what it leaves has no buyer, no lease and the version four
successful calls make. -/
theorem order_fencing_takeover :
    (∀ m call, (m, call) ∈ historyOf exec start takeover → FencedCall m call) ∧
      ((execAll exec start takeover).orders.get "01O").map
        (fun row => (row.state, row.version, row.leaseUntil, row.userId)) =
          some (.paid, 4, none, none) := by
  refine ⟨(order_fencing ⟨?_, fun worker => rfl⟩ (Run.of_admitsAll ?_)).1, by decide⟩
  · intro id row hget
    rw [start, get_insert] at hget
    split at hget
    · rename_i heq
      cases hget
      exact heq.symm
    · cases hget
  · simp only [takeover, AdmitsAll, Admits, and_true]
    decide

end Fencing
end SlogaBackend.Payments
