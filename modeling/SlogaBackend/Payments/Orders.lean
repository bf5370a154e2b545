import SlogaBackend.Payments.Types

/-!
# The order collection

The operations of `models/payment_orders/ops/reference.rs` on the map of orders,
each atomic under the map's mutex, and the lease a worker of the engine holds
(`Leased` in `engine.rs`).

An order is written under a lease. Taking it moves the version and stores the
moment it runs out; that moment is also the token a release gives back. A write
replaces the whole record and is refused unless state, version, lease and buyer
are still the ones the writer's copy has. A release moves no version.

What each operation does to one row is said once, by `acquirePaymentOrderLease_cases`,
`updatePaymentOrderIfState_cases`, `releasePaymentOrderLease_cases`,
`unlinkPaymentOrdersByUser_spec` and `insertPaymentOrder_cases`, and nothing
downstream opens the operations again.
-/

namespace SlogaBackend.Payments

/-- The stored orders, by id. -/
abbrev PaymentOrders := Table String PaymentOrder

/-! ## The operations -/

/-- Whether the lease on `row` is free at `now`: never taken, or run out. -/
def leaseFree (row : PaymentOrder) (now : Int) : Bool :=
  match row.leaseUntil with
  | none => true
  | some untilMs => untilMs < now

/-- Whether an order other than `o` already holds its session or payment intent. -/
def providerIdTaken (orders : PaymentOrders) (o : PaymentOrder) : Bool :=
  orders.values.any fun row =>
    row.id != o.id &&
      ((o.checkoutSessionId.isSome && row.checkoutSessionId == o.checkoutSessionId) ||
        (o.paymentIntentId.isSome && row.paymentIntentId == o.paymentIntentId))

def insertPaymentOrder (o : PaymentOrder) (orders : PaymentOrders) : PaymentOrders × Result Unit :=
  if (orders.get o.id).isSome || providerIdTaken orders o then
    (orders, .error (.databaseError "insert" "payment_order"))
  else (orders.insert o.id o, .ok ())

def fetchPaymentOrder (id : String) (orders : PaymentOrders) : Option PaymentOrder := orders.get id

/-- Oldest `createdAt` first, ties by id. -/
def olderFirst (a b : PaymentOrder) : Prop :=
  a.createdAt < b.createdAt ∨ (a.createdAt = b.createdAt ∧ a.id ≤ b.id)

instance : DecidableRel olderFirst := fun _ _ => inferInstanceAs (Decidable (_ ∨ _))

/-- The orders of a user in the given states, oldest first. -/
def fetchPaymentOrdersByUser (userId : String) (states : List OrderState)
    (orders : PaymentOrders) : List PaymentOrder :=
  (orders.values.filter fun row => row.userId == some userId && states.contains row.state)
    |>.insertionSort olderFirst

/-- Take the lease of an order, moving its version; `none` when it is held or there is
no such order. -/
def acquirePaymentOrderLease (id : String) (now untilMs : Int) (orders : PaymentOrders) :
    PaymentOrders × Result (Option PaymentOrder) :=
  match orders.get id with
  | none => (orders, .ok none)
  | some row =>
    if leaseFree row now then
      match checkedSuccU64 row.version with
      | none => (orders, .error (.databaseError "update" "payment_order"))
      | some version =>
        let taken := { row with version := version, leaseUntil := some untilMs }
        (orders.insert id taken, .ok (some taken))
    else (orders, .ok none)

/-- Clear the lease if it still carries the holder's token. -/
def releasePaymentOrderLease (id : String) (untilMs : Int) (orders : PaymentOrders) :
    PaymentOrders :=
  match orders.get id with
  | none => orders
  | some row =>
    if row.leaseUntil = some untilMs then orders.insert id { row with leaseUntil := none }
    else orders

/-- Replace the order if state, version, lease and buyer are the expected ones. -/
def updatePaymentOrderIfState (o : PaymentOrder) (expected : OrderState) (orders : PaymentOrders) :
    PaymentOrders × Result Bool :=
  match checkedSuccU64 o.version with
  | none => (orders, .error (.databaseError "replace" "payment_order"))
  | some next =>
    let matched := match orders.get o.id with
      | none => false
      | some row => row.state == expected && row.version == o.version &&
          row.leaseUntil == o.leaseUntil && row.userId == o.userId
    if !matched then (orders, .ok false)
    else if providerIdTaken orders o then
      (orders, .error (.databaseError "replace" "payment_order"))
    else (orders.insert o.id { o with version := next }, .ok true)

/-- The loop of the unlink: it stops at a row whose version cannot move. -/
def unlinkRows (userId : String) : List String → PaymentOrders → PaymentOrders × Result Unit
  | [], orders => (orders, .ok ())
  | id :: ids, orders =>
    match orders.get id with
    | none => unlinkRows userId ids orders
    | some row =>
      if row.userId = some userId then
        match checkedSuccU64 row.version with
        | none => (orders, .error (.databaseError "update" "payment_order"))
        | some version =>
          unlinkRows userId ids (orders.insert id { row with version := version, userId := none })
      else unlinkRows userId ids orders

/-- Account deletion: unset the buyer on every order of the user. -/
def unlinkPaymentOrdersByUser (userId : String) (orders : PaymentOrders) :
    PaymentOrders × Result Unit :=
  unlinkRows userId (AList.keys orders) orders

/-! ## What they do to a row -/

theorem insertPaymentOrder_cases (o : PaymentOrder) (orders : PaymentOrders) :
    (insertPaymentOrder o orders = (orders, .error (.databaseError "insert" "payment_order"))) ∨
      (orders.get o.id = none ∧ providerIdTaken orders o = false ∧
        insertPaymentOrder o orders = (orders.insert o.id o, .ok ())) := by
  unfold insertPaymentOrder
  split
  · exact .inl rfl
  · rename_i hfr
    simp only [or_eq_true, not_or, Bool.not_eq_true, Option.isSome_eq_false_iff,
      isNone_iff_eq_none] at hfr
    exact .inr ⟨hfr.1, hfr.2, rfl⟩

theorem acquirePaymentOrderLease_cases (id : String) (now untilMs : Int) (orders : PaymentOrders) :
    ((acquirePaymentOrderLease id now untilMs orders).1 = orders ∧
        ∀ o, (acquirePaymentOrderLease id now untilMs orders).2 ≠ .ok (some o)) ∨
      ∃ row, orders.get id = some row ∧ leaseFree row now = true ∧ row.version < maxU64 ∧
        acquirePaymentOrderLease id now untilMs orders =
          (orders.insert id { row with version := row.version + 1, leaseUntil := some untilMs },
            .ok (some { row with version := row.version + 1, leaseUntil := some untilMs })) := by
  unfold acquirePaymentOrderLease
  cases hg : orders.get id with
  | none => exact .inl ⟨rfl, fun o h => by simp at h⟩
  | some row =>
    dsimp only
    split
    · rename_i hfr
      cases hnx : checkedSuccU64 row.version with
      | none => exact .inl ⟨rfl, fun o h => by simp at h⟩
      | some version =>
        obtain ⟨hlt, rfl⟩ := checkedSuccU64_eq_some.mp hnx
        exact .inr ⟨row, rfl, hfr, hlt, rfl⟩
    · exact .inl ⟨rfl, fun o h => by simp at h⟩

theorem releasePaymentOrderLease_cases (id : String) (untilMs : Int) (orders : PaymentOrders) :
    (releasePaymentOrderLease id untilMs orders = orders ∧
        ∀ row, orders.get id = some row → row.leaseUntil ≠ some untilMs) ∨
      ∃ row, orders.get id = some row ∧ row.leaseUntil = some untilMs ∧
        releasePaymentOrderLease id untilMs orders =
          orders.insert id { row with leaseUntil := none } := by
  unfold releasePaymentOrderLease
  cases hg : orders.get id with
  | none => exact .inl ⟨rfl, fun row h => by simp at h⟩
  | some row =>
    dsimp only
    split
    · rename_i hleas
      exact .inr ⟨row, rfl, hleas, rfl⟩
    · rename_i hleas
      refine .inl ⟨rfl, fun row' h => ?_⟩
      cases h
      exact hleas

/-- A write that succeeds replaces a row that agrees with the writer's copy on state,
version, lease and buyer; any other write changes nothing. -/
theorem updatePaymentOrderIfState_cases (o : PaymentOrder) (expected : OrderState)
    (orders : PaymentOrders) : ((updatePaymentOrderIfState o expected orders).1 = orders ∧
        (updatePaymentOrderIfState o expected orders).2 ≠ .ok true) ∨
      ∃ row, orders.get o.id = some row ∧ row.state = expected ∧ row.version = o.version ∧
        row.leaseUntil = o.leaseUntil ∧ row.userId = o.userId ∧ o.version < maxU64 ∧
        updatePaymentOrderIfState o expected orders =
          (orders.insert o.id { o with version := o.version + 1 }, .ok true) := by
  unfold updatePaymentOrderIfState
  cases hnx : checkedSuccU64 o.version with
  | none => exact .inl ⟨rfl, by simp⟩
  | some next =>
    obtain ⟨hlt, rfl⟩ := checkedSuccU64_eq_some.mp hnx
    cases hg : orders.get o.id with
    | none => exact .inl ⟨rfl, by simp⟩
    | some row =>
      dsimp only
      split
      · exact .inl ⟨rfl, by simp⟩
      · rename_i hmat
        split
        · exact .inl ⟨rfl, by simp⟩
        · simp only [Bool.not_eq_true, Bool.not_eq_false', and_eq_true, beq_iff_eq] at hmat
          obtain ⟨⟨⟨hst, hver⟩, hleas⟩, huse⟩ := hmat
          exact .inr ⟨row, rfl, hst, hver, hleas, huse, hlt, rfl⟩

/-- How an unlink of `userId` may change a row: not at all, or it drops the buyer and
moves the version. -/
def Unlinked (userId : String) (row row' : PaymentOrder) : Prop :=
  row' = row ∨
    (row.userId = some userId ∧ row' = { row with version := row.version + 1, userId := none })

theorem unlinkRows_spec (userId : String) (ids : List String) : ∀ orders : PaymentOrders,
      (∀ id, (orders.get id = none → (unlinkRows userId ids orders).1.get id = none) ∧
        ∀ row, orders.get id = some row → ∃ row',
          (unlinkRows userId ids orders).1.get id = some row' ∧ Unlinked userId row row' ∧
            ((unlinkRows userId ids orders).2 = .ok () → id ∈ ids →
              row.userId = some userId → row' ≠ row)) := by
  induction ids with
  | nil =>
    intro orders id
    exact ⟨fun hg => hg, fun row hg => ⟨row, hg, .inl rfl, fun _ hid => by simp at hid⟩⟩
  | cons head ids ih =>
    intro orders id
    simp only [unlinkRows]
    cases hhd : orders.get head with
    | none =>
      obtain ⟨hno, hsm⟩ := ih orders id
      refine ⟨hno, fun row hg => ?_⟩
      obtain ⟨row', hg', hunl, hmov⟩ := hsm row hg
      refine ⟨row', hg', hunl, fun hok hid huse => ?_⟩
      rcases mem_cons.mp hid with rfl | hid
      · cases hhd.symm.trans hg
      · exact hmov hok hid huse
    | some first =>
      dsimp only
      by_cases hfst : first.userId = some userId
      · rw [if_pos hfst]
        cases hnx : checkedSuccU64 first.version with
        | none =>
          exact ⟨fun hg => hg, fun row hg => ⟨row, hg, .inl rfl, fun hok => by simp at hok⟩⟩
        | some version =>
          obtain ⟨-, rfl⟩ := checkedSuccU64_eq_some.mp hnx
          obtain ⟨hno, hsm⟩ :=
            ih (orders.insert head { first with version := first.version + 1, userId := none }) id
          by_cases hid : id = head
          · -- the row just unlinked: the rest of the loop leaves it, as its buyer is gone
            subst hid
            refine ⟨fun hg => absurd (hhd.symm.trans hg) (by simp), fun row hg => ?_⟩
            cases hhd.symm.trans hg
            obtain ⟨row', hg', hunl, -⟩ :=
              hsm { first with version := first.version + 1, userId := none }
                get_insert_self
            have hrow' : row' = { first with version := first.version + 1, userId := none } := by
              rcases hunl with hsa | ⟨huse, -⟩
              · exact hsa
              · cases huse
            refine ⟨row', hg', .inr ⟨hfst, hrow'⟩, fun _ _ _ heq => ?_⟩
            have hver : first.version + 1 = first.version :=
              congrArg PaymentOrder.version (hrow'.symm.trans heq)
            omega
          · have hfram :
                (orders.insert head { first with version := first.version + 1, userId := none }).get id
                  = orders.get id := by
              rw [get_insert, if_neg hid]
            rw [hfram] at hno hsm
            refine ⟨hno, fun row hg => ?_⟩
            obtain ⟨row', hg', hunl, hmov⟩ := hsm row hg
            exact ⟨row', hg', hunl, fun hok hmem huse =>
              hmov hok ((mem_cons.mp hmem).resolve_left hid) huse⟩
      · rw [if_neg hfst]
        obtain ⟨hno, hsm⟩ := ih orders id
        refine ⟨hno, fun row hg => ?_⟩
        obtain ⟨row', hg', hunl, hmov⟩ := hsm row hg
        refine ⟨row', hg', hunl, fun hok hid huse => ?_⟩
        rcases mem_cons.mp hid with rfl | hid
        · cases hhd.symm.trans hg
          exact absurd huse hfst
        · exact hmov hok hid huse

/-- An unlink neither adds nor removes an order, and one that succeeds drops the buyer of
every order of the user. -/
theorem unlinkPaymentOrdersByUser_spec (userId : String) (orders : PaymentOrders) (id : String) :
    (orders.get id = none → (unlinkPaymentOrdersByUser userId orders).1.get id = none) ∧
      ∀ row, orders.get id = some row → ∃ row',
        (unlinkPaymentOrdersByUser userId orders).1.get id = some row' ∧ Unlinked userId row row' ∧
          ((unlinkPaymentOrdersByUser userId orders).2 = .ok () →
            row.userId = some userId → row' ≠ row) := by
  obtain ⟨hno, hsm⟩ := unlinkRows_spec userId (AList.keys orders) orders id
  refine ⟨hno, fun row hg => ?_⟩
  obtain ⟨row', hg', hunl, hmov⟩ := hsm row hg
  have hkey : id ∈ AList.keys orders :=
    AList.mem_keys.mp (AList.lookup_isSome.mp (by
      change (orders.get id).isSome = true
      rw [hg]
      rfl))
  exact ⟨row', hg', hunl, fun hok huse => hmov hok hkey huse⟩

/-! ## The lease of a worker -/

/-- How long a lease on an order runs, in milliseconds. -/
def leaseMs : Int := 120000

/-- The moment a lease taken at `nowMs` runs out, which is its token. -/
def leaseToken (nowMs : Int) : Int := clampI64 (nowMs + leaseMs)

theorem le_leaseToken {nowMs : Int} (hmax : nowMs ≤ maxI64) : nowMs ≤ leaseToken nowMs := by
  unfold leaseToken clampI64 leaseMs
  omega

/-- An order held under its lease. `untilMs` is the fencing token passed back on
release. -/
structure Leased where
  order : PaymentOrder
  untilMs : Int

/-- A change a worker makes to its copy before it writes it back. No caller of `write`
touches the id, the version, the lease or the buyer. -/
structure OrderChange where
  apply : PaymentOrder → PaymentOrder
  id_eq : ∀ o, (apply o).id = o.id
  version_eq : ∀ o, (apply o).version = o.version
  leaseUntil_eq : ∀ o, (apply o).leaseUntil = o.leaseUntil
  userId_eq : ∀ o, (apply o).userId = o.userId

/-- Write the leased order with `change` applied, conditional on its current state. On
success the copy carries the version the store now holds. -/
def write (leased : Leased) (change : OrderChange) (orders : PaymentOrders) :
    PaymentOrders × Result Leased :=
  let next := change.apply leased.order
  match updatePaymentOrderIfState next leased.order.state orders with
  | (orders', .ok true) =>
    (orders', .ok { leased with order := { next with version := next.version + 1 } })
  | (orders', .ok false) => (orders', .error .internalError)
  | (orders', .error e) => (orders', .error e)

/-- A write that succeeds finds a row that agrees with the copy on state, version, lease
and buyer, and leaves the changed copy under the next version. -/
theorem write_cases (leased : Leased) (change : OrderChange) (orders : PaymentOrders) :
    ((write leased change orders).1 = orders ∧
        ∀ leased', (write leased change orders).2 ≠ .ok leased') ∨
      ∃ row, orders.get leased.order.id = some row ∧ row.state = leased.order.state ∧
        row.version = leased.order.version ∧ row.leaseUntil = leased.order.leaseUntil ∧
        row.userId = leased.order.userId ∧
        write leased change orders = (orders.insert leased.order.id
              { change.apply leased.order with version := leased.order.version + 1 },
            .ok { leased with order :=
              { change.apply leased.order with version := leased.order.version + 1 } }) := by
  unfold write
  dsimp only
  rcases updatePaymentOrderIfState_cases (change.apply leased.order) leased.order.state orders with
    ⟨hsa, href⟩ | ⟨row, hg, hst, hver, hleas, huse, -, heq⟩
  · refine .inl ?_
    split
    · rename_i heq
      exact absurd (congrArg Prod.snd heq) href
    · rename_i heq
      exact ⟨by rw [← hsa, heq], fun _ h => by simp at h⟩
    · rename_i heq
      exact ⟨by rw [← hsa, heq], fun _ h => by simp at h⟩
  · rw [change.id_eq] at hg
    rw [change.version_eq] at hver
    rw [change.leaseUntil_eq] at hleas
    rw [change.userId_eq] at huse
    refine .inr ⟨row, hg, hst, hver, hleas, huse, ?_⟩
    rw [heq, change.id_eq, change.version_eq]

end SlogaBackend.Payments
