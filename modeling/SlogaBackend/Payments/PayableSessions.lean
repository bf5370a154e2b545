import SlogaBackend.Payments.Checkout
import SlogaBackend.Payments.Leases

/-!
# One payable session

A checkout refuses to start while the buyer has an order of the same family that is still
being paid: one whose session is open, or one that is being created. The order is stored as
creating before its session is made, so that the next checkout sees it.

But the look and the insert are two calls. Two checkouts that both look before either has
inserted both find nothing, and the buyer ends with two sessions to pay
(`two_payable_sessions`). Where nothing live is stored at the moment of an insert, a buyer
never has two payable sessions of one family (`one_payable_session`): an order becomes
pending only from creating, by the worker that inserted it, so a payable order was live
all along.

## The rules of a checkout

`Local.mayCheckout` says what a checkout does to orders: it inserts one as creating, takes
the lease of the one it inserted, and writes that one once.
-/

namespace SlogaBackend.Payments

variable {sha256 : List UInt8 → List UInt8}

/-! ## The rules -/

/-- A time of creation at which an order that is still creating blocks until `T`. -/
def InWindow (T createdAt : Int) : Prop :=
  createdAt ≤ T ∧ clampI64 (T - createdAt) < creatingBlocksMs

instance (T createdAt : Int) : Decidable (InWindow T createdAt) :=
  inferInstanceAs (Decidable (_ ∧ _))

/-- A change that makes or fails the session of a creating order. -/
structure SessionWrite (c o : PaymentOrder) : Prop where
  creating : c.state = .creating
  version : o.version = c.version
  sku : o.sku = c.sku
  createdAt : o.createdAt = c.createdAt

def Local.mayCheckout (T : Int) (l : Local) : Call → Prop
  | .orders (.insert o) => o.state = .creating ∧ InWindow T o.createdAt
  | .orders (.acquire id _ _) => l.placed = some id
  | .orders (.update o expected) =>
    expected = .creating ∧ ∃ c, l.copies.get o.id = some c ∧ SessionWrite c o
  | .orders (.unlink _) => False
  | _ => True

/-- The lease of an order that was just inserted comes with the order as it was inserted. -/
def freshAnswer : (c : Call) → Answer c → Prop
  | .orders (.acquire id _ _), answer =>
    ∀ o, answer = Except.ok (some o) → o.id = id ∧ o.state = .creating
  | _, _ => True

def checkoutConduct (T : Int) : Discipline Call Answer Local where
  init := Local.init
  note := Local.note
  allowed := Local.mayCheckout T
  possible := freshAnswer

/-- From wherever it is run, the program keeps the rules. -/
def Keeps {α : Type} (T : Int) (p : Engine α) : Prop := p.Frames (checkoutConduct T) fun _ => ()

section Keeps

variable {α β : Type} {T : Int} {p : Engine α} {leased : Leased} {k : α → Engine β}

theorem Keeps.bind (hp : Keeps T p) (hk : ∀ a, Keeps T (k a)) :
    Keeps T (p >>= k) := Frames.bind hp hk

theorem keeps_done (result : Result α) : Keeps T (Prog.done result) := Frames.done result

theorem keeps_pure (a : α) : Keeps T (pure a) := keeps_done _

theorem keeps_failWith (e : Error) : Keeps T (failWith e : Engine α) := keeps_done _

theorem keeps_call {c : Call} {rest : Answer c → Engine α} (hc : ∀ l : Local, l.mayCheckout T c)
    (hrs : ∀ answer, Keeps T (rest answer)) : Keeps T (Prog.call c rest) :=
  Frames.call hc (fun _ _ => rfl) hrs

theorem keeps_memberships (op : MembershipOp) : Keeps T (memberships op) :=
  keeps_call (fun _ => trivial) fun _ => keeps_done _

theorem keeps_numbers (op : NumberOp) : Keeps T (numbers op) :=
  keeps_call (fun _ => trivial) fun _ => keeps_done _

theorem keeps_ledger (op : LedgerOp) : Keeps T (ledger op) :=
  keeps_call (fun _ => trivial) fun _ => keeps_done _

theorem keeps_users (op : UserOp) : Keeps T (users op) :=
  keeps_call (fun _ => trivial) fun _ => keeps_done _

theorem keeps_fetchByUser (userId : String) (states : List OrderState) :
    Keeps T (orders (.fetchByUser userId states)) :=
  keeps_call (fun _ => trivial) fun _ => keeps_done _

/-! ### Gates -/

theorem keeps_releasePendingOn (number : Nat) (orderIds : List String) :
    Keeps T (releasePendingOn number orderIds) := by
  induction orderIds with
  | nil => exact keeps_pure _
  | cons orderId rest ih =>
    refine (keeps_numbers _).bind fun row => ?_
    cases row with
    | none => exact ih
    | some row =>
      dsimp only
      split
      · exact keeps_pure _
      · exact ih

theorem keeps_releaseRunning (row : Option CipherMembership) : Keeps T (releaseRunning row) := by
  cases row with
  | none => exact keeps_pure _
  | some m => exact keeps_releasePendingOn _ _

theorem keeps_regionRefused (s : PaymentsSettings) (userId : String) (nowMs : Int) :
    Keeps T (regionRefused s userId nowMs) := by
  unfold regionRefused
  split
  · exact keeps_pure _
  · exact (keeps_fetchByUser _ _).bind fun _ => keeps_pure _

theorem keeps_quoteRefused (s : PaymentsSettings) (membership : Option CipherMembership) (sku : Sku) :
    Keeps T (quoteRefused s membership sku) := by
  cases sku with
  | cipherUpgrade _ _ | protPack _ _ _ | protExact _ => exact keeps_pure _
  | cipherNew _ => exact (keeps_numbers _).bind fun _ => keeps_pure _

theorem keeps_purchaseApplied (orderId : String) : Keeps T (purchaseApplied orderId) :=
  (keeps_ledger _).bind fun _ => keeps_pure _

theorem keeps_uncreditedProt (found : List PaymentOrder) (uncredited : Int) :
    Keeps T (uncreditedProt found uncredited) := by
  induction found generalizing uncredited with
  | nil => exact keeps_pure _
  | cons order rest ih =>
    unfold uncreditedProt
    refine (keeps_purchaseApplied _).bind fun applied => ?_
    split
    · exact ih _
    · exact ih _

theorem keeps_walletBalance (userId : String) : Keeps T (walletBalance userId) := by
  refine (keeps_ledger _).bind fun account => ?_
  cases account <;> exact keeps_pure _

/-! ### The new order -/

variable {l : Local}

theorem obeys_then (hp : p.Obeys (checkoutConduct T) (fun _ _ => True) l) (hk : ∀ a, Keeps T (k a))
    :
    (p.bind k).Obeys (checkoutConduct T) (fun _ _ => True) l := by
  refine Obeys.bind (hp.mono fun l' r _ => ?_)
  cases r with
  | ok a => exact (hk a l').mono fun _ _ _ => trivial
  | error e => exact trivial

theorem Keeps.obeys (h : Keeps T p) (l : Local) :
    p.Obeys (checkoutConduct T) (fun _ _ => True) l := (h l).mono fun _ _ _ => trivial

theorem obeys_sessionWrite {change : PaymentOrder → PaymentOrder}
    (hcp : l.copies.get leased.order.id = some leased.order)
    (hid : (change leased.order).id = leased.order.id)
    (hwri : SessionWrite leased.order (change leased.order)) :
    (Work.write change leased).Obeys (checkoutConduct T) (fun _ _ => True) l := by
  have hall : l.mayCheckout T (.orders (.update (change leased.order) leased.order.state)) :=
    ⟨hwri.creating, leased.order, by rw [hid, hcp], hwri⟩
  refine Obeys.bind (Obeys.attempt (Obeys.bind ⟨hall, fun answer _ => ?_⟩))
  match answer with
  | .ok true => exact trivial
  | .ok false =>
    refine Obeys.bind (Obeys.attempt (Obeys.bind ⟨trivial, fun answer' _ => ?_⟩))
    cases answer' <;> exact trivial
  | .error e => exact trivial

theorem obeys_sessionFailed (hcp : l.copies.get leased.order.id = some leased.order)
    (hcreat : leased.order.state = .creating) :
    (sessionFailed leased).Obeys (checkoutConduct T) (fun _ _ => True) l := by
  have hwri : SessionWrite leased.order { leased.order with state := .sessionFailed } :=
    ⟨hcreat, rfl, rfl, rfl⟩
  refine obeys_then (obeys_then (obeys_sessionWrite hcp rfl hwri) fun _ => keeps_done _) fun r => ?_
  split
  · exact keeps_done _
  · exact keeps_done _

theorem obeys_order {k : PaymentOrder → Work α}
    (h : (k leased.order leased).Obeys (checkoutConduct T) (fun _ _ => True) l) :
    ((Work.order >>= k) leased).Obeys (checkoutConduct T) (fun _ _ => True) l := h

theorem obeys_startSession (s : PaymentsSettings) (successUrl cancelUrl : String)
    (hcp : l.copies.get leased.order.id = some leased.order)
    (hcreat : leased.order.state = .creating) :
    (startSessionWithUrls s successUrl cancelUrl leased).Obeys (checkoutConduct T) (fun _ _ => True) l := by
  refine obeys_order ?_
  cases leased.order.userId with
  | none => exact trivial
  | some userId =>
    -- Stripe's answer moves nothing a worker knows of its order
    refine Obeys.bind (Obeys.bind (Obeys.attempt ⟨trivial, fun answer _ => ?_⟩))
    cases answer with
    | error e => exact obeys_sessionFailed hcp hcreat
    | ok session =>
      cases hurl : sessionUrl s (sessionParams s leased.order userId successUrl cancelUrl) session with
      | none =>
        simp only [Prog.Obeys, hurl]
        exact obeys_sessionFailed hcp hcreat
      | some url =>
        simp only [Prog.Obeys, hurl]
        have hwri : SessionWrite leased.order (recordPending
            (sessionParams s leased.order userId successUrl cancelUrl) session url leased.order) :=
          ⟨hcreat, rfl, rfl, rfl⟩
        refine obeys_then (obeys_sessionWrite hcp rfl hwri) fun r => ?_
        split
        · exact keeps_done _
        · exact keeps_done _

theorem keeps_release (leased : Leased) : Keeps T (release leased) := by
  refine Keeps.bind (Prog.Frames.attempt (keeps_call (fun _ => trivial) fun _ => ?_)) fun _ =>
    keeps_pure _
  exact keeps_done _

theorem keeps_openOrder (s : PaymentsSettings) {order : PaymentOrder} (urls : String × String)
    (nowMs : Int) (hcreat : order.state = .creating) (hwin : InWindow T order.createdAt) :
    Keeps T (openOrder s order urls nowMs) := by
  intro l
  have hobe : (openOrder s order urls nowMs).Obeys (checkoutConduct T) (fun _ _ => True) l := by
    refine Obeys.bind (Obeys.bind ⟨⟨hcreat, hwin⟩, fun answer _ => ?_⟩)
    cases answer with
    | error e => exact trivial
    | ok _ =>
      refine Obeys.bind (Obeys.bind (Obeys.bind ⟨rfl, fun answer hfr => ?_⟩))
      match answer, hfr with
      | .error e, _ => exact trivial
      | .ok none, _ =>
        refine Obeys.bind (Obeys.bind ⟨trivial, fun answer' _ => ?_⟩)
        match answer' with
        | .error _ | .ok none | .ok (some _) => exact trivial
      | .ok (some o), hfr =>
        obtain ⟨hid, hst⟩ := hfr o rfl
        have hcp : ((l.copies.insert order.id o).get o.id) = some o := by
          rw [hid, get_insert_self]
        refine obeys_then (obeys_then (obeys_startSession s urls.1 urls.2 hcp hst)
          fun r => (keeps_release _).bind fun _ => keeps_pure _) fun _ => keeps_done _
  exact hobe.mono fun _ _ _ => rfl

/-! ### Checkouts -/

theorem keeps_openUnlessLive (s : PaymentsSettings) (live : Option (Result String))
    (orderId userId : String) (sku : Sku) (urls : String × String) {nowMs : Int}
    (hwin : InWindow T nowMs) : Keeps T (openUnlessLive s live orderId userId sku urls nowMs) := by
  unfold openUnlessLive
  cases live with
  | some answer => exact keeps_done _
  | none =>
    cases skuCents sku with
    | error e => exact keeps_failWith e
    | ok cents => exact keeps_openOrder s urls nowMs rfl hwin

section

variable (s : PaymentsSettings) (userId : String) (tier : CipherTier) (returnTo : CipherReturnTo)
  (orderId : String) {nowMs : Int}

theorem keeps_quoteCipher (row : Option CipherMembership) (hwin : InWindow T nowMs) :
    Keeps T (quoteCipher s userId tier returnTo orderId row nowMs) := by
  unfold quoteCipher
  dsimp only
  split
  · exact keeps_failWith _
  · refine (keeps_quoteRefused _ _ _).bind fun refused => ?_
    cases refused with
    | some e => exact keeps_failWith e
    | none => exact (keeps_fetchByUser _ _).bind fun found => keeps_openUnlessLive _ _ _ _ _ _ hwin

theorem keeps_createCipherCheckout (hwin : InWindow T nowMs) :
    Keeps T (createCipherCheckout s userId tier returnTo orderId nowMs) := by
  unfold createCipherCheckout
  split
  · exact keeps_failWith _
  split
  · exact keeps_failWith _
  refine (keeps_regionRefused _ _ _).bind fun refused => ?_
  split
  · exact keeps_failWith _
  refine (keeps_memberships _).bind fun row => (keeps_releaseRunning _).bind fun running => ?_
  split
  · exact keeps_failWith _
  · exact keeps_quoteCipher _ _ _ _ _ _ hwin

end

section

variable (s : PaymentsSettings) (ps : ProtSalesSettings) (userId : String) (choice : ProtChoice)
  (returnTo : CipherReturnTo) (orderId : String) {nowMs : Int}

theorem keeps_quoteProtOrder (found : List PaymentOrder) (hwin : InWindow T nowMs) :
    Keeps T (quoteProtOrder s ps userId choice returnTo orderId found nowMs) := by
  unfold quoteProtOrder
  split
  · exact keeps_failWith _
  split
  · exact keeps_failWith _
  refine (keeps_uncreditedProt _ _).bind fun uncredited =>
    (keeps_walletBalance _).bind fun balance => ?_
  split
  · exact keeps_failWith _
  · exact keeps_openUnlessLive _ _ _ _ _ _ hwin

theorem keeps_createProtCheckout (hwin : InWindow T nowMs) :
    Keeps T (createProtCheckout s ps userId choice returnTo orderId nowMs) := by
  unfold createProtCheckout
  split
  · exact keeps_failWith _
  split
  · exact keeps_failWith _
  split
  · exact keeps_failWith _
  refine (keeps_users _).bind fun user => ?_
  split
  · exact keeps_failWith _
  refine (keeps_fetchByUser _ _).bind fun found => ?_
  split
  · exact keeps_failWith _
  split
  · exact keeps_failWith _
  · exact keeps_quoteProtOrder _ _ _ _ _ _ _ hwin

end

end Keeps

/-- The clock a checkout runs under. -/
def Checkout.nowMs : Checkout → Int
  | .cipher _ _ _ _ nowMs => nowMs
  | .prot _ _ _ _ _ nowMs => nowMs

variable {T : Int} {o row : PaymentOrder} {w : World} {pid q : Nat} {id : String}

theorem keeps_checkOut (s : PaymentsSettings) {checkout : Checkout}
    (hwin : InWindow T checkout.nowMs) : Keeps T (checkOut s checkout) := by
  cases checkout with
  | cipher userId tier returnTo orderId nowMs =>
    exact keeps_createCipherCheckout s userId tier returnTo orderId hwin
  | prot ps userId choice returnTo orderId nowMs =>
    exact keeps_createProtCheckout s ps userId choice returnTo orderId hwin

/-! ## Live orders -/

/-- What is live stays live when the clock goes back. -/
theorem isLive_anti {now later : Int} (hle : now ≤ later) (h : isLive later o = true) :
    isLive now o = true := by
  unfold isLive at h ⊢
  cases hst : o.state with
  | pending =>
    simp only [hst] at h ⊢
    cases hexp : o.sessionExpiresAt with
    | none => exact absurd h (by simp [hexp])
    | some at_ =>
      simp only [hexp, any_some, decide_eq_true_eq] at h ⊢
      omega
  | creating =>
    simp only [hst, decide_eq_true_eq] at h ⊢
    have hmn : clampI64 (now - o.createdAt) ≤ clampI64 (later - o.createdAt) :=
      max_le_max_left minI64 (min_le_min_right maxI64 (by omega))
    omega
  | _ => exact absurd h (by simp [hst])

/-- An order of the window that is creating is live. -/
theorem isLive_of_creating (hst : o.state = .creating) (hwin : InWindow T o.createdAt) :
    isLive T o = true := by
  unfold isLive
  rw [hst]
  exact decide_eq_true hwin.2

/-- Two orders of one buyer and one family. -/
def PaymentOrder.SameLine (o o' : PaymentOrder) : Prop :=
  o.userId.isSome = true ∧ o'.userId = o.userId ∧ o'.sku.family = o.sku.family

instance (o o' : PaymentOrder) : Decidable (o.SameLine o') :=
  inferInstanceAs (Decidable (_ ∧ _ ∧ _))

/-- No buyer has two live orders of one family. -/
def PaymentOrders.SingleLive (T : Int) (orders : PaymentOrders) : Prop :=
  ∀ id id' o o', orders.get id = some o → orders.get id' = some o' → o.SameLine o' →
    isLive T o = true → isLive T o' = true → id = id'

/-- Rows that stand for the rows before, with the same buyer and family, and live only if
those were. -/
theorem PaymentOrders.SingleLive.of_before {before after : PaymentOrders} (h : before.SingleLive T)
    (hbc : ∀ id o', after.get id = some o' → ∃ o, before.get id = some o ∧
      o.userId = o'.userId ∧ o.sku = o'.sku ∧ (isLive T o' = true → isLive T o = true)) :
    after.SingleLive T := by
  intro id id' o o' hg hg' hln hlv hlv'
  obtain ⟨p, hp, huse, hsku, hliv⟩ := hbc id o hg
  obtain ⟨p', hp', huse', hsku', hliv'⟩ := hbc id' o' hg'
  obtain ⟨hso, hsm, hfam⟩ := hln
  refine h id id' p p' hp hp' ⟨?_, ?_, ?_⟩ (hliv hlv) (hliv' hlv')
  · rw [huse, hso]
  · rw [huse, huse', hsm]
  · rw [hsku, hsku', hfam]

theorem PaymentOrders.SingleLive.insert {orders : PaymentOrders} (h : orders.SingleLive T)
    (hfre : ∀ id row, orders.get id = some row → o.SameLine row → isLive T row = false) :
    PaymentOrders.SingleLive T (Table.insert orders o.id o) := by
  intro id id' p p' hg hg' hln hlv hlv'
  rw [get_insert] at hg hg'
  split at hg <;> split at hg'
  · rename_i hid hid'
    rw [hid, hid']
  · cases hg
    exact absurd hlv' (by rw [hfre id' p' hg' hln]; simp)
  · cases hg'
    obtain ⟨hso, hsm, hfam⟩ := hln
    have hbc : o.SameLine p := ⟨by rw [hsm, hso], hsm.symm, hfam.symm⟩
    exact absurd hlv (by rw [hfre id p hg hbc]; simp)
  · exact h id id' p p' hg hg' hln hlv hlv'

/-! ## The invariant -/

/-- The worker is at its insert, and nothing live of the buyer and the family is stored. -/
def World.InsertsAlone (w : World) : Call → Prop
  | .orders (.insert o) => ∀ row ∈ w.store.orders.values, o.SameLine row →
    isLive o.createdAt row = false
  | _ => True

instance (w : World) : (c : Call) → Decidable (w.InsertsAlone c)
  | .orders (.insert o) => inferInstanceAs (Decidable (∀ row ∈ w.store.orders.values,
      o.SameLine row → isLive o.createdAt row = false))
  | .orders (.fetch _) => isTrue trivial
  | .orders (.fetchByUser _ _) => isTrue trivial
  | .orders (.acquire _ _ _) => isTrue trivial
  | .orders (.release _ _) => isTrue trivial
  | .orders (.update _ _) => isTrue trivial
  | .orders (.unlink _) => isTrue trivial
  | .memberships _ => isTrue trivial
  | .numbers _ => isTrue trivial
  | .ledger _ => isTrue trivial
  | .users _ => isTrue trivial
  | .stripe _ => isTrue trivial
  | .protSettings => isTrue trivial

/-- An order that was inserted and not leased yet is as it was inserted. -/
structure Untouched (T : Int) (w : World) (pid : Nat) (id : String) : Prop where
  row : ∃ row, w.store.orders.get id = some row ∧ row.state = .creating ∧ InWindow T row.createdAt
  unleased : ∀ q c, (w.locals q).copies.get id ≠ some c
  only : ∀ q, (w.locals q).placed = some id → q = pid

structure SessionsSound (T : Int) (w : World) : Prop where
  leases : CopiesTrack w
  placed : ∀ pid id, (w.locals pid).placed = some id → Untouched T w pid id
  window : ∀ pid id c, (w.locals pid).copies.get id = some c → InWindow T c.createdAt
  single : w.store.orders.SingleLive T

theorem SessionsSound.start {store : Store} (hkey : store.Keyed)
    (hsin : store.orders.SingleLive T) : SessionsSound T (World.start store) :=
  ⟨CopiesTrack.start hkey, fun _ _ hplac => absurd hplac (by simp [World.start, Local.init]),
    fun _ _ _ hcp => absurd hcp (by simp [World.start, Local.init]), hsin⟩

theorem Local.writesHeld_of_mayCheckout {l : Local} {c : Call} (h : l.mayCheckout T c) :
    l.WritesHeld c := by
  rintro o expected rfl
  obtain ⟨-, c0, hcp, hwri⟩ := h
  exact ⟨c0, hcp, hwri.version, hwri.sku⟩

theorem SessionsSound.live_of_held (h : SessionsSound T w) {c0 : PaymentOrder}
    (hcp : (w.locals pid).copies.get o.id = some c0) (hwri : SessionWrite c0 o)
    (hg : w.store.orders.get o.id = some row) (hver : row.version = o.version) :
    row.state = .creating ∧ InWindow T row.createdAt ∧ row.sku = o.sku := by
  obtain ⟨row', hg', htrk⟩ := h.leases.copies pid o.id c0 hcp
  obtain rfl : row' = row := some.inj (hg'.symm.trans hg)
  have hagr := htrk.agrees (htrk.holder (hwri.version.symm.trans hver.symm))
  have hcre : row'.createdAt = c0.createdAt := by rw [hagr]
  refine ⟨hagr.state.trans hwri.creating, ?_, htrk.sku.trans hwri.sku.symm⟩
  rw [hcre]
  exact h.window pid o.id c0 hcp

theorem SessionsSound.single_perform (h : SessionsSound T w) (pid : Nat) (c : Call)
    (hmay : (w.locals pid).mayCheckout T c) (halo : w.InsertsAlone c) :
    (w.perform sha256 pid c).1.store.orders.SingleLive T := by
  by_cases hins : ∃ o, c = .orders (.insert o)
  · obtain ⟨o, rfl⟩ := hins
    cases orderStep sha256 pid (.orders (.insert o)) w with
    | same htab => exact htab ▸ h.single
    | inserted o' hcl hno htab =>
      cases hcl
      rw [htab]
      refine h.single.insert fun id row hg hln => ?_
      have hnot := halo row (mem_values_of_get hg) hln
      cases hlv : isLive T row with
      | false => rfl
      | true => exact absurd (isLive_anti hmay.2.1 hlv) (by rw [hnot]; simp)
    | acquired id now untilMs row hcl | written o' expected row hcl | released id untilMs hcl
    | unlinked userId hcl =>
      cases hcl
  refine h.single.of_before fun id row' hg' => ?_
  obtain ⟨hcl, -⟩ | ⟨row, hg, hrow⟩ := rowStep_back sha256 hg'
  · exact absurd ⟨row', hcl⟩ hins
  refine ⟨row, hg, ?_⟩
  cases hrow with
  | written o expected hcl hid hver huse =>
    subst hcl hid
    obtain ⟨-, c0, hcp, hwri⟩ := hmay
    obtain ⟨hcreat, hwin, hsku⟩ := h.live_of_held hcp hwri hg hver
    exact ⟨huse, hsku, fun _ => isLive_of_creating hcreat hwin⟩
  | unlinked userId row' hcl =>
    subst hcl
    exact False.elim hmay
  | _ => exact ⟨rfl, rfl, fun hlv => hlv⟩

/-- A copy after a checkout's call is one of before, or was made from one of before, or
comes with the lease of the order that the worker inserted. -/
theorem copy_cases {c : Call} (hmay : (w.locals pid).mayCheckout T c) {copy : PaymentOrder}
    (hcp : ((w.perform sha256 pid c).1.locals q).copies.get id = some copy) :
    (∃ copy', (w.locals q).copies.get id = some copy' ∧ copy.createdAt = copy'.createdAt) ∨
      (q = pid ∧ (w.locals pid).placed = some id ∧
        ((w.perform sha256 pid c).1.locals pid).placed = none ∧
        ∃ row, w.store.orders.get id = some row ∧ copy.createdAt = row.createdAt) := by
  by_cases hq : q = pid
  · subst hq
    cases orderStep sha256 q c w with
    | same htab hcop | inserted o hcl hno htab hcop =>
      rw [hcop] at hcp
      exact .inl ⟨copy, hcp, rfl⟩
    | acquired id' now untilMs row hcl hg htab hloc =>
      subst hcl
      rw [hloc, get_insert] at hcp
      split at hcp
      · rename_i hid
        subst hid
        cases hcp
        exact .inr ⟨rfl, hmay, by rw [hloc], row, hg, rfl⟩
      · exact .inl ⟨copy, hcp, rfl⟩
    | written o expected row hcl hg hst hver hleas huse htab hloc =>
      subst hcl
      obtain ⟨-, c0, hcp0, hwri⟩ := hmay
      rw [hloc] at hcp
      have hcp' := (get_insert _ _ _ _).symm.trans hcp
      split at hcp'
      · rename_i hid
        subst hid
        cases hcp'
        exact .inl ⟨c0, hcp0, hwri.createdAt⟩
      · exact .inl ⟨copy, hcp', rfl⟩
    | released id' untilMs hcl htab hloc =>
      rw [hloc, get_erase] at hcp
      split at hcp
      · cases hcp
      · exact .inl ⟨copy, hcp, rfl⟩
    | unlinked userId hcl =>
      subst hcl
      exact False.elim hmay
  · rw [locals_other sha256 pid c w q hq] at hcp
    exact .inl ⟨copy, hcp, rfl⟩

theorem SessionsSound.unknown (h : SessionsSound T w) (hno : w.store.orders.get id = none)
    (q : Nat) : (w.locals q).placed ≠ some id ∧ ∀ c, (w.locals q).copies.get id ≠ some c := by
  constructor
  · intro hplac
    obtain ⟨row, hg, -⟩ := (h.placed q id hplac).row
    cases hno.symm.trans hg
  · intro c hcp
    obtain ⟨row, hg, -⟩ := h.leases.copies q id c hcp
    cases hno.symm.trans hg

theorem placed_cases {c : Call} (hplac : ((w.perform sha256 pid c).1.locals q).placed = some id) :
    (w.locals q).placed = some id ∨
      (q = pid ∧ ∃ o, c = .orders (.insert o) ∧ o.id = id ∧ w.store.orders.get id = none ∧
        (w.perform sha256 pid c).1.store.orders.get id = some o) := by
  by_cases hq : q = pid
  · subst hq
    cases orderStep sha256 q c w with
    | same htab hcop hhol hrec hmr hkp => exact .inl (by rw [← hkp, hplac])
    | inserted o hcl hno htab hloc =>
      rw [hloc] at hplac
      cases hplac
      exact .inr ⟨rfl, o, hcl, rfl, hno, by rw [htab, get_insert_self]⟩
    | acquired id' now untilMs row hcl hg htab hloc =>
      rw [hloc] at hplac
      cases hplac
    | written o expected row hcl hg hst hver hleas huse htab hloc
    | released id' untilMs hcl htab hloc | unlinked userId hcl htab hloc =>
      rw [hloc] at hplac
      exact .inl hplac
  · exact .inl (by rw [← locals_other sha256 pid c w q hq, hplac])

theorem row_stays {c : Call} (hmay : (w.locals pid).mayCheckout T c)
    (hunl : ∀ o, (w.locals pid).copies.get id ≠ some o) (hg : w.store.orders.get id = some row) :
    ∃ row', (w.perform sha256 pid c).1.store.orders.get id = some row' ∧
      row'.state = row.state ∧ row'.createdAt = row.createdAt := by
  obtain ⟨row', hg', hrow⟩ := rowStep sha256 pid c hg
  refine ⟨row', hg', ?_⟩
  cases hrow with
  | written o expected hcl hid =>
    subst hcl hid
    obtain ⟨-, c0, hcp, -⟩ := hmay
    exact absurd hcp (hunl c0)
  | unlinked userId row' hcl =>
    subst hcl
    exact False.elim hmay
  | _ => exact ⟨rfl, rfl⟩

section

variable (h : SessionsSound T w) (pid : Nat) (c : Call) (hmay : (w.locals pid).mayCheckout T c)
include h hmay

theorem SessionsSound.placed_perform
    (hplac : ((w.perform sha256 pid c).1.locals q).placed = some id) :
    Untouched T (w.perform sha256 pid c).1 q id := by
  rcases placed_cases hplac with hbef | ⟨rfl, o, rfl, rfl, hno, hg⟩
  · have hunt := h.placed q id hbef
    obtain ⟨row, hg, hcreat, hwin⟩ := hunt.row
    obtain ⟨row', hg', hst, hcre⟩ := row_stays hmay (hunt.unleased pid) hg
    refine ⟨⟨row', hg', hst.trans hcreat, by rw [hcre]; exact hwin⟩,
      fun q' copy hcp => ?_, fun q' hplac' => ?_⟩
    · rcases copy_cases hmay hcp with ⟨copy', hcp', -⟩ | ⟨-, hpid, hno, -⟩
      · exact hunt.unleased q' copy' hcp'
      · -- the worker that leases the order is the one that placed it
        obtain rfl := hunt.only pid hpid
        cases hno.symm.trans hplac
    · rcases placed_cases hplac' with hbef' | ⟨-, o, -, -, hno, -⟩
      · exact hunt.only q' hbef'
      · cases hno.symm.trans hg
  · refine ⟨⟨o, hg, hmay⟩, fun q' copy hcp => ?_, fun q' hplac' => ?_⟩
    · rcases copy_cases hmay hcp with ⟨copy', hcp', -⟩ | ⟨-, hpid, -⟩
      · exact (h.unknown hno q').2 copy' hcp'
      · exact absurd hpid (h.unknown hno q).1
    · rcases placed_cases hplac' with hbef' | ⟨hq', -⟩
      · exact absurd hbef' (h.unknown hno q').1
      · exact hq'

/-- **One call.** -/
theorem SessionsSound.perform (halo : w.InsertsAlone c) :
    SessionsSound T (w.perform sha256 pid c).1 := by
  refine ⟨h.leases.perform pid c (Local.writesHeld_of_mayCheckout hmay),
    fun q id hplac => h.placed_perform pid c hmay hplac, fun q id copy hcp => ?_,
    h.single_perform pid c hmay halo⟩
  rcases copy_cases hmay hcp with ⟨copy', hcp', hcre⟩ | ⟨-, hplac, -, row, hg, hcre⟩
  · rw [hcre]
    exact h.window q id copy' hcp'
  · obtain ⟨row', hg', -, hwin⟩ := (h.placed pid id hplac).row
    cases hg'.symm.trans hg
    rw [hcre]
    exact hwin

theorem SessionsSound.possible : freshAnswer c (w.perform sha256 pid c).2 := by
  cases c with
  | orders op =>
    cases op with
    | acquire id now untilMs =>
      obtain ⟨row, hg, hcreat, -⟩ := (h.placed pid id hmay).row
      intro o ho
      rcases perform_orders_cases sha256 (.acquire id now untilMs) w.store with
        ⟨e, hperf⟩ | hperf
      · rw [perform_eq hperf] at ho
        cases ho
      · rw [perform_eq hperf] at ho
        obtain ⟨row', hg', rfl⟩ := leased_of_acquired ho
        cases hg.symm.trans hg'
        exact ⟨h.leases.keyed.orders id row hg, hcreat⟩
    | _ => exact trivial
  | _ => exact trivial

end

/-! ## Runs -/

/-- A watched system of checkouts, each under the settings it was started with. -/
abbrev Checkouts := System World (PaymentsSettings × Checkout) Error Call Answer String

namespace Checkouts

def exec (sha256 : List UInt8 → List UInt8) : Checkouts → Event (PaymentsSettings × Checkout) →
    Checkouts × Unit :=
  System.exec (World.perform sha256) fun request => checkOut request.1 request.2

/-- The clocks of the checkouts lie in one window up to `T`, and each call meets a
condition. -/
def Admits (T : Int) (permits : Nat → Call → World → Prop) :
    Checkouts → Event (PaymentsSettings × Checkout) → Prop :=
  System.StepAdmits (fun request => InWindow T request.2.nowMs) permits

instance (T : Int) (permits : Nat → Call → World → Prop) [∀ pid c w, Decidable (permits pid c w)]
    (sys : Checkouts) (event : Event (PaymentsSettings × Checkout)) :
    Decidable (Admits T permits sys event) := System.StepAdmits.decidable _ _ sys event

def idle (store : Store) : Checkouts := System.idle (World.start store)

end Checkouts

/-- An order that can be paid at `T`. -/
def PaymentOrder.Payable (T : Int) (o : PaymentOrder) : Prop :=
  o.state = .pending ∧ ∃ at_, o.sessionExpiresAt = some at_ ∧ T < at_

theorem PaymentOrder.Payable.isLive (h : o.Payable T) : isLive T o = true := by
  obtain ⟨hst, at_, hexp, hlt⟩ := h
  unfold Payments.isLive
  rw [hst, hexp]
  exact decide_eq_true hlt

/-- No buyer has two payable orders of one family. -/
def World.OnePayable (T : Int) (w : World) : Prop :=
  ∀ id id' o o', w.store.orders.get id = some o → w.store.orders.get id' = some o' →
    o.SameLine o' → o.Payable T → o'.Payable T → id = id'

/-- **One payable session.** Take checkouts whose clocks lie in one window up to `T`, in any
interleaving in which no live order of its buyer and family is stored when an order is
inserted. Then in every state reached no buyer has two orders of one family that can be
paid at `T`. -/
theorem one_payable_session {T : Int} {store : Store} (hkeyed : store.Keyed)
    (hsingle : store.orders.SingleLive T) {sys : Checkouts}
    (hreached : Reachable (Checkouts.exec sha256)
      (Checkouts.Admits T fun _ c w => w.InsertsAlone c) (Checkouts.idle store) sys) :
    sys.store.OnePayable T := by
  obtain ⟨h, hrun⟩ := hreached
  have hlawful : System.Lawful (checkoutConduct T) World.locals (fun _ _ _ => True)
      (SessionsSound T) sys :=
    System.Lawful.run (D := checkoutConduct T) (locals_own sha256) (locals_other sha256)
      (fun request hwindow => (keeps_checkOut request.1 hwindow).obeys _)
      (fun pid c w hw hpermits hmay => ⟨hw.perform pid c hmay hpermits, hw.possible pid c hmay⟩)
      (System.lawful_idle (SessionsSound.start hkeyed hsingle) fun _ => rfl) hrun
  intro id id' o o' hget hget' hline hpay hpay'
  exact hlawful.store.single id id' o o' hget hget' hline hpay.isLive hpay'.isLive

/-! ## Two payable sessions -/

namespace TwoCheckouts

open Sample

/-- A Stripe that makes every session it is asked for. -/
def answering : Outside where
  stripe
    | _, .createCheckoutSession params => .ok
      { id := params.orderId
        url := some params.orderId
        paymentStatus := none
        paymentIntent := none
        amountTotal := some params.amountCents
        currency := some params.currency
        livemode := true
        clientReferenceId := some params.userId
        metadataOrderId := some params.orderId
        expiresAt := some params.expiresAtSecs
        billingCountry := none }
    | _, _ => .error (.transport "")
  refundTaken _ := false
  protSettings _ := protSettings
  ulid _ := ""
  outage _ := none

def start : Checkouts := Checkouts.idle (store answering [])

/-- A checkout of the user for an order of the given name. -/
def checksOut (pid : Nat) (orderId : String) (nowMs : Int) : Event (PaymentsSettings × Checkout) :=
  .start pid (settings, .cipher "u" .t99 .web orderId nowMs)

/-- One checkout, to its end. -/
def first : List (Event (PaymentsSettings × Checkout)) :=
  checksOut 1 "A" 1000 :: List.replicate 8 (.step 1)

/-- A second one starts before the first has stored its order, and looks too. -/
def both : List (Event (PaymentsSettings × Checkout)) :=
  checksOut 1 "A" 1000 :: List.replicate 3 (.step 1) ++
    (checksOut 2 "B" 1001 :: List.replicate 3 (.step 2)) ++
    List.replicate 5 (.step 1) ++ List.replicate 5 (.step 2)

def paidFor : Checkouts := execAll (Checkouts.exec digest) start first

def paidTwice : Checkouts := execAll (Checkouts.exec digest) start both

/-- What a checkout leaves of its order. -/
def left (sys : Checkouts) (orderId : String) :
    Option (Option String × Sku × OrderState × Option Int) :=
  (sys.store.store.orders.get orderId).map fun o => (o.userId, o.sku, o.state, o.sessionExpiresAt)

end TwoCheckouts

open TwoCheckouts in
/-- One checkout of one buyer. -/
theorem one_payable_session_checkout : paidFor.store.OnePayable 1001 := by
  have hreached : Reachable (Checkouts.exec Sample.digest)
      (Checkouts.Admits 1001 fun _ c w => w.InsertsAlone c) start paidFor :=
    Reachable.of_admitsAll (by decide)
  have hempty : (Sample.store answering []).orders.SingleLive 1001 :=
    fun id id' o o' hget => absurd hget (by simp [Sample.store, Table.insertAll])
  exact one_payable_session (Sample.keyed _ _) hempty hreached

open TwoCheckouts in
/-- **Two payable sessions.** Both checkouts look before either has stored its order; both
find nothing, and both orders become pending. -/
theorem two_payable_sessions :
    Reachable (Checkouts.exec Sample.digest) (Checkouts.Admits 1001 fun _ _ _ => True)
        start paidTwice ∧ ¬ paidTwice.store.OnePayable 1001 := by
  refine ⟨Reachable.of_admitsAll (by decide), fun hone => ?_⟩
  have hleft : left paidTwice "A" = some (some "u", .cipherNew .t99, .pending, some 2101000) ∧
      left paidTwice "B" = some (some "u", .cipherNew .t99, .pending, some 2101000) := by
    decide
  obtain ⟨o, hget, ho⟩ := map_eq_some_iff.mp hleft.1
  obtain ⟨o', hget', ho'⟩ := map_eq_some_iff.mp hleft.2
  simp only [Prod.mk.injEq] at ho ho'
  obtain ⟨huser, hsku, hstate, hexpires⟩ := ho
  obtain ⟨huser', hsku', hstate', hexpires'⟩ := ho'
  have hline : o.SameLine o' := ⟨by rw [huser]; rfl, by rw [huser, huser'], by rw [hsku, hsku']⟩
  have hpay : o.Payable 1001 := ⟨hstate, 2101000, hexpires, by decide⟩
  have hpay' : o'.Payable 1001 := ⟨hstate', 2101000, hexpires', by decide⟩
  exact absurd (hone "A" "B" o o' hget hget' hline hpay hpay') (by decide)

end SlogaBackend.Payments
