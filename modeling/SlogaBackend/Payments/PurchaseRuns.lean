import SlogaBackend.Payments.Purchases

/-!
# A Prot order is credited and clawed back once

Every delivery to a Prot order keeps the invariant of its two ledger rows, whatever other
workers do between its calls and wherever it crashes (`prot_order_rows`).

The programs are walked once. Most of what they do cannot touch the rows at all: a plain
program makes only calls that every worker may make at any moment. Four places carry an
argument.

* A purchase is posted by a worker that holds the order, to the wallet of the buyer on its
  copy.
* An order is written fulfilled after its purchase row was seen or posted.
* A clawback is posted after the purchase row was read, for the amount read there.
* An order is written refunded after its clawback row was seen or posted, unless its copy
  has no buyer.

The last proviso is by design: an account deletion forfeits the wallet, so a refund that
comes after it has nothing to claw from (`refunded_without_clawback`).
-/

namespace SlogaBackend.Payments

variable {sha256 : List UInt8 → List UInt8} {roll : Roll} {α β : Type} {pid : Nat}
  {P : String → Prop}

/-! ## Plain programs -/

/-- A call that every worker may make at any moment. -/
def Call.Plain : Call → Prop
  | .orders (.insert _) => False
  | .orders (.update _ _) => False
  | .ledger (.apply _) => False
  | .ledger (.clawbackCipher _ _ _) => False
  | _ => True

theorem may_of_plain {s : Store} {c : Call} (h : c.Plain) : roll.May s c := by
  unfold Roll.May
  split
  · exact h
  · exact False.elim h
  · exact False.elim h
  · exact False.elim h
  · exact trivial

def Plain (p : Engine α) : Prop := p.Only Call.Plain

variable {p : Engine α} {w : World} {work : Work α}

theorem Plain.bind {k : α → Engine β} (hp : Plain p) (hk : ∀ a, Plain (k a)) :
    Plain (p >>= k) := Only.bind hk hp

theorem Plain.attempt (hp : Plain p) : Plain p.attempt := Prog.Only.attempt hp

theorem plain_done (result : Result α) : Plain (Prog.done result) := trivial

theorem plain_pure (a : α) : Plain (pure a) := trivial

theorem plain_failWith (e : Error) : Plain (failWith e : Engine α) := trivial

theorem plain_orders {op : OrderOp} (h : (Call.orders op).Plain) : Plain (orders op) :=
  ⟨h, fun _ => trivial⟩

theorem plain_memberships (op : MembershipOp) : Plain (memberships op) := ⟨trivial, fun _ => trivial⟩

theorem plain_numbers (op : NumberOp) : Plain (numbers op) := ⟨trivial, fun _ => trivial⟩

theorem plain_ledger {op : LedgerOp} (h : (Call.ledger op).Plain) : Plain (ledger op) :=
  ⟨h, fun _ => trivial⟩

theorem plain_users (op : UserOp) : Plain (users op) := ⟨trivial, fun _ => trivial⟩

theorem plain_stripe (op : StripeOp) : Plain (stripe op) := ⟨trivial, fun _ => trivial⟩

theorem plain_stripeOrProviderError (op : StripeOp) : Plain (stripeOrProviderError op) := by
  refine (plain_stripe op).bind fun answer => ?_
  cases answer with
  | ok value => exact plain_done _
  | error e => exact plain_failWith _

theorem plain_loadProtSettings : Plain loadProtSettings := ⟨trivial, fun _ => trivial⟩

theorem plain_release (leased : Leased) : Plain (release leased) :=
  Plain.bind (Plain.attempt (plain_orders trivial)) fun _ => plain_pure _

theorem plain_askRefund (paymentIntent : String) (key : RefundKey) :
    Plain (askRefund paymentIntent key) := (plain_stripe _).bind fun _ => plain_done _

theorem plain_refundForVoid (paymentIntent orderId : String) :
    Plain (refundForVoid paymentIntent orderId) := by
  refine (plain_askRefund _ _).bind fun asked => ?_
  cases asked <;> exact plain_pure _

theorem plain_buyerIsLive (userId : String) : Plain (buyerIsLive userId) := by
  refine (plain_users _).attempt.bind fun user => ?_
  match user with
  | .ok user => exact plain_pure _
  | .error e => cases e <;> trivial

theorem plain_syncBadgeRounds (userId : String) (rounds : Nat) :
    Plain (syncBadgeRounds userId rounds) := by
  induction rounds with
  | zero => exact plain_failWith _
  | succ rounds ih =>
    refine (plain_memberships _).bind fun row => (plain_users _).attempt.bind fun user => ?_
    match user with
    | .error e => cases e <;> trivial
    | .ok user =>
      dsimp only
      generalize (if user.deleted = true then none else _) = badge
      split
      · exact plain_pure _
      · exact (plain_users _).bind fun _ => ih

theorem plain_syncUserBadge (userId : String) : Plain (syncUserBadge userId) :=
  plain_syncBadgeRounds _ _

section

variable (userId orderId : String) (listed : Bool)

theorem plain_disputeListingTries (tries : Nat) :
    Plain (disputeListingTries userId orderId listed tries) := by
  induction tries with
  | zero => exact plain_failWith _
  | succ tries ih =>
    refine (plain_memberships _).bind fun row => ?_
    cases row with
    | none => exact plain_pure _
    | some m =>
      dsimp only
      split
      · exact plain_pure _
      split
      · exact plain_pure _
      refine (plain_memberships _).bind fun written => ?_
      split
      · exact plain_pure _
      · exact ih

theorem plain_setDisputeListing :
    Plain (setDisputeListing userId orderId listed) := plain_disputeListingTries _ _ _ _

end

theorem plain_publishBalance (userId : String) : Plain (publishBalance userId) :=
  Plain.bind (Plain.attempt (plain_ledger trivial)) fun _ => plain_pure _

theorem plain_publishIfApplied (userId : String) (outcome : Prot.ProtApplyOutcome) :
    Plain (publishIfApplied userId outcome) := by
  cases outcome with
  | applied _ => exact plain_publishBalance _
  | alreadyApplied _ => exact plain_pure _

theorem plain_forfeitIfDeleted (userId : String) (nowMs : Int) :
    Plain (forfeitIfDeleted userId nowMs) := by
  refine (plain_buyerIsLive _).bind fun live => ?_
  split
  · exact plain_pure _
  · exact Plain.bind (plain_ledger trivial) fun _ => plain_pure _

theorem plain_deleteIfListed (order : PaymentOrder) (userId : String) :
    Plain (deleteIfListed order userId) := by
  refine (plain_memberships _).bind fun row => ?_
  cases row with
  | none => exact plain_pure _
  | some m =>
    dsimp only
    split
    · exact plain_memberships _
    · exact plain_pure _

theorem plain_mirrorDisputes (order : PaymentOrder) : Plain (mirrorDisputes order) := by
  unfold mirrorDisputes
  cases order.userId with
  | none => exact plain_pure _
  | some userId =>
    refine (plain_setDisputeListing _ _ _).bind fun held => ?_
    split
    · exact plain_syncUserBadge _
    · exact plain_pure _

theorem plain_currentDisputeKind (s : PaymentsSettings) (order : PaymentOrder) (disputeId : String) :
    Plain (currentDisputeKind s order disputeId) := by
  refine (plain_stripeOrProviderError _).bind fun dispute => ?_
  split
  · exact plain_failWith _
  split
  · exact plain_failWith _
  split
  · split
    · exact plain_pure _
    · exact plain_failWith _
  · refine (plain_stripeOrProviderError _).bind fun intent => ?_
    split
    · exact plain_pure _
    · exact plain_failWith _

theorem plain_lostAfterRefundTries (orderId userId : String) (tries : Nat) :
    Plain (lostAfterRefundTries orderId userId tries) := by
  induction tries with
  | zero => exact plain_failWith _
  | succ tries ih =>
    refine (plain_memberships _).bind fun row => ?_
    cases row with
    | none => exact plain_pure _
    | some m =>
      dsimp only
      split
      · exact plain_pure _
      refine (plain_memberships _).bind fun written => ?_
      split
      · exact plain_pure _
      · exact ih

theorem plain_blockedCountries (s : PaymentsSettings) (family : ProductFamily) :
    Plain (blockedCountries s family) := by
  cases family with
  | cipher => exact plain_pure _
  | prot => exact plain_loadProtSettings.bind fun _ => plain_pure _

theorem plain_blockedCountry (blocked : List String) (order : PaymentOrder)
    (session : CheckoutSession) (paymentIntent : String) (nowMs : Int) :
    Plain (blockedCountry blocked order session paymentIntent nowMs) := by
  unfold blockedCountry
  split
  · exact plain_pure _
  split
  · exact plain_pure _
  refine (plain_stripe _).bind fun answer => ?_
  cases answer with
  | ok charge => exact plain_pure _
  | error err =>
    dsimp only
    split
    · exact plain_pure _
    · exact plain_failWith _

theorem plain_releasePendingOn (number : Nat) (orderIds : List String) :
    Plain (releasePendingOn number orderIds) := by
  induction orderIds with
  | nil => exact plain_pure _
  | cons orderId rest ih =>
    refine (plain_numbers _).bind fun row => ?_
    cases row with
    | none => exact ih
    | some row =>
      dsimp only
      split
      · exact plain_pure _
      · exact ih

theorem plain_releaseBlocks (order : PaymentOrder) (membership : Option CipherMembership) :
    Plain (releaseBlocks order membership) := by
  unfold releaseBlocks
  cases membership with
  | none => exact plain_pure _
  | some m =>
    dsimp only
    split
    · exact plain_releasePendingOn _ _
    · exact plain_pure _

theorem plain_reassertBadge (order : PaymentOrder) (userId : String) :
    Plain (reassertBadge order userId) := by
  unfold reassertBadge
  split
  · exact (plain_setDisputeListing _ _ _).bind fun _ => plain_syncUserBadge _
  · exact plain_syncUserBadge _

theorem plain_openOrders (userId : String) : Plain (openOrders userId) := by
  refine Plain.bind (Plain.attempt (plain_orders trivial)) fun listed => ?_
  cases listed <;> exact plain_pure _

theorem plain_unlinkAccountPayments (userId : String) : Plain (unlinkAccountPayments userId) :=
  Plain.bind (plain_orders trivial) fun _ => plain_memberships _

/-! ## Programs among others -/

/-- From the world on, the program keeps the invariant of the rows. -/
def Guarded (sha256 : List UInt8 → List UInt8) (roll : Roll) (pid : Nat)
    (post : World → Result α → Prop) (p : Engine α) (w : World) : Prop :=
  p.Safe (World.perform sha256) roll.Inv roll.Moves pid post w

theorem stable_true : Stable roll.Inv roll.Moves fun _ => True := fun _ _ _ _ _ => trivial

theorem Plain.guarded {K : World → Prop} (hK : Stable roll.Inv roll.Moves K) (hp : Plain p)
    (hinv : roll.Inv w) (hw : K w) :
    Guarded sha256 roll pid (fun w' _ => K w') p w := by
  have hsf : Guarded sha256 roll pid (fun _ _ => True) p w :=
    Prog.Only.safe (fun c w' hpla _ => moves_perform pid (may_of_plain hpla)) hp w
  have hfram := Prog.Safe.frame stable_inv hK hinv hw hsf
  exact Safe.mono (fun _ _ h => h.2) hfram

variable {post : World → Result α → Prop} {outcome : Prot.ProtApplyOutcome}

theorem Guarded.bind {post' : World → Result β → Prop} {k : α → Engine β} (hinv : roll.Inv w)
    (hp : Guarded sha256 roll pid post p w)
    (hok : ∀ w' a, roll.Inv w' → post w' (.ok a) → Guarded sha256 roll pid post' (k a) w')
    (herr : ∀ w' e, roll.Inv w' → post w' (.error e) → post' w' (.error e)) :
    Guarded sha256 roll pid post' (p >>= k) w :=
  Safe.bind stable_inv hok herr hinv hp

theorem guarded_call {K : World → Prop} (hK : Stable roll.Inv roll.Moves K) {c : Call}
    {rest : Answer c → Engine α} (hinv : roll.Inv w) (hw : K w)
    (hmay : ∀ w', roll.Inv w' → K w' → roll.May w'.store c)
    (hrs : ∀ w', roll.Inv w' → K w' → roll.Inv (w'.perform sha256 pid c).1 →
      roll.Moves w' (w'.perform sha256 pid c).1 →
      Guarded sha256 roll pid post (rest (w'.perform sha256 pid c).2) (w'.perform sha256 pid c).1) :
    Guarded sha256 roll pid post (Prog.call c rest) w :=
  Prog.Safe.call stable_inv hK hinv hw fun w' hinv' hw' =>
    have hmov := moves_perform pid (hmay w' hinv' hw')
    ⟨hmov, hrs w' hinv' hw' (hmov.sound hinv') hmov⟩

/-! ## The two postings -/

theorem row_of_applied {ulid : String} {p : Prot.ProtPosting} {db : Prot.ReferenceDb}
    (h : (Prot.applyProtPosting sha256 ulid p db).2 = .ok outcome) :
    ∃ e, (Prot.applyProtPosting sha256 ulid p db).1.protLedger.get p.key = some e := by
  rcases Prot.applyProtPosting_cases sha256 ulid p db with ⟨hsm, hnot⟩ | ⟨e, -, hpst, -⟩
  · rw [hsm]
    cases hrow : db.protLedger.get p.key with
    | some e => exact ⟨e, rfl⟩
    | none =>
      -- nothing was written and nothing was there, so the posting was refused
      exfalso
      unfold Prot.applyProtPosting at h hnot
      cases hchk : Prot.checkPosting sha256 db ulid p with
      | error err =>
        rw [hchk] at h
        cases h
      | ok prepared =>
        cases prepared with
        | duplicate stored => exact Prot.checkPosting_ne_duplicate hrow hchk
        | new prepared =>
          rw [hchk] at hnot
          exact hnot prepared.entry rfl
  · exact ⟨e, by rw [hpst.ledger_eq, get_insert_self]⟩

theorem row_of_apply {p : Prot.ProtPosting}
    (h : (w.perform sha256 pid (.ledger (.apply p))).2 = Except.ok outcome) :
    ∃ e, (w.perform sha256 pid (.ledger (.apply p))).1.store.prot.protLedger.get p.key = some e := by
  rcases perform_ledger_cases sha256 (.apply p) w.store with ⟨err, hperf⟩ | hperf
  · rw [perform_eq hperf] at h
    cases h
  · rw [perform_eq hperf] at h ⊢
    exact row_of_applied h

theorem row_of_fetchEntry {key : String} {row : Option Prot.ProtLedgerEntry}
    (h : (w.perform sha256 pid (.ledger (.fetchEntry key))).2 = Except.ok row) :
    (w.perform sha256 pid (.ledger (.fetchEntry key))).1.store.prot.protLedger.get key = row := by
  rcases perform_ledger_cases sha256 (.fetchEntry key) w.store with ⟨err, hperf⟩ | hperf
  · rw [perform_eq hperf] at h
    cases h
  · rw [perform_eq hperf] at h ⊢
    exact ok.inj h

/-- The test whether a purchase was applied. -/
theorem guarded_purchaseApplied (orderId : String) (hinv : roll.Inv w) :
    Guarded sha256 roll pid (fun w' r => r = .ok true → ∃ p, w'.store.purchase orderId = some p)
      (purchaseApplied orderId) w := by
  refine guarded_call stable_true hinv trivial
    (fun _ _ _ => trivial) fun w' _ _ _ _ => ?_
  generalize hans : (w'.perform sha256 pid (.ledger (.fetchEntry (protKeyPurchase orderId)))).2
    = answer
  match answer, hans with
  | .error e, _ => exact nofun
  | .ok none, _ => exact nofun
  | .ok (some p), hans => exact fun _ => ⟨p, row_of_fetchEntry hans⟩

/-- **The credit of a purchase.** -/
theorem guarded_applyPurchase {order : PaymentOrder} {userId : String} (nowMs : Int)
    (hbuy : roll.buyer order.id = some userId) (hinv : roll.Inv w) :
    Guarded sha256 roll pid (fun w' r => r = .ok () → ∃ p, w'.store.purchase order.id = some p)
      (applyPurchase order userId nowMs) w := by
  unfold applyPurchase
  cases skuProt order.sku with
  | none => exact nofun
  | some prot =>
    refine guarded_call stable_true hinv trivial
      (fun _ _ _ => .purchase order.id userId rfl rfl hbuy) fun w' _ _ hinv' _ => ?_
    generalize hans : (w'.perform sha256 pid
      (.ledger (.apply (purchasePosting order userId prot nowMs)))).2 = answer
    match answer, hans with
    | .error e, _ => exact nofun
    | .ok outcome, hans =>
      obtain ⟨p, hrow⟩ := row_of_apply hans
      exact Safe.mono (fun _ _ h _ => ⟨p, h⟩)
        (((plain_publishIfApplied userId outcome).bind fun _ =>
          plain_forfeitIfDeleted userId nowMs).guarded (stable_purchase order.id p) hinv' hrow)

/-- **The clawback of a purchase.** -/
theorem guarded_clawbackPurchase {orderId userId : String} (nowMs : Int) (hpr : roll.prot orderId)
    (hbuy : roll.buyer orderId = some userId) (hinv : roll.Inv w) {p : Prot.ProtLedgerEntry}
    (hrow : w.store.purchase orderId = some p) :
    Guarded sha256 roll pid (fun w' r => r = .ok () → ∃ e, w'.store.clawback orderId = some e)
      (clawbackPurchase orderId userId nowMs) w := by
  refine guarded_call (stable_purchase orderId p) hinv hrow (fun _ _ _ => trivial)
    fun w1 _ hrow1 hinv1 hmov1 => ?_
  have hrow₁' := hmov1.ledger _ _ hrow1
  generalize hans : (w1.perform sha256 pid (.ledger (.fetchEntry (protKeyPurchase orderId)))).2
    = answer
  match answer, hans with
  | .error e, _ => exact nofun
  | .ok none, hans => cases (row_of_fetchEntry hans).symm.trans hrow₁'
  | .ok (some q), hans =>
    obtain rfl : q = p := some.inj ((row_of_fetchEntry hans).symm.trans hrow₁')
    refine guarded_call (stable_purchase orderId q) hinv1 hrow₁' (fun _ _ _ => trivial)
      fun w2 _ hrow2 hinv2 hmov2 => ?_
    have hrow₂' := hmov2.ledger _ _ hrow2
    generalize hans' : (w2.perform sha256 pid
      (.ledger (.fetchEntry (Prot.protKeyClawback orderId)))).2 = answer'
    match answer', hans' with
    | .error e, _ => exact nofun
    | .ok (some e), hans' => exact fun _ => ⟨e, row_of_fetchEntry hans'⟩
    | .ok none, _ =>
      refine guarded_call (stable_purchase orderId q) hinv2 hrow₂' (fun w3 hinv3 hrow3 => ?_)
        fun w3 _ _ hinv3 _ => ?_
      · -- the purchase credited the buyer's wallet
        obtain ⟨u, hu, hcred⟩ := Roll.Sound.purchases hinv3 orderId q hpr hrow3
        obtain rfl : u = userId := some.inj (hu.symm.trans hbuy)
        exact .clawback orderId q rfl hrow3 rfl hcred.symm
      · generalize hans'' : (w3.perform sha256 pid
          (.ledger (.apply (clawbackPosting orderId userId q.amount nowMs)))).2 = answer''
        match answer'', hans'' with
        | .error e, _ => exact nofun
        | .ok outcome, hans'' =>
          obtain ⟨e, he⟩ := row_of_apply hans''
          exact Safe.mono (fun _ _ h _ => ⟨e, h⟩)
            ((plain_publishIfApplied userId outcome).guarded (stable_clawback orderId e) hinv3 he)

/-! ## Programs over a leased order -/

/-- The work keeps the invariant from the world on, goes on holding its order, and ends in
`Q`. -/
def Sure (sha256 : List UInt8 → List UInt8) (roll : Roll) (pid : Nat)
    (Q : World → Leased → Result α → Prop) (w : World) (leased : Leased) (work : Work α) : Prop :=
  Guarded sha256 roll pid (fun w' r => ∀ result leased', r = .ok (result, leased') →
    roll.Held leased'.order w'.store ∧ leased'.order.id = leased.order.id ∧ Q w' leased' result)
    (work leased) w

/-- The work keeps the invariant, and goes on holding its order. -/
abbrev Kept (sha256 : List UInt8 → List UInt8) (roll : Roll) (pid : Nat) (w : World) (leased : Leased)
    (work : Work α) : Prop := Sure sha256 roll pid (fun _ _ _ => True) w leased work

/-- The work keeps the invariant from every world and every copy of an order in `P`. -/
def Fine (sha256 : List UInt8 → List UInt8) (roll : Roll) (P : String → Prop) (work : Work α) :
    Prop :=
  ∀ pid w leased, roll.Inv w → roll.Held leased.order w.store → P leased.order.id →
    Kept sha256 roll pid w leased work

variable {leased : Leased}

theorem Fine.sure {work : Work α} {w : World}
    (h : Fine sha256 roll (fun _ => True) work) (hinv : roll.Inv w)
    (hhl : roll.Held leased.order w.store) :
    Kept sha256 roll pid w leased work := h pid w leased hinv hhl trivial

section Sure

variable {Q : World → Leased → Result α → Prop} {w : World} {leased : Leased}

theorem sure_result {result : Result α} (hhl : roll.Held leased.order w.store)
    (hps : Q w leased result) :
    Sure sha256 roll pid Q w leased (fun leased => Prog.done (.ok (result, leased)) : Work α) := by
  intro result' leased' heq
  cases ok.inj heq
  exact ⟨hhl, rfl, hps⟩

variable {Q' : World → Leased → Result β → Prop} {k : α → Work β} {K : World → Prop}

/-- **The rule for composition.** -/
theorem Sure.bind {work : Work α} (hinv : roll.Inv w) (hwr : Sure sha256 roll pid Q w leased work)
    (hok : ∀ w' leased' a, roll.Inv w' → roll.Held leased'.order w'.store →
      leased'.order.id = leased.order.id → Q w' leased' (.ok a) →
      Sure sha256 roll pid Q' w' leased' (k a))
    (herr : ∀ w' leased' e, Q w' leased' (.error e) → Q' w' leased' (.error e)) :
    Sure sha256 roll pid Q' w leased (work >>= k) := by
  refine Guarded.bind hinv hwr (fun w' r hinv' hr => ?_) fun w' e _ _ result leased' heq => by
    cases heq
  obtain ⟨result, leased'⟩ := r
  obtain ⟨hhl, hid, hQ⟩ := hr result leased' rfl
  cases result with
  | ok a =>
    refine Safe.mono (fun w'' r h result leased'' heq => ?_)
      (hok w' leased' a hinv' hhl hid hQ)
    obtain ⟨hhl', hid', hQ'⟩ := h result leased'' heq
    exact ⟨hhl', hid'.trans hid, hQ'⟩
  | error e =>
    intro result leased'' heq
    cases ok.inj heq
    exact ⟨hhl, hid, herr w' leased' e hQ⟩

theorem Sure.mono {Q' : World → Leased → Result α → Prop} {work : Work α}
    (hps : ∀ w' leased' r, Q w' leased' r → Q' w' leased' r)
    (h : Sure sha256 roll pid Q w leased work) : Sure sha256 roll pid Q' w leased work :=
  Safe.mono (fun _ _ h result leased' heq =>
    ⟨(h result leased' heq).1, (h result leased' heq).2.1, hps _ _ _ (h result leased' heq).2.2⟩) h

/-- **The frame rule.** Stable knowledge is still there at the end. -/
theorem Sure.frame (hK : Stable roll.Inv roll.Moves K) {work : Work α} (hinv : roll.Inv w)
    (hw : K w) (h : Sure sha256 roll pid Q w leased work) :
    Sure sha256 roll pid (fun w' leased' r => Q w' leased' r ∧ K w') w leased work :=
  Safe.mono (fun _ _ h result leased' heq => ⟨(h.1 result leased' heq).1,
    (h.1 result leased' heq).2.1, (h.1 result leased' heq).2.2, h.2⟩)
    (Prog.Safe.frame stable_inv hK hinv hw h)

section

variable {M : World → Result α → Prop} {p : Engine α} (hinv : roll.Inv w)
  (hhl : roll.Held leased.order w.store) (hp : Guarded sha256 roll pid M p w)
include hinv hhl hp

theorem sure_liftM : Sure sha256 roll pid (fun w' leased' r => leased' = leased ∧ M w' r) w leased
      (liftM p : Work α) := by
  have hfram := Prog.Safe.frame stable_inv (stable_held leased.order) hinv hhl hp
  have hatt : Guarded sha256 roll pid (fun w' r => ∀ result, r = .ok result →
      M w' result ∧ roll.Held leased.order w'.store) p.attempt w :=
    Prog.Safe.attempt (Safe.mono (fun _ _ h _ heq => ok.inj heq ▸ h) hfram)
  refine Guarded.bind hinv hatt (fun w' r _ hr => ?_)
    fun w' e _ _ result leased' heq => by cases heq
  obtain ⟨hM, hhl'⟩ := hr r rfl
  exact sure_result hhl' ⟨rfl, hM⟩

theorem sure_lift (hok : ∀ w' a, roll.Inv w' → roll.Held leased.order w'.store → M w' (.ok a) →
      Sure sha256 roll pid Q' w' leased (k a))
    (herr : ∀ w' e, M w' (.error e) → Q' w' leased (.error e)) :
    Sure sha256 roll pid Q' w leased (liftM p >>= k : Work β) := by
  refine (sure_liftM hinv hhl hp).bind hinv (fun w' leased' a hinv' hhl' _ h => ?_)
    fun w' leased' e h => ?_
  · obtain ⟨rfl, hM⟩ := h
    exact hok w' a hinv' hhl' hM
  · obtain ⟨rfl, hM⟩ := h
    exact herr w' e hM

end

theorem sure_order {k : PaymentOrder → Work α}
    (h : Sure sha256 roll pid Q w leased (k leased.order)) :
    Sure sha256 roll pid Q w leased (Work.order >>= k) := h

theorem sure_plain (hK : Stable roll.Inv roll.Moves K) {p : Engine α} (hp : Plain p)
    (hinv : roll.Inv w) (hhl : roll.Held leased.order w.store) (hw : K w)
    (hok : ∀ w' a, roll.Inv w' → roll.Held leased.order w'.store → K w' →
      Sure sha256 roll pid Q' w' leased (k a)) (herr : ∀ w' e, Q' w' leased (.error e)) :
    Sure sha256 roll pid Q' w leased (liftM p >>= k : Work β) :=
  sure_lift hinv hhl (hp.guarded hK hinv hw) hok fun w' e _ => herr w' e

/-! ### Writes -/

theorem Roll.Held.wrote {c o : PaymentOrder} {w' : World} (hhl : roll.Held c w.store)
    (hft : roll.Fits w.store c o) (hinv : roll.Inv w')
    (hg : w'.store.orders.get o.id = some { o with version := o.version + 1 }) :
    roll.Held { o with version := o.version + 1 } w'.store := by
  refine ⟨⟨_, hg, Later.refl _⟩, ?_, fun u hu => Roll.Sound.buyers hinv o.id _ u hg hu,
    fun hpr hst => Roll.Sound.credited hinv o.id _ hg hpr hst,
    fun hpr hst hlin => Roll.Sound.clawed hinv o.id _ hg hpr hst hlin⟩
  rw [hft.id, hft.sku]
  exact hhl.family

theorem written_of_ok {o : PaymentOrder} {expected : OrderState}
    (h : (w.perform sha256 pid (.orders (.update o expected))).2 = Except.ok true) :
    (w.perform sha256 pid (.orders (.update o expected))).1.store.orders.get o.id =
      some { o with version := o.version + 1 } := by
  rcases perform_orders_cases sha256 (.update o expected) w.store with ⟨e, hperf⟩ | hperf
  · rw [perform_eq hperf] at h
    cases h
  · rw [perform_eq hperf] at h ⊢
    rcases updatePaymentOrderIfState_cases o expected w.store.orders with
      ⟨-, hrefu⟩ | ⟨row, hg, hst, hver, hleas, huse, -, heq⟩
    · exact absurd h hrefu
    · show (updatePaymentOrderIfState o expected w.store.orders).1.get o.id = _
      rw [heq, get_insert_self]

/-- **A write.** The copy is the written order, or the write failed. -/
theorem sure_write (hK : Stable roll.Inv roll.Moves K) {change : PaymentOrder → PaymentOrder}
    {Q : World → Leased → Result Unit → Prop} (hinv : roll.Inv w)
    (hhl : roll.Held leased.order w.store) (hw : K w)
    (hft : ∀ w', roll.Held leased.order w'.store → K w' →
      roll.Fits w'.store leased.order (change leased.order))
    (hok : ∀ w', roll.Inv w' → K w' → Q w' (leased.wrote change) (.ok ()))
    (herr : ∀ w' e, Q w' leased (.error e)) :
    Sure sha256 roll pid Q w leased (Work.write change) := by
  have hbt : Stable roll.Inv roll.Moves fun w => roll.Held leased.order w.store ∧ K w :=
    fun w1 w2 hinv1 hmov h =>
      ⟨stable_held leased.order w1 w2 hinv1 hmov h.1, hK w1 w2 hinv1 hmov h.2⟩
  refine guarded_call hbt hinv ⟨hhl, hw⟩
    (fun w' _ h => ⟨leased.order, h.1, hft w' h.1 h.2⟩) fun w' hinv0 h hinv' hmov => ?_
  have hhl' : roll.Held leased.order _ := stable_held leased.order _ _ hinv0 hmov h.1
  generalize hans : (w'.perform sha256 pid
    (.orders (.update (change leased.order) leased.order.state))).2 = answer
  match answer, hans with
  | .ok true, hans =>
    have hft' := hft w' h.1 h.2
    have hwrot := h.1.wrote hft' hinv' (written_of_ok hans)
    intro result leased' heq
    cases ok.inj heq
    exact ⟨hwrot, hft'.id, hok _ hinv' (hK _ _ hinv0 hmov h.2)⟩
  | .ok false, _ =>
    -- the row is read for the log only
    have hrd : Plain (orders (.fetch (change leased.order).id)) := plain_orders trivial
    show Guarded sha256 roll pid _ ((orders (.fetch (change leased.order).id)).attempt >>= fun _ =>
      Prog.done (.ok ((.error .internalError : Result Unit), leased))) _
    refine Guarded.bind hinv' (hrd.attempt.guarded (stable_held leased.order) hinv' hhl')
      (fun w'' r _ hhl'' => ?_) fun w'' e _ _ result leased' heq => by cases heq
    exact sure_result hhl'' (herr w'' _)
  | .error e, _ => exact sure_result hhl' (herr _ e)

end Sure

/-! ### Work that needs no knowledge -/

section Fine

theorem Fine.bind {work : Work α} {k : α → Work β} (hwr : Fine sha256 roll P work)
    (hk : ∀ a, Fine sha256 roll P (k a)) : Fine sha256 roll P (work >>= k) :=
  fun pid w leased hinv hhl hP => (hwr pid w leased hinv hhl hP).bind hinv
    (fun w' leased' a hinv' hhl' hid _ => hk a pid w' leased' hinv' hhl' (hid ▸ hP))
    fun _ _ _ _ => trivial

theorem Fine.attempt (hwr : Fine sha256 roll P work) : Fine sha256 roll P work.attempt := by
  intro pid w leased hinv hhl hP
  refine Guarded.bind hinv (hwr pid w leased hinv hhl hP) (fun w' r _ hr => ?_)
    fun w' e _ _ result leased' heq => by cases heq
  obtain ⟨hhl', hid, -⟩ := hr r.1 r.2 rfl
  intro result leased' heq
  cases ok.inj heq
  exact ⟨hhl', hid, trivial⟩

theorem fine_pure (a : α) : Fine sha256 roll P (pure a : Work α) :=
  fun _ _ _ _ hhl _ => sure_result hhl trivial

theorem fine_fail (e : Error) : Fine sha256 roll P (Work.fail e : Work α) :=
  fun _ _ _ _ hhl _ => sure_result hhl trivial

theorem fine_order {k : PaymentOrder → Work α} (hk : ∀ order, Fine sha256 roll P (k order)) :
    Fine sha256 roll P (Work.order >>= k) :=
  fun pid w leased hinv hhl hP => hk leased.order pid w leased hinv hhl hP

theorem fine_plain {p : Engine α} (hp : Plain p) : Fine sha256 roll P (liftM p : Work α) := by
  intro pid w leased hinv hhl _
  have hguar : Guarded sha256 roll pid (fun _ _ => True) p w := hp.guarded stable_true hinv trivial
  exact (sure_liftM hinv hhl hguar).mono fun _ _ _ _ => trivial

theorem fine_onlyIf {condition : Bool} {work : Work Unit} (hwr : Fine sha256 roll P work) :
    Fine sha256 roll P (Work.onlyIf condition work) := by
  unfold Work.onlyIf
  split
  · exact hwr
  · exact fine_pure _

/-- A change that fences the order as before, and that neither fulfils nor refunds. -/
structure Calm (change : PaymentOrder → PaymentOrder) : Prop where
  id : ∀ o, (change o).id = o.id
  version : ∀ o, (change o).version = o.version
  sku : ∀ o, (change o).sku = o.sku
  state : ∀ o, (change o).state = o.state ∨
    ((change o).state ≠ .fulfilled ∧ (change o).state ≠ .refunded)

variable {change : PaymentOrder → PaymentOrder}

theorem Calm.fits (h : Calm change) {c : PaymentOrder} {s : Store} (hhl : roll.Held c s) :
    roll.Fits s c (change c) := by
  refine ⟨h.id c, h.version c, h.sku c, fun hpr hst => ?_, fun hpr hst hlin => ?_⟩
  · rcases h.state c with hsm | ⟨hnot, -⟩
    · exact hhl.credited hpr (hsm.symm.trans hst)
    · exact absurd hst hnot
  · rcases h.state c with hsm | ⟨-, hnot⟩
    · exact hhl.clawed hpr (hsm.symm.trans hst) hlin
    · exact absurd hst hnot

theorem fine_write (h : Calm change) : Fine sha256 roll P (Work.write change) :=
  fun _ _ _ hinv hhl _ => sure_write stable_true hinv hhl trivial
    (fun _ hhl' _ => h.fits hhl') (fun _ _ _ => trivial) fun _ _ => trivial

end Fine

/-! ## Voids -/

theorem calm_of_state {change : PaymentOrder → PaymentOrder}
    (h : ∀ o, (change o).id = o.id ∧ (change o).version = o.version ∧ (change o).sku = o.sku ∧
      (change o).state = o.state) : Calm change :=
  ⟨fun o => (h o).1, fun o => (h o).2.1, fun o => (h o).2.2.1, fun o => .inl (h o).2.2.2⟩

section

variable (reason : VoidReason)

theorem fine_refundVoid (paymentIntent : String) :
    Fine sha256 roll P (refundVoid reason paymentIntent) := by
  refine fine_order fun order => ?_
  have hmr : Fine sha256 roll P (Work.write (markVoid reason)) :=
    fine_write (calm_of_state fun o => ⟨rfl, rfl, rfl, rfl⟩)
  have hunm : Fine sha256 roll P (Work.write (unmarkVoid order.voidReason)) :=
    fine_write (calm_of_state fun o => ⟨rfl, rfl, rfl, rfl⟩)
  refine (fine_onlyIf hmr).bind fun _ => (fine_plain (plain_refundForVoid _ _)).bind fun done => ?_
  split
  · exact fine_pure _
  · exact (fine_onlyIf hunm).bind fun _ => fine_fail _

theorem fine_refundUnlessLost (order : PaymentOrder) :
    Fine sha256 roll P (refundUnlessLost reason order) := by
  unfold refundUnlessLost
  split
  · exact fine_pure _
  split
  · exact fine_fail _
  · exact fine_refundVoid _ _

theorem fine_voidPaid (nowMs : Int) : Fine sha256 roll P (voidPaid reason nowMs) := by
  refine fine_order fun order => ?_
  split
  · exact fine_pure _
  · have hfin : Calm (finishVoid reason nowMs) :=
      ⟨fun _ => rfl, fun _ => rfl, fun _ => rfl, fun _ => .inr ⟨by simp [finishVoid], by simp [finishVoid]⟩⟩
    exact (fine_refundUnlessLost reason order).bind fun _ => (fine_write hfin).bind fun _ =>
      fine_pure _

end

theorem fine_voidForRegion (country : String) (nowMs : Int) :
    Fine sha256 roll P (voidForRegion country nowMs) := by
  intro pid w leased hinv hhl hP
  obtain ⟨row, hg, hlat⟩ := hhl.row
  have hhl' : roll.Held { leased.order with regionBlockedCountry := some country } w.store :=
    ⟨⟨row, hg, hlat.version_le, hlat.userId⟩, hhl.family, hhl.buyer, hhl.credited, hhl.clawed⟩
  exact fine_voidPaid .regionUnavailable nowMs pid w
    { leased with order := { leased.order with regionBlockedCountry := some country } } hinv hhl' hP

section Held

variable {w : World} {leased : Leased}

theorem guarded_clawbackIfCredited {order : PaymentOrder} {userId : String} (nowMs : Int)
    (hhl : roll.Held order w.store) (hbuy : roll.buyer order.id = some userId) (hinv : roll.Inv w) :
    Guarded sha256 roll pid (fun _ _ => True) (clawbackIfCredited order userId nowMs) w := by
  unfold clawbackIfCredited
  split
  · rename_i hfam
    have hpr : roll.prot order.id := hhl.family.mpr hfam
    refine Guarded.bind hinv (guarded_purchaseApplied order.id hinv) (fun w' applied hinv' h => ?_)
      fun _ _ _ _ => trivial
    cases applied with
    | true =>
      obtain ⟨p, hp⟩ := h rfl
      exact Safe.mono (fun _ _ _ => trivial) (guarded_clawbackPurchase nowMs hpr hbuy hinv' hp)
    | false => exact trivial
  · exact trivial

theorem sure_voidForDeletedAccount {buyer : Option String} (nowMs : Int) (hinv : roll.Inv w)
    (hhl : roll.Held leased.order w.store)
    (hbuy : ∀ u, buyer = some u → roll.buyer leased.order.id = some u) :
    Kept sha256 roll pid w leased (voidForDeletedAccount buyer nowMs) := by
  cases buyer with
  | none => exact (fine_voidPaid .accountDeleted nowMs).sure hinv hhl
  | some userId =>
    refine sure_lift hinv hhl (guarded_clawbackIfCredited nowMs hhl (hbuy userId rfl) hinv)
      (fun w' _ hinv' hhl' _ => ?_) fun _ _ _ => trivial
    exact ((fine_plain (plain_deleteIfListed _ _)).bind fun _ => fine_voidPaid _ _).sure hinv' hhl'

end Held

/-! ## Reversals -/

theorem fine_recordBeforeFulfilment (kind : ReverseKind) (dispute : Option String) :
    Fine sha256 roll P (recordBeforeFulfilment kind dispute) := by
  refine fine_order fun order => ?_
  have hrec : Fine sha256 roll P (Work.write (recordReversal (pendingAfter order kind)
      (disputesAfter order kind dispute))) :=
    fine_write (calm_of_state fun o => ⟨rfl, rfl, rfl, rfl⟩)
  exact (fine_onlyIf hrec).bind fun _ => fine_order fun order =>
    (fine_plain (plain_mirrorDisputes order)).bind fun _ => fine_pure _

theorem fine_disputeLostAfterRefund : Fine sha256 roll P disputeLostAfterRefund := by
  refine fine_order fun order => ?_
  split
  · exact fine_pure _
  · exact fine_plain (plain_lostAfterRefundTries _ _ _)

section Held

variable {w : World} {leased : Leased}

/-- The write that records a Prot order refunded. -/
theorem sure_recordRefunded (nowMs : Int) {e : Prot.ProtLedgerEntry} (hinv : roll.Inv w)
    (hhl : roll.Held leased.order w.store)
    (hrow : leased.order.userId ≠ none → w.store.clawback leased.order.id = some e) :
    Kept sha256 roll pid w leased (Work.write (recordRefunded nowMs)) := by
  have hstab : Stable roll.Inv roll.Moves fun w => leased.order.userId ≠ none →
      w.store.clawback leased.order.id = some e :=
    fun w1 w2 hinv1 hmov h hlin => hmov.ledger _ e (h hlin)
  refine sure_write hstab hinv hhl hrow (fun w' _ hrow' => ?_) (fun _ _ _ => trivial)
    fun _ _ => trivial
  exact ⟨rfl, rfl, rfl, fun _ hst => absurd hst (by simp [recordRefunded]),
    fun _ _ hlin => ⟨e, hrow' hlin⟩⟩

/-- **A refund of a credited Prot order.** -/
theorem sure_reverseProtFulfilled (kind : ReverseKind) (nowMs : Int)
    {p : Prot.ProtLedgerEntry} (hinv : roll.Inv w) (hhl : roll.Held leased.order w.store)
    (hpr : roll.prot leased.order.id) (hrow : w.store.purchase leased.order.id = some p) :
    Kept sha256 roll pid w leased (reverseProtFulfilled kind nowMs) := by
  unfold reverseProtFulfilled
  split
  · exact sure_result hhl trivial
  · refine sure_order ?_
    cases huse : leased.order.userId with
    | none =>
      refine (sure_recordRefunded (e := p) nowMs hinv hhl fun hlin => absurd huse hlin).bind
        hinv (fun w' leased' _ _ hhl' _ _ => sure_result hhl' trivial) fun _ _ _ _ => trivial
    | some userId =>
      have hbuy := hhl.buyer userId huse
      refine sure_lift hinv hhl (guarded_clawbackPurchase nowMs hpr hbuy hinv hrow)
        (fun w' _ hinv' hhl' h => ?_) fun _ _ _ => trivial
      obtain ⟨e, he⟩ := h rfl
      refine (sure_recordRefunded nowMs hinv' hhl' fun _ => he).bind hinv'
        (fun w'' leased' _ _ hhl'' _ _ => sure_result hhl'' trivial) fun _ _ _ _ => trivial

end Held

section

variable (kind : ReverseKind) (dispute : Option String) (refund : Option RefundFacts) (nowMs : Int)

theorem sure_reverseFulfilled (hinv : roll.Inv w)
    (hhl : roll.Held leased.order w.store) (hpr : roll.prot leased.order.id)
    (hst : leased.order.state = .fulfilled) :
    Kept sha256 roll pid w leased (reverseFulfilled kind dispute refund nowMs) := by
  obtain ⟨p, hp⟩ := hhl.credited hpr hst
  have hfam : leased.order.sku.family = .prot := hhl.family.mp hpr
  have hrec : Fine sha256 roll roll.prot
      (Work.onlyIf (disputesAfter leased.order kind dispute != leased.order.openDisputes)
        (Work.write (recordDisputes (disputesAfter leased.order kind dispute)))) :=
    fine_onlyIf (fine_write (calm_of_state fun o => ⟨rfl, rfl, rfl, rfl⟩))
  have hkp := (hrec pid w leased hinv hhl hpr).frame (stable_purchase leased.order.id p) hinv hp
  refine sure_order (hkp.bind hinv (fun w' leased' _ hinv' hhl' hid h => ?_) fun _ _ _ _ => trivial)
  rw [if_pos hfam]
  have hp' := h.2
  rw [← hid] at hp' hpr
  exact sure_reverseProtFulfilled kind nowMs hinv' hhl' hpr hp'

theorem fine_reverseLocked :
    Fine sha256 roll roll.prot (reverseLocked kind dispute refund nowMs) := by
  unfold reverseLocked
  split
  · exact fine_fail _
  · intro pid w leased hinv hhl hpr
    refine sure_order ?_
    cases hst : leased.order.state with
    | fulfilled => exact sure_reverseFulfilled kind dispute refund nowMs hinv hhl hpr hst
    | voided => exact sure_result hhl trivial
    | refunded =>
      dsimp only
      split
      · exact fine_disputeLostAfterRefund.sure hinv hhl
      · exact sure_result hhl trivial
    | _ => exact (fine_recordBeforeFulfilment kind dispute).sure hinv hhl

end

theorem fine_recheckDisputeList (s : PaymentsSettings) (nowMs : Int) (disputes : List String) :
    Fine sha256 roll roll.prot (recheckDisputeList s nowMs disputes) := by
  induction disputes with
  | nil => exact fine_pure _
  | cons disputeId rest ih =>
    refine fine_order fun order => ?_
    split
    · exact fine_pure _
    · exact (fine_plain (plain_currentDisputeKind _ _ _)).bind fun kind =>
        (fine_reverseLocked _ _ _ _).bind fun _ => ih

theorem fine_recheckOpenDisputes (s : PaymentsSettings) (nowMs : Int) :
    Fine sha256 roll roll.prot (recheckOpenDisputes s nowMs) :=
  fine_order fun _ => fine_recheckDisputeList _ _ _

theorem fine_reverseAndClear (kind : ReverseKind) (refund : Option RefundFacts) (nowMs : Int) :
    Fine sha256 roll roll.prot (reverseAndClear kind refund nowMs) := by
  have hcle : Fine sha256 roll roll.prot (Work.write clearSettling) :=
    fine_write (calm_of_state fun o => ⟨rfl, rfl, rfl, rfl⟩)
  exact (fine_reverseLocked _ _ _ _).bind fun outcome => fine_order fun order =>
    ((fine_onlyIf hcle).bind fun _ => fine_pure _)

/-! ## Fulfilment -/

theorem fine_reversePending (nowMs : Int) : Fine sha256 roll roll.prot (reversePending nowMs) := by
  refine fine_order fun order => ?_
  split
  · exact fine_pure _
  · exact (fine_reverseLocked _ _ _ _).bind fun _ => fine_pure _

theorem fine_finishFulfilled (nowMs : Int) : Fine sha256 roll roll.prot (finishFulfilled nowMs) := by
  refine fine_order fun order => ?_
  split
  · exact fine_reversePending _
  · exact (fine_plain (plain_reassertBadge _ _)).bind fun _ => fine_reversePending _

section Held

variable {w : World} {leased : Leased}

/-- **The write that records a Prot order fulfilled.** -/
theorem sure_finishFulfil (userId : String) (nowMs : Int) {p : Prot.ProtLedgerEntry}
    (hinv : roll.Inv w) (hhl : roll.Held leased.order w.store)
    (hpr : roll.prot leased.order.id) (hrow : w.store.purchase leased.order.id = some p) :
    Kept sha256 roll pid w leased (finishFulfil userId nowMs) := by
  have hfam : leased.order.sku.family = .prot := hhl.family.mp hpr
  have hwri : Kept sha256 roll pid w leased
      (Work.write (recordFulfilled nowMs)) := by
    refine sure_write (stable_purchase leased.order.id p) hinv hhl hrow (fun w' _ hrow' => ?_)
      (fun _ _ _ => trivial) fun _ _ => trivial
    exact ⟨rfl, rfl, rfl, fun _ _ => ⟨p, hrow'⟩,
      fun _ hst => absurd hst (by simp [recordFulfilled])⟩
  refine sure_order ?_
  rw [hfam]
  show Sure sha256 roll pid _ w leased (Work.write (recordFulfilled nowMs) >>= fun _ =>
    reversePending nowMs >>= fun _ => liftM (pure () : Engine Unit) >>= fun _ =>
      pure FulfilOutcome.fulfilled)
  refine Sure.bind hinv hwri (fun w' leased' _ hinv' hhl' hid _ => ?_) fun _ _ _ _ => trivial
  rw [← hid] at hpr
  exact ((fine_reversePending nowMs).bind fun _ =>
    ((fine_plain (plain_pure _)).bind fun _ => fine_pure _)) pid w' leased' hinv' hhl' hpr

theorem sure_voided {work : Work FulfilOutcome} {K : World → Prop}
    (hwr : Fine sha256 roll (fun _ => True) work)
    (hinv : roll.Inv w) (hhl : roll.Held leased.order w.store) :
    Sure sha256 roll pid (fun w' _ r => r = .ok none → K w') w leased
      (do let outcome ← work; return some outcome) :=
  (hwr.sure hinv hhl).bind hinv
    (fun w' leased' outcome _ hhl' _ _ => sure_result hhl' fun h => by cases h)
    fun _ _ _ _ h => by cases h

section

variable (s : PaymentsSettings) (session : CheckoutSession) (paymentIntent : String)
  {userId : String}

theorem sure_applyChecked (membership : Option CipherMembership) (nowMs : Int)
    (hinv : roll.Inv w) (hhl : roll.Held leased.order w.store)
    (hpr : roll.prot leased.order.id) (hbuy : leased.order.userId = some userId) :
    Sure sha256 roll pid
      (fun w' _ r => r = .ok none → ∃ p, w'.store.purchase leased.order.id = some p) w leased
      (applyChecked s session paymentIntent userId membership nowMs) := by
  have hfam : leased.order.sku.family = .prot := hhl.family.mp hpr
  refine sure_plain stable_true (plain_blockedCountries s _) hinv hhl trivial
    (fun w1 blocked hinv1 hhl1 _ => ?_) nofun
  refine sure_plain stable_true (plain_blockedCountry blocked _ session paymentIntent nowMs) hinv1
    hhl1 trivial (fun w2 country hinv2 hhl2 _ => ?_) nofun
  cases country with
  | some country => exact sure_voided (fine_voidForRegion country nowMs) hinv2 hhl2
  | none =>
    refine sure_plain stable_true (plain_releaseBlocks _ membership) hinv2 hhl2 trivial
      (fun w3 blocks hinv3 hhl3 _ => ?_) nofun
    cases blocks with
    | true => exact sure_voided (fine_voidPaid .releasePending nowMs) hinv3 hhl3
    | false =>
      rw [if_neg false_ne_true]
      cases preconditionFailure s leased.order membership with
      | some reason => exact sure_voided (fine_voidPaid reason nowMs) hinv3 hhl3
      | none =>
        dsimp only
        split
        · exact sure_voided (fine_voidPaid .reversed nowMs) hinv3 hhl3
        · have happl : Guarded sha256 roll pid (fun w' r => ∀ applied, r = .ok applied →
              applied = .done ∧ ∃ p, w'.store.purchase leased.order.id = some p)
              (applyOrder s leased.order userId nowMs) w3 := by
            unfold applyOrder
            rw [hfam]
            refine Guarded.bind hinv3 (guarded_applyPurchase nowMs (hhl3.buyer userId hbuy) hinv3)
              (fun w' _ _ h applied heq => ?_) nofun
            exact ⟨(ok.inj heq).symm, h rfl⟩
          refine sure_lift hinv3 hhl3 happl (fun w' applied hinv' hhl' h => ?_) nofun
          obtain ⟨rfl, hp⟩ := h applied rfl
          exact sure_result hhl' fun _ => hp

theorem sure_fulfilLive (nowMs : Int) (hinv : roll.Inv w)
    (hhl : roll.Held leased.order w.store) (hpr : roll.prot leased.order.id)
    (hbuy : leased.order.userId = some userId) :
    Kept sha256 roll pid w leased
      (fulfilLive s session paymentIntent userId nowMs) := by
  have hfam : leased.order.sku.family = .prot := hhl.family.mp hpr
  have happ : Guarded sha256 roll pid (fun w' r => ∀ membership, r = .ok (true, membership) →
      ∃ p, w'.store.purchase leased.order.id = some p) (alreadyApplied leased.order userId) w := by
    unfold alreadyApplied
    rw [hfam]
    refine Guarded.bind hinv (guarded_purchaseApplied leased.order.id hinv)
      (fun w' applied _ h membership heq => ?_) fun _ _ _ _ _ heq => by cases heq
    cases ok.inj heq
    exact h rfl
  refine sure_lift hinv hhl happ (fun w' r hinv' hhl' h => ?_) fun _ _ _ => trivial
  obtain ⟨applied, membership⟩ := r
  cases applied with
  | true =>
    obtain ⟨p, hp⟩ := h membership rfl
    have hpla : Plain (relistDisputes leased.order userId) := by
      unfold relistDisputes
      rw [hfam]
      exact plain_pure _
    exact sure_plain (stable_purchase leased.order.id p) hpla hinv' hhl' hp
      (fun w'' _ hinv'' hhl'' hp' => sure_finishFulfil userId nowMs hinv'' hhl'' hpr hp')
      fun _ _ => trivial
  | false =>
    refine (sure_applyChecked s session paymentIntent membership nowMs hinv' hhl' hpr
      hbuy).bind hinv' (fun w'' leased' outcome hinv'' hhl'' hid h => ?_) fun _ _ _ _ => trivial
    cases outcome with
    | some outcome => exact sure_result hhl'' trivial
    | none =>
      obtain ⟨p, hp⟩ := h rfl
      rw [← hid] at hp hpr
      exact sure_finishFulfil userId nowMs hinv'' hhl'' hpr hp

end

theorem Roll.Names.buyer {session : CheckoutSession} {order : PaymentOrder} {s : PaymentsSettings}
    (h : roll.Names session) (hours : sessionIsOurs order session s = true) :
    session.clientReferenceId = roll.buyer order.id := by
  obtain ⟨orderId, hname, href⟩ := h
  unfold sessionIsOurs at hours
  simp only [and_eq_true, hname, Option.all_some, beq_iff_eq] at hours
  obtain rfl : orderId = order.id := hours.1.1.1.2
  exact href

theorem sure_fulfilPaid (s : PaymentsSettings) {session : CheckoutSession}
    (paymentIntent : String) (wrongTerms : Bool) (nowMs : Int) (hinv : roll.Inv w)
    (hhl : roll.Held leased.order w.store) (hpr : roll.prot leased.order.id)
    (href : session.clientReferenceId = roll.buyer leased.order.id) :
    Kept sha256 roll pid w leased
      (fulfilPaid s session paymentIntent wrongTerms nowMs) := by
  refine sure_order ?_
  split
  · exact (fine_voidPaid _ _).sure hinv hhl
  split
  · exact (fine_voidPaid _ _).sure hinv hhl
  split
  · refine sure_voidForDeletedAccount nowMs hinv hhl fun u hu => ?_
    rw [← href, hu]
  · rename_i userId huse
    refine sure_plain stable_true (plain_buyerIsLive userId) hinv
      hhl trivial (fun w' live hinv' hhl' _ => ?_) fun _ _ => trivial
    cases live with
    | true => exact sure_fulfilLive s session paymentIntent nowMs hinv' hhl' hpr huse
    | false =>
      show Sure sha256 roll pid _ w' leased (voidForDeletedAccount (some userId) nowMs)
      refine sure_voidForDeletedAccount nowMs hinv' hhl' fun u hu => ?_
      cases hu
      exact hhl'.buyer userId huse

end Held

theorem calm_recordPaid (session : CheckoutSession) (paymentIntent : String) (nowMs : Int) :
    Calm (recordPaid session paymentIntent nowMs) :=
  ⟨fun _ => rfl, fun _ => rfl, fun _ => rfl,
    fun _ => .inr ⟨by simp [recordPaid], by simp [recordPaid]⟩⟩

section

variable (s : PaymentsSettings) (session : CheckoutSession)

theorem fine_voidLateSession (paymentIntent : String) (reason : VoidReason) (nowMs : Int) :
    Fine sha256 roll roll.prot (voidLateSession s session paymentIntent reason nowMs) := by
  refine fine_order fun order => ?_
  split
  · exact (fine_write (calm_recordPaid _ _ _)).bind fun _ =>
      (fine_recheckOpenDisputes s nowMs).attempt.bind fun _ => fine_voidPaid _ _
  · have hrec : Fine sha256 roll roll.prot (Work.write (recordPayment session paymentIntent nowMs)) :=
      fine_write (calm_of_state fun o => ⟨rfl, rfl, rfl, rfl⟩)
    refine ((fine_plain (plain_refundForVoid _ _)).bind fun refunded => ?_)
    split
    · exact hrec.bind fun _ => fine_pure _
    · exact fine_fail _

theorem fine_voidLatePayment (nowMs : Int) :
    Fine sha256 roll roll.prot (voidLatePayment s session nowMs) := by
  refine fine_order fun order => ?_
  split
  · exact fine_pure _
  split
  · exact fine_pure _
  split
  · exact fine_pure _
  split
  · exact fine_fail _
  · exact fine_voidLateSession _ _ _ _ _

end

theorem ours_of_sessionMismatch {order : PaymentOrder} {session : CheckoutSession}
    {s : PaymentsSettings} (h : sessionMismatch order session s ≠ some .notOurs) :
    sessionIsOurs order session s = true := by
  unfold sessionMismatch at h
  cases hours : sessionIsOurs order session s with
  | true => rfl
  | false => simp [hours] at h

section

variable (s : PaymentsSettings) {session : CheckoutSession}

theorem sure_fulfilOpen (wrongTerms : Bool)
    (nowMs : Int) (hinv : roll.Inv w) (hhl : roll.Held leased.order w.store)
    (hpr : roll.prot leased.order.id)
    (href : session.clientReferenceId = roll.buyer leased.order.id) :
    Kept sha256 roll pid w leased (fulfilOpen s session wrongTerms nowMs) := by
  refine sure_order ?_
  split
  · split <;> exact sure_result hhl trivial
  split
  · exact sure_result hhl trivial
  · rename_i paymentIntent _
    have hpd : Fine sha256 roll roll.prot (Work.onlyIf (leased.order.state != .paid)
        (Work.write (recordPaid session paymentIntent nowMs))) :=
      fine_onlyIf (fine_write (calm_recordPaid _ _ _))
    refine (hpd pid w leased hinv hhl hpr).bind hinv
      (fun w' leased' _ hinv' hhl' hid _ => ?_) fun _ _ _ _ => trivial
    rw [← hid] at hpr href
    exact sure_fulfilPaid s paymentIntent wrongTerms nowMs hinv' hhl' hpr href

theorem fine_fulfilLocked (nowMs : Int)
    (hnam : roll.Names session) : Fine sha256 roll roll.prot (fulfilLocked s session nowMs) := by
  intro pid w leased hinv hhl hpr
  refine sure_order ?_
  cases leased.order.state
  case fulfilled =>
    exact ((fine_finishFulfilled nowMs).bind fun _ => (fine_pure _)) pid w leased hinv hhl
      hpr
  case refunded => exact sure_result hhl trivial
  case voided => exact fine_voidLatePayment s session nowMs pid w leased hinv hhl hpr
  -- the order is open
  all_goals
    cases hmis : sessionMismatch leased.order session s with
    | none =>
      have hours := ours_of_sessionMismatch (s := s) (by rw [hmis]; simp)
      exact sure_fulfilOpen s false nowMs hinv hhl hpr (hnam.buyer hours)
    | some mismatch =>
      cases mismatch with
      | notOurs => exact sure_result hhl trivial
      | terms =>
        have hours := ours_of_sessionMismatch (s := s) (by rw [hmis]; simp)
        exact sure_fulfilOpen s true nowMs hinv hhl hpr (hnam.buyer hours)

theorem fine_resumeLocked (nowMs : Int)
    (hnam : roll.Names session) : Fine sha256 roll roll.prot (resumeLocked s session nowMs) := by
  refine Fine.bind (fine_order fun order => ?_) fun _ => fine_fulfilLocked s nowMs hnam
  split
  · exact (fine_recheckOpenDisputes s nowMs).attempt.bind fun _ => fine_pure _
  · exact fine_pure _

end

/-! ## Deliveries -/

variable {id : String} {o : PaymentOrder}

theorem held_of_stored (hinv : roll.Inv w) (hg : w.store.orders.get id = some o)
    : roll.Held o w.store ∧ o.id = id := by
  have hsnd : roll.Sound w.store := hinv
  obtain rfl : o.id = id := hsnd.keyed.orders id o hg
  exact ⟨⟨⟨o, hg, Later.refl o⟩, hsnd.family _ o hg, fun u => hsnd.buyers _ o u hg,
    hsnd.credited _ o hg, hsnd.clawed _ o hg⟩, rfl⟩

theorem stored_of_acquired {now untilMs : Int}
    (h : (w.perform sha256 pid (.orders (.acquire id now untilMs))).2 = Except.ok (some o)) :
    (w.perform sha256 pid (.orders (.acquire id now untilMs))).1.store.orders.get id = some o := by
  rcases perform_orders_cases sha256 (.acquire id now untilMs) w.store with ⟨e, hperf⟩ | hperf
  · rw [perform_eq hperf] at h
    cases h
  · rw [perform_eq hperf] at h ⊢
    rcases acquirePaymentOrderLease_cases id now untilMs w.store.orders with
      ⟨-, hrefu⟩ | ⟨row, -, -, -, heq⟩
    · exact absurd h (hrefu o)
    · have ho : (acquirePaymentOrderLease id now untilMs w.store.orders).2 = .ok (some o) := h
      rw [heq] at ho
      cases ok.inj ho
      show (acquirePaymentOrderLease id now untilMs w.store.orders).1.get id = _
      rw [heq, get_insert_self]

theorem guarded_acquire (orderId : String) (nowMs : Int) (hinv : roll.Inv w) :
    Guarded sha256 roll pid (fun w' r => ∀ leased, r = .ok (some leased) →
      roll.Held leased.order w'.store ∧ leased.order.id = orderId) (acquire orderId nowMs) w := by
  refine guarded_call stable_true hinv trivial (fun _ _ _ => trivial) fun w' _ _ hinv' _ => ?_
  generalize hans : (w'.perform sha256 pid
    (.orders (.acquire orderId nowMs (leaseToken nowMs)))).2 = answer
  match answer, hans with
  | .error e, _ => exact fun leased heq => by cases heq
  | .ok (some o), hans =>
    intro leased heq
    cases ok.inj heq
    exact held_of_stored hinv' (stored_of_acquired hans)
  | .ok none, _ =>
    refine guarded_call stable_true hinv' trivial (fun _ _ _ => trivial) fun w'' _ _ _ _ => ?_
    generalize (w''.perform sha256 pid (.orders (.fetch orderId))).2 = answer'
    match answer' with
    | .error _ | .ok none | .ok (some _) => exact fun leased heq => by cases heq

theorem guarded_underLease (hinv : roll.Inv w) (hwr : Kept sha256 roll pid w leased work) :
    Guarded sha256 roll pid (fun _ _ => True) (underLease leased work) w :=
  Guarded.bind hinv hwr (fun _ r hinv' _ =>
    ((plain_release r.2).bind fun _ => plain_pure _).guarded stable_true hinv' trivial) fun _ _ _ _ => trivial

/-- **Work under a lease.** -/
theorem guarded_leaseOr {orderId : String} (nowMs : Int) (busy : α) (hinv : roll.Inv w)
    (hwr : ∀ w leased, roll.Inv w → roll.Held leased.order w.store →
      leased.order.id = orderId → Kept sha256 roll pid w leased work) :
    Guarded sha256 roll pid (fun _ _ => True) (leaseOr orderId nowMs busy work) w := by
  refine Guarded.bind hinv (guarded_acquire orderId nowMs hinv) (fun w' leased hinv' h => ?_)
    fun _ _ _ _ => trivial
  cases leased with
  | none => exact trivial
  | some leased =>
    obtain ⟨hhl, hid⟩ := h leased rfl
    exact Guarded.bind hinv' (guarded_underLease hinv' (hwr w' leased hinv' hhl hid))
      (fun _ _ _ _ => trivial) fun _ _ _ _ => trivial

theorem Guarded.ignore {post : World → Result α → Prop} (hinv : roll.Inv w)
    (hp : Guarded sha256 roll pid post p w) :
    Guarded sha256 roll pid (fun _ _ => True) (do let _ ← p; return ()) w :=
  Guarded.bind hinv hp (fun _ _ _ _ => trivial) fun _ _ _ _ => trivial

theorem sure_voidForDeletion (nowMs : Int) (hinv : roll.Inv w)
    (hhl : roll.Held leased.order w.store) :
    Kept sha256 roll pid w leased (voidForDeletion nowMs) := by
  have hdel : Fine sha256 roll (fun _ => True) (Work.write (recordDeleted nowMs)) :=
    fine_write ⟨fun _ => rfl, fun _ => rfl, fun _ => rfl,
      fun _ => .inr ⟨by simp [recordDeleted], by simp [recordDeleted]⟩⟩
  have hvd : Kept sha256 roll pid w leased
      (voidForDeletedAccount leased.order.userId nowMs) :=
    sure_voidForDeletedAccount nowMs hinv hhl fun u hu => hhl.buyer u hu
  refine sure_order ?_
  cases leased.order.state with
  | paid =>
    exact hvd.bind hinv (fun _ _ _ _ hhl' _ _ => sure_result hhl' trivial) fun _ _ _ _ => trivial
  | creating | pending | sessionFailed => exact hdel.sure hinv hhl
  | _ => exact sure_result hhl trivial

theorem guarded_voidAll (nowMs : Int) (found : List PaymentOrder) (hinv : roll.Inv w) :
    Guarded sha256 roll pid (fun _ _ => True) (voidAll nowMs found) w := by
  induction found generalizing w with
  | nil => exact trivial
  | cons order rest ih =>
    have hlst : Guarded sha256 roll pid (fun _ _ => True)
        (leaseOr order.id nowMs () (voidForDeletion nowMs)).attempt w :=
      Prog.Safe.attempt (guarded_leaseOr nowMs () hinv
        fun w leased hinv' hhl _ => sure_voidForDeletion nowMs hinv' hhl)
    exact Guarded.bind hinv (hlst.ignore hinv) (fun w' _ hinv' _ => ih hinv') fun _ _ _ _ => trivial

theorem guarded_onAccountDeleted (userId : String) (nowMs : Int) (hinv : roll.Inv w) :
    Guarded sha256 roll pid (fun _ _ => True) (onAccountDeleted userId nowMs) w := by
  have hpla : ∀ {β : Type} {p : Engine β} {w : World}, Plain p → roll.Inv w →
      Guarded sha256 roll pid (fun _ _ => True) p w := fun hp hinv =>
    hp.guarded stable_true hinv trivial
  exact Guarded.bind hinv (hpla (plain_openOrders userId) hinv)
    (fun w' found hinv' _ => Guarded.bind hinv' (guarded_voidAll nowMs found hinv')
      (fun w'' _ hinv'' _ => hpla (plain_unlinkAccountPayments userId) hinv'') fun _ _ _ _ => trivial)
    fun _ _ _ _ => trivial

/-- A delivery over a Prot order, with a session that names the order and its buyer; or the
deletion of any account. -/
def Roll.Over (roll : Roll) : Delivery → Prop
  | .fulfil orderId session _ => roll.prot orderId ∧ roll.Names session
  | .resume orderId _ => roll.prot orderId
  | .reverse orderId _ _ _ => roll.prot orderId
  | .dispute orderId _ _ => roll.prot orderId
  | .recheck orderId _ => roll.prot orderId
  | .finishRelease orderId _ => roll.prot orderId
  | .markSettling orderId _ => roll.prot orderId
  | .clearSettling orderId _ => roll.prot orderId
  | .expire orderId _ => roll.prot orderId
  | .accountDeleted _ _ => True

theorem guarded_protWork {orderId : String} (hpr : roll.prot orderId) (nowMs : Int) (busy : α)
    (hwr : Fine sha256 roll roll.prot work) (hinv : roll.Inv w) :
    Guarded sha256 roll pid (fun _ _ => True) (leaseOr orderId nowMs busy work) w :=
  guarded_leaseOr nowMs busy hinv fun w' leased hinv' hhl hid =>
    hwr pid w' leased hinv' hhl (hid ▸ hpr)

section

variable (s : PaymentsSettings) {orderId : String} (hpr : roll.prot orderId) (nowMs : Int)
  (hinv : roll.Inv w)
include hpr hinv

theorem guarded_resumeOrder :
    Guarded sha256 roll pid (fun _ _ => True) (resumeOrder s orderId nowMs) w := by
  refine guarded_call stable_true hinv trivial (fun _ _ _ => trivial) fun w' _ _ hinv' _ => ?_
  generalize (w'.perform sha256 pid (.orders (.fetch orderId))).2 = answer
  match answer with
  | .error e => exact trivial
  | .ok none => exact trivial
  | .ok (some order) =>
    dsimp only [check, Prog.bind]
    cases order.checkoutSessionId with
    | none => exact trivial
    | some sessionId =>
      refine guarded_call stable_true hinv' trivial (fun _ _ _ => trivial) fun w'' hinv0 _ hinv'' _ => ?_
      generalize hans : (w''.perform sha256 pid (.stripe (.getCheckoutSession sessionId))).2
        = answer'
      match answer', hans with
      | .error e, _ => exact trivial
      | .ok session, hans =>
        rw [perform_eq (perform_stripe sha256 _ w''.store)] at hans
        have hnam : roll.Names session := Roll.Sound.sessions hinv0 _ _ session hans
        exact guarded_protWork hpr nowMs _ (fine_resumeLocked s nowMs hnam) hinv''

theorem guarded_recheckDisputes :
    Guarded sha256 roll pid (fun _ _ => True) (recheckDisputes s orderId nowMs) w := by
  refine Guarded.bind hinv (guarded_acquire orderId nowMs hinv) (fun w' leased hinv' h => ?_)
    fun _ _ _ _ => trivial
  cases leased with
  | none => exact trivial
  | some leased =>
    obtain ⟨hhl, rfl⟩ := h leased rfl
    refine Guarded.bind hinv' (guarded_underLease hinv'
      (fine_recheckOpenDisputes s nowMs pid w' leased hinv' hhl hpr))
      (fun w'' r hinv'' _ => ?_) fun _ _ _ _ => trivial
    have hchk : Guarded sha256 roll pid (fun _ _ => True) (check r.1) w'' := trivial
    refine Guarded.bind hinv'' hchk (fun _ _ _ _ => ?_) fun _ _ _ _ => trivial
    split <;> exact trivial

end

theorem fine_finishNumberReleaseLocked (nowMs : Int) :
    Fine sha256 roll roll.prot (finishNumberReleaseLocked nowMs) := by
  intro pid w leased hinv hhl hpr
  have hfam : leased.order.sku.family = .prot := hhl.family.mp hpr
  have hsku : leased.order.sku.isCipherNew = false := by
    cases hsku : leased.order.sku with
    | cipherNew _ => exact absurd hfam (by simp [hsku, Sku.family])
    | _ => rfl
  refine sure_order ?_
  rw [hsku]
  exact sure_result hhl trivial

/-- **Every delivery keeps the rows.** -/
theorem guarded_deliver (s : PaymentsSettings) {delivery : Delivery} (hov : roll.Over delivery)
    (hinv : roll.Inv w) :
    Guarded sha256 roll pid (fun _ _ => True) (deliver s delivery) w := by
  cases delivery with
  | fulfil orderId session nowMs =>
    exact (guarded_protWork hov.1 nowMs _ (fine_fulfilLocked s nowMs hov.2) hinv).ignore hinv
  | resume orderId nowMs => exact (guarded_resumeOrder s hov nowMs hinv).ignore hinv
  | reverse orderId kind refund nowMs =>
    have hrev : Guarded sha256 roll pid (fun _ _ => True) (reverseOrder orderId kind refund nowMs)
        w := by
      unfold reverseOrder
      split
      · exact trivial
      · exact guarded_protWork hov nowMs _ (fine_reverseAndClear kind refund nowMs) hinv
    exact hrev.ignore hinv
  | dispute orderId disputeId nowMs =>
    refine (guarded_protWork hov nowMs _ (fine_order fun order => ?_) hinv).ignore hinv
    exact (fine_plain (plain_currentDisputeKind _ _ _)).bind fun kind =>
      fine_reverseLocked _ _ _ _
  | recheck orderId nowMs => exact (guarded_recheckDisputes s hov nowMs hinv).ignore hinv
  | finishRelease orderId nowMs =>
    exact (guarded_protWork hov nowMs _ ((fine_finishNumberReleaseLocked nowMs).bind
      fun _ => (fine_pure _)) hinv).ignore hinv
  | markSettling orderId nowMs =>
    have hmr : Fine sha256 roll roll.prot (Work.write (markSettling nowMs)) :=
      fine_write (calm_of_state fun o => ⟨rfl, rfl, rfl, rfl⟩)
    refine (guarded_protWork hov nowMs _ (fine_order fun order => ?_) hinv).ignore hinv
    split
    · exact fine_pure _
    · exact ((fine_onlyIf hmr).bind fun _ => fine_pure _)
  | clearSettling orderId nowMs =>
    have hcle : Fine sha256 roll roll.prot (Work.write clearSettling) :=
      fine_write (calm_of_state fun o => ⟨rfl, rfl, rfl, rfl⟩)
    refine (guarded_protWork hov nowMs _ (fine_order fun order => ?_) hinv).ignore hinv
    exact ((fine_onlyIf hcle).bind fun _ => fine_pure _)
  | expire orderId nowMs =>
    have hexp : Calm recordExpired := ⟨fun _ => rfl, fun _ => rfl, fun _ => rfl,
      fun _ => .inr ⟨by simp [recordExpired], by simp [recordExpired]⟩⟩
    refine (guarded_protWork hov nowMs _ (fine_order fun order => ?_) hinv).ignore hinv
    exact ((fine_onlyIf (fine_write hexp)).bind fun _ => fine_pure _)
  | accountDeleted userId nowMs => exact guarded_onAccountDeleted userId nowMs hinv

/-! ## Runs -/

/-- The rows of the Prot orders. -/
structure Roll.RowsOnce (roll : Roll) (s : Store) : Prop where
  /-- A key has one row. -/
  once : ∀ row ∈ s.prot.protLedger.values, ∀ row' ∈ s.prot.protLedger.values,
    row.key = row'.key → row = row'
  clawbacks : ∀ id e, roll.prot id → s.clawback id = some e →
    ∃ p, s.purchase id = some p ∧ TakesBack e p
  refunded : ∀ id o p, roll.prot id → s.orders.get id = some o → o.state = .refunded →
    o.userId ≠ none → s.purchase id = some p → ∃ e, s.clawback id = some e

theorem Roll.Sound.rowsOnce {s : Store} (h : roll.Sound s) : roll.RowsOnce s := by
  refine ⟨fun row hrow row' hrow' hkey => ?_, h.clawbacks,
    fun id o p hpr hg hst hlin _ => h.clawed id o hg hpr hst hlin⟩
  obtain ⟨key, hg⟩ := mem_values.mp hrow
  obtain ⟨key', hg'⟩ := mem_values.mp hrow'
  rw [h.rows key row hg, h.rows key' row' hg'] at hkey
  subst hkey
  exact some.inj (hg.symm.trans hg')

/-- **A Prot order is credited and clawed back at most once.** Take any run of deliveries
over Prot orders and of account deletions, from a store in which the rows are in order. In
every state reached a key has one row; a clawback row has the purchase row beside it, asks
for what the purchase credited and debits the wallet it credited; and a refunded order that
was credited and is linked to its buyer has its clawback row. And rows stay: whatever
comes after, they are as they were. -/
theorem prot_order_rows {store : Store} (hstart : roll.Sound store) {sys sys' : Deliveries}
    (hreached : Reachable (Deliveries.exec sha256) (System.Admits fun request => roll.Over request.2)
      (Deliveries.idle store) sys)
    (hlater : Reachable (Deliveries.exec sha256) (System.Admits fun request => roll.Over request.2)
      sys sys') :
    roll.RowsOnce sys.store.store ∧ ∀ key e, sys.store.store.prot.protLedger.get key = some e →
        sys'.store.store.prot.protLedger.get key = some e := by
  have hpost : ∀ (pid : Nat) (request : PaymentsSettings × Delivery) (r : Result Unit),
      Stable roll.Inv roll.Moves fun _ => True := fun _ _ _ _ _ _ _ _ => trivial
  have hbody : ∀ pid (request : PaymentsSettings × Delivery) w, roll.Over request.2 → roll.Inv w →
      (deliver request.1 request.2).Safe (World.perform sha256) roll.Inv roll.Moves pid
        (fun _ _ => True) w := fun pid request w hover hinv => guarded_deliver request.1 hover hinv
  obtain ⟨h, hrun⟩ := hreached
  obtain ⟨h', hrun'⟩ := hlater
  have hinv : roll.Inv (World.start store) := hstart
  have hsafe := System.safe_of_run stable_inv hpost hbody hinv hrun
  refine ⟨Roll.Sound.rowsOnce hsafe.store, fun key e hget => ?_⟩
  refine (hrun'.invariant (P := fun sys => System.AllSafe (World.perform sha256) roll.Inv
    roll.Moves (fun _ _ _ _ => True) sys ∧ sys.store.store.prot.protLedger.get key = some e)
    (fun sys event hadm hsys => ?_) ⟨hsafe, hget⟩).2
  obtain ⟨hnext, hsame | hmoves⟩ := System.allSafe_exec stable_inv hpost hbody hadm hsys.1
  · exact ⟨hnext, (congrArg (fun w => w.store.prot.protLedger.get key) hsame).trans hsys.2⟩
  · exact ⟨hnext, hmoves.ledger key e hsys.2⟩

/-! ## A refund after the account was deleted -/

namespace ProtRefund

open Sample

/-- A Prot order of the user, waiting for its payment. -/
def purchase : PaymentOrder := order "P" (.protExact 500) 500

def sales : Roll where
  prot id := id = "P"
  buyer id := if id = "P" then some "u" else none

def start : Deliveries := Deliveries.idle (store silent [purchase])

/-- A refund of the whole payment. -/
def refund : Delivery := .reverse "P" .refund (some ⟨2000, true, .succeeded⟩) 2000

/-- The order is paid and credited. -/
def credited : List (Event (PaymentsSettings × Delivery)) :=
  delivers 0 (.fulfil "P" (session purchase) 1000) 12

/-- The account is deleted before the refund. -/
def deletedFirst : List (Event (PaymentsSettings × Delivery)) :=
  credited ++ delivers 1 (.accountDeleted "u" 1500) 4 ++ delivers 2 refund 8

def refunded : Deliveries :=
  execAll (Deliveries.exec digest) start (credited ++ delivers 1 refund 8)

def forfeited : Deliveries := execAll (Deliveries.exec digest) start deletedFirst

/-- What the refund leaves: the order, and the accounts and amounts of its two rows. -/
def left (sys : Deliveries) :
    Option (OrderState × Option String) × Option (String × Int) × Option (String × Option Int) :=
  ((sys.store.store.orders.get "P").map fun o => (o.state, o.userId),
    (sys.store.store.purchase "P").map fun p => (p.credit, p.amount),
    (sys.store.store.clawback "P").map fun e => (e.debit, e.requested))

theorem over_refund : sales.Over refund := rfl

theorem over_fulfil : sales.Over (.fulfil "P" (session purchase) 1000) := ⟨rfl, "P", rfl, rfl⟩

theorem sound_start : sales.Sound (store silent [purchase]) := by
  have hpur : ∀ id o, (store silent [purchase]).orders.get id = some o →
      id = "P" ∧ o = purchase := by
    intro id o hg
    rcases get_insertAll_cases hg with ⟨hmem, hid⟩ | ⟨hg, -⟩
    · obtain rfl := mem_singleton.mp hmem
      exact ⟨hid.symm, rfl⟩
    · cases hg
  have hrow : ∀ key e, (store silent [purchase]).prot.protLedger.get key ≠ some e :=
    fun key e hg => absurd hg (by simp [store])
  refine ⟨Sample.keyed _ _, fun id o hg => ?_, fun id o u hg huse => ?_,
    fun key e hg => absurd hg (hrow key e), fun tick id session hses => ?_,
    fun id o hg _ hst => ?_, fun id o hg _ hst => ?_,
    fun id p _ hg => absurd hg (hrow _ _), fun id e _ hg => absurd hg (hrow _ _)⟩
  · obtain ⟨rfl, rfl⟩ := hpur id o hg
    exact ⟨fun _ => rfl, fun _ => rfl⟩
  · obtain ⟨rfl, rfl⟩ := hpur id o hg
    exact huse
  · exact absurd hses (by simp [store, silent])
  · obtain ⟨rfl, rfl⟩ := hpur id o hg
    exact absurd hst (by decide)
  · obtain ⟨rfl, rfl⟩ := hpur id o hg
    exact absurd hst (by decide)

end ProtRefund

open ProtRefund in
/-- The order is credited and then refunded, and the refund takes the credit back. -/
theorem prot_order_rows_refunded : sales.RowsOnce refunded.store.store ∧
      left refunded = (some (.refunded, some "u"), some ("user:u", 500), some ("user:u", some 500)) := by
  have hreached : Reachable (Deliveries.exec Sample.digest)
      (System.Admits fun request => sales.Over request.2) start refunded := by
    refine Reachable.of_admitsAll (System.admitsAll_of_starts fun pid request hmem => ?_)
    simp only [credited, Sample.delivers, cons_append, mem_cons, mem_append,
      List.mem_replicate, Event.start.injEq, reduceCtorEq, and_false, or_false, false_or] at hmem
    obtain ⟨-, rfl⟩ | ⟨-, rfl⟩ := hmem
    · exact over_fulfil
    · exact over_refund
  exact ⟨(prot_order_rows sound_start hreached ⟨[], Run.nil _⟩).1, by decide⟩

set_option maxRecDepth 10000 in
open ProtRefund in
/-- **A refund without a clawback.** The account is deleted between the credit and the
refund. The order is unlinked, so that nobody is left to claw back from: the refund is
recorded, the purchase row stays, and no clawback row is written. -/
theorem refunded_without_clawback :
    Reachable (Deliveries.exec Sample.digest) (System.Admits fun request => sales.Over request.2)
        start forfeited ∧
      left forfeited = (some (.refunded, none), some ("user:u", 500), none) := by
  refine ⟨Reachable.of_admitsAll (System.admitsAll_of_starts fun pid request hmem => ?_), by decide⟩
  simp only [deletedFirst, credited, Sample.delivers, cons_append, mem_cons,
    mem_append, List.mem_replicate, Event.start.injEq, reduceCtorEq, and_false, or_false,
    false_or] at hmem
  obtain ⟨-, rfl⟩ | ⟨-, rfl⟩ | ⟨-, rfl⟩ := hmem
  · exact over_fulfil
  · exact trivial
  · exact over_refund

end SlogaBackend.Payments
