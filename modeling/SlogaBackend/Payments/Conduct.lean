import SlogaBackend.Payments.World

/-!
# How a worker of the engine conducts itself

What a worker may do follows from what it knows (`Local`), and the rules are stated here
once, call by call. A write replaces an order by a changed copy of what the worker holds
under the lease; only an order that is paid and carries no void is fulfilled, credited or
put on a membership; a void reason is taken back only by the worker that recorded it; a
membership is replaced at the version it was read at, and its orders and its number move
in four ways only; a number is put back after no membership was seen to hold it; and a
refund is asked for an order on which no dispute was seen.

`conduct` is the discipline of these rules. The programs of the engine keep it; that is
shown along the programs, without other workers. What a rule is worth while other
workers interleave is the subject of the modules after.

## Programs over a leased order

`Holding` ties a worker's knowledge to the copy its program carries: the program's order
is the one held, but for a country that was noted and not written yet. `Work.Obeys` is
the judgement for these programs, with `Work.Frames` for those that leave a part of what
is known alone.
-/

namespace SlogaBackend.Payments

/-! ## The rules -/

/-- Paid, and no void is recorded. -/
def Paying (c : PaymentOrder) : Prop := c.state = .paid ∧ c.voidReason = none

/-- How `o` may be written over the held copy `c`. -/
structure Local.WritesOver (l : Local) (c o : PaymentOrder) : Prop where
  version : o.version = c.version
  leaseUntil : o.leaseUntil = c.leaseUntil
  userId : o.userId = c.userId
  sku : o.sku = c.sku
  fulfils : o.state = .fulfilled → (c.state = .fulfilled ∨ Paying c) ∧ o.voidReason = c.voidReason
  voids : o.state = .voided →
    o.voidReason ≠ none ∨ (c.state = .voided ∧ o.voidReason = c.voidReason)
  unmarks : o.voidReason = none → c.voidReason = none ∨ l.mark = some o.id

/-- A membership made by one paying purchase, under the number that is its own. -/
structure Local.Founds (l : Local) (m : CipherMembership) (orderId : String) : Prop where
  orders : m.orders = [orderId]
  number : l.numbers.get orderId = some m.number
  paying : ∃ c, l.copies.get orderId = some c ∧ Paying c ∧ c.sku.isCipherNew = true

/-- How a membership may be replaced. -/
inductive Local.Replaces (l : Local) (m next : CipherMembership) : Prop where
  | kept (hnumber : next.number = m.number) (horders : next.orders = m.orders)
  | extended (orderId : String) (c : PaymentOrder) (hcopy : l.copies.get orderId = some c)
      (hpaying : Paying c) (hnumber : next.number = m.number)
      (horders : next.orders = m.orders ++ [orderId])
  | shrunk (orderId : String) (c : PaymentOrder) (hcopy : l.copies.get orderId = some c)
      (hsku : c.sku.isCipherNew = false) (hnumber : next.number = m.number)
      (horders : next.orders = m.orders.filter fun id => id != orderId)
  | founded (orderId : String) (hfounds : l.Founds next orderId)

def Local.mayOrder (l : Local) : OrderOp → Prop
  | .insert _ => False
  | .update o expected => ∃ c, l.copies.get o.id = some c ∧ expected = c.state ∧ l.WritesOver c o
  | _ => True

def Local.mayMembership (l : Local) : MembershipOp → Prop
  | .insert m => ∃ orderId, l.Founds m orderId
  | .update next expected =>
    ∃ m, l.read = some m ∧ next.userId = m.userId ∧ expected = m.version ∧ l.Replaces m next
  | .deleteIfVersion userId expected =>
    ∃ m, l.read = some m ∧ userId = m.userId ∧ expected = m.version
  | _ => True

def Local.mayNumber (l : Local) : NumberOp → Prop
  | .release orderId => ∃ c n, l.copies.get orderId = some c ∧ l.numbers.get orderId = some n ∧
      l.unheld = some n
  | _ => True

def Local.mayLedger (l : Local) : LedgerOp → Prop
  | .apply posting => ∀ orderId, posting.key = protKeyPurchase orderId →
      ∃ c, l.copies.get orderId = some c ∧ Paying c
  | _ => True

def Local.mayStripe (l : Local) : StripeOp → Prop
  | .createRefund _ (.voidOrder orderId) =>
    ∃ c, l.copies.get orderId = some c ∧ isDisputed c = false ∧
      (c.voidReason ≠ none ∨ c.state = .voided)
  | .createRefund _ (.releaseUpgrade orderId) =>
    ∃ o, l.seen = some o ∧ o.id = orderId ∧ isDisputed o = false
  | _ => True

/-- The calls a worker may make. -/
def Local.may (l : Local) : Call → Prop
  | .orders op => l.mayOrder op
  | .memberships op => l.mayMembership op
  | .numbers op => l.mayNumber op
  | .ledger op => l.mayLedger op
  | .stripe op => l.mayStripe op
  | .users _ => True
  | .protSettings => True

/-- What the store may answer: a row comes back under the key it was asked for. -/
def possibleAnswer : (c : Call) → Answer c → Prop
  | .orders (.fetch id), answer => ∀ o, answer = Except.ok (some o) → o.id = id
  | .orders (.acquire id _ _), answer => ∀ o, answer = Except.ok (some o) → o.id = id
  | .memberships (.fetch userId), answer => ∀ m, answer = Except.ok (some m) → m.userId = userId
  | _, _ => True

/-- The discipline of the engine's workers. -/
def conduct : Discipline Call Answer Local where
  init := Local.init
  note := Local.note
  allowed := Local.may
  possible := possibleAnswer

/-! ## Programs that leave what is known alone -/

/-- Everything a worker knows but the order it fetched last. -/
def Local.known (l : Local) :
    Table String PaymentOrder × Table String Nat × Option CipherMembership × Option Nat ×
      Option String :=
  (l.copies, l.numbers, l.read, l.unheld, l.mark)

/-- What a worker holds: the leased orders, and the numbers it saw with orders. -/
def Local.held (l : Local) : Table String PaymentOrder × Table String Nat := (l.copies, l.numbers)

/-- What a worker knows of one order, and the membership it read last. -/
def Local.aside (orderId : String) (l : Local) :
    Option PaymentOrder × Option Nat × Option CipherMembership :=
  (l.copies.get orderId, l.numbers.get orderId, l.read)

theorem aside_of_known {l l' : Local} (other : String) (h : l'.known = l.known) :
    l'.aside other = l.aside other := by
  simp only [Local.known, Prod.mk.injEq] at h
  simp only [Local.aside, h]

/-- A program that changes nothing a worker knows but the order fetched last. -/
def Quiet {α : Type} (p : Engine α) : Prop := p.Frames conduct Local.known

/-- A program that may read and replace memberships. -/
def Tame {α : Type} (p : Engine α) : Prop := p.Frames conduct Local.held

/-- A program that may also look up numbers. -/
def Loose {α : Type} (p : Engine α) : Prop := p.Frames conduct Local.copies

section Frames

variable {α β : Type} {p : Engine α}

theorem Quiet.tame (h : Quiet p) : Tame p :=
  Prog.Frames.coarsen (fun l l' hvw => by
    simp only [Local.known, Prod.mk.injEq] at hvw
    simp only [Local.held, hvw]) h

theorem Tame.loose (h : Tame p) : Loose p :=
  Prog.Frames.coarsen (fun _ _ hvw => congrArg Prod.fst hvw) h

theorem Quiet.bind {k : α → Engine β} (hp : Quiet p) (hk : ∀ a, Quiet (k a)) :
    Quiet (p >>= k) := Frames.bind hp hk

theorem Tame.bind {k : α → Engine β} (hp : Tame p) (hk : ∀ a, Tame (k a)) :
    Tame (p >>= k) := Frames.bind hp hk

theorem Quiet.attempt (hp : Quiet p) : Quiet p.attempt := Prog.Frames.attempt hp

theorem Tame.attempt (hp : Tame p) : Tame p.attempt := Prog.Frames.attempt hp

theorem quiet_done (result : Result α) : Quiet (Prog.done result) := Frames.done result

theorem quiet_pure (a : α) : Quiet (pure a) := quiet_done _

theorem quiet_failWith (e : Error) : Quiet (failWith e : Engine α) := quiet_done _

theorem quiet_users (op : UserOp) : Quiet (users op) :=
  Frames.call (fun _ => trivial) (fun _ _ => rfl) fun _ => Frames.done _

theorem quiet_loadProtSettings : Quiet loadProtSettings :=
  Frames.call (fun _ => trivial) (fun _ _ => rfl) fun _ => Frames.done _

/-- Whether a ledger call is allowed whatever is known. -/
def LedgerOp.Free : LedgerOp → Prop
  | .apply posting => ∀ orderId, posting.key ≠ protKeyPurchase orderId
  | _ => True

theorem quiet_ledger (op : LedgerOp) (h : op.Free) : Quiet (ledger op) := by
  refine Frames.call (fun l => ?_) (fun _ _ => rfl) fun _ => Frames.done _
  cases op with
  | apply posting => exact fun orderId hkey => absurd hkey (h orderId)
  | _ => exact trivial

/-- Whether a Stripe call asks for no refund. -/
def StripeOp.NoRefund : StripeOp → Prop
  | .createRefund _ _ => False
  | _ => True

theorem quiet_stripe (op : StripeOp) (h : op.NoRefund) : Quiet (stripe op) := by
  refine Frames.call (fun l => ?_) (fun l answer => ?_) fun _ => Frames.done _
  · cases op with
    | createRefund _ _ => exact absurd h id
    | _ => exact trivial
  · cases op with
    | createRefund _ _ => exact absurd h id
    | _ => rfl

theorem quiet_stripeOrProviderError (op : StripeOp) (h : op.NoRefund) :
    Quiet (stripeOrProviderError op) :=
  Frames.bind (quiet_stripe op h) fun answer => by
    cases answer with
    | ok value => exact quiet_done _
    | error _ => exact quiet_done _

theorem quiet_fetchOrder (id : String) : Quiet (orders (.fetch id)) :=
  Frames.call (fun _ => trivial) (fun l answer => by
    match answer with
    | .ok (some o) => rfl
    | .ok none => rfl
    | .error _ => rfl) fun _ => Frames.done _

section

variable (userId : String)

theorem quiet_fetchByUser (states : List OrderState) :
    Quiet (orders (.fetchByUser userId states)) :=
  Frames.call (fun _ => trivial) (fun _ _ => rfl) fun _ => Frames.done _

theorem tame_fetchMembership : Tame (memberships (.fetch userId)) :=
  Frames.call (fun _ => trivial) (fun l answer => by
    match answer with
    | .ok _ => rfl
    | .error _ => rfl) fun _ => Frames.done _

theorem tame_deleteMembership : Tame (memberships (.delete userId)) :=
  Frames.call (fun _ => trivial) (fun _ _ => rfl) fun _ => Frames.done _

/-! ### Accounts and the ledger -/

theorem quiet_buyerIsLive : Quiet (buyerIsLive userId) := by
  refine (quiet_users _).attempt.bind fun r => ?_
  split
  · exact quiet_pure _
  · exact quiet_pure _
  · exact quiet_failWith _

theorem tame_syncBadgeRounds (rounds : Nat) : Tame (syncBadgeRounds userId rounds) := by
  induction rounds with
  | zero => exact (quiet_failWith _).tame
  | succ rounds ih =>
    unfold syncBadgeRounds
    refine (tame_fetchMembership userId).bind fun m => ?_
    refine (quiet_users _).attempt.tame.bind fun r => ?_
    split
    · exact (quiet_pure _).tame
    · exact (quiet_failWith _).tame
    · rename_i user
      dsimp only
      generalize (if user.deleted = true then none else m.bind CipherMembership.publicBadge) = badge
      split
      · exact (quiet_pure _).tame
      · exact (quiet_users _).tame.bind fun _ => ih

theorem tame_syncUserBadge : Tame (syncUserBadge userId) := tame_syncBadgeRounds userId _

theorem quiet_publishBalance : Quiet (publishBalance userId) :=
  (quiet_ledger (.fetchAccount _) trivial).attempt.bind fun _ => quiet_pure _

theorem quiet_publishIfApplied (outcome : Prot.ProtApplyOutcome) :
    Quiet (publishIfApplied userId outcome) := by
  cases outcome with
  | applied _ => exact quiet_publishBalance userId
  | alreadyApplied _ => exact quiet_pure _

theorem quiet_forfeitIfDeleted (nowMs : Int) : Quiet (forfeitIfDeleted userId nowMs) := by
  refine (quiet_buyerIsLive userId).bind fun live => ?_
  split
  · exact quiet_pure _
  · exact (quiet_ledger (.forfeit _ _) trivial).bind fun _ => quiet_pure _

end

theorem quiet_purchaseApplied (orderId : String) : Quiet (purchaseApplied orderId) :=
  (quiet_ledger (.fetchEntry _) trivial).bind fun _ => quiet_pure _

theorem clawback_ne_purchase (orderId orderId' : String) :
    Prot.protKeyClawback orderId ≠ protKeyPurchase orderId' :=
  append_ne_append 1 (by decide) (by decide) (by decide) _ _

theorem quiet_clawbackPurchase (orderId userId : String) (nowMs : Int) :
    Quiet (clawbackPurchase orderId userId nowMs) := by
  refine (quiet_ledger (.fetchEntry _) trivial).bind fun purchase => ?_
  split
  · exact quiet_pure _
  · refine (quiet_ledger (.fetchEntry _) trivial).bind fun clawback => ?_
    split
    · exact quiet_pure _
    · refine (quiet_ledger (.apply _) fun orderId' => clawback_ne_purchase _ _).bind
        fun outcome => quiet_publishIfApplied userId outcome

theorem quiet_syncCipherProt (ps : ProtSalesSettings) (userId : String) (nowMs : Int) :
    Quiet (syncCipherProt ps userId nowMs) := by
  unfold syncCipherProt
  split
  · exact quiet_pure _
  · refine (quiet_ledger (.syncCipher _ _) trivial).bind fun sync => ?_
    split
    · exact quiet_pure _
    · exact (quiet_publishIfApplied userId _).bind fun _ => quiet_forfeitIfDeleted userId nowMs
    · exact quiet_pure _

theorem quiet_syncAfterCipherFulfil (userId : String) (nowMs : Int) :
    Quiet (syncAfterCipherFulfil userId nowMs) :=
  quiet_loadProtSettings.bind fun ps =>
    (quiet_syncCipherProt ps userId nowMs).attempt.bind fun _ => quiet_pure _

theorem quiet_publishIfMoved (userId : String) (amount : Int) :
    Quiet (publishIfMoved userId amount) := by
  unfold publishIfMoved
  split
  · exact quiet_publishBalance userId
  · exact quiet_pure _

theorem quiet_clawbackCipherOrder (userId orderId : String) (nowMs : Int) :
    Quiet (clawbackCipherOrder userId orderId nowMs) := by
  refine (quiet_ledger (.clawbackCipher _ _ _) trivial).bind fun outcome => ?_
  split
  · exact (quiet_publishIfMoved userId _).bind fun _ => quiet_pure _
  · exact quiet_pure _

theorem quiet_incarnationRows (m : CipherMembership) : Quiet (incarnationRows m) := by
  unfold incarnationRows
  split
  · exact quiet_ledger (.fetchByMembership _) trivial
  · exact quiet_pure _

theorem quiet_membershipShortfall (m : CipherMembership) : Quiet (membershipShortfall m) :=
  (quiet_incarnationRows m).bind fun _ => quiet_pure _

theorem quiet_walletBalance (userId : String) : Quiet (walletBalance userId) := by
  refine (quiet_ledger (.fetchAccount _) trivial).bind fun account => ?_
  split
  · exact quiet_pure _
  · exact quiet_pure _

theorem quiet_windowClawbackCovered (m : CipherMembership) (targetAfter : Int) :
    Quiet (windowClawbackCovered m targetAfter) := by
  refine (quiet_incarnationRows m).bind fun rows => ?_
  split
  · exact quiet_pure _
  · dsimp only
    split
    · exact quiet_pure _
    · exact (quiet_walletBalance m.userId).bind fun _ => quiet_pure _

section

variable (order : PaymentOrder) (userId : String)

theorem quiet_clawbackIfCredited (nowMs : Int) : Quiet (clawbackIfCredited order userId nowMs) := by
  unfold clawbackIfCredited
  split
  · refine (quiet_purchaseApplied order.id).bind fun applied => ?_
    split
    · exact quiet_clawbackPurchase order.id userId nowMs
    · exact quiet_pure _
  · exact quiet_pure _

theorem tame_deleteIfListed : Tame (deleteIfListed order userId) := by
  refine (tame_fetchMembership userId).bind fun m => ?_
  split
  · exact (quiet_pure _).tame
  · split
    · exact tame_deleteMembership userId
    · exact (quiet_pure _).tame

end

/-! ### Writes computed from the membership just read

A compare-and-swap follows the read it is computed from, with nothing in between that
forgets it. -/

theorem obeys_fetchMembership (userId : String) (l : Local) :
    (memberships (.fetch userId)).Obeys conduct (fun l' r => l'.held = l.held ∧
      ∀ m, r = .ok m → l'.read = m ∧ ∀ row, m = some row → row.userId = userId) l := by
  refine Obeys.bind ⟨trivial, fun answer hpos => ?_⟩
  match answer, hpos with
  | .ok m, hpos =>
    refine ⟨rfl, fun m' hm' => ?_⟩
    cases hm'
    exact ⟨rfl, fun row hrow => hpos row (congrArg Except.ok hrow)⟩
  | .error e, _ => exact ⟨rfl, nofun⟩

variable {post : Local → Result α → Prop}

theorem obeys_readMembership {userId : String} {k : Option CipherMembership → Engine α} {l : Local}
    (hk : ∀ l' m, l'.held = l.held → l'.read = m → (∀ row, m = some row → row.userId = userId) →
      (k m).Obeys conduct post l') (herr : ∀ l' e, l'.held = l.held → post l' (.error e)) :
    (memberships (.fetch userId) >>= k).Obeys conduct post l := by
  refine Obeys.bind ((obeys_fetchMembership userId l).mono fun l' r h => ?_)
  cases r with
  | ok m =>
    obtain ⟨hrd, huse⟩ := h.2 m rfl
    exact hk l' m h.1 hrd huse
  | error e => exact herr l' e h.1

theorem obeys_fetchOrder {id : String} {k : Option PaymentOrder → Engine α} {l : Local}
    (hk : ∀ l' found, l'.known = l.known →
      (∀ o, found = some o → l'.seen = some o ∧ o.id = id) → (k found).Obeys conduct post l')
    (herr : ∀ e, post l (.error e)) : (orders (.fetch id) >>= k).Obeys conduct post l := by
  refine Obeys.bind ⟨trivial, fun answer hpos => ?_⟩
  match answer, hpos with
  | .ok (some o), hpos =>
    refine hk _ (some o) rfl fun o' ho' => ?_
    cases ho'
    exact ⟨rfl, hpos o rfl⟩
  | .ok none, _ => exact hk _ none rfl fun o ho => by cases ho
  | .error e, _ => exact herr e

theorem obeys_replaceMembership {m next : CipherMembership} {k : Bool → Engine α} {l : Local}
    (hrd : l.read = some m) (huse : next.userId = m.userId) (hrep : l.Replaces m next)
    (hk : ∀ l' written, l'.held = l.held → (k written).Obeys conduct post l')
    (herr : ∀ l' e, l'.held = l.held → post l' (.error e)) :
    (memberships (.update next m.version) >>= k).Obeys conduct post l := by
  refine Obeys.bind ⟨⟨m, hrd, huse, rfl, hrep⟩, fun answer _ => ?_⟩
  match answer with
  | .ok written => exact hk _ written rfl
  | .error e => exact herr _ e rfl

section

variable (userId orderId : String) (listed : Bool)

theorem tame_disputeListingTries (tries : Nat) :
    Tame (disputeListingTries userId orderId listed tries) := by
  induction tries with
  | zero => exact (quiet_failWith _).tame
  | succ tries ih =>
    intro l
    unfold disputeListingTries
    refine obeys_readMembership (fun l' m hhl hrd huse => ?_) fun _ _ hhl => hhl
    cases m with
    | none => exact hhl
    | some m =>
      dsimp only
      split
      · exact hhl
      · split
        · exact hhl
        · refine obeys_replaceMembership hrd rfl (.kept rfl rfl) (fun l'' written hhl' => ?_)
            fun _ _ hhl' => hhl'.trans hhl
          split
          · exact hhl'.trans hhl
          · exact (ih l'').mono fun _ _ h => h.trans (hhl'.trans hhl)

theorem tame_setDisputeListing :
    Tame (setDisputeListing userId orderId listed) := tame_disputeListingTries _ _ _ _

end

end Frames

/-! ## Programs over a leased order -/

/-- The program's order is the held copy, but for a country noted and not written yet. -/
def Holding (l : Local) (leased : Leased) : Prop :=
  ∃ c, l.copies.get leased.order.id = some c ∧
    leased.order = { c with regionBlockedCountry := leased.order.regionBlockedCountry }

theorem Holding.congr {l l' : Local} {leased : Leased} (h : Holding l leased)
    (hcp : l'.copies.get leased.order.id = l.copies.get leased.order.id) : Holding l' leased := by
  obtain ⟨c, hg, hleas⟩ := h
  exact ⟨c, hcp.trans hg, hleas⟩

/-- What a worker knows once it has written `o`. -/
def Local.wrote (l : Local) (o : PaymentOrder) : Local := l.noteOrder (.update o o.state) (.ok true)

/-- The copy once a change was written. -/
def Leased.wrote (leased : Leased) (change : PaymentOrder → PaymentOrder) : Leased :=
  { leased with
    order := { change leased.order with version := (change leased.order).version + 1 } }

namespace Work

variable {α β : Type}

/-- From here on the work makes only allowed calls, keeps holding its order, and ends in
`Q`. -/
def Obeys (Q : Local → Leased → Result α → Prop) (l : Local) (leased : Leased) (w : Work α) :
    Prop :=
  (w leased).Obeys conduct (fun l' r => ∃ result leased', r = .ok (result, leased') ∧
    Holding l' leased' ∧ leased'.order.id = leased.order.id ∧ Q l' leased' result) l

variable {Q : Local → Leased → Result α → Prop} {l : Local} {leased : Leased} {w : Work α}

theorem Obeys.mono {Q' : Local → Leased → Result α → Prop} (h : w.Obeys Q l leased)
    (hps : ∀ l' leased' r, Holding l' leased' → leased'.order.id = leased.order.id →
      Q l' leased' r → Q' l' leased' r) : w.Obeys Q' l leased := by
  refine Prog.Obeys.mono (fun l' r hr => ?_) h
  obtain ⟨result, leased', rfl, hhold, hid, hres⟩ := hr
  exact ⟨result, leased', rfl, hhold, hid, hps _ _ _ hhold hid hres⟩

theorem obeys_result {result : Result α} (hhold : Holding l leased) (hps : Q l leased result) :
    Obeys Q l leased (fun leased => Prog.done (.ok (result, leased)) : Work α) :=
  ⟨result, leased, rfl, hhold, rfl, hps⟩

theorem obeys_pure {a : α} (hhold : Holding l leased) (hps : Q l leased (.ok a)) :
    Obeys Q l leased (pure a : Work α) := obeys_result hhold hps

theorem obeys_fail {e : Error} (hhold : Holding l leased) (hps : Q l leased (.error e)) :
    Obeys Q l leased (fail e : Work α) := obeys_result hhold hps

variable {Q' : Local → Leased → Result β → Prop} {k : α → Work β} {p : Engine α}

/-- **The rule for composition.** -/
theorem Obeys.bind (hw : w.Obeys Q l leased)
    (hok : ∀ l' leased' a, Holding l' leased' → leased'.order.id = leased.order.id →
      Q l' leased' (.ok a) → (k a).Obeys Q' l' leased')
    (herr : ∀ l' leased' e, Holding l' leased' → leased'.order.id = leased.order.id →
      Q l' leased' (.error e) → Q' l' leased' (.error e)) : (w >>= k).Obeys Q' l leased := by
  refine Prog.Obeys.bind (Prog.Obeys.mono (fun l' r hr => ?_) hw)
  obtain ⟨result, leased', rfl, hhold, hid, hres⟩ := hr
  cases result with
  | ok a =>
    refine Prog.Obeys.mono (fun l'' r hr => ?_) (hok l' leased' a hhold hid hres)
    obtain ⟨result, leased'', rfl, hhold', hid', hres'⟩ := hr
    exact ⟨result, leased'', rfl, hhold', hid'.trans hid, hres'⟩
  | error e => exact ⟨.error e, leased', rfl, hhold, hid, herr _ _ _ hhold hid hres⟩

theorem Obeys.attempt {Q : Local → Leased → Result (Result α) → Prop}
    (hw : w.Obeys (fun l' leased' r => Q l' leased' (.ok r)) l leased) :
    w.attempt.Obeys Q l leased := by
  refine Prog.Obeys.bind (Prog.Obeys.mono (fun l' r hr => ?_) hw)
  obtain ⟨result, leased', rfl, hhold, hid, hres⟩ := hr
  exact ⟨.ok result, leased', rfl, hhold, hid, hres⟩

theorem obeys_order {k : PaymentOrder → Work α} (h : (k leased.order).Obeys Q l leased) :
    (Work.order >>= k).Obeys Q l leased := h

theorem obeys_lift (hhold : Holding l leased) (hp : p.Obeys conduct (fun l' r =>
      l'.copies.get leased.order.id = l.copies.get leased.order.id ∧ Q l' leased r) l) :
    (liftM p : Work α).Obeys Q l leased := by
  refine Prog.Obeys.bind (Prog.Obeys.attempt (hp.mono fun l' r hr => ?_))
  exact ⟨r, leased, rfl, hhold.congr hr.1, rfl, hr.2⟩

theorem obeys_lift_bind {M : Local → Result α → Prop} (hhold : Holding l leased)
    (hp : p.Obeys conduct (fun l' r =>
      l'.copies.get leased.order.id = l.copies.get leased.order.id ∧ M l' r) l)
    (hok : ∀ l' a, Holding l' leased → M l' (.ok a) → (k a).Obeys Q' l' leased)
    (herr : ∀ l' e, Holding l' leased → M l' (.error e) → Q' l' leased (.error e)) :
    (liftM p >>= k : Work β).Obeys Q' l leased := by
  refine Obeys.bind (Q := fun l' leased' r => leased' = leased ∧ M l' r)
    (obeys_lift hhold (hp.mono fun l' r hr => ⟨hr.1, rfl, hr.2⟩))
    (fun l' leased' a hhold' _ h => ?_) (fun l' leased' e hhold' _ h => ?_)
  · obtain ⟨rfl, hmid⟩ := h
    exact hok l' a hhold' hmid
  · obtain ⟨rfl, hmid⟩ := h
    exact herr l' e hhold' hmid

theorem obeys_frame_bind {V : Type} (view : Local → V) (hcp : ∀ l l', view l' = view l →
      l'.copies.get leased.order.id = l.copies.get leased.order.id) (hp : p.Frames conduct view)
    (hhold : Holding l leased)
    (hok : ∀ l' a, Holding l' leased → view l' = view l → (k a).Obeys Q' l' leased)
    (herr : ∀ l' e, Holding l' leased → view l' = view l → Q' l' leased (.error e)) :
    (liftM p >>= k : Work β).Obeys Q' l leased :=
  obeys_lift_bind (M := fun l' _ => view l' = view l) hhold
    ((hp l).mono fun l' _ hvw => ⟨hcp l l' hvw, hvw⟩) hok herr

theorem obeys_quiet (hp : Quiet p) (hhold : Holding l leased)
    (hok : ∀ l' a, Holding l' leased → l'.known = l.known → (k a).Obeys Q' l' leased)
    (herr : ∀ l' e, Holding l' leased → l'.known = l.known → Q' l' leased (.error e)) :
    (liftM p >>= k : Work β).Obeys Q' l leased :=
  obeys_frame_bind _ (fun _ _ h => congrArg (fun view => view.1.get leased.order.id) h) hp hhold
    hok herr

theorem obeys_tame (hp : Tame p) (hhold : Holding l leased)
    (hok : ∀ l' a, Holding l' leased → l'.held = l.held → (k a).Obeys Q' l' leased)
    (herr : ∀ l' e, Holding l' leased → l'.held = l.held → Q' l' leased (.error e)) :
    (liftM p >>= k : Work β).Obeys Q' l leased :=
  obeys_frame_bind _ (fun _ _ h => congrArg (fun view => view.1.get leased.order.id) h) hp hhold
    hok herr

theorem obeys_loose (hp : Loose p) (hhold : Holding l leased)
    (hok : ∀ l' a, Holding l' leased → l'.copies = l.copies → (k a).Obeys Q' l' leased)
    (herr : ∀ l' e, Holding l' leased → l'.copies = l.copies → Q' l' leased (.error e)) :
    (liftM p >>= k : Work β).Obeys Q' l leased :=
  obeys_frame_bind _ (fun _ _ h => by rw [h]) hp hhold hok herr

/-! ### Writes -/

/-- The rules over the held copy are rules over the program's order. -/
theorem writesOver_copy {c o : PaymentOrder} {country : Option String}
    (h : l.WritesOver { c with regionBlockedCountry := country } o) : l.WritesOver c o :=
  ⟨h.version, h.leaseUntil, h.userId, h.sku, h.fulfils, h.voids, h.unmarks⟩

theorem obeys_write {change : PaymentOrder → PaymentOrder} {Q : Local → Leased → Result Unit → Prop}
    (hhold : Holding l leased) (hid : (change leased.order).id = leased.order.id)
    (hws : l.WritesOver leased.order (change leased.order))
    (hok : Q (l.wrote (change leased.order)) (leased.wrote change) (.ok ()))
    (herr : ∀ l' e, l'.known = l.known → Q l' leased (.error e)) :
    (Work.write change).Obeys Q l leased := by
  obtain ⟨c, hg, hleas⟩ := hhold
  have hall : l.mayOrder (.update (change leased.order) leased.order.state) := by
    refine ⟨c, by rw [hid, hg], by rw [hleas], ?_⟩
    rw [hleas] at hws
    rw [hleas]
    exact writesOver_copy hws
  have hkp : ∀ l' : Local, l'.known = l.known → Holding l' leased := fun l' hkn =>
    Holding.congr ⟨c, hg, hleas⟩ (congrArg (fun known => known.1.get leased.order.id) hkn)
  refine Prog.Obeys.bind (Prog.Obeys.attempt (Prog.Obeys.bind ⟨hall, fun answer _ => ?_⟩))
  match answer with
  | .ok true =>
    refine ⟨.ok (), leased.wrote change, rfl, ⟨(leased.wrote change).order, ?_, rfl⟩, hid, hok⟩
    exact get_insert_self
  | .ok false =>
    refine Prog.Obeys.bind (Prog.Obeys.attempt
      ((quiet_fetchOrder (change leased.order).id l).mono fun l' _ hkn => ?_))
    exact ⟨.error .internalError, leased, rfl, hkp l' hkn, rfl, herr l' _ hkn⟩
  | .error e => exact ⟨.error e, leased, rfl, hkp l rfl, rfl, herr l e rfl⟩

end Work

end SlogaBackend.Payments
