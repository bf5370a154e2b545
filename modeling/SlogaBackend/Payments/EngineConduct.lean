import SlogaBackend.Payments.Conduct

/-!
# The engine keeps the rules

Every program a delivery runs keeps `conduct`: shown function by function along the
engine, each function once, callers citing the callee's lemma.

Most functions over a leased order need only that they go on holding it. Two facts are
carried further. A reversal leaves state and void reason of an order alone unless the
order is fulfilled (`openTerms`), which is what lets a resume re-read the disputes of a
paid order and void it afterwards. And the steps of a release leave the number of the
order alone until it is put back.
-/

namespace SlogaBackend.Payments

/-! ## Changes and what they keep -/

/-- State and void reason, as long as the order is neither fulfilled nor refunded. -/
def openTerms (o : PaymentOrder) : Option (OrderState × Option VoidReason) :=
  if o.state = .fulfilled ∨ o.state = .refunded then none else some (o.state, o.voidReason)

variable {o : PaymentOrder}

theorem openTerms_eq_some {state : OrderState} {reason : Option VoidReason}
    (h : openTerms o = some (state, reason)) : o.state = state ∧ o.voidReason = reason := by
  unfold openTerms at h
  split at h
  · cases h
  · simpa using h

theorem openTerms_eq_none : openTerms o = none ↔ o.state = .fulfilled ∨ o.state = .refunded := by
  unfold openTerms
  split
  · rename_i hset
    simpa using hset
  · rename_i hop
    simpa using hop

/-- A change that touches neither what fences the order nor its void reason, and that
neither fulfils nor voids. -/
structure Modest (change : PaymentOrder → PaymentOrder) : Prop where
  id : ∀ o, (change o).id = o.id
  version : ∀ o, (change o).version = o.version
  leaseUntil : ∀ o, (change o).leaseUntil = o.leaseUntil
  userId : ∀ o, (change o).userId = o.userId
  sku : ∀ o, (change o).sku = o.sku
  voidReason : ∀ o, (change o).voidReason = o.voidReason
  state : ∀ o, (change o).state = o.state ∨
    ((change o).state ≠ .fulfilled ∧ (change o).state ≠ .voided)

variable {change : PaymentOrder → PaymentOrder}

theorem Modest.writesOver (h : Modest change) (l : Local) (o : PaymentOrder) :
    l.WritesOver o (change o) := by
  refine ⟨h.version o, h.leaseUntil o, h.userId o, h.sku o, fun hst => ?_, fun hst => ?_,
    fun hreas => .inl ((h.voidReason o).symm.trans hreas)⟩
  · rcases h.state o with hsm | ⟨hful, -⟩
    · exact ⟨.inl (hsm.symm.trans hst), h.voidReason o⟩
    · exact absurd hst hful
  · rcases h.state o with hsm | ⟨-, hvoi⟩
    · exact .inr ⟨hsm.symm.trans hst, h.voidReason o⟩
    · exact absurd hst hvoi

theorem Modest.of_state (h : ∀ o, (change o).id = o.id ∧ (change o).version = o.version ∧
      (change o).leaseUntil = o.leaseUntil ∧ (change o).userId = o.userId ∧
      (change o).sku = o.sku ∧ (change o).voidReason = o.voidReason ∧
      (change o).state = o.state) : Modest change :=
  ⟨fun o => (h o).1, fun o => (h o).2.1, fun o => (h o).2.2.1, fun o => (h o).2.2.2.1,
    fun o => (h o).2.2.2.2.1, fun o => (h o).2.2.2.2.2.1, fun o => .inl (h o).2.2.2.2.2.2⟩

namespace Work

variable {α β : Type} {Q : Option Nat → PaymentOrder → Prop}

/-- The work keeps holding its order, and `Q` of its number and itself. -/
def Keeps (Q : Option Nat → PaymentOrder → Prop) (w : Work α) : Prop :=
  ∀ l leased, Holding l leased → Q (l.numbers.get leased.order.id) leased.order →
    w.Obeys (fun l' leased' _ => Q (l'.numbers.get leased'.order.id) leased'.order) l leased

/-- Only the order is kept. -/
def Any : Option Nat → PaymentOrder → Prop := fun _ _ => True

/-- State and void reason are kept while the order is open. -/
def Level (terms : Option (OrderState × Option VoidReason)) : Option Nat → PaymentOrder → Prop :=
  fun _ o => openTerms o = terms

/-- And so is the number that was seen with the order. -/
def LevelAt (terms : Option (OrderState × Option VoidReason)) (number : Option Nat) :
    Option Nat → PaymentOrder → Prop := fun n o => openTerms o = terms ∧ n = number

variable {w : Work α} {change : PaymentOrder → PaymentOrder} {l : Local}

theorem Keeps.bind {k : α → Work β} (hw : Keeps Q w) (hk : ∀ a, Keeps Q (k a)) :
    Keeps Q (w >>= k) := fun l leased hhold hQ =>
  (hw l leased hhold hQ).bind (fun l' leased' a hhold' _ hQ' => hk a l' leased' hhold' hQ')
    fun _ _ _ _ _ hQ' => hQ'

theorem Keeps.attempt (hw : Keeps Q w) : Keeps Q w.attempt :=
  fun l leased hhold hQ => (hw l leased hhold hQ).attempt

theorem keeps_pure (a : α) : Keeps Q (pure a : Work α) := fun _ _ hhold hQ => obeys_pure hhold hQ

theorem keeps_fail (e : Error) : Keeps Q (fail e : Work α) :=
  fun _ _ hhold hQ => obeys_fail hhold hQ

theorem keeps_order {k : PaymentOrder → Work α} (hk : ∀ order, Keeps Q (k order)) :
    Keeps Q (Work.order >>= k) := fun l leased hhold hQ => hk leased.order l leased hhold hQ

variable {p : Engine α}

theorem keeps_tame (hp : Tame p) : Keeps Q (liftM p : Work α) :=
  fun l leased hhold hQ => obeys_lift hhold ((hp l).mono fun l' _ hhl => by
    obtain ⟨hcop, hnum⟩ := Prod.mk.inj hhl
    exact ⟨by rw [hcop], by rw [hnum]; exact hQ⟩)

theorem keeps_quiet (hp : Quiet p) : Keeps Q (liftM p : Work α) := keeps_tame hp.tame

theorem keeps_loose {P : PaymentOrder → Prop} (hp : Loose p) :
    Keeps (fun _ o => P o) (liftM p : Work α) :=
  fun l _ hhold hP => obeys_lift hhold ((hp l).mono fun _ _ hcop => ⟨by rw [hcop], hP⟩)

theorem keeps_onlyIf {condition : Bool} {w : Work Unit} (hw : condition = true → Keeps Q w) :
    Keeps Q (onlyIf condition w) := by
  unfold onlyIf
  split
  · rename_i hcon
    exact hw hcon
  · exact keeps_pure ()

theorem keeps_write (hmod : Modest change)
    (hQ : ∀ n o, Q n o → Q n { change o with version := (change o).version + 1 }) :
    Keeps Q (Work.write change) := fun l leased hhold hleas => by
  refine obeys_write hhold (hmod.id _) (hmod.writesOver l _) ?_ fun l' e hkn => ?_
  · have hid : (leased.wrote change).order.id = leased.order.id := hmod.id leased.order
    rw [hid]
    exact hQ _ _ hleas
  · have hnum : l'.numbers = l.numbers := congrArg (fun known => known.2.1) hkn
    rw [hnum]
    exact hleas

theorem openTerms_of_state (hmod : Modest change) {o : PaymentOrder}
    (hst : (change o).state = o.state) (version : Nat) :
    openTerms { change o with version := version } = openTerms o := by
  simp only [openTerms, hst, hmod.voidReason]

theorem Keeps.any (h : ∀ terms, Keeps (Level terms) w) : Keeps Any w :=
  fun l leased hhold _ => (h _ l leased hhold rfl).mono fun _ _ _ _ _ _ => trivial

theorem Keeps.level {terms : Option (OrderState × Option VoidReason)}
    (h : ∀ number, Keeps (LevelAt terms number) w) : Keeps (Level terms) w :=
  fun l leased hhold hter => (h _ l leased hhold ⟨hter, rfl⟩).mono fun _ _ _ _ _ hQ => hQ.1

/-! ## Voids -/

variable {paymentIntent : String}

theorem obeys_askRefund {key : RefundKey} {post : Local → Result RefundAsked → Prop}
    (hall : l.mayStripe (.createRefund paymentIntent key))
    (hps : ∀ answer, post (l.noteStripe (.createRefund paymentIntent key) answer)
      (refundAsked answer)) : (askRefund paymentIntent key).Obeys conduct post l :=
  Prog.Obeys.bind ⟨hall, fun answer _ => hps answer⟩

theorem obeys_refundForVoid {orderId : String} {c : PaymentOrder}
    (hcp : l.copies.get orderId = some c) (hdis : isDisputed c = false)
    (hvd : c.voidReason ≠ none ∨ c.state = .voided) :
    (refundForVoid paymentIntent orderId).Obeys conduct
      (fun l' r => l'.copies = l.copies ∧ l'.numbers = l.numbers ∧ (r = .ok false → l' = l)) l := by
  refine Prog.Obeys.bind (obeys_askRefund ⟨c, hcp, hdis, hvd⟩ fun answer => ?_)
  by_cases href : refundAsked answer = .ok .refused
  · have hnt : l.noteStripe (.createRefund paymentIntent (.voidOrder orderId)) answer = l :=
      if_pos href
    rw [href, hnt]
    exact ⟨rfl, rfl, fun _ => rfl⟩
  · have hnt : l.noteStripe (.createRefund paymentIntent (.voidOrder orderId)) answer =
        { l with mark := none } := if_neg href
    rw [hnt]
    match hask : refundAsked answer with
    | .ok .refused => exact absurd hask href
    | .ok .done | .ok .alreadyRefunded | .ok .unsettled | .error _ => exact ⟨rfl, rfl, nofun⟩

/-- Before the refund of a void: the order carries the reason, and a worker that put it
over none has not been answered yet. -/
structure Marked (l : Local) (leased : Leased) (reason : VoidReason)
    (previous : Option VoidReason) : Prop where
  paid : leased.order.state = .paid
  marked : leased.order.voidReason = some reason
  undisputed : isDisputed leased.order = false
  mark : previous = none → l.mark = some leased.order.id

section

variable {leased : Leased}

theorem obeys_markVoid (reason : VoidReason) (hhold : Holding l leased)
    (hpd : leased.order.state = .paid) (hdis : isDisputed leased.order = false) :
    (onlyIf (leased.order.voidReason != some reason) (Work.write (markVoid reason))).Obeys
      (fun l' leased' r => leased'.order.state = .paid ∧
        (r = .ok () → Marked l' leased' reason leased.order.voidReason)) l leased := by
  unfold onlyIf
  split
  · refine obeys_write hhold rfl ⟨rfl, rfl, rfl, rfl, ?_, ?_, ?_⟩ ⟨hpd, fun _ => ?_⟩
      fun l' e _ => ⟨hpd, nofun⟩
    · exact fun hst => absurd (hpd.symm.trans hst) (by decide)
    · exact fun hst => absurd (hpd.symm.trans hst) (by decide)
    · exact fun hreas => absurd hreas (by simp [markVoid])
    · refine ⟨hpd, rfl, hdis, fun hno => ?_⟩
      obtain ⟨c, hg, hleas⟩ := hhold
      have hreas : c.voidReason = none := by
        rw [hleas] at hno
        exact hno
      simp [Local.wrote, Local.noteOrder, marksVoid, hg, hreas, markVoid, Leased.wrote]
  · rename_i hmar
    have hmar : leased.order.voidReason = some reason := by simpa using hmar
    refine obeys_pure hhold ⟨hpd, fun _ => ⟨hpd, hmar, hdis, fun hno => ?_⟩⟩
    cases hmar.symm.trans hno

theorem obeys_unmarkVoid {reason : VoidReason} {previous : Option VoidReason}
    (condition : Bool) (hhold : Holding l leased) (hmar : Marked l leased reason previous) :
    (onlyIf condition (Work.write (unmarkVoid previous))).Obeys
      (fun _ leased' _ => leased'.order.state = .paid) l leased := by
  unfold onlyIf
  split
  · refine obeys_write hhold rfl ⟨rfl, rfl, rfl, rfl, ?_, ?_, ?_⟩ hmar.paid fun l' e _ => hmar.paid
    · exact fun hst => absurd (hmar.paid.symm.trans hst) (by decide)
    · exact fun hst => absurd (hmar.paid.symm.trans hst) (by decide)
    · exact fun hreas => .inr (hmar.mark hreas)
  · exact obeys_pure hhold hmar.paid

section

variable (reason : VoidReason)

theorem obeys_refundVoid (paymentIntent : String)
    (hhold : Holding l leased) (hpd : leased.order.state = .paid)
    (hdis : isDisputed leased.order = false) :
    (refundVoid reason paymentIntent).Obeys (fun _ leased' _ => leased'.order.state = .paid)
      l leased := by
  refine obeys_order ((obeys_markVoid reason hhold hpd hdis).bind
    (fun l1 leased1 _ hhold1 hid1 hmid => ?_) fun _ _ _ _ _ hmid => hmid.1)
  have hmar := hmid.2 rfl
  obtain ⟨c, hg, hleas1⟩ := hhold1
  have hcp : l1.copies.get leased.order.id = some c := by rw [← hid1, hg]
  have hdis' : isDisputed c = false := by
    have := hmar.undisputed
    rw [hleas1] at this
    exact this
  have hreas : c.voidReason ≠ none := by
    have := hmar.marked
    rw [hleas1] at this
    rw [show c.voidReason = some reason from this]
    simp
  refine (obeys_lift (Q := fun l' leased' r => leased' = leased1 ∧ (r = .ok false → l' = l1))
    ⟨c, hg, hleas1⟩ ((obeys_refundForVoid hcp hdis' (.inl hreas)).mono
      fun l' r h => ⟨by rw [h.1], rfl, h.2.2⟩)).bind (fun l2 leased2 refunded hhold2 _ h => ?_)
    fun l2 leased2 e _ _ h => by rw [h.1]; exact hmar.paid
  obtain ⟨rfl, hsm⟩ := h
  cases refunded with
  | true => exact obeys_pure hhold2 hmar.paid
  | false =>
    obtain rfl := hsm rfl
    refine (obeys_unmarkVoid _ hhold2 hmar).bind
      (fun l3 leased3 _ hhold3 _ hpd3 => obeys_fail hhold3 hpd3) fun _ _ _ _ _ h => h

theorem obeys_refundUnlessLost (hhold : Holding l leased) (hpd : leased.order.state = .paid)
    (hop : leased.order.reversalPending ≠ some .disputeLost → leased.order.openDisputes = []) :
    (refundUnlessLost reason leased.order).Obeys (fun _ leased' _ => leased'.order.state = .paid)
      l leased := by
  unfold refundUnlessLost
  split
  · exact obeys_pure hhold hpd
  · rename_i hls
    split
    · exact obeys_fail hhold hpd
    · refine obeys_refundVoid reason _ hhold hpd ?_
      simp [isDisputed, hop hls, hls]

/-- **A void of a paid order.** -/
theorem obeys_voidPaid (nowMs : Int) (hhold : Holding l leased) (hpd : leased.order.state = .paid) :
    (voidPaid reason nowMs).Obeys (fun _ _ _ => True) l leased := by
  refine obeys_order ?_
  split
  · exact obeys_pure hhold trivial
  · rename_i hdef
    refine (obeys_refundUnlessLost reason hhold hpd fun hls => ?_).bind
      (fun l1 leased1 _ hhold1 _ hpd1 => ?_) fun _ _ _ _ _ _ => trivial
    · by_contra hne
      exact hdef ⟨hls, hne⟩
    · refine (obeys_write (Q := fun _ _ _ => True) hhold1 rfl ⟨rfl, rfl, rfl, rfl, ?_, ?_, ?_⟩
        trivial fun _ _ _ => trivial).bind
        (fun _ _ _ hhold2 _ _ => obeys_pure hhold2 trivial) fun _ _ _ _ _ _ => trivial
      · exact fun hst => absurd hst (by simp [finishVoid])
      · exact fun _ => .inl (by simp [finishVoid])
      · exact fun hreas => absurd hreas (by simp [finishVoid])

end

theorem obeys_voidForDeletedAccount (buyer : Option String) (nowMs : Int)
    (hhold : Holding l leased) (hpd : leased.order.state = .paid) :
    (voidForDeletedAccount buyer nowMs).Obeys (fun _ _ _ => True) l leased := by
  refine obeys_order ?_
  cases buyer with
  | none => exact obeys_voidPaid _ nowMs hhold hpd
  | some userId =>
    refine obeys_quiet (quiet_clawbackIfCredited _ userId nowMs) hhold
      (fun l1 _ hhold1 _ => ?_) fun _ _ _ _ => trivial
    refine obeys_tame (tame_deleteIfListed _ userId) hhold1
      (fun l2 _ hhold2 _ => obeys_voidPaid _ nowMs hhold2 hpd) fun _ _ _ _ => trivial

theorem obeys_voidForRegion (country : String) (nowMs : Int)
    (hhold : Holding l leased) (hpd : leased.order.state = .paid) :
    (voidForRegion country nowMs).Obeys (fun _ _ _ => True) l leased := by
  obtain ⟨c, hg, hleas⟩ := hhold
  have hnot : Holding l { leased with
      order := { leased.order with regionBlockedCountry := some country } } :=
    ⟨c, hg, by rw [hleas]⟩
  exact obeys_voidPaid _ nowMs hnot hpd

end

end Work

end SlogaBackend.Payments
