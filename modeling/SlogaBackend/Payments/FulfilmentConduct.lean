import SlogaBackend.Payments.ReversalConduct

/-!
# Fulfilment keeps the rules

The programs of `Fulfilment`, and with them every delivery.

The chain that matters runs through a fulfilment. It reads the void reason right after
the order is paid and voids if there is one; from there to the write that records the
order fulfilled the worker holds a paying copy, because the only writes in between change
nothing. The number a membership is made with is the one the order holds or has just
claimed. `conducted_deliver` closes the argument.
-/

namespace SlogaBackend.Payments

open Work

/-! ## Applying an order -/

theorem frames_releasePendingOn (number : Nat) (orderIds : List String) :
    (releasePendingOn number orderIds).Frames conduct fun l => (l.copies, l.read) := by
  induction orderIds with
  | nil => exact Prog.Frames.done _
  | cons orderId rest ih =>
    unfold releasePendingOn
    refine (frames_fetchRowByOrder orderId).bind fun row => ?_
    split
    · exact ih
    · split
      · exact Prog.Frames.done _
      · exact ih

theorem quiet_countNumbers : Quiet (numbers .count) :=
  Prog.Frames.call (fun _ => trivial) (fun _ _ => rfl) fun _ => Prog.Frames.done _

/-- A claim tells the worker the number of its order. -/
theorem obeys_claimNumber (s : PaymentsSettings) (orderId : String) (l : Local) :
    (claimNumber s orderId).Obeys conduct (fun l' r => l'.copies = l.copies ∧
      ∀ n, r = .ok (some n) → l'.numbers.get orderId = some n) l := by
  refine Prog.Obeys.bind (Prog.Obeys.bind ⟨trivial, fun answer _ => ?_⟩)
  match answer with
  | .error e => exact ⟨rfl, fun n h => by cases h⟩
  | .ok (some n) =>
    refine ⟨rfl, fun n' h => ?_⟩
    obtain rfl : n = n' := by simpa using h
    exact get_insert_self
  | .ok none =>
    refine quiet_countNumbers.tame.loose.obeys_bind (fun l1 seeded hcop => ?_)
      fun l1 e hcop => ⟨hcop, fun n h => by cases h⟩
    split
    · exact ⟨hcop, fun n h => by cases h⟩
    · exact ⟨hcop, fun n h => by cases h⟩

theorem obeys_numberFor (s : PaymentsSettings) (orderId userId : String) (l : Local) :
    (numberFor s orderId userId).Obeys conduct (fun l' r => l'.copies = l.copies ∧
      ∀ n, r = .ok (.ok n) → l'.numbers.get orderId = some n) l := by
  refine Prog.Obeys.bind (Prog.Obeys.bind ⟨trivial, fun answer _ => ?_⟩)
  match answer with
  | .error e => exact ⟨rfl, fun n h => by cases h⟩
  | .ok (some n) =>
    refine ⟨rfl, fun n' h => ?_⟩
    obtain rfl : n = n' := by simpa using h
    exact get_insert_self
  | .ok none =>
    refine (tame_fetchMembership userId).loose.obeys_bind (fun l1 m hcop => ?_)
      fun l1 e hcop => ⟨hcop, fun n h => by cases h⟩
    split
    · exact ⟨hcop, fun n h => by cases h⟩
    · refine Prog.Obeys.bind ((obeys_claimNumber s orderId l1).mono fun l2 r h => ?_)
      match r with
      | .error _ | .ok none => exact ⟨h.1.trans hcop, fun n h => by cases h⟩
      | .ok (some n) =>
        refine ⟨h.1.trans hcop, fun n' h' => ?_⟩
        obtain rfl : n = n' := by simpa using h'
        exact h.2 n rfl

variable {l : Local} {s : PaymentsSettings} {paymentIntent : String} {orderId : String}

theorem Local.Founds.congr {l' : Local} {m : CipherMembership} (h : l.Founds m orderId)
    (hhl : l'.held = l.held) : l'.Founds m orderId := by
  obtain ⟨hcop, hnum⟩ := Prod.mk.inj hhl
  exact ⟨h.orders, by rw [hnum]; exact h.number, by rw [hcop]; exact h.paying⟩

theorem obeys_applyNewTries {fresh : CipherMembership} (tries : Nat) :
    ∀ {l : Local}, l.Founds fresh orderId →
      (applyNewTries fresh orderId tries).Obeys conduct (fun l' _ => l'.held = l.held) l := by
  induction tries with
  | zero => exact fun _ => rfl
  | succ tries ih =>
    intro l hfoun
    unfold applyNewTries
    refine Prog.Obeys.bind (Prog.Obeys.bind ⟨⟨orderId, hfoun⟩, fun answer _ => ?_⟩)
    match answer with
    | .error e => exact rfl
    | .ok true => exact rfl
    | .ok false =>
      refine obeys_readMembership (l := { l with unheld := none })
        (fun l1 m hhl hrd huse => ?_) fun _ _ hhl => hhl
      have hfoun1 : l1.Founds fresh orderId := hfoun.congr hhl
      cases m with
      | none => exact (ih hfoun1).mono fun _ _ h => h.trans hhl
      | some m =>
        dsimp only
        split
        · exact hhl
        · split
          · exact hhl
          · refine obeys_replaceMembership hrd (huse m rfl).symm (.founded orderId hfoun1)
              (fun l2 written hhl2 => ?_) fun _ _ hhl2 => hhl2.trans hhl
            split
            · exact hhl2.trans hhl
            · exact (ih (hfoun1.congr hhl2)).mono fun _ _ h => h.trans (hhl2.trans hhl)

variable {userId : String}

/-- A paying upgrade extends the membership that was read. -/
theorem obeys_applyUpgradeTries {order c : PaymentOrder}
    {fromTier toTier : CipherTier} (hpayin : Paying c) (tries : Nat) :
    ∀ {l : Local}, l.copies.get order.id = some c →
      (applyUpgradeTries order userId fromTier toTier tries).Obeys conduct
        (fun l' _ => l'.held = l.held) l := by
  induction tries with
  | zero => exact fun _ => rfl
  | succ tries ih =>
    intro l hcp
    unfold applyUpgradeTries
    refine obeys_readMembership (fun l1 m hhl hrd _ => ?_) fun _ _ hhl => hhl
    have hcp1 : l1.copies.get order.id = some c :=
      (congrArg (fun held => held.1.get order.id) hhl).trans hcp
    cases m with
    | none => exact hhl
    | some m =>
      dsimp only
      split
      · exact hhl
      · split
        · exact hhl
        · split
          · exact hhl
          · refine obeys_replaceMembership hrd rfl (.extended order.id c hcp1 hpayin rfl rfl)
              (fun l2 written hhl2 => ?_) fun _ _ hhl2 => hhl2.trans hhl
            split
            · exact hhl2.trans hhl
            · refine (ih ?_).mono fun _ _ h => h.trans (hhl2.trans hhl)
              exact (congrArg (fun held => held.1.get order.id) hhl2).trans hcp1

section

variable {order c : PaymentOrder} {userId : String} {nowMs : Int}
  (hcp : l.copies.get order.id = some c) (hpayin : Paying c)
include hcp hpayin

/-- **The membership step of a paying order.** -/
theorem obeys_applyMembership (hsku : c.sku = order.sku) :
    (applyMembership s order userId nowMs).Obeys conduct (fun l' _ => l'.copies = l.copies) l := by
  unfold applyMembership
  split
  · rename_i hord
    refine Prog.Obeys.bind ((obeys_numberFor s order.id userId l).mono fun l1 r h => ?_)
    match r with
    | .error e => exact h.1
    | .ok (.error reason) => exact h.1
    | .ok (.ok n) =>
      refine (obeys_applyNewTries _ ⟨rfl, h.2 n rfl, c, ?_, hpayin, ?_⟩).mono fun l2 _ hhl => ?_
      · rw [h.1, hcp]
      · rw [hsku, hord]
        rfl
      · exact (congrArg Prod.fst hhl).trans h.1
  · exact (obeys_applyUpgradeTries hpayin _ hcp).mono fun _ _ hhl => congrArg Prod.fst hhl
  · exact rfl
  · exact rfl

theorem obeys_applyPurchase :
    (applyPurchase order userId nowMs).Obeys conduct (fun l' _ => l'.copies = l.copies) l := by
  unfold applyPurchase
  split
  · exact rfl
  · refine Prog.Obeys.bind (Prog.Obeys.bind ⟨fun orderId hkey => ?_, fun answer _ => ?_⟩)
    · have hid : order.id = orderId := by
        have hls : "purchase:" ++ order.id = "purchase:" ++ orderId := hkey
        simpa using hls
      exact ⟨c, by rw [← hid, hcp], hpayin⟩
    · match answer with
      | .error e => exact rfl
      | .ok outcome =>
        exact ((quiet_publishIfApplied userId outcome).bind fun _ =>
          quiet_forfeitIfDeleted userId nowMs).tame.loose l

theorem obeys_applyOrder (hsku : c.sku = order.sku) :
    (applyOrder s order userId nowMs).Obeys conduct (fun l' _ => l'.copies = l.copies) l := by
  unfold applyOrder
  split
  · exact obeys_applyMembership hcp hpayin hsku
  · refine Prog.Obeys.bind ((obeys_applyPurchase hcp hpayin).mono fun l1 r h => ?_)
    cases r <;> exact h

end

theorem quiet_blockedCountry (blocked : List String) (order : PaymentOrder)
    (session : CheckoutSession) (paymentIntent : String) (nowMs : Int) :
    Quiet (blockedCountry blocked order session paymentIntent nowMs) := by
  unfold blockedCountry
  split
  · exact quiet_pure _
  · split
    · exact quiet_pure _
    · refine (quiet_stripe (.getPaymentCharge _) trivial).bind fun answer => ?_
      split
      · exact quiet_pure _
      · split
        · exact quiet_pure _
        · exact quiet_failWith _

theorem quiet_blockedCountries (s : PaymentsSettings) (family : ProductFamily) :
    Quiet (blockedCountries s family) := by
  cases family with
  | cipher => exact quiet_pure _
  | prot => exact quiet_loadProtSettings.bind fun _ => quiet_pure _

theorem loose_releaseBlocks (order : PaymentOrder) (membership : Option CipherMembership) :
    Loose (releaseBlocks order membership) := by
  unfold releaseBlocks
  split
  · split
    · exact loose_of_frames (frames_releasePendingOn _ _)
    · exact Prog.Frames.done _
  · exact Prog.Frames.done _

variable {nowMs : Int} {leased : Leased}

/-- **Checks and apply step of a paying order.** The order is left as it was unless it
was voided. -/
theorem obeys_applyChecked {session : CheckoutSession} {membership : Option CipherMembership}
    (hhold : Holding l leased) (hpayin : Paying leased.order) :
    (applyChecked s session paymentIntent userId membership nowMs).Obeys
      (fun _ leased' r => r = .ok none → leased'.order = leased.order) l leased := by
  -- a void ends with an outcome
  have hvd : ∀ {l' : Local} {leased' : Leased} {w : Work FulfilOutcome},
      w.Obeys (fun _ _ _ => True) l' leased' →
      (w >>= fun outcome => (pure (some outcome) : Work (Option FulfilOutcome))).Obeys
        (fun _ leased'' r => r = .ok none → leased''.order = leased.order) l' leased' :=
    fun hw => hw.bind (fun _ _ _ hhold' _ _ => obeys_pure hhold' fun h => by cases h)
      fun _ _ _ _ _ _ h => by cases h
  refine obeys_quiet (quiet_blockedCountries s _) hhold (fun l1 blocked hhold1 _ => ?_)
    fun _ _ _ _ h => by cases h
  refine obeys_quiet (quiet_blockedCountry blocked leased.order session paymentIntent nowMs)
    hhold1 (fun l2 country hhold2 _ => ?_) fun _ _ _ _ h => by cases h
  cases country with
  | some country => exact hvd (obeys_voidForRegion country nowMs hhold2 hpayin.1)
  | none =>
    refine obeys_loose (loose_releaseBlocks leased.order membership) hhold2
      (fun l3 blocks hhold3 _ => ?_) fun _ _ _ _ h => by cases h
    split
    · exact hvd (obeys_voidPaid _ nowMs hhold3 hpayin.1)
    · split
      · exact hvd (obeys_voidPaid _ nowMs hhold3 hpayin.1)
      · split
        · exact hvd (obeys_voidPaid _ nowMs hhold3 hpayin.1)
        · obtain ⟨c, hg, hleas⟩ := hhold3
          have hpayin' : Paying c := by
            rw [hleas] at hpayin
            exact hpayin
          refine obeys_lift_bind (M := fun _ _ => True) ⟨c, hg, hleas⟩
            ((obeys_applyOrder hg hpayin' (by rw [hleas])).mono fun l' _ h => ⟨by rw [h], trivial⟩)
            (fun l4 applied hhold4 _ => ?_) fun _ _ _ _ h => by cases h
          cases applied with
          | done => exact obeys_pure hhold4 fun _ => rfl
          | void reason => exact hvd (obeys_voidPaid _ nowMs hhold4 hpayin.1)

/-! ## The last steps -/

section LastSteps

variable {terms : Option (OrderState × Option VoidReason)}

theorem tame_listIfStoredDisputed (orderId userId : String) :
    Tame (listIfStoredDisputed orderId userId) := by
  refine (quiet_fetchOrder orderId).attempt.tame.bind fun stored => ?_
  split
  · split
    · exact (tame_setDisputeListing _ _ _).attempt.bind fun _ => (quiet_pure _).tame
    · exact (quiet_pure _).tame
  · exact (quiet_pure _).tame

theorem keeps_publishBadge (userId : String) : Keeps (Level terms) (publishBadge userId) := by
  refine (Keeps.level fun _ => keeps_write_level modest_id fun _ => rfl).attempt.bind fun r => ?_
  cases r with
  | ok _ => exact keeps_tame (tame_syncUserBadge userId)
  | error e =>
    exact keeps_order fun order =>
      (keeps_tame (tame_listIfStoredDisputed order.id userId)).bind fun _ => keeps_fail e

theorem keeps_reversePending (nowMs : Int) : Keeps (Level terms) (reversePending nowMs) :=
  keeps_order fun order => by
    split
    · exact keeps_pure _
    · exact (keeps_reverseLocked _ none none nowMs).bind fun _ => keeps_pure _

theorem tame_reassertBadge (order : PaymentOrder) (userId : String) :
    Tame (reassertBadge order userId) := by
  unfold reassertBadge
  split
  · exact (tame_setDisputeListing _ _ _).bind fun _ => tame_syncUserBadge userId
  · exact tame_syncUserBadge userId

theorem keeps_finishFulfilled (nowMs : Int) : Keeps (Level terms) (finishFulfilled nowMs) :=
  keeps_order fun order => by
    split
    · exact keeps_reversePending nowMs
    · exact (keeps_tame (tame_reassertBadge order _)).bind fun _ => keeps_reversePending nowMs

section

variable (family : ProductFamily) (userId : String)

theorem keeps_publishFamily : Keeps (Level terms) (publishFamily family userId) := by
  cases family with
  | cipher => exact keeps_publishBadge userId
  | prot => exact keeps_pure _

theorem quiet_syncFamily (nowMs : Int) : Quiet (syncFamily family userId nowMs) := by
  cases family with
  | cipher => exact quiet_syncAfterCipherFulfil userId nowMs
  | prot => exact quiet_pure _

end

theorem paying_terms {o : PaymentOrder} (h : Paying o) : openTerms o = some (.paid, none) := by
  simp [openTerms, h.1, h.2]

/-- **A paying order is recorded fulfilled.** -/
theorem obeys_finishFulfil {l : Local} (hhold : Holding l leased) (hpayin : Paying leased.order) :
    (finishFulfil userId nowMs).Obeys (fun _ _ _ => True) l leased := by
  refine (keeps_publishFamily leased.order.sku.family userId l leased hhold
    (paying_terms hpayin)).bind (fun l1 leased1 _ hhold1 _ hter => ?_)
    fun _ _ _ _ _ _ => trivial
  have hpayin1 : Paying leased1.order := openTerms_eq_some hter
  refine (obeys_write (Q := fun _ _ _ => True) hhold1 rfl
    ⟨rfl, rfl, rfl, rfl, fun _ => ⟨.inr hpayin1, rfl⟩, ?_, fun _ => .inl hpayin1.2⟩ trivial
    fun _ _ _ => trivial).bind (fun l2 leased2 _ hhold2 _ _ => ?_) fun _ _ _ _ _ _ => trivial
  · exact fun hst => absurd hst (by simp [recordFulfilled])
  · exact (Keeps.any fun _ => keeps_reversePending nowMs).bind (fun _ =>
      (keeps_quiet (quiet_syncFamily _ userId nowMs)).bind fun _ => keeps_pure _)
      l2 leased2 hhold2 trivial

end LastSteps

/-! ## Fulfilment -/

section

variable (order : PaymentOrder) (userId : String)

theorem tame_alreadyApplied : Tame (alreadyApplied order userId) := by
  unfold alreadyApplied
  split
  · exact (tame_fetchMembership userId).bind fun _ => (quiet_pure _).tame
  · exact (quiet_purchaseApplied _).tame.bind fun _ => (quiet_pure _).tame

theorem tame_relistDisputes : Tame (relistDisputes order userId) := by
  unfold relistDisputes
  split
  · exact (tame_setDisputeListing _ _ _).bind fun _ => (quiet_pure _).tame
  · exact (quiet_pure _).tame

end

theorem obeys_fulfilLive {session : CheckoutSession}
    (hhold : Holding l leased) (hpayin : Paying leased.order) :
    (fulfilLive s session paymentIntent userId nowMs).Obeys (fun _ _ _ => True) l leased := by
  refine obeys_tame (tame_alreadyApplied leased.order userId) hhold
    (fun l1 applied hhold1 _ => ?_) fun _ _ _ _ => trivial
  dsimp only
  split
  · exact obeys_tame (tame_relistDisputes leased.order userId) hhold1
      (fun l2 _ hhold2 _ => obeys_finishFulfil hhold2 hpayin) fun _ _ _ _ => trivial
  · refine (obeys_applyChecked hhold1 hpayin).bind
      (fun l2 leased2 outcome hhold2 _ hsm => ?_) fun _ _ _ _ _ _ => trivial
    cases outcome with
    | some outcome => exact obeys_pure hhold2 trivial
    | none => exact obeys_finishFulfil hhold2 (by rw [hsm rfl]; exact hpayin)

/-- **A paid order is fulfilled only when no void is recorded on it.** -/
theorem obeys_fulfilPaid {session : CheckoutSession} {wrongTerms : Bool}
    (hhold : Holding l leased) (hpd : leased.order.state = .paid) :
    (fulfilPaid s session paymentIntent wrongTerms nowMs).Obeys (fun _ _ _ => True) l leased := by
  refine obeys_order ?_
  split
  · exact obeys_voidPaid _ nowMs hhold hpd
  · split
    · exact obeys_voidPaid _ nowMs hhold hpd
    · rename_i hreas
      split
      · exact obeys_voidForDeletedAccount _ nowMs hhold hpd
      · refine obeys_quiet (quiet_buyerIsLive _) hhold (fun l1 live hhold1 _ => ?_)
          fun _ _ _ _ => trivial
        split
        · exact obeys_fulfilLive hhold1 ⟨hpd, hreas⟩
        · exact obeys_voidForDeletedAccount _ nowMs hhold1 hpd

section

variable (session : CheckoutSession) (paymentIntent : String) (nowMs : Int)

theorem modest_recordPayment : Modest (recordPayment session paymentIntent nowMs) :=
  .of_state fun _ => ⟨rfl, rfl, rfl, rfl, rfl, rfl, rfl⟩

theorem modest_recordPaid : Modest (recordPaid session paymentIntent nowMs) :=
  ⟨fun _ => rfl, fun _ => rfl, fun _ => rfl, fun _ => rfl, fun _ => rfl, fun _ => rfl,
    fun _ => .inr ⟨by simp [recordPaid], by simp [recordPaid]⟩⟩

end

variable {leased : Leased}

section

variable {session : CheckoutSession}

theorem obeys_recordPaid (hhold : Holding l leased) :
    (Work.write (recordPaid session paymentIntent nowMs)).Obeys
      (fun _ leased' r => r = .ok () → leased'.order.state = .paid) l leased :=
  obeys_write hhold rfl ((modest_recordPaid session paymentIntent nowMs).writesOver l _)
    (fun _ => rfl) fun _ _ _ h => by cases h

theorem obeys_voidLateSession {reason : VoidReason}
    (hhold : Holding l leased) (hvoi : leased.order.state = .voided) :
    (voidLateSession s session paymentIntent reason nowMs).Obeys (fun _ _ _ => True) l leased := by
  refine obeys_order ?_
  split
  · refine (obeys_recordPaid hhold).bind (fun l1 leased1 _ hhold1 _ hpd => ?_)
      fun _ _ _ _ _ _ => trivial
    have hter : openTerms leased1.order = some (.paid, leased1.order.voidReason) := by
      simp [openTerms, hpd rfl]
    refine ((keeps_recheckOpenDisputes s nowMs).attempt l1 leased1 hhold1 hter).bind
      (fun l2 leased2 _ hhold2 _ hter2 => ?_) fun _ _ _ _ _ _ => trivial
    exact obeys_voidPaid reason nowMs hhold2 (openTerms_eq_some hter2).1
  · rename_i hdis
    obtain ⟨c, hg, hleas⟩ := hhold
    refine obeys_lift_bind (M := fun _ _ => True) ⟨c, hg, hleas⟩
      ((obeys_refundForVoid hg ?_ (.inr ?_)).mono fun l' _ h => ⟨by rw [h.1], trivial⟩)
      (fun l1 refunded hhold1 _ => ?_) fun _ _ _ _ => trivial
    · rw [hleas] at hdis
      exact eq_false_iff.mpr hdis
    · rw [hleas] at hvoi
      exact hvoi
    · split
      · exact (keeps_any_write (modest_recordPayment session paymentIntent nowMs)).bind
          (fun _ => keeps_pure _) l1 leased hhold1 trivial
      · exact obeys_fail hhold1 trivial

theorem obeys_voidLatePayment (hhold : Holding l leased) (hvoi : leased.order.state = .voided) :
    (voidLatePayment s session nowMs).Obeys (fun _ _ _ => True) l leased := by
  refine obeys_order ?_
  split
  · exact obeys_pure hhold trivial
  · split
    · exact obeys_pure hhold trivial
    · split
      · exact obeys_pure hhold trivial
      · split
        · exact obeys_fail hhold trivial
        · exact obeys_voidLateSession hhold hvoi

end

section

variable (s : PaymentsSettings)

theorem keeps_fulfilOpen (session : CheckoutSession) (wrongTerms : Bool)
    (nowMs : Int) : Keeps Any (fulfilOpen s session wrongTerms nowMs) := by
  intro l leased hhold _
  refine obeys_order ?_
  split
  · split
    · exact obeys_pure hhold trivial
    · exact obeys_pure hhold trivial
  · split
    · exact obeys_fail hhold trivial
    · refine Work.Obeys.bind (Q := fun _ leased' r => r = .ok () → leased'.order.state = .paid) ?_
        (fun l1 leased1 _ hhold1 _ hpd => obeys_fulfilPaid hhold1 (hpd rfl))
        fun _ _ _ _ _ _ => trivial
      unfold onlyIf
      split
      · exact obeys_recordPaid hhold
      · rename_i hpd
        exact obeys_pure hhold fun _ => by simpa using hpd

theorem keeps_fulfilLocked (session : CheckoutSession) (nowMs : Int) :
    Keeps Any (fulfilLocked s session nowMs) := by
  intro l leased hhold hany
  refine obeys_order ?_
  split
  · exact (Keeps.any fun _ => keeps_finishFulfilled nowMs).bind (fun _ => keeps_pure _)
      l leased hhold hany
  · exact obeys_pure hhold trivial
  · rename_i hvoi
    exact obeys_voidLatePayment hhold hvoi
  · split
    · exact keeps_fulfilOpen s session false nowMs l leased hhold hany
    · exact obeys_pure hhold trivial
    · exact keeps_fulfilOpen s session true nowMs l leased hhold hany

theorem conducted_fulfilOrder (orderId : String)
    (session : CheckoutSession) (nowMs : Int) : Conducted (fulfilOrder s orderId session nowMs) :=
  conducted_leaseOr orderId nowMs _ (keeps_fulfilLocked s session nowMs)

theorem conducted_resumeOrder (orderId : String) (nowMs : Int) :
    Conducted (resumeOrder s orderId nowMs) := by
  refine (quiet_fetchOrder orderId).tame.conducted.bind fun order => ?_
  split
  · exact Prog.Frames.done _
  · split
    · exact Prog.Frames.done _
    · refine (quiet_stripeOrProviderError (.getCheckoutSession _) trivial).tame.conducted.bind
        fun session => conducted_leaseOr orderId nowMs _ ?_
      refine Keeps.bind ?_ fun _ => keeps_fulfilLocked s session nowMs
      refine keeps_order fun order => ?_
      split
      · exact (Keeps.any fun _ => keeps_recheckOpenDisputes s nowMs).attempt.bind
          fun _ => keeps_pure _
      · exact keeps_pure _

end

/-! ## Expiry and account deletion -/

theorem modest_recordExpired : Modest recordExpired :=
  ⟨fun _ => rfl, fun _ => rfl, fun _ => rfl, fun _ => rfl, fun _ => rfl, fun _ => rfl,
    fun _ => .inr ⟨by simp [recordExpired], by simp [recordExpired]⟩⟩

theorem conducted_expireOrder (orderId : String) (nowMs : Int) :
    Conducted (expireOrder orderId nowMs) :=
  conducted_leaseOr orderId nowMs _ (keeps_order fun _ =>
    (keeps_onlyIf fun _ => keeps_any_write modest_recordExpired).bind fun _ => keeps_pure _)

theorem keeps_recordDeleted (nowMs : Int) : Keeps Any (Work.write (recordDeleted nowMs)) :=
  fun _ _ hhold _ => obeys_write hhold rfl
    ⟨rfl, rfl, rfl, rfl, fun hst => absurd hst (by simp [recordDeleted]),
      fun _ => .inl (by simp [recordDeleted]), fun h => absurd h (by simp [recordDeleted])⟩
    trivial fun _ _ _ => trivial

theorem keeps_voidForDeletion (nowMs : Int) : Keeps Any (voidForDeletion nowMs) := by
  intro l leased hhold hany
  refine obeys_order ?_
  split
  · rename_i hpd
    exact (obeys_voidForDeletedAccount _ nowMs hhold hpd).bind
      (fun _ _ _ hhold1 _ _ => obeys_pure hhold1 trivial) fun _ _ _ _ _ _ => trivial
  · exact keeps_recordDeleted nowMs l leased hhold hany
  · exact keeps_recordDeleted nowMs l leased hhold hany
  · exact keeps_recordDeleted nowMs l leased hhold hany
  · exact obeys_pure hhold trivial

theorem conducted_voidAll (nowMs : Int) (open_ : List PaymentOrder) :
    Conducted (voidAll nowMs open_) := by
  induction open_ with
  | nil => exact Prog.Frames.done _
  | cons order rest ih =>
    exact Conducted.bind (Conducted.bind (Prog.Frames.attempt
        (conducted_leaseOr order.id nowMs () (keeps_voidForDeletion nowMs)))
        fun _ => Prog.Frames.done _) fun _ => ih

theorem conducted_onAccountDeleted (userId : String) (nowMs : Int) :
    Conducted (onAccountDeleted userId nowMs) := by
  have hlst : Conducted (openOrders userId) := by
    refine (quiet_fetchByUser userId _).attempt.tame.conducted.bind fun listed => ?_
    split
    · exact Prog.Frames.done _
    · exact Prog.Frames.done _
  have hunl : Conducted (orders (.unlink userId)) :=
    Prog.Frames.call (fun _ => trivial) (fun _ _ => rfl) fun _ => Prog.Frames.done _
  exact hlst.bind fun open_ => (conducted_voidAll nowMs open_).bind fun _ =>
    hunl.bind fun _ => (tame_deleteMembership userId).conducted

/-- **Every delivery keeps the rules.** -/
theorem conducted_deliver (s : PaymentsSettings) (delivery : Delivery) :
    Conducted (deliver s delivery) := by
  cases delivery with
  | fulfil orderId session nowMs =>
    exact (conducted_fulfilOrder s orderId session nowMs).bind fun _ => Prog.Frames.done _
  | resume orderId nowMs =>
    exact (conducted_resumeOrder s orderId nowMs).bind fun _ => Prog.Frames.done _
  | reverse orderId kind refund nowMs =>
    exact (conducted_reverseOrder orderId kind refund nowMs).bind fun _ => Prog.Frames.done _
  | dispute orderId disputeId nowMs =>
    exact (conducted_reverseDispute s orderId disputeId nowMs).bind fun _ => Prog.Frames.done _
  | recheck orderId nowMs =>
    exact (conducted_recheckDisputes s orderId nowMs).bind fun _ => Prog.Frames.done _
  | finishRelease orderId nowMs =>
    exact (conducted_finishNumberRelease orderId nowMs).bind fun _ => Prog.Frames.done _
  | markSettling orderId nowMs =>
    exact (conducted_markRefundSettling orderId nowMs).bind fun _ => Prog.Frames.done _
  | clearSettling orderId nowMs =>
    exact (conducted_clearRefundSettling orderId nowMs).bind fun _ => Prog.Frames.done _
  | expire orderId nowMs =>
    exact (conducted_expireOrder orderId nowMs).bind fun _ => Prog.Frames.done _
  | accountDeleted userId nowMs => exact conducted_onAccountDeleted userId nowMs

end SlogaBackend.Payments
