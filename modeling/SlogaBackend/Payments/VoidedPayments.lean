import SlogaBackend.Payments.Leases
import SlogaBackend.Payments.MembershipSwaps

/-!
# Refunded payments

A void records its reason on the order before it asks for the refund, and takes the reason
back only when Stripe refused. So once Stripe has taken a refund that was asked for as a
void, the reason stays on the order for ever: whoever takes the lease next sees it, and
finishes the void instead of applying the payment.

The reason is what protects the order. It does not protect what is written elsewhere. A
worker that read the order before the void, stalled past its lease, and goes on, cannot
write the order any more; but the membership it is about to insert or extend, and the
purchase it is about to post, are not fenced by the lease (`refunded_payment_applied`).
Where such writes are made by the worker that still holds the lease, a refunded payment is
never applied (`refunded_payment_stays_void`).

## The invariant

`VoidSound` is about one order. A worker's `mark` says that it recorded the void reason
itself, over none, and has been answered nothing but refusals since; while the copy of such
a worker is current nobody else has seen the reason, so nobody else has asked for a refund,
and the reason may be taken back.
-/

namespace SlogaBackend.Payments

variable {sha256 : List UInt8 → List UInt8}

/-! ## Void reasons -/

/-- What the void reason of the stored order stands for. -/
structure VoidSound (w : World) (id : String) (row : PaymentOrder) : Prop where
  voided : row.state = .voided → row.voidReason ≠ none
  fulfilled : row.state = .fulfilled → row.voidReason = none
  copy_voided : ∀ pid c, (w.locals pid).copies.get id = some c → c.state = .voided →
    c.voidReason ≠ none
  copy_reason : ∀ pid c, (w.locals pid).copies.get id = some c → c.voidReason ≠ none →
    row.voidReason ≠ none
  marked : ∀ pid c, (w.locals pid).mark = some id → (w.locals pid).copies.get id = some c →
    c.version = row.version →
    id ∉ w.accepted ∧ ∀ q c', q ≠ pid → (w.locals q).copies.get id = some c' → c'.voidReason = none
  accepted : id ∈ w.accepted → row.voidReason ≠ none

variable {w w' : World} {pid : Nat} {id : String} {row row' c₀ o : PaymentOrder}

section

variable (h : VoidSound w id row) (hstate : row'.state = row.state)
  (hreas : row'.voidReason = row.voidReason)
include h hstate hreas

/-- A step that moves neither the state nor the reason of the order, and gives the worker
that makes it neither a copy nor a mark. -/
theorem VoidSound.frame
    (hver : ∀ q c, (w.locals q).copies.get id = some c → c.version = row'.version →
      c.version = row.version)
    (hcop : ∀ c, (w'.locals pid).copies.get id = some c → (w.locals pid).copies.get id = some c)
    (hmr : (w'.locals pid).mark = some id → (w.locals pid).mark = some id)
    (hoth : ∀ q, q ≠ pid → w'.locals q = w.locals q) (hacc : id ∈ w'.accepted → id ∈ w.accepted) :
    VoidSound w' id row' := by
  have hcop' : ∀ q c, (w'.locals q).copies.get id = some c →
      (w.locals q).copies.get id = some c := by
    intro q c hcp
    by_cases hq : q = pid
    · subst hq
      exact hcop c hcp
    · rw [← hoth q hq, hcp]
  have hmr' : ∀ q, (w'.locals q).mark = some id → (w.locals q).mark = some id := by
    intro q hq
    by_cases hpid : q = pid
    · subst hpid
      exact hmr hq
    · rw [← hoth q hpid, hq]
  refine ⟨fun hvoid => hreas ▸ h.voided (hstate ▸ hvoid),
    fun hful => hreas ▸ h.fulfilled (hstate ▸ hful),
    fun q c hcp => h.copy_voided q c (hcop' q c hcp),
    fun q c hcp hc => hreas ▸ h.copy_reason q c (hcop' q c hcp) hc,
    fun q c hq hcp hcur => ?_, fun hmem => hreas ▸ h.accepted (hacc hmem)⟩
  obtain ⟨hnot, hoths⟩ := h.marked q c (hmr' q hq) (hcop' q c hcp) (hver q c (hcop' q c hcp) hcur)
  exact ⟨fun hmem => hnot (hacc hmem), fun q' c' hq' hcp' => hoths q' c' hq' (hcop' q' c' hcp')⟩

theorem VoidSound.acquired (hown : (w'.locals pid).copies.get id = some row')
    (hmr : (w'.locals pid).mark = none) (hoth : ∀ q, q ≠ pid → w'.locals q = w.locals q)
    (hbeh : ∀ q c, (w.locals q).copies.get id = some c → c.version < row'.version)
    (hacc : id ∈ w'.accepted → id ∈ w.accepted) : VoidSound w' id row' where
  voided hvoid := hreas ▸ h.voided (hstate ▸ hvoid)
  fulfilled hful := hreas ▸ h.fulfilled (hstate ▸ hful)
  copy_voided q c hcp hvoid := by
    by_cases hq : q = pid
    · subst hq
      cases hown.symm.trans hcp
      exact hreas ▸ h.voided (hstate ▸ hvoid)
    · rw [hoth q hq] at hcp
      exact h.copy_voided q c hcp hvoid
  copy_reason q c hcp hc := by
    by_cases hq : q = pid
    · subst hq
      cases hown.symm.trans hcp
      exact hc
    · rw [hoth q hq] at hcp
      exact hreas ▸ h.copy_reason q c hcp hc
  marked q c hq hcp hver := by
    by_cases hpid : q = pid
    · subst hpid
      cases hmr.symm.trans hq
    · rw [hoth q hpid] at hcp
      have := hbeh q c hcp
      omega
  accepted hmem := hreas ▸ h.accepted (hacc hmem)

end

section

variable (h : VoidSound w o.id row) (hcp : (w.locals pid).copies.get o.id = some c₀)
  (hver : c₀.version = row.version)
include h hcp hver

/-- A reason is taken back only from an order nobody else has seen it on. -/
theorem VoidSound.reason_kept
    (hagr : row.voidReason = c₀.voidReason) (hws : (w.locals pid).WritesOver c₀ o)
    (hreas : row.voidReason ≠ none)
    (hsn : o.id ∈ w.accepted ∨ ∃ q c, q ≠ pid ∧ (w.locals q).copies.get o.id = some c ∧
      c.voidReason ≠ none) : o.voidReason ≠ none := by
  intro hno
  rcases hws.unmarks hno with hc0 | hmr
  · exact hreas (hagr.trans hc0)
  · obtain ⟨hnot, hoths⟩ := h.marked pid c₀ hmr hcp hver
    rcases hsn with hmem | ⟨q, c, hq, hcp', hc⟩
    · exact hnot hmem
    · exact hc (hoths q c hq hcp')

theorem VoidSound.written (hagr : Agrees c₀ row) (hws : (w.locals pid).WritesOver c₀ o)
    (hbeh : ∀ q c, (w.locals q).copies.get o.id = some c → c.version < o.version + 1)
    (hown : w'.locals pid = (w.locals pid).wrote o) (hoth : ∀ q, q ≠ pid → w'.locals q = w.locals q)
    (hacc : o.id ∈ w'.accepted → o.id ∈ w.accepted) :
    VoidSound w' o.id { o with version := o.version + 1 } := by
  have hreas := hagr.voidReason
  have hown' : (w'.locals pid).copies.get o.id = some { o with version := o.version + 1 } := by
    rw [hown]
    exact get_insert_self
  have hvoid : o.state = .voided → o.voidReason ≠ none := by
    intro hstate
    rcases hws.voids hstate with hso | ⟨hbef, hsm⟩
    · exact hso
    · rw [hsm]
      exact h.copy_voided pid c₀ hcp hbef
  refine ⟨hvoid, fun hstate => ?_, fun q c hcp' hc => ?_, fun q c hcp' hc => ?_,
    fun q c hmr hcp' hc => ?_, fun hmem => ?_⟩
  · obtain ⟨hbef, hsm⟩ := hws.fulfils hstate
    rw [hsm]
    rcases hbef with hbef | hpayin
    · rw [← hreas]
      exact h.fulfilled (hagr.state.trans hbef)
    · exact hpayin.2
  · by_cases hq : q = pid
    · subst hq
      cases hown'.symm.trans hcp'
      exact hvoid hc
    · rw [hoth q hq] at hcp'
      exact h.copy_voided q c hcp' hc
  · by_cases hq : q = pid
    · subst hq
      cases hown'.symm.trans hcp'
      exact hc
    · rw [hoth q hq] at hcp'
      exact h.reason_kept hcp hver hreas hws (h.copy_reason q c hcp' hc)
        (.inr ⟨q, c, hq, hcp', hc⟩)
  · by_cases hq : q = pid
    · subst hq
      rw [hown] at hmr
      have hmr' : (if marksVoid ((w.locals q).copies.get o.id) o then some o.id
          else if o.voidReason.isNone then none else (w.locals q).mark) = some o.id := hmr
      have hbef : o.id ∉ w.accepted ∧ ∀ q' c', q' ≠ q →
          (w.locals q').copies.get o.id = some c' → c'.voidReason = none := by
        split at hmr'
        · -- the reason is recorded over none: nobody can have seen one
          rename_i hmar
          rw [marksVoid, hcp, any_some, and_eq_true] at hmar
          have hno : row.voidReason = none := by
            rw [hreas]
            simpa using hmar.1
          exact ⟨fun hmem => h.accepted hmem hno, fun q' c' _ hcp' => by
            by_contra hc'
            exact h.copy_reason q' c' hcp' hc' hno⟩
        · split at hmr'
          · cases hmr'
          · exact h.marked q c₀ hmr' hcp hver
      exact ⟨fun hmem => hbef.1 (hacc hmem),
        fun q' c' hq' hcp'' => hbef.2 q' c' hq' (by rw [← hoth q' hq', hcp''])⟩
    · rw [hoth q hq] at hcp'
      have := hbeh q c hcp'
      have hc' : c.version = o.version + 1 := hc
      omega
  · have hbef := hacc hmem
    exact h.reason_kept hcp hver hreas hws (h.accepted hbef) (.inl hbef)

end

/-- Stripe took a refund: whoever asked had seen the reason, or had recorded it and knows
now that it stands. -/
theorem VoidSound.refunded (h : VoidSound w id row) (hcp : (w.locals pid).copies.get id = some c₀)
    (hask : c₀.voidReason ≠ none ∨ c₀.state = .voided)
    (hcop : (w'.locals pid).copies = (w.locals pid).copies) (hmr : (w'.locals pid).mark = none)
    (hoth : ∀ q, q ≠ pid → w'.locals q = w.locals q) : VoidSound w' id row := by
  have hreas : c₀.voidReason ≠ none := hask.elim (fun hso => hso) (h.copy_voided pid c₀ hcp)
  have hcop' : ∀ q c, (w'.locals q).copies.get id = some c →
      (w.locals q).copies.get id = some c := by
    intro q c hcp'
    by_cases hq : q = pid
    · subst hq
      rw [← hcop, hcp']
    · rw [← hoth q hq, hcp']
  refine ⟨h.voided, h.fulfilled, fun q c hcp' => h.copy_voided q c (hcop' q c hcp'),
    fun q c hcp' => h.copy_reason q c (hcop' q c hcp'), fun q c hq hcp' hver => ?_,
    fun _ => h.copy_reason pid c₀ hcp hreas⟩
  by_cases hpid : q = pid
  · subst hpid
    cases hmr.symm.trans hq
  · have hmr' := hq
    rw [hoth q hpid] at hmr'
    obtain ⟨-, hoths⟩ := h.marked q c hmr' (hcop' q c hcp') hver
    exact absurd (hoths pid c₀ (Ne.symm hpid) hcp) hreas

/-! ## Refunds that Stripe took -/

/-- A refund that was taken was not refused. -/
theorem not_refused_of_accepted {taken : Bool} {answer : Except StripeError Refund}
    (h : World.refundAccepted taken answer = true) : refundAsked answer ≠ .ok .refused := by
  cases answer with
  | ok refund => simpa [World.refundAccepted] using h
  | error e =>
    unfold refundAsked
    split
    · rename_i herr
      cases herr
    · split <;> simp
    · simp

/-- The refunds Stripe took grow with the refunds of voids only, and whoever asked knows
that the refund was not refused. -/
theorem accepted_cases (sha256 : List UInt8 → List UInt8) (pid : Nat) (c : Call) (w : World) :
    (w.perform sha256 pid c).1.accepted = w.accepted ∨
      ∃ paymentIntent id, c = .stripe (.createRefund paymentIntent (.voidOrder id)) ∧
        (w.perform sha256 pid c).1.accepted = id :: w.accepted ∧
        ((w.perform sha256 pid c).1.locals pid).mark = none := by
  have hown := locals_own sha256 pid c w
  cases c with
  | stripe op =>
    cases op with
    | createRefund paymentIntent key =>
      cases key with
      | voidOrder id =>
        rw [perform_eq (perform_stripe sha256 _ w.store)] at hown ⊢
        by_cases htak : World.refundAccepted (w.store.outside.refundTaken w.store.tick)
            (w.store.outside.stripe w.store.tick (.createRefund paymentIntent (.voidOrder id))) = true
        · refine .inr ⟨paymentIntent, id, rfl, if_pos htak, ?_⟩
          rw [hown]
          show (if _ then _ else _ : Local).mark = none
          rw [if_neg (not_refused_of_accepted htak)]
        · exact .inl (if_neg htak)
      | releaseUpgrade id => exact .inl rfl
    | _ => exact .inl rfl
  | _ => exact .inl rfl

variable {c : Call}

theorem accepted_mono (h : id ∈ w.accepted) : id ∈ (w.perform sha256 pid c).1.accepted := by
  rcases accepted_cases sha256 pid c w with hsm | ⟨_, id', -, hgrow, -⟩
  · rw [hsm]
    exact h
  · rw [hgrow]
    exact mem_cons_of_mem _ h

/-! ## The invariant of a run -/

structure VoidsTrack (w : World) : Prop where
  leases : CopiesTrack w
  reads : ReadsTrack w
  sound : ∀ id row, w.store.orders.get id = some row → VoidSound w id row
  known : ∀ id ∈ w.accepted, ∃ row, w.store.orders.get id = some row

/-- Voided orders carry a reason, and fulfilled ones none. -/
def Store.VoidsRecorded (store : Store) : Prop :=
  ∀ id row, store.orders.get id = some row →
    (row.state = .voided → row.voidReason ≠ none) ∧ (row.state = .fulfilled → row.voidReason = none)

theorem VoidsTrack.start {store : Store} (hkeye : store.Keyed) (hvoi : store.VoidsRecorded) :
    VoidsTrack (World.start store) where
  leases := CopiesTrack.start hkeye
  reads := ReadsTrack.start hkeye
  sound id row hg :=
    ⟨(hvoi id row hg).1, (hvoi id row hg).2,
      fun _ _ hcp => absurd hcp (by simp [World.start, Local.init]),
      fun _ _ hcp => absurd hcp (by simp [World.start, Local.init]),
      fun _ _ hmr => absurd hmr (by simp [World.start, Local.init]),
      fun hmem => absurd hmem (by simp [World.start])⟩
  known id hmem := absurd hmem (by simp [World.start])

section

variable (h : VoidsTrack w) (pid : Nat) (c : Call) (hmay : (w.locals pid).may c)
include h hmay

theorem VoidsTrack.sound_perform (hacc : id ∈ (w.perform sha256 pid c).1.accepted → id ∈ w.accepted)
    (hg' : (w.perform sha256 pid c).1.store.orders.get id = some row') :
    VoidSound (w.perform sha256 pid c).1 id row' := by
  have hoth := locals_other sha256 pid c w
  cases orderStep sha256 pid c w with
  | same htab hcop hhol hrec hmr =>
    rw [htab] at hg'
    refine (h.sound id row' hg').frame rfl rfl (fun _ _ _ hver => hver)
      (fun c hcp => by rw [← hcop, hcp]) (fun hq => ?_) hoth hacc
    rcases hmr with hsm | hno
    · rw [← hsm, hq]
    · cases hno.symm.trans hq
  | inserted o hcl =>
    subst hcl
    exact False.elim hmay
  | acquired id0 now untilMs row hcl hg htab hloc =>
    rw [htab, get_insert] at hg'
    split at hg'
    · rename_i hid
      subst hid
      cases hg'
      refine (h.sound id row hg).acquired rfl rfl ?_ ?_ hoth (fun q c hcp => ?_) hacc
      · rw [hloc, get_insert_self]
      · rw [hloc]
      · exact Nat.lt_succ_of_le (h.leases.version_le hcp hg)
    · rename_i hid
      refine (h.sound id row' hg').frame rfl rfl (fun _ _ _ hver => hver)
        (fun c hcp => ?_) (fun hq => ?_) hoth hacc
      · rw [hloc, get_insert, if_neg hid] at hcp
        exact hcp
      · rw [hloc] at hq
        cases hq
  | written o expected row hcl hg hstate hver hleas huse htab hloc =>
    subst hcl
    obtain ⟨c₀, hcp0, -, hws⟩ := hmay
    rw [htab, get_insert] at hg'
    split at hg'
    · rename_i hid
      subst hid
      cases hg'
      obtain ⟨row0, hg0, htrk⟩ := h.leases.copies pid o.id c₀ hcp0
      obtain rfl : row0 = row := some.inj (hg0.symm.trans hg)
      have hcur : c₀.version = row0.version := hws.version.symm.trans hver.symm
      refine (h.sound o.id row0 hg).written hcp0 hcur
        (htrk.agrees (htrk.holder hcur)) hws (fun q c hcp => ?_) hloc hoth
        hacc
      have := h.leases.version_le hcp hg
      omega
    · rename_i hid
      refine (h.sound id row' hg').frame rfl rfl (fun _ _ _ hver => hver)
        (fun c hcp => ?_) (fun hq => ?_) hoth hacc
      · rw [hloc] at hcp
        exact ((get_insert _ _ _ _).trans (if_neg hid)).symm.trans hcp
      · rw [hloc] at hq
        have hq' : (if marksVoid ((w.locals pid).copies.get o.id) o then some o.id
            else if o.voidReason.isNone then none else (w.locals pid).mark) = some id := hq
        split at hq'
        · exact absurd (some.inj hq').symm hid
        · split at hq'
          · cases hq'
          · exact hq'
  | released id0 untilMs hcl htab hloc =>
    have hcop : ∀ c, ((w.perform sha256 pid (.orders (.release id0 untilMs))).1.locals
        pid).copies.get id = some c → (w.locals pid).copies.get id = some c := by
      intro c hcp
      rw [← hcl, hloc, get_erase] at hcp
      split at hcp
      · cases hcp
      · exact hcp
    obtain ⟨row, hg, hrow⟩ : ∃ row, w.store.orders.get id = some row ∧
        (row' = row ∨ row' = { row with leaseUntil := none }) := by
      rcases htab with htab | ⟨row, hg, htab⟩
      · exact ⟨row', by rw [← htab, hg'], .inl rfl⟩
      · rw [htab, get_insert] at hg'
        split at hg'
        · rename_i hid
          subst hid
          exact ⟨row, hg, .inr (some.inj hg').symm⟩
        · exact ⟨row', hg', .inl rfl⟩
    subst hcl
    have hfiel : row'.state = row.state ∧ row'.voidReason = row.voidReason ∧
        row'.version = row.version := by
      rcases hrow with rfl | rfl <;> exact ⟨rfl, rfl, rfl⟩
    refine (h.sound id row hg).frame hfiel.1 hfiel.2.1
      (fun _ _ _ hver => hver.trans hfiel.2.2) hcop (fun hq => ?_) hoth hacc
    rw [hloc] at hq
    exact hq
  | unlinked userId hcl htab hloc =>
    cases hbef : w.store.orders.get id with
    | none => exact absurd hg' (by rw [(htab id).1 hbef]; simp)
    | some row =>
      obtain ⟨row'', hg'', hunl⟩ := (htab id).2 row hbef
      obtain rfl : row'' = row' := some.inj (hg''.symm.trans hg')
      have hfiel : row''.state = row.state ∧ row''.voidReason = row.voidReason ∧
          (row''.version = row.version ∨ row''.version = row.version + 1) := by
        rcases hunl with rfl | ⟨-, rfl⟩
        · exact ⟨rfl, rfl, .inl rfl⟩
        · exact ⟨rfl, rfl, .inr rfl⟩
      refine (h.sound id row hbef).frame hfiel.1 hfiel.2.1 (fun q c hcp hver => ?_)
        (fun c hcp => by rw [← hloc, hcp]) (fun hq => by rw [← hloc, hq]) hoth hacc
      have := h.leases.version_le hcp hbef
      omega

/-- **One call.** -/
theorem VoidsTrack.perform : VoidsTrack (w.perform sha256 pid c).1 := by
  refine ⟨h.leases.perform pid c (Local.writesHeld_of_may hmay), h.reads.perform pid c, fun id row' hg' => ?_,
    fun id hmem => ?_⟩
  · rcases accepted_cases sha256 pid c w with hsm | ⟨paymentIntent, id0, rfl, hgrow, hmr⟩
    · exact h.sound_perform pid c hmay (fun hmem => hsm ▸ hmem) hg'
    · by_cases hid : id = id0
      · subst hid
        obtain ⟨c₀, hcp, -, hask⟩ := hmay
        cases orderStep sha256 pid (.stripe (.createRefund paymentIntent (.voidOrder id))) w with
        | same htab hcop =>
          rw [htab] at hg'
          exact (h.sound id row' hg').refunded hcp hask hcop hmr (locals_other sha256 pid _ w)
        | inserted o hcl | acquired _ _ _ _ hcl | written _ _ _ hcl | released _ _ hcl
        | unlinked _ hcl =>
          cases hcl
      · refine h.sound_perform pid _ hmay (fun hmem => ?_) hg'
        rw [hgrow] at hmem
        exact (mem_cons.mp hmem).resolve_left hid
  · have hbef : ∃ row, w.store.orders.get id = some row := by
      rcases accepted_cases sha256 pid c w with hsm | ⟨paymentIntent, id0, rfl, hgrow, -⟩
      · exact h.known id (hsm ▸ hmem)
      · rw [hgrow] at hmem
        rcases mem_cons.mp hmem with rfl | hmem
        · obtain ⟨c₀, hcp, -⟩ := hmay
          obtain ⟨row, hg, -⟩ := h.leases.copies pid id c₀ hcp
          exact ⟨row, hg⟩
        · exact h.known id hmem
    obtain ⟨row, hg⟩ := hbef
    obtain ⟨row', hg', -⟩ := h.leases.order_stays pid c hmay hg
    exact ⟨row', hg'⟩

end

/-! ## What applying a payment writes -/

/-- The orders of a user's stored membership. -/
def World.listed (w : World) (userId : String) : List String :=
  match w.store.memberships.get userId with
  | some m => m.orders
  | none => []

/-- The ledger has a row for the purchase. -/
def World.Credited (w : World) (orderId : String) : Prop :=
  ∃ e, w.store.prot.protLedger.get (protKeyPurchase orderId) = some e

/-- The worker holds the lease of every order that the call puts on a membership or
credits, and a membership is swapped within the life it was read in. -/
def World.Fenced (w : World) (pid : Nat) : Call → Prop
  | .memberships (.insert m) => ∀ orderId ∈ m.orders, w.holders.get orderId = some pid
  | .memberships (.update next expected) =>
    w.ReadsPresent pid (.memberships (.update next expected)) ∧
      ∀ orderId ∈ next.orders, orderId ∉ w.listed next.userId → w.holders.get orderId = some pid
  | .ledger (.apply posting) =>
    ∀ orderId ∈ (w.locals pid).copies.keys, posting.key = protKeyPurchase orderId →
      w.holders.get orderId = some pid
  | _ => True

instance (w : World) (pid : Nat) : ∀ c, Decidable (w.Fenced pid c)
  | .memberships (.insert m) =>
    inferInstanceAs (Decidable (∀ orderId ∈ m.orders, w.holders.get orderId = some pid))
  | .memberships (.update next expected) =>
    inferInstanceAs (Decidable (w.ReadsPresent pid (.memberships (.update next expected)) ∧
      ∀ orderId ∈ next.orders, orderId ∉ w.listed next.userId → w.holders.get orderId = some pid))
  | .ledger (.apply posting) =>
    inferInstanceAs (Decidable (∀ orderId ∈ (w.locals pid).copies.keys,
      posting.key = protKeyPurchase orderId → w.holders.get orderId = some pid))
  | .memberships (.fetch _) => isTrue trivial
  | .memberships (.fetchByNumber _) => isTrue trivial
  | .memberships (.delete _) => isTrue trivial
  | .memberships (.deleteIfVersion _ _) => isTrue trivial
  | .ledger (.fetchEntry _) => isTrue trivial
  | .ledger (.fetchAccount _) => isTrue trivial
  | .ledger (.fetchByMembership _) => isTrue trivial
  | .ledger (.syncCipher _ _) => isTrue trivial
  | .ledger (.clawbackCipher _ _ _) => isTrue trivial
  | .ledger (.forfeit _ _) => isTrue trivial
  | .orders _ => isTrue trivial
  | .numbers _ => isTrue trivial
  | .users _ => isTrue trivial
  | .stripe _ => isTrue trivial
  | .protSettings => isTrue trivial

/-- Whoever holds the lease and takes the order for paying does so rightly: Stripe has
taken no refund. -/
theorem VoidsTrack.not_accepted (h : VoidsTrack w) {c : PaymentOrder}
    (hcp : (w.locals pid).copies.get id = some c) (hpayin : Paying c)
    (hhld : w.holders.get id = some pid) : id ∉ w.accepted := by
  intro hmem
  obtain ⟨row, hg, htrk⟩ := h.leases.copies pid id c hcp
  refine (h.sound id row hg).accepted hmem ?_
  rw [(htrk.agrees hhld).voidReason]
  exact hpayin.2

/-- A swap within one life puts on the membership what was on it or what the worker takes
for paying. -/
theorem Local.Replaces.orders_cases {l : Local} {m next : CipherMembership}
    (h : l.Replaces m next) {orderId : String} (hmem : orderId ∈ next.orders) :
    orderId ∈ m.orders ∨ ∃ c, l.copies.get orderId = some c ∧ Paying c := by
  cases h with
  | kept hnum hord => exact .inl (hord ▸ hmem)
  | extended orderId' c hcp hpayin hnum hord =>
    rw [hord, mem_append, mem_singleton] at hmem
    rcases hmem with hmem | rfl
    · exact .inl hmem
    · exact .inr ⟨c, hcp, hpayin⟩
  | shrunk orderId' c hcp hsku hnum hord =>
    rw [hord] at hmem
    exact .inl (List.mem_of_mem_filter hmem)
  | founded orderId' hfoun =>
    rw [hfoun.orders, mem_singleton] at hmem
    subst hmem
    obtain ⟨c, hcp, hpayin, -⟩ := hfoun.paying
    exact .inr ⟨c, hcp, hpayin⟩

section

variable (h : VoidsTrack w) (hmay : (w.locals pid).may c) (hfen : w.Fenced pid c)
include h hmay hfen

theorem VoidsTrack.listed_perform {userId : String} (href : id ∈ w.accepted)
    (hlst : id ∈ (w.perform sha256 pid c).1.listed userId) : id ∈ w.listed userId := by
  unfold World.listed at hlst
  cases membershipStep sha256 pid c w with
  | same htab =>
    rw [htab] at hlst
    exact hlst
  | inserted m hcl hno hfr htab =>
    subst hcl
    rw [htab, get_insert] at hlst
    split at hlst
    · rename_i hg'
      split at hg'
      · cases hg'
        obtain ⟨orderId, hfoun⟩ := hmay
        have hhl := hfen id hlst
        rw [hfoun.orders, mem_singleton] at hlst
        subst hlst
        obtain ⟨c, hcp, hpayin, -⟩ := hfoun.paying
        exact absurd href (h.not_accepted hcp hpayin hhl)
      · rw [World.listed, hg']
        exact hlst
    · cases hlst
  | replaced next expected row hcl hg hver hfr htab =>
    subst hcl
    rw [htab, get_insert] at hlst
    split at hlst
    · rename_i hg'
      split at hg'
      · rename_i huse
        subst huse
        cases hg'
        obtain ⟨hpres, hhl⟩ := hfen
        have hrep := h.reads.replaces_stored hmay hpres hg hver
        rcases hrep.orders_cases hlst with hold | ⟨c, hcp, hpayin⟩
        · rw [World.listed, hg]
          exact hold
        · by_contra hnew
          exact h.not_accepted hcp hpayin (hhl id hlst hnew) href
      · rw [World.listed, hg']
        exact hlst
    · cases hlst
  | erased userId' htab =>
    rw [htab, get_erase] at hlst
    split at hlst
    · rename_i hg'
      split at hg'
      · cases hg'
      · rw [World.listed, hg']
        exact hlst
    · cases hlst
  | bumped userId' row hg htab =>
    rw [htab, get_insert] at hlst
    split at hlst
    · rename_i hg'
      split at hg'
      · rename_i huse
        subst huse
        cases hg'
        rw [World.listed, hg]
        exact hlst
      · rw [World.listed, hg']
        exact hlst
    · cases hlst

theorem VoidsTrack.credited_perform (href : id ∈ w.accepted)
    (hcred : (w.perform sha256 pid c).1.Credited id) : w.Credited id := by
  obtain ⟨e, haft⟩ := hcred
  rcases purchase_written haft with hbef | ⟨posting, rfl, hkey⟩
  · exact ⟨e, hbef⟩
  · obtain ⟨c, hcp, hpayin⟩ := hmay id hkey
    have hhl := hfen id (mem_keys_of_get hcp) hkey
    exact absurd href (h.not_accepted hcp hpayin hhl)

end

/-- **A refunded payment stays void.** Take a run in which every call that puts an order
on a membership or credits it is made under the order's lease, and in it a moment at which
Stripe has taken a refund asked for as a void. From then on the order is not fulfilled,
no membership gains it, and no purchase of it is posted. -/
theorem refunded_payment_stays_void {store : Store} (hkeyed : store.Keyed)
    (hvoids : store.VoidsRecorded)
    {h₁ h₂ : List (Deliveries × Event (PaymentsSettings × Delivery))} {sys sys' : Deliveries}
    (hrun₁ : Run (Deliveries.exec sha256) (Deliveries.Admits fun pid c w => w.Fenced pid c)
      (Deliveries.idle store) h₁ sys)
    (hrun₂ : Run (Deliveries.exec sha256) (Deliveries.Admits fun pid c w => w.Fenced pid c)
      sys h₂ sys')
    {orderId : String} (hrefunded : orderId ∈ sys.store.accepted) :
    (∃ row, sys'.store.store.orders.get orderId = some row ∧ row.state ≠ .fulfilled) ∧
      (∀ userId, orderId ∈ sys'.store.listed userId → orderId ∈ sys.store.listed userId) ∧
      (sys'.store.Credited orderId → sys.store.Credited orderId) := by
  have hsys : sys.Lawful VoidsTrack := Deliveries.Lawful.run (fun w hw => hw.leases.keyed)
    (fun pid c w hw _ hmay => hw.perform pid c hmay)
    (Deliveries.lawful_idle (VoidsTrack.start hkeyed hvoids)) hrun₁
  -- relative to the moment of the refund: nothing was gained since
  let Inv : World → Prop := fun w => VoidsTrack w ∧ orderId ∈ w.accepted ∧
    (∀ userId, orderId ∈ w.listed userId → orderId ∈ sys.store.listed userId) ∧
    (w.Credited orderId → sys.store.Credited orderId)
  have hsys' : sys'.Lawful Inv := by
    refine Deliveries.Lawful.run (fun w hw => hw.1.leases.keyed) (fun pid c w hw hfenced hmay => ?_)
      (hsys.replace ⟨hsys.store, hrefunded, fun _ hlisted => hlisted, fun hcredited => hcredited⟩)
      hrun₂
    obtain ⟨htrack, hmem, hlisted, hcredited⟩ := hw
    exact ⟨htrack.perform pid c hmay, accepted_mono hmem,
      fun userId hafter => hlisted userId (htrack.listed_perform hmay hfenced hmem hafter),
      fun hafter => hcredited (htrack.credited_perform hmay hfenced hmem hafter)⟩
  obtain ⟨htrack, hmem, hlisted, hcredited⟩ := hsys'.store
  refine ⟨?_, hlisted, hcredited⟩
  obtain ⟨row, hget⟩ := htrack.known orderId hmem
  have hsound := htrack.sound orderId row hget
  exact ⟨row, hget, fun hstate => hsound.accepted hmem (hsound.fulfilled hstate)⟩

/-! ## A stalled worker -/

namespace StalledFulfilment

open Sample

/-- A bank that takes every refund and answers nothing else. -/
def bank : Outside :=
  { silent with
    stripe := fun _ op =>
      match op with
      | .createRefund _ _ => .ok ⟨"r", some "succeeded", none, none⟩
      | _ => .error (.transport "") }

def start : Deliveries := Deliveries.idle (store bank [purchase])

/-- Part of the payment is refunded by hand; a fulfilment that comes after it voids the
order and refunds the rest. -/
def voiding (nowMs : Int) : List (Event (PaymentsSettings × Delivery)) :=
  delivers 1 (.reverse "A" .refund (some ⟨nowMs, false, .succeeded⟩) nowMs) 4 ++
    delivers 2 (.fulfil "A" (session purchase) (nowMs + 1)) 8

def voided : Deliveries := execAll (Deliveries.exec digest) start (voiding 3000)

/-- The session is delivered again. -/
def redelivered : Deliveries :=
  execAll (Deliveries.exec digest) voided (delivers 3 (.fulfil "A" (session purchase) 5000) 2)

/-- A worker about to insert the membership stalls until its lease is over, and the order
is voided. -/
def stalled : Deliveries :=
  execAll (Deliveries.exec digest) start
    (delivers 0 (.fulfil "A" (session purchase) 1000) 7 ++ voiding 200000)

def resumed : Deliveries := execAll (Deliveries.exec digest) stalled [.step 0]

end StalledFulfilment

theorem Sample.voidsRecorded (outside : Outside) (orders : List PaymentOrder)
    (h : ∀ o ∈ orders, o.state = .pending) : (Sample.store outside orders).VoidsRecorded := by
  intro id row hg
  have hstate : row.state = .pending := by
    rcases get_insertAll_cases hg with ⟨hmem, -⟩ | ⟨hg, -⟩
    · exact h row hmem
    · cases hg
  exact ⟨fun hvoid => absurd (hstate.symm.trans hvoid) (by simp),
    fun hful => absurd (hstate.symm.trans hful) (by simp)⟩

open StalledFulfilment in
/-- A session delivered again after the refund leaves the order as it was. -/
theorem refunded_payment_stays_void_redelivered :
    ∃ row, redelivered.store.store.orders.get "A" = some row ∧ row.state ≠ .fulfilled := by
  have hrun₁ : Run (Deliveries.exec Sample.digest)
      (Deliveries.Admits fun pid c w => w.Fenced pid c) start _ voided :=
    Run.of_admitsAll (by decide)
  have hrun₂ : Run (Deliveries.exec Sample.digest)
      (Deliveries.Admits fun pid c w => w.Fenced pid c) voided _ redelivered :=
    Run.of_admitsAll (by decide)
  exact (refunded_payment_stays_void (Sample.keyed _ _) (Sample.voidsRecorded _ _ (by decide))
    hrun₁ hrun₂ (by decide)).1

open StalledFulfilment in
/-- **A refunded payment is applied.** The refund was taken and the order is voided; then
the stalled worker's next call inserts a membership with the order on it. -/
theorem refunded_payment_applied :
    Reachable (Deliveries.exec Sample.digest) (Deliveries.Admits fun _ _ _ => True) start stalled ∧
      "A" ∈ stalled.store.accepted ∧ "A" ∉ stalled.store.listed "u" ∧
      Reachable (Deliveries.exec Sample.digest) (Deliveries.Admits fun _ _ _ => True) stalled
        resumed ∧
      "A" ∈ resumed.store.listed "u" :=
  ⟨Reachable.of_admitsAll (by decide), by decide, by decide,
    Reachable.of_admitsAll (by decide), by decide⟩

end SlogaBackend.Payments
