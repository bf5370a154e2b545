import SlogaBackend.Payments.EngineConduct

/-!
# Reversals keep the rules

The programs of `Reversals`, from the dispute bookkeeping to the deliveries of refunds,
disputes and releases.

Two arguments here are more than bookkeeping. The membership a release deletes is the one
it read, although the upgrades on it are refunded in between, each under its own lease:
those leases concern other orders, and what the worker knows of its own order and the
membership it read stays (`aside_refundReleaseUpgrades`). And a membership loses an order
only to the refund of an upgrade, never to that of the purchase it rests on
(`planned_windowRefundPlan`).
-/

namespace SlogaBackend.Payments

open Work

/-! ## Disputes and records -/

theorem quiet_currentDisputeKind (s : PaymentsSettings) (order : PaymentOrder)
    (disputeId : String) : Quiet (currentDisputeKind s order disputeId) := by
  refine (quiet_stripeOrProviderError (.getDispute _) trivial).bind fun dispute => ?_
  split
  · exact quiet_failWith _
  · split
    · exact quiet_failWith _
    · split
      · split
        · exact quiet_pure _
        · exact quiet_failWith _
      · refine (quiet_stripeOrProviderError (.getPaymentIntent _) trivial).bind fun intent => ?_
        split
        · exact quiet_pure _
        · exact quiet_failWith _

theorem tame_mirrorDisputes (order : PaymentOrder) : Tame (mirrorDisputes order) := by
  unfold mirrorDisputes
  split
  · exact (quiet_pure _).tame
  · refine (tame_setDisputeListing _ _ _).bind fun listed => ?_
    split
    · exact tame_syncUserBadge _
    · exact (quiet_pure _).tame

theorem modest_id : Modest id := .of_state fun _ => ⟨rfl, rfl, rfl, rfl, rfl, rfl, rfl⟩

theorem modest_recordReversal (pending : Option ReversalPending) (openDisputes : List String) :
    Modest (recordReversal pending openDisputes) :=
  .of_state fun _ => ⟨rfl, rfl, rfl, rfl, rfl, rfl, rfl⟩

theorem modest_clearPending : Modest clearPending :=
  .of_state fun _ => ⟨rfl, rfl, rfl, rfl, rfl, rfl, rfl⟩

theorem modest_clearSettling : Modest clearSettling :=
  .of_state fun _ => ⟨rfl, rfl, rfl, rfl, rfl, rfl, rfl⟩

theorem modest_markSettling (nowMs : Int) : Modest (markSettling nowMs) :=
  .of_state fun _ => ⟨rfl, rfl, rfl, rfl, rfl, rfl, rfl⟩

theorem modest_recordDisputes (openDisputes : List String) : Modest (recordDisputes openDisputes) :=
  .of_state fun _ => ⟨rfl, rfl, rfl, rfl, rfl, rfl, rfl⟩

theorem modest_recordRefunded (nowMs : Int) : Modest (recordRefunded nowMs) :=
  ⟨fun _ => rfl, fun _ => rfl, fun _ => rfl, fun _ => rfl, fun _ => rfl, fun _ => rfl,
    fun _ => .inr ⟨by simp [recordRefunded], by simp [recordRefunded]⟩⟩

theorem modest_recordRefundedSettled (nowMs : Int) : Modest (recordRefundedSettled nowMs) :=
  ⟨fun _ => rfl, fun _ => rfl, fun _ => rfl, fun _ => rfl, fun _ => rfl, fun _ => rfl,
    fun _ => .inr ⟨by simp [recordRefundedSettled], by simp [recordRefundedSettled]⟩⟩

section Reversals

variable {terms : Option (OrderState × Option VoidReason)} {number : Option Nat}

theorem keeps_write_level {change : PaymentOrder → PaymentOrder} (hmod : Modest change)
    (hst : ∀ o, (change o).state = o.state) : Keeps (LevelAt terms number) (Work.write change) :=
  keeps_write hmod fun _ o hQ => ⟨(openTerms_of_state hmod (hst o) _).trans hQ.1, hQ.2⟩

theorem keeps_markRefunded (nowMs : Int) : Keeps (LevelAt none number) (markRefunded nowMs) :=
  keeps_write (modest_recordRefundedSettled nowMs) fun _ _ hQ =>
    ⟨openTerms_eq_none.mpr (.inr rfl), hQ.2⟩

theorem keeps_recordRefunded (nowMs : Int) :
    Keeps (LevelAt none number) (Work.write (recordRefunded nowMs)) :=
  keeps_write (modest_recordRefunded nowMs) fun _ _ hQ => ⟨openTerms_eq_none.mpr (.inr rfl), hQ.2⟩

theorem keeps_recordBeforeFulfilment (kind : ReverseKind) (dispute : Option String) :
    Keeps (LevelAt terms number) (recordBeforeFulfilment kind dispute) :=
  keeps_order fun order => by
    refine (keeps_onlyIf fun _ => keeps_write_level (modest_recordReversal _ _) fun _ => rfl).bind
      fun _ => keeps_order fun order => ?_
    exact (keeps_tame (tame_mirrorDisputes order)).bind fun _ => keeps_pure _

/-- Only a fulfilled order is recorded refunded, and a fulfilled order is not open. -/
theorem keeps_markRefundedIfFulfilled (nowMs : Int) :
    Keeps (LevelAt terms number) (markRefundedIfFulfilled nowMs) := by
  intro l leased hhold hQ
  by_cases hful : leased.order.state = .fulfilled
  · have hter : terms = none := hQ.1.symm.trans (openTerms_eq_none.mpr (.inl hful))
    subst hter
    exact keeps_onlyIf (fun _ => keeps_markRefunded nowMs) l leased hhold hQ
  · refine keeps_onlyIf (fun hcon => ?_) l leased hhold hQ
    exact absurd (by simpa using hcon) hful

theorem keeps_noMembershipToReverse : Keeps (LevelAt terms number) noMembershipToReverse :=
  keeps_order fun _ =>
    (keeps_onlyIf fun _ => keeps_write_level modest_clearPending fun _ => rfl).bind
      fun _ => keeps_pure _

theorem keeps_unlistedReversal (kind : ReverseKind) (userId : String) (nowMs : Int) :
    Keeps (LevelAt none number) (unlistedReversal kind userId nowMs) := by
  unfold unlistedReversal
  split
  · refine keeps_order fun order => ?_
    refine (keeps_quiet (quiet_clawbackCipherOrder _ _ _)).bind fun _ => ?_
    refine (keeps_tame (tame_syncUserBadge _)).bind fun _ => ?_
    exact (keeps_recordRefunded nowMs).bind fun _ => keeps_pure _
  · exact keeps_noMembershipToReverse

theorem tame_lostAfterRefundTries (orderId userId : String) (tries : Nat) :
    Tame (lostAfterRefundTries orderId userId tries) := by
  induction tries with
  | zero => exact (quiet_failWith _).tame
  | succ tries ih =>
    intro l
    unfold lostAfterRefundTries
    refine obeys_readMembership (fun l' m hhl hrd huse => ?_) fun _ _ hhl => hhl
    cases m with
    | none => exact hhl
    | some m =>
      dsimp only
      split
      · exact hhl
      · refine obeys_replaceMembership hrd rfl (.kept rfl rfl) (fun l'' written hhl' => ?_)
          fun _ _ hhl' => hhl'.trans hhl
        split
        · exact hhl'.trans hhl
        · exact (ih l'').mono fun _ _ h => h.trans (hhl'.trans hhl)

theorem keeps_disputeLostAfterRefund : Keeps (LevelAt terms number) disputeLostAfterRefund :=
  keeps_order fun order => by
    split
    · exact keeps_pure _
    · exact keeps_tame (tame_lostAfterRefundTries _ _ _)

/-! ## Leases -/

variable {α : Type} {l : Local}

theorem obeys_acquire {orderId : String} {nowMs : Int} {post : Local → Result α → Prop}
    {k : Option Leased → Engine α}
    (hsm : ∀ l' leased, Holding l' leased → leased.order.id = orderId →
      (∀ other, other ≠ orderId → l'.aside other = l.aside other) →
      (k (some leased)).Obeys conduct post l')
    (hno : ∀ l', l'.known = l.known → (k none).Obeys conduct post l')
    (herr : ∀ l' e, l'.known = l.known → post l' (.error e)) :
    (acquire orderId nowMs >>= k).Obeys conduct post l := by
  refine Prog.Obeys.bind (Prog.Obeys.bind (Prog.Obeys.bind ⟨trivial, fun answer hpos => ?_⟩))
  match answer, hpos with
  | .ok (some order), hpos =>
    have hid : order.id = orderId := hpos order rfl
    refine hsm _ ⟨order, leaseToken nowMs⟩ ⟨order, ?_, rfl⟩ hid fun other hoth => ?_
    · rw [show (Leased.mk order (leaseToken nowMs)).order.id = orderId from hid]
      exact get_insert_self
    · exact congrArg₂ Prod.mk ((get_insert _ _ _ _).trans (if_neg hoth))
        (congrArg₂ Prod.mk ((get_erase _ _ _).trans (if_neg hoth)) rfl)
  | .ok none, _ =>
    refine (quiet_fetchOrder orderId).obeys_bind (fun l' found hkn => ?_)
      fun l' e hkn => herr l' e hkn
    cases found with
    | some _ => exact hno l' hkn
    | none => exact herr l' _ hkn
  | .error e, _ => exact herr l e rfl

variable {leased : Leased} {p : Engine α}

theorem obeys_release {post : Local → Result Unit → Prop}
    (hps : ∀ l', (∀ other, other ≠ leased.order.id → l'.aside other = l.aside other) →
      post l' (.ok ())) : (release leased).Obeys conduct post l := by
  have hasi : ∀ other, other ≠ leased.order.id →
      Local.aside other { l with copies := l.copies.erase leased.order.id } = l.aside other :=
    fun other hoth => congrArg₂ Prod.mk ((get_erase _ _ _).trans (if_neg hoth)) rfl
  refine Prog.Obeys.bind (Prog.Obeys.attempt (Prog.Obeys.bind ⟨trivial, fun answer _ => ?_⟩))
  match answer with
  | .ok () => exact hps _ hasi
  | .error _ => exact hps _ hasi

variable {w : Work α}

theorem obeys_underLease {post : Local → Result (Result α × Leased) → Prop}
    {M : Local → Leased → Result α → Prop} (hw : w.Obeys M l leased)
    (hps : ∀ l' leased' r l'', Holding l' leased' → leased'.order.id = leased.order.id →
      M l' leased' r → (∀ other, other ≠ leased.order.id → l''.aside other = l'.aside other) →
      post l'' (.ok (r, leased'))) : (underLease leased w).Obeys conduct post l := by
  refine Prog.Obeys.bind (Prog.Obeys.mono (fun l' r hr => ?_) hw)
  obtain ⟨result, leased', rfl, hhold, hid, hmid⟩ := hr
  refine Prog.Obeys.bind (obeys_release fun l'' hasi => ?_)
  exact hps l' leased' result l'' hhold hid hmid (by rw [← hid]; exact hasi)

/-- A program of a delivery: from wherever it starts, it keeps the rules. -/
def Conducted {α : Type} (p : Engine α) : Prop := p.Frames conduct fun _ => ()

theorem Tame.conducted (h : Tame p) : Conducted p := Prog.Frames.coarsen (fun _ _ _ => rfl) h

theorem Conducted.bind {β : Type} {k : α → Engine β} (hp : Conducted p) (hk : ∀ a, Conducted (k a))
    : Conducted (p >>= k) := Prog.Frames.bind hp hk

/-- **Work under a lease keeps the rules** when it keeps them from the copy it is given. -/
theorem conducted_leaseOr (orderId : String) (nowMs : Int) (busy : α) (hw : Keeps Any w)
    : Conducted (leaseOr orderId nowMs busy w) := by
  intro l
  refine obeys_acquire (fun l' leased hhold _ _ => ?_) (fun _ _ => rfl) fun _ _ _ => rfl
  refine Prog.Obeys.bind (obeys_underLease (hw l' leased hhold trivial)
    fun _ _ result _ _ _ _ _ => ?_)
  cases result <;> exact rfl

/-! ## Releases -/

theorem quiet_refundedInFull (paymentIntent : String) (amountCents : Int) :
    Quiet (refundedInFull paymentIntent amountCents) :=
  (quiet_stripe (.listRefunds _) trivial).bind fun _ => quiet_pure _

section

variable {orderId other : String} (nowMs : Int) (hoth : other ≠ orderId)
include hoth

theorem aside_recordUpgradeRefunded :
    (recordUpgradeRefunded orderId nowMs).Frames conduct (Local.aside other) := by
  intro l
  refine obeys_acquire (fun l1 leased hhold hid hasi => ?_)
    (fun _ h => aside_of_known other h) fun _ _ h => aside_of_known other h
  refine Prog.Obeys.bind (obeys_underLease (M := fun l' _ _ => l'.aside other = l1.aside other) ?_
    fun l2 leased2 result l3 _ _ hmid hasi' => ?_)
  · refine obeys_order (Work.Obeys.bind (Q := fun l' _ _ => l'.aside other = l1.aside other) ?_
      (fun l' _ _ hhold' _ h => obeys_pure hhold' h) fun _ _ _ _ _ h => h)
    unfold onlyIf
    split
    · refine obeys_write hhold rfl ((modest_recordRefundedSettled nowMs).writesOver l1 _) ?_
        fun _ _ h => aside_of_known other h
      have hne : other ≠ leased.order.id := by rw [hid]; exact hoth
      exact congrArg₂ Prod.mk ((get_insert _ _ _ _).trans (if_neg hne)) rfl
    · exact obeys_pure hhold rfl
  · have heq : l3.aside other = l.aside other :=
      (hasi' other (by rw [hid]; exact hoth)).trans (hmid.trans (hasi other hoth))
    cases result <;> exact heq

theorem aside_refundReleaseUpgrade :
    (refundReleaseUpgrade orderId nowMs).Frames conduct (Local.aside other) := by
  intro l
  refine obeys_fetchOrder (fun l1 found hkn hfnd => ?_) fun _ => rfl
  have hasi : l1.aside other = l.aside other := aside_of_known other hkn
  cases found with
  | none => exact hasi
  | some upgrade =>
    obtain ⟨hsn, hid⟩ := hfnd upgrade rfl
    dsimp only
    split
    · exact hasi
    · split
      · exact hasi
      · split
        · exact hasi
        · rename_i hdis
          refine Prog.Obeys.bind (Prog.Obeys.attempt (obeys_askRefund
            ⟨upgrade, hsn, hid, by simpa using hdis⟩ fun answer => ?_))
          match refundAsked answer with
          | .ok .done =>
            exact (aside_recordUpgradeRefunded nowMs hoth _).mono fun _ _ h => h.trans hasi
          | .ok .alreadyRefunded =>
            refine (quiet_refundedInFull _ _).obeys_bind (fun l2 full hkn2 => ?_)
              fun l2 _ hkn2 => (aside_of_known other hkn2).trans hasi
            split
            · exact (aside_recordUpgradeRefunded nowMs hoth _).mono fun _ _ h =>
                h.trans ((aside_of_known other hkn2).trans hasi)
            · exact (aside_of_known other hkn2).trans hasi
          | .ok .unsettled | .ok .refused | .error _ => exact hasi

end

theorem aside_refundReleaseUpgradeList {other : String} (nowMs : Int) :
    ∀ {ids : List String}, (∀ id ∈ ids, other ≠ id) →
      (refundReleaseUpgradeList nowMs ids).Frames conduct (Local.aside other)
  | [], _ => Prog.Frames.done _
  | id :: _, hids =>
    (aside_refundReleaseUpgrade nowMs (hids id mem_cons_self)).bind fun _ =>
      (aside_refundReleaseUpgradeList nowMs fun id' hid' =>
        hids id' (mem_cons_of_mem _ hid')).bind fun _ => Prog.Frames.done _

theorem aside_refundReleaseUpgrades (m : CipherMembership) (releasedBy : String) (nowMs : Int) :
    (refundReleaseUpgrades m releasedBy nowMs).Frames conduct (Local.aside releasedBy) :=
  aside_refundReleaseUpgradeList nowMs fun id hid => by
    have hne : id ≠ releasedBy := by simpa using (mem_filter.mp hid).2
    exact hne.symm

theorem quiet_cancelRelease (orderId : String) : Quiet (numbers (.cancelRelease orderId)) :=
  Prog.Frames.call (fun _ => trivial) (fun _ _ => rfl) fun _ => Prog.Frames.done _

theorem quiet_markRelease (orderId : String) (at_ : Int) :
    Quiet (numbers (.markRelease orderId at_)) :=
  Prog.Frames.call (fun _ => trivial) (fun _ _ => rfl) fun _ => Prog.Frames.done _

theorem keeps_keepNumberRetired (nowMs : Int) :
    Keeps (LevelAt terms number) (keepNumberRetired nowMs) :=
  keeps_order fun order => (keeps_markRefundedIfFulfilled nowMs).bind fun _ =>
    (keeps_quiet (quiet_cancelRelease order.id)).bind fun _ => keeps_pure _

theorem quiet_logUpgradesLeftUnrefunded (released : PaymentOrder) :
    Quiet (logUpgradesLeftUnrefunded released) := by
  unfold logUpgradesLeftUnrefunded
  split
  · exact quiet_pure _
  · exact (quiet_fetchByUser _ _).bind fun _ => quiet_pure _

theorem quiet_retiresNumber (m : CipherMembership) (order : PaymentOrder) :
    Quiet (retiresNumber m order) := by
  unfold retiresNumber
  split
  · exact quiet_pure _
  · exact (quiet_membershipShortfall m).bind fun _ => quiet_pure _

theorem tame_syncIfWritten (userId : String) (written : Bool) :
    Tame (syncIfWritten userId written) := by
  unfold syncIfWritten
  split
  · exact tame_syncUserBadge userId
  · exact (quiet_pure _).tame

/-- A write that changes nothing: the worker still knows the membership it read and the
number of its order. -/
theorem obeys_rewrite (hhold : Holding l leased) :
    (Work.write id).Obeys (fun l' leased' _ => l'.read = l.read ∧ l'.numbers = l.numbers ∧
      openTerms leased'.order = openTerms leased.order) l leased := by
  refine obeys_write hhold rfl (modest_id.writesOver l _) ⟨rfl, rfl, rfl⟩ fun l' _ hkn => ?_
  simp only [Local.known, Prod.mk.injEq] at hkn
  exact ⟨hkn.2.2.1, hkn.2.1, rfl⟩

/-- **Deleting the membership of a release.** The upgrades are refunded between two
writes, and the membership that was read is still the worker's latest when it is deleted. -/
theorem obeys_releaseDelete {m : CipherMembership} {userId : String} {nowMs : Int}
    {tries : Work (Option ReverseOutcome)} (htri : Keeps (LevelAt terms number) tries)
    (hhold : Holding l leased)
    (hQ : LevelAt terms number (l.numbers.get leased.order.id) leased.order) (hrd : l.read = some m)
    (huse : m.userId = userId) :
    Work.Obeys (fun l' leased' _ =>
        LevelAt terms number (l'.numbers.get leased'.order.id) leased'.order) l leased (do
      Work.write id
      if ← refundReleaseUpgrades m leased.order.id nowMs then do
        Work.write id
        let deleted : Bool ← memberships (.deleteIfVersion userId m.version)
        if deleted then return none else tries
      else return some .recordedPending) := by
  refine (obeys_rewrite hhold).bind (fun l1 leased1 _ hhold1 hid1 h1 => ?_)
    fun l1 leased1 _ _ hid1 h1 => ?_
  case refine_2 => exact ⟨h1.2.2.trans hQ.1, by rw [h1.2.1, hid1]; exact hQ.2⟩
  refine obeys_frame_bind (Local.aside leased.order.id) (fun l l' h => ?_)
    (aside_refundReleaseUpgrades m leased.order.id nowMs) hhold1
    (fun l2 refunded hhold2 h2 => ?_) fun l2 _ _ h2 => ?_
  case refine_1 =>
    rw [hid1]
    exact congrArg Prod.fst h
  all_goals
    simp only [Local.aside, Prod.mk.injEq] at h2
  case refine_3 => exact ⟨h1.2.2.trans hQ.1, by rw [hid1, h2.2.1, h1.2.1]; exact hQ.2⟩
  have hQ2 : LevelAt terms number (l2.numbers.get leased1.order.id) leased1.order :=
    ⟨h1.2.2.trans hQ.1, by rw [hid1, h2.2.1, h1.2.1]; exact hQ.2⟩
  split
  · refine (obeys_rewrite hhold2).bind (fun l3 leased3 _ hhold3 hid3 h3 => ?_)
      fun l3 leased3 _ _ hid3 h3 => ?_
    case refine_2 => exact ⟨h3.2.2.trans hQ2.1, by rw [h3.2.1, hid3]; exact hQ2.2⟩
    have hQ3 : LevelAt terms number (l3.numbers.get leased3.order.id) leased3.order :=
      ⟨h3.2.2.trans hQ2.1, by rw [h3.2.1, hid3]; exact hQ2.2⟩
    refine obeys_lift_bind (M := fun l' _ => l' = l3) hhold3
      (Prog.Obeys.bind ⟨⟨m, ?_, huse.symm, rfl⟩, fun answer _ => ?_⟩)
      (fun l4 deleted hhold4 hl4 => ?_) fun l4 e _ hl4 => ?_
    · rw [h3.1, h2.2.2, h1.1, hrd]
    · cases answer <;> exact ⟨rfl, rfl⟩
    · subst hl4
      split
      · exact obeys_pure hhold4 hQ3
      · exact htri _ _ hhold4 hQ3
    · subst hl4
      exact hQ3
  · exact obeys_pure hhold2 hQ2

theorem keeps_releaseMembershipTries (userId : String) (nowMs : Int) (tries : Nat) :
    Keeps (LevelAt terms number) (releaseMembershipTries userId nowMs tries) := by
  induction tries with
  | zero => exact keeps_fail _
  | succ tries ih =>
    intro l leased hhold hQ
    unfold releaseMembershipTries
    refine obeys_lift_bind (M := fun l' r => l'.held = l.held ∧ ∀ m, r = .ok m → l'.read = m ∧
        ∀ row, m = some row → row.userId = userId) hhold
      ((obeys_fetchMembership userId l).mono fun l' r h =>
        ⟨congrArg (fun held => held.1.get leased.order.id) h.1, h⟩)
      (fun l1 m hhold1 h1 => ?_) fun l1 _ _ h1 => ?_
    all_goals
      have hQ1 : LevelAt terms number (l1.numbers.get leased.order.id) leased.order :=
        ⟨hQ.1, (congrArg (fun held => held.2.get leased.order.id) h1.1).trans hQ.2⟩
    case refine_2 => exact hQ1
    obtain ⟨hrd, huse⟩ := h1.2 m rfl
    cases m with
    | none => exact obeys_pure hhold1 hQ1
    | some m =>
      dsimp only
      split
      · exact (keeps_quiet (quiet_logUpgradesLeftUnrefunded _)).bind (fun _ => keeps_pure _)
          l1 leased hhold1 hQ1
      · split
        · -- an active row is revoked, and the loop reads it again
          refine obeys_lift_bind (M := fun l' _ => l'.held = l1.held) hhold1
            (Prog.Obeys.bind ⟨⟨m, hrd, rfl, rfl, .kept rfl rfl⟩, fun answer _ => ?_⟩)
            (fun l2 written hhold2 h2 => ?_) fun l2 _ _ h2 => ?_
          · match answer with
            | .ok _ => exact ⟨rfl, rfl⟩
            | .error _ => exact ⟨rfl, rfl⟩
          all_goals
            have hQ2 : LevelAt terms number (l2.numbers.get leased.order.id) leased.order :=
              ⟨hQ.1, (congrArg (fun held => held.2.get leased.order.id) h2).trans hQ1.2⟩
          · exact (keeps_tame (tame_syncIfWritten userId written)).bind (fun _ => ih)
              l2 leased hhold2 hQ2
          · exact hQ2
        · refine obeys_quiet (quiet_clawbackCipherOrder userId leased.order.id nowMs) hhold1
            (fun l2 clawed hhold2 hkn2 => ?_) fun l2 _ _ hkn2 => ?_
          all_goals
            have hQ2 : LevelAt terms number (l2.numbers.get leased.order.id) leased.order :=
              ⟨hQ.1, (congrArg (fun known => known.2.1.get leased.order.id) hkn2).trans hQ1.2⟩
          case refine_2 => exact hQ2
          split
          · exact ih l2 leased hhold2 hQ2
          · refine obeys_quiet (quiet_retiresNumber m leased.order) hhold2
              (fun l3 retires hhold3 hkn3 => ?_) fun l3 _ _ hkn3 => ?_
            all_goals
              have hQ3 : LevelAt terms number (l3.numbers.get leased.order.id) leased.order :=
                ⟨hQ.1, (congrArg (fun known => known.2.1.get leased.order.id) hkn3).trans hQ2.2⟩
            case refine_2 => exact hQ3
            split
            · exact (keeps_keepNumberRetired nowMs).bind (fun _ => keeps_pure _)
                l3 leased hhold3 hQ3
            · refine obeys_releaseDelete ih hhold3 hQ3 ?_ (huse m rfl)
              simp only [Local.known, Prod.mk.injEq] at hkn2 hkn3
              rw [hkn3.2.2.1, hkn2.2.2.1, hrd]

theorem keeps_releaseMembership (nowMs : Int) :
    Keeps (LevelAt terms number) (releaseMembership nowMs) :=
  keeps_order fun order => by
    split
    · exact keeps_pure _
    · refine (keeps_releaseMembershipTries _ nowMs _).bind fun outcome => ?_
      split
      · exact keeps_pure _
      · exact (keeps_tame (tame_syncUserBadge _)).bind fun _ => keeps_pure _

theorem obeys_putNumberBack {orderId : String} {n : Nat} {c : PaymentOrder}
    (hcp : l.copies.get orderId = some c) (hnum : l.numbers.get orderId = some n) :
    (putNumberBack orderId n).Obeys conduct (fun l' _ => l'.copies = l.copies) l := by
  refine Prog.Obeys.bind (Prog.Obeys.bind ⟨trivial, fun answer _ => ?_⟩)
  match answer with
  | .error e => exact rfl
  | .ok (some _) => exact rfl
  | .ok none =>
    refine Prog.Obeys.bind (Prog.Obeys.bind ⟨⟨c, n, hcp, hnum, rfl⟩, fun answer _ => ?_⟩)
    match answer with
    | .ok _ => exact rfl
    | .error _ => exact rfl

theorem keeps_finishNumberReleaseLocked (nowMs : Int) :
    Keeps (Level terms) (finishNumberReleaseLocked nowMs) := by
  intro l leased hhold hQ
  refine obeys_order ?_
  split
  · exact obeys_pure hhold hQ
  · refine obeys_lift_bind (M := fun l' r => ∀ row, r = .ok (some row) →
        l'.numbers.get leased.order.id = some row.number) hhold
      (Prog.Obeys.bind ⟨trivial, fun answer _ => ?_⟩)
      (fun l1 row hhold1 h1 => ?_) fun _ _ _ _ => hQ
    · match answer with
      | .ok (some row) =>
        refine ⟨rfl, fun row' hrow' => ?_⟩
        obtain rfl : row = row' := by simpa using hrow'
        exact get_insert_self
      | .ok none | .error _ => exact ⟨rfl, fun row h => by simp at h⟩
    · cases row with
      | none => exact obeys_pure hhold1 hQ
      | some row =>
        have hnum := h1 row rfl
        dsimp only
        split
        · exact obeys_pure hhold1 hQ
        · refine (keeps_releaseMembership nowMs l1 leased hhold1 ⟨hQ, hnum⟩).bind
            (fun l2 leased2 outcome hhold2 hid2 hQ2 => ?_) fun _ _ _ _ _ hQ2 => hQ2.1
          split
          · exact obeys_pure hhold2 hQ2.1
          · refine (keeps_markRefundedIfFulfilled nowMs l2 leased2 hhold2 hQ2).bind
              (fun l3 leased3 _ hhold3 hid3 hQ3 => ?_) fun _ _ _ _ _ hQ3 => hQ3.1
            obtain ⟨c, hg, hleas3⟩ := hhold3
            have hid : leased3.order.id = leased.order.id := hid3.trans hid2
            refine obeys_lift_bind (M := fun _ _ => True) ⟨c, hg, hleas3⟩
              ((obeys_putNumberBack (n := row.number) (c := c) ?_ ?_).mono
                fun l' _ h => ⟨by rw [h], trivial⟩)
              (fun _ _ hhold4 _ => obeys_pure hhold4 hQ3.1) fun _ _ _ _ => hQ3.1
            · rw [← hid, hg]
            · rw [← hid]
              exact hQ3.2

theorem frames_fetchRowByOrder (orderId : String) :
    (numbers (.fetchRowByOrder orderId)).Frames conduct fun l => (l.copies, l.read) :=
  Prog.Frames.call (fun _ => trivial) (fun _ answer => by
    match answer with
    | .ok (some _) => rfl
    | .ok none => rfl
    | .error _ => rfl) fun _ => Prog.Frames.done _

theorem frames_fetchNumberByOrder (orderId : String) :
    (numbers (.fetchByOrder orderId)).Frames conduct fun l => (l.copies, l.read) :=
  Prog.Frames.call (fun _ => trivial) (fun _ answer => by
    match answer with
    | .ok (some _) => rfl
    | .ok none => rfl
    | .error _ => rfl) fun _ => Prog.Frames.done _

theorem Quiet.frames (h : Quiet p) : p.Frames conduct fun l => (l.copies, l.read) :=
  Prog.Frames.coarsen (fun l l' hvw => by
    simp only [Local.known, Prod.mk.injEq] at hvw
    simp only [hvw]) h

theorem loose_of_frames (h : p.Frames conduct fun l => (l.copies, l.read)) : Loose p :=
  Prog.Frames.coarsen (fun _ _ hvw => congrArg Prod.fst hvw) h

theorem keeps_dropReleaseForLostDispute : Keeps (Level terms) dropReleaseForLostDispute :=
  keeps_order fun order => by
    refine (keeps_loose (loose_of_frames (frames_fetchRowByOrder order.id))).bind fun row => ?_
    split
    · exact (Keeps.level fun _ => keeps_write_level modest_id fun _ => rfl).bind fun _ =>
        (keeps_quiet (quiet_cancelRelease order.id)).bind fun _ => keeps_pure _
    · exact keeps_pure _

/-! ## A refund inside the window -/

/-- What the window rule leaves alone, and that only an upgrade is rolled back. -/
def Planned (order : PaymentOrder) (l l' : Local) (r : Result (Option WindowRefund)) : Prop :=
  (l'.copies, l'.read) = (l.copies, l.read) ∧
    ∀ fromTier, r = .ok (some (.downgrade fromTier)) → order.sku.isCipherNew = false

theorem planned_of_ne {order : PaymentOrder} {l' : Local} {r : Result (Option WindowRefund)}
    (hvw : (l'.copies, l'.read) = (l.copies, l.read))
    (hne : ∀ fromTier, r ≠ .ok (some (.downgrade fromTier))) : Planned order l l' r :=
  ⟨hvw, fun fromTier h => absurd h (hne fromTier)⟩

section

variable (order : PaymentOrder) (m : CipherMembership)

theorem planned_windowRefundPlanListed (l : Local) :
    (windowRefundPlanListed order m).Obeys conduct (Planned order l) l := by
  unfold windowRefundPlanListed
  split
  · rename_i hsku
    split
    · exact planned_of_ne rfl nofun
    · split
      · exact planned_of_ne rfl nofun
      · exact ⟨rfl, fun _ _ => by rw [hsku]; rfl⟩
  · split
    · exact planned_of_ne rfl nofun
    · refine (frames_fetchNumberByOrder order.id).obeys_bind (fun l' number hvw => ?_)
        fun l' e hvw => planned_of_ne hvw nofun
      split
      · exact planned_of_ne hvw nofun
      · exact planned_of_ne hvw nofun
  · exact planned_of_ne rfl nofun
  · exact planned_of_ne rfl nofun

section

variable (refund : Option RefundFacts) (l : Local)

theorem planned_windowRefundPlanCipher :
    (windowRefundPlanCipher order m refund).Obeys conduct (Planned order l) l := by
  unfold windowRefundPlanCipher
  split
  · exact planned_of_ne rfl nofun
  · split
    · exact planned_of_ne rfl nofun
    · split
      · exact planned_windowRefundPlanListed order m l
      · exact planned_of_ne rfl nofun

theorem planned_windowRefundPlan :
    (windowRefundPlan order m refund).Obeys conduct (Planned order l) l := by
  refine Prog.Obeys.bind ((planned_windowRefundPlanCipher order m refund l).mono fun l' r h => ?_)
  match r with
  | .ok (some (.downgrade fromTier)) =>
    refine (quiet_windowClawbackCovered m _).frames.obeys_bind (fun l'' covered hvw => ?_)
      fun l'' e hvw => planned_of_ne (hvw.trans h.1) nofun
    split
    · exact ⟨hvw.trans h.1, fun _ _ => h.2 fromTier rfl⟩
    · exact planned_of_ne (hvw.trans h.1) nofun
  | .ok (some .release) =>
    refine (quiet_windowClawbackCovered m _).frames.obeys_bind (fun l'' covered hvw => ?_)
      fun l'' e hvw => planned_of_ne (hvw.trans h.1) nofun
    split
    · exact planned_of_ne (hvw.trans h.1) nofun
    · exact planned_of_ne (hvw.trans h.1) nofun
  | .error _ | .ok (some .refundOnly) | .ok none => exact planned_of_ne h.1 nofun

end

end

theorem keeps_refundWithinWindowTries (userId : String) (refund : Option RefundFacts)
    (nowMs : Int) (tries : Nat) :
    Keeps (Level none) (refundWithinWindowTries userId refund nowMs tries) := by
  induction tries with
  | zero => exact keeps_fail _
  | succ tries ih =>
    intro l leased hhold hQ
    unfold refundWithinWindowTries
    refine obeys_lift_bind (M := fun l' r => ∀ m, r = .ok m → l'.read = m ∧
        ∀ row, m = some row → row.userId = userId) hhold
      ((obeys_fetchMembership userId l).mono fun l' r h =>
        ⟨congrArg (fun held => held.1.get leased.order.id) h.1, h.2⟩)
      (fun l1 m hhold1 h1 => ?_) fun _ _ _ _ => hQ
    obtain ⟨hrd, huse⟩ := h1 m rfl
    cases m with
    | none => exact obeys_pure hhold1 hQ
    | some m =>
      refine obeys_lift_bind (M := Planned leased.order l1) hhold1
        ((planned_windowRefundPlan leased.order m refund l1).mono fun l' r h =>
          ⟨congrArg (fun view => view.1.get leased.order.id) h.1, h⟩)
        (fun l2 plan hhold2 h2 => ?_) fun _ _ _ _ => hQ
      match plan with
      | none => exact obeys_pure hhold2 hQ
      | some .refundOnly =>
        exact (Keeps.level fun _ => keeps_markRefunded nowMs).bind (fun _ => keeps_pure _)
          l2 leased hhold2 hQ
      | some .release =>
        refine (Keeps.level fun _ => keeps_write_level modest_id fun _ => rfl).bind
          (fun _ => (keeps_quiet (quiet_markRelease _ nowMs)).bind fun marked => ?_)
          l2 leased hhold2 hQ
        split
        · exact keeps_finishNumberReleaseLocked nowMs
        · exact keeps_pure _
      | some (.downgrade fromTier) =>
        have hrd2 : l2.read = some m := (congrArg Prod.snd h2.1).trans hrd
        obtain ⟨c, hg, hleas⟩ := hhold2
        have hsku : c.sku.isCipherNew = false := by
          have := h2.2 fromTier rfl
          rw [hleas] at this
          exact this
        refine obeys_lift_bind (M := fun _ _ => True) ⟨c, hg, hleas⟩
          (Prog.Obeys.bind ⟨⟨m, hrd2, rfl, rfl, .shrunk leased.order.id c hg hsku rfl rfl⟩,
            fun answer _ => ?_⟩)
          (fun l3 written hhold3 _ => ?_) fun _ _ _ _ => hQ
        · match answer with
          | .ok _ => exact ⟨rfl, trivial⟩
          | .error _ => exact ⟨rfl, trivial⟩
        · split
          · exact (keeps_quiet (quiet_clawbackCipherOrder _ _ _)).bind (fun _ =>
              (keeps_tame (tame_syncUserBadge _)).bind fun _ =>
                (Keeps.level fun _ => keeps_markRefunded nowMs).bind fun _ => keeps_pure _)
              l3 leased hhold3 hQ
          · exact ih l3 leased hhold3 hQ

/-! ## A fulfilled order -/

theorem reversedMembership_kept (m : CipherMembership) (orderId : String) (kind : ReverseKind)
    (listed : Bool) (nowMs : Int) :
    (reversedMembership m orderId kind listed nowMs).userId = m.userId ∧
      (reversedMembership m orderId kind listed nowMs).number = m.number ∧
      (reversedMembership m orderId kind listed nowMs).orders = m.orders := by
  unfold reversedMembership revokedForDispute revokedFor withDisputeListing
  refine ⟨?_, ?_, ?_⟩ <;> (dsimp only; split_ifs <;> rfl)

theorem tame_reverseMembershipTries (userId orderId : String) (kind : ReverseKind) (listed : Bool)
    (nowMs : Int) (tries : Nat) :
    Tame (reverseMembershipTries userId orderId kind listed nowMs tries) := by
  induction tries with
  | zero => exact (quiet_failWith _).tame
  | succ tries ih =>
    intro l
    unfold reverseMembershipTries
    refine obeys_readMembership (fun l' m hhl hrd huse => ?_) fun _ _ hhl => hhl
    cases m with
    | none => exact hhl
    | some m =>
      dsimp only
      split
      · exact hhl
      · split
        · exact hhl
        · obtain ⟨huse', hnum, hord⟩ := reversedMembership_kept m orderId kind listed nowMs
          refine obeys_replaceMembership hrd huse' (.kept hnum hord)
            (fun l'' written hhl' => ?_) fun _ _ hhl' => hhl'.trans hhl
          split
          · exact hhl'.trans hhl
          · exact (ih l'').mono fun _ _ h => h.trans (hhl'.trans hhl)

section

variable (kind : ReverseKind)

theorem quiet_clawbackIfTaken (userId orderId : String) (nowMs : Int) :
    Quiet (clawbackIfTaken kind userId orderId nowMs) := by
  unfold clawbackIfTaken
  split
  · exact (quiet_clawbackCipherOrder _ _ _).bind fun _ => quiet_pure _
  · exact quiet_pure _

theorem keeps_revokeMembership (userId : String) (nowMs : Int) :
    Keeps (LevelAt none number) (revokeMembership kind userId nowMs) :=
  keeps_order fun order => by
    refine (keeps_tame (tame_reverseMembershipTries _ _ _ _ _ _)).bind fun reversed => ?_
    split
    · refine (keeps_quiet (quiet_clawbackIfTaken _ _ _ _)).bind fun _ => ?_
      refine (keeps_tame (tame_syncUserBadge _)).bind fun _ => ?_
      exact (keeps_onlyIf fun _ => keeps_recordRefunded nowMs).bind fun _ => keeps_pure _
    · exact keeps_unlistedReversal kind userId nowMs

theorem keeps_reverseProtFulfilled (nowMs : Int) :
    Keeps (LevelAt none number) (reverseProtFulfilled kind nowMs) := by
  unfold reverseProtFulfilled
  split
  · exact keeps_pure _
  · refine keeps_order fun order => ?_
    split
    · exact (keeps_recordRefunded nowMs).bind fun _ => keeps_pure _
    · exact (keeps_quiet (quiet_clawbackPurchase _ _ _)).bind fun _ =>
        (keeps_recordRefunded nowMs).bind fun _ => keeps_pure _

theorem keeps_reverseListed (refund : Option RefundFacts) (userId : String)
    (nowMs : Int) : Keeps (Level none) (reverseListed kind refund userId nowMs) := by
  unfold reverseListed
  split
  · refine (keeps_refundWithinWindowTries userId refund nowMs _).bind fun outcome => ?_
    split
    · exact keeps_pure _
    · exact Keeps.level fun _ => keeps_revokeMembership kind userId nowMs
  · exact Keeps.level fun _ => keeps_revokeMembership kind userId nowMs

theorem keeps_reverseCipherFulfilled (refund : Option RefundFacts)
    (nowMs : Int) : Keeps (Level none) (reverseCipherFulfilled kind refund nowMs) := by
  refine (keeps_onlyIf fun _ => keeps_dropReleaseForLostDispute).bind fun _ => ?_
  refine (keeps_finishNumberReleaseLocked nowMs).bind fun outcome => ?_
  split
  · exact keeps_pure _
  · refine keeps_order fun order => ?_
    split
    · exact Keeps.level fun _ => keeps_noMembershipToReverse
    · exact keeps_reverseListed kind refund _ nowMs

end

section

variable (kind : ReverseKind) (dispute : Option String) (refund : Option RefundFacts) (nowMs : Int)

theorem keeps_reverseFulfilled : Keeps (Level none) (reverseFulfilled kind dispute refund nowMs) :=
  keeps_order fun order => by
    refine (keeps_onlyIf fun _ => Keeps.level fun _ =>
      keeps_write_level (modest_recordDisputes _) fun _ => rfl).bind fun _ => ?_
    split
    · exact Keeps.level fun _ => keeps_reverseProtFulfilled kind nowMs
    · exact keeps_reverseCipherFulfilled kind refund nowMs

/-- **A reversal leaves the terms of an open order alone.** -/
theorem keeps_reverseLocked : Keeps (Level terms) (reverseLocked kind dispute refund nowMs) := by
  unfold reverseLocked
  split
  · exact keeps_fail _
  · intro l leased hhold hQ
    refine obeys_order ?_
    split
    · split
      · exact (Keeps.level fun _ => keeps_disputeLostAfterRefund) l leased hhold hQ
      · exact obeys_pure hhold hQ
    · exact obeys_pure hhold hQ
    · rename_i hful
      have hter : terms = none := hQ.symm.trans (openTerms_eq_none.mpr (.inl hful))
      subst hter
      exact keeps_reverseFulfilled kind dispute refund nowMs l leased hhold hQ
    · exact (Keeps.level fun _ => keeps_recordBeforeFulfilment kind dispute) l leased hhold hQ

end

theorem keeps_recheckDisputeList (s : PaymentsSettings) (nowMs : Int) (disputes : List String) :
    Keeps (Level terms) (recheckDisputeList s nowMs disputes) := by
  induction disputes with
  | nil => exact keeps_pure _
  | cons disputeId rest ih =>
    unfold recheckDisputeList
    refine keeps_order fun order => ?_
    split
    · exact keeps_pure _
    · exact (keeps_quiet (quiet_currentDisputeKind s order disputeId)).bind fun kind =>
        (keeps_reverseLocked kind _ none nowMs).bind fun _ => ih

theorem keeps_recheckOpenDisputes (s : PaymentsSettings) (nowMs : Int) :
    Keeps (Level terms) (recheckOpenDisputes s nowMs) :=
  keeps_order fun order => keeps_recheckDisputeList s nowMs order.openDisputes

end Reversals

/-! ## Deliveries of reversals -/

theorem keeps_any_write {change : PaymentOrder → PaymentOrder} (hmod : Modest change) :
    Keeps Any (Work.write change) := keeps_write hmod fun _ _ _ => trivial

theorem conducted_reverseOrder (orderId : String) (kind : ReverseKind)
    (refund : Option RefundFacts) (nowMs : Int) :
    Conducted (reverseOrder orderId kind refund nowMs) := by
  unfold reverseOrder
  split
  · exact Prog.Frames.done _
  · refine conducted_leaseOr orderId nowMs _ ?_
    refine (Keeps.any fun _ => keeps_reverseLocked kind none refund nowMs).bind fun outcome => ?_
    exact keeps_order fun order =>
      (keeps_onlyIf fun _ => keeps_any_write modest_clearSettling).bind fun _ => keeps_pure _

theorem conducted_reverseDispute (s : PaymentsSettings) (orderId disputeId : String)
    (nowMs : Int) : Conducted (reverseDispute s orderId disputeId nowMs) :=
  conducted_leaseOr orderId nowMs _ (keeps_order fun order =>
    (keeps_quiet (quiet_currentDisputeKind s order disputeId)).bind fun kind =>
      Keeps.any fun _ => keeps_reverseLocked kind _ none nowMs)

theorem conducted_recheckDisputes (s : PaymentsSettings) (orderId : String) (nowMs : Int) :
    Conducted (recheckDisputes s orderId nowMs) := by
  intro l
  refine obeys_acquire (fun l' leased hhold _ _ => ?_) (fun _ _ => rfl) fun _ _ _ => rfl
  refine Prog.Obeys.bind (obeys_underLease
    ((Keeps.any fun _ => keeps_recheckOpenDisputes s nowMs) l' leased hhold trivial)
    fun _ _ result _ _ _ _ _ => ?_)
  cases result with
  | ok a =>
    dsimp only
    split
    · exact rfl
    · exact rfl
  | error e => exact rfl

section

variable (orderId : String) (nowMs : Int)

theorem conducted_finishNumberRelease : Conducted (finishNumberRelease orderId nowMs) :=
  conducted_leaseOr orderId nowMs _
    ((Keeps.any fun _ => keeps_finishNumberReleaseLocked nowMs).bind fun _ => keeps_pure _)

theorem conducted_markRefundSettling : Conducted (markRefundSettling orderId nowMs) :=
  conducted_leaseOr orderId nowMs _ (keeps_order fun order => by
    split
    · exact keeps_pure _
    · exact (keeps_onlyIf fun _ => keeps_any_write (modest_markSettling nowMs)).bind
        fun _ => keeps_pure _)

theorem conducted_clearRefundSettling : Conducted (clearRefundSettling orderId nowMs) :=
  conducted_leaseOr orderId nowMs _ (keeps_order fun _ =>
    (keeps_onlyIf fun _ => keeps_any_write modest_clearSettling).bind fun _ => keeps_pure _)

end

end SlogaBackend.Payments
