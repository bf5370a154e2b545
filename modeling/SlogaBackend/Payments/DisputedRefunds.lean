import SlogaBackend.Payments.Leases

/-!
# Refunds and open disputes

A payment that is disputed is not ours to refund: the bank has taken the money, and a
refund on top pays the buyer twice. So the engine looks at the disputes of an order before
it asks for a refund.

Two kinds of refund are asked for. The refund of a void is decided on the leased order, and
whoever holds the lease sees every dispute that was recorded (`Leases`). The refund of an
upgrade whose membership is being released is decided on an order that was only fetched; its
own lease is taken after the refund. Between the fetch and the refund a dispute may be
recorded under that lease, and the refund goes out all the same (`refund_while_disputed`).
`recorded` counts the writes that moved the disputes of an order; when there was none since
the fetch, the refund is sound too (`refund_undisputed`).
-/

namespace SlogaBackend.Payments

variable {sha256 : List UInt8 → List UInt8}

/-! ## Orders that were only fetched -/

/-- What a worker fetched is what is stored as long as no write moved the disputes. -/
structure SeenTracks (w : World) : Prop where
  leases : CopiesTrack w
  past : ∀ pid o, (w.locals pid).seen = some o → w.seenAt pid ≤ w.recorded o.id
  seen : ∀ pid o, (w.locals pid).seen = some o → ∃ row, w.store.orders.get o.id = some row ∧
    (w.recorded o.id = w.seenAt pid → sameDisputes row o = true)

theorem SeenTracks.start {store : Store} (h : store.Keyed) : SeenTracks (World.start store) :=
  ⟨CopiesTrack.start h, fun _ _ hsn => absurd hsn (by simp [World.start, Local.init]),
    fun _ _ hsn => absurd hsn (by simp [World.start, Local.init])⟩

theorem seenAtAfter_other {pid q : Nat} (hq : q ≠ pid) (recorded : String → Nat)
    (seenAt : Nat → Nat) (c : Call) (answer : Answer c) :
    World.seenAtAfter pid recorded seenAt c answer q = seenAt q := by
  cases c with
  | orders op =>
    cases op with
    | fetch id =>
      match answer with
      | .ok (some _) => exact update_of_ne hq ..
      | .ok none => rfl
      | .error _ => rfl
    | _ => rfl
  | _ => rfl

/-- What a worker knows of orders it does not hold moves with its own fetches only. -/
theorem seen_cases (sha256 : List UInt8 → List UInt8) (pid : Nat) (c : Call) (w : World) (q : Nat) :
    (((w.perform sha256 pid c).1.locals q).seen = (w.locals q).seen ∧
        (w.perform sha256 pid c).1.seenAt q = w.seenAt q) ∨
      ∃ id row, w.store.orders.get id = some row ∧ c = .orders (.fetch id) ∧
        ((w.perform sha256 pid c).1.locals q).seen = some row ∧
        (w.perform sha256 pid c).1.seenAt q = w.recorded id := by
  by_cases hq : q = pid
  · subst hq
    have hown := locals_own sha256 q c w
    cases c with
    | orders op =>
      rcases perform_orders_cases sha256 op w.store with ⟨e, hperf⟩ | hperf
      · rw [perform_eq hperf] at hown ⊢
        refine .inl ⟨(congrArg Local.seen hown).trans ?_, ?_⟩
        · cases op <;> rfl
        · cases op <;> rfl
      · cases op with
        | fetch id =>
          cases hg : w.store.orders.get id with
          | none =>
            have hrun : (OrderOp.run (.fetch id) w.store.orders).2 = .ok none :=
              congrArg Except.ok hg
            rw [perform_eq hperf, hrun] at hown ⊢
            exact .inl ⟨congrArg Local.seen hown, rfl⟩
          | some row =>
            have hrun : (OrderOp.run (.fetch id) w.store.orders).2 = .ok (some row) :=
              congrArg Except.ok hg
            rw [perform_eq hperf, hrun] at hown ⊢
            exact .inr ⟨id, row, hg, rfl, congrArg Local.seen hown, update_self ..⟩
        | acquire id now untilMs =>
          refine .inl ⟨?_, rfl⟩
          rw [hown]
          generalize (w.perform sha256 q (.orders (.acquire id now untilMs))).2 = answer
          match answer with
          | .ok (some _) => rfl
          | .ok none => rfl
          | .error _ => rfl
        | insert o =>
          refine .inl ⟨?_, rfl⟩
          rw [hown]
          generalize (w.perform sha256 q (.orders (.insert o))).2 = answer
          match answer with
          | .ok () => rfl
          | .error _ => rfl
        | update o expected =>
          refine .inl ⟨?_, rfl⟩
          rw [hown]
          generalize (w.perform sha256 q (.orders (.update o expected))).2 = answer
          match answer with
          | .ok true => rfl
          | .ok false => rfl
          | .error _ => rfl
        | _ =>
          refine .inl ⟨?_, rfl⟩
          rw [hown]
          rfl
    | memberships op =>
      exact .inl ⟨(congrArg Local.seen hown).trans (Local.noteMembership_frame _ op _).2.1, rfl⟩
    | numbers op =>
      exact .inl ⟨(congrArg Local.seen hown).trans (Local.noteNumber_frame _ op _).2.2.1, rfl⟩
    | stripe op =>
      refine .inl ⟨(congrArg Local.seen hown).trans ?_, rfl⟩
      change ((w.locals q).noteStripe op _).seen = _
      rcases Local.noteStripe_frame (w.locals q) op (w.perform sha256 q (.stripe op)).2 with
        hnt | hnt
      · rw [hnt]
      · rw [hnt]
    | _ => exact .inl ⟨congrArg Local.seen hown, rfl⟩
  · exact .inl ⟨congrArg Local.seen (locals_other sha256 pid c w q hq),
      seenAtAfter_other hq w.recorded w.seenAt c _⟩

theorem disputes_move (sha256 : List UInt8 → List UInt8) {w : World} (pid : Nat) (c : Call) {id : String} {row : PaymentOrder}
    (hg : w.store.orders.get id = some row) :
    ∃ row', (w.perform sha256 pid c).1.store.orders.get id = some row' ∧
      w.recorded id ≤ (w.perform sha256 pid c).1.recorded id ∧
      ((w.perform sha256 pid c).1.recorded id = w.recorded id →
        row'.openDisputes = row.openDisputes ∧ row'.reversalPending = row.reversalPending) := by
  obtain ⟨row', hg', hrow⟩ := rowStep sha256 pid c hg
  refine ⟨row', hg', ?_⟩
  cases hrow with
  | written o expected hcl hid hver huse hn =>
    rw [hn]
    cases hsm : sameDisputes row o with
    | true =>
      simp only [sameDisputes, and_eq_true, beq_iff_eq] at hsm
      exact ⟨le_refl _, fun _ => ⟨hsm.1.symm, hsm.2.symm⟩⟩
    | false =>
      simp only [Bool.false_eq_true, if_false]
      exact ⟨Nat.le_succ _, fun heq => by omega⟩
  | unlinked userId row' hcl hunl hn =>
    rcases hunl with rfl | ⟨-, rfl⟩
    · exact ⟨hn.ge, fun _ => ⟨rfl, rfl⟩⟩
    · exact ⟨hn.ge, fun _ => ⟨rfl, rfl⟩⟩
  | same hn | acquired now untilMs hcl hn | released untilMs hcl hn =>
    exact ⟨hn.ge, fun _ => ⟨rfl, rfl⟩⟩

/-- **One call.** -/
theorem SeenTracks.perform {w : World} (h : SeenTracks w) (pid : Nat) (c : Call)
    (hmay : (w.locals pid).may c) : SeenTracks (w.perform sha256 pid c).1 := by
  have hkey := h.leases.keyed
  refine ⟨h.leases.perform pid c (Local.writesHeld_of_may hmay), fun q o hsn => ?_, fun q o hsn => ?_⟩
  · rcases seen_cases sha256 pid c w q with ⟨hsn', hat⟩ | ⟨id, row, hg, -, hsn', hat⟩
    · rw [hsn'] at hsn
      obtain ⟨row, hg, -⟩ := h.seen q o hsn
      obtain ⟨-, -, hle, -⟩ := disputes_move sha256 pid c hg
      rw [hat]
      exact (h.past q o hsn).trans hle
    · obtain rfl : row = o := some.inj (hsn'.symm.trans hsn)
      obtain ⟨-, -, hle, -⟩ := disputes_move sha256 pid c hg
      rw [hat, hkey.orders id row hg]
      exact hle
  · rcases seen_cases sha256 pid c w q with ⟨hsn', hat⟩ | ⟨id, row, hg, -, hsn', hat⟩
    · rw [hsn'] at hsn
      obtain ⟨row, hg, hsm⟩ := h.seen q o hsn
      obtain ⟨row', hg', hle, hmv⟩ := disputes_move sha256 pid c hg
      refine ⟨row', hg', fun heq => ?_⟩
      have hps := h.past q o hsn
      have hsm' := hsm (by omega)
      obtain ⟨hop, hpend⟩ := hmv (by omega)
      unfold sameDisputes at hsm' ⊢
      rw [hop, hpend]
      exact hsm'
    · obtain rfl : row = o := some.inj (hsn'.symm.trans hsn)
      have hid := hkey.orders id row hg
      obtain ⟨row', hg', -, hmv⟩ := disputes_move sha256 pid c hg
      refine ⟨row', by rw [hid, hg'], fun heq => ?_⟩
      obtain ⟨hop, hpend⟩ := hmv (by rw [← hid, heq, hat, hid])
      simp [sameDisputes, hop, hpend]

/-! ## Refunds -/

/-- The worker still holds the lease of the order it voids, or no write moved the disputes
of the upgrade since it was fetched. -/
def Uncontested (w : World) (pid : Nat) : RefundKey → Prop
  | .voidOrder orderId => w.holders.get orderId = some pid
  | .releaseUpgrade orderId => w.recorded orderId = w.seenAt pid

/-- **No refund while a dispute is open or lost.** In every state of every interleaving of
deliveries, a worker about to ask Stripe for an uncontested refund of an order's payment
finds the stored order without an open dispute and without a lost one to apply. -/
theorem refund_undisputed {store : Store} (hkeyed : store.Keyed)
    {h : List (Deliveries × Event (PaymentsSettings × Delivery))} {sys : Deliveries}
    (hrun : Run (Deliveries.exec sha256) (Deliveries.Admits fun _ _ _ => True)
      (Deliveries.idle store) h sys)
    (pid : Nat) (paymentIntent : String) (key : RefundKey)
    (hnext : sys.nextCall pid = some (.stripe (.createRefund paymentIntent key)))
    (huncontested : Uncontested sys.store pid key) :
    ∃ row, sys.store.store.orders.get key.orderId = some row ∧ row.openDisputes = [] ∧
      row.reversalPending ≠ some .disputeLost := by
  have hlawful : sys.Lawful SeenTracks := Deliveries.Lawful.run (fun w hw => hw.leases.keyed)
    (fun pid c w hw _ hmay => hw.perform pid c hmay)
    (Deliveries.lawful_idle (SeenTracks.start hkeyed)) hrun
  have htracks := hlawful.store
  have hundisputed : ∃ row, sys.store.store.orders.get key.orderId = some row ∧
      isDisputed row = false := by
    have hallowed := hlawful.may hnext
    cases key with
    | voidOrder orderId =>
      obtain ⟨c, hcopy, hdisputed, -⟩ := hallowed
      obtain ⟨row, hget, htracked⟩ := htracks.leases.copies pid orderId c hcopy
      exact ⟨row, hget, (htracked.agrees huncontested).isDisputed.trans hdisputed⟩
    | releaseUpgrade orderId =>
      obtain ⟨o, hseen, rfl, hdisputed⟩ := hallowed
      obtain ⟨row, hget, hsame⟩ := htracks.seen pid o hseen
      have hfields := hsame huncontested
      simp only [sameDisputes, and_eq_true, beq_iff_eq] at hfields
      refine ⟨row, hget, ?_⟩
      unfold isDisputed at hdisputed ⊢
      rw [hfields.1, hfields.2]
      exact hdisputed
  obtain ⟨row, hget, hdisputed⟩ := hundisputed
  simp only [isDisputed, Bool.or_eq_false_iff, Bool.not_eq_false', List.isEmpty_iff,
    beq_eq_false_iff_ne] at hdisputed
  exact ⟨row, hget, hdisputed.1, hdisputed.2⟩

/-! ## A dispute between the fetch and the refund -/

namespace DisputedUpgrade

open Sample

/-- A bank where every dispute is open and nothing else is answered. -/
def bank : Outside :=
  { silent with
    stripe := fun _ op =>
      match op with
      | .getDispute id => .ok ⟨id, some "needs_response", some "C"⟩
      | _ => .error (.transport "") }

def start : Deliveries := Deliveries.idle (store bank [purchase, upgrade])

/-- The user bought and upgraded, and the release of the purchase has fetched the upgrade. -/
def fetching : List (Event (PaymentsSettings × Delivery)) :=
  delivers 0 (.fulfil "A" (session purchase) 1000) 17 ++
    delivers 1 (.fulfil "C" (session upgrade) 2000) 15 ++
    delivers 2 (.reverse "A" .refund (some ⟨3000, true, .succeeded⟩) 3000) 20

def fetched : Deliveries := execAll (Deliveries.exec digest) start fetching

/-- A dispute of the upgrade is delivered and recorded. -/
def disputing : List (Event (PaymentsSettings × Delivery)) :=
  fetching ++ delivers 3 (.dispute "C" "d" 4000) 8

def disputed : Deliveries := execAll (Deliveries.exec digest) start disputing

/-- What the release is about to ask for. -/
def refund : Call := .stripe (.createRefund "C" (.releaseUpgrade "C"))

end DisputedUpgrade

open DisputedUpgrade in
/-- The refund of the upgrade, asked for right after the fetch. -/
theorem refund_undisputed_upgrade : ∃ row, fetched.store.store.orders.get "C" = some row ∧
      row.openDisputes = [] ∧ row.reversalPending ≠ some .disputeLost := by
  have hrun : Run (Deliveries.exec Sample.digest) (Deliveries.Admits fun _ _ _ => True) start _
      fetched := Run.of_admitsAll (by decide +kernel)
  have hnext : fetched.nextCall 2 = some refund := by decide +kernel
  have hsince : Uncontested fetched.store 2 (.releaseUpgrade "C") := by
    unfold Uncontested
    decide +kernel
  exact refund_undisputed (Sample.keyed _ _) hrun 2 "C" (.releaseUpgrade "C") hnext hsince

open DisputedUpgrade in
/-- **A refund of a disputed payment.** No lease is ever taken over, and the release is
about to refund the upgrade while the stored upgrade has an open dispute. -/
theorem refund_while_disputed :
    Reachable (Deliveries.exec Sample.digest) (Deliveries.Admits fun pid _ w => w.LeasesKept pid)
        start disputed ∧
      disputed.nextCall 2 = some (.stripe (.createRefund "C" (.releaseUpgrade "C"))) ∧
      ∃ row, disputed.store.store.orders.get "C" = some row ∧ row.openDisputes ≠ [] := by
  refine ⟨Reachable.of_admitsAll (by decide +kernel), by decide +kernel, ?_⟩
  have hopen : (disputed.store.store.orders.get "C").map PaymentOrder.openDisputes =
      some ["d"] := by decide +kernel
  obtain ⟨row, hget, hdisputes⟩ := map_eq_some_iff.mp hopen
  exact ⟨row, hget, by simp [hdisputes]⟩

end SlogaBackend.Payments
