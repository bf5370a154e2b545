import SlogaBackend.Payments.Steps

/-!
# Reversals before fulfilment

Stripe reports refunds and disputes in any order and more than once, and the reports on an order
that is not fulfilled are only recorded on it (`recordBeforeFulfilment`). What is recorded in the
end depends on the reports alone (`Recorded`): a dispute is open when it has been opened and no
report has closed it, provided that no report opens it after one has closed it, and a lost dispute
outranks a refund whichever came first.
-/

namespace SlogaBackend.Payments

/-! ## One report -/

/-- A report on the payment of an order. -/
inductive Report where
  | refunded
  | opened (dispute : String)
  | closed (dispute : String) (lost : Bool)
  deriving DecidableEq

namespace Report

def kind : Report → ReverseKind
  | refunded => .refund
  | opened _ => .disputeOpened
  | closed _ true => .disputeLost
  | closed _ false => .disputeWon

def dispute : Report → Option String
  | refunded => none
  | opened dispute => some dispute
  | closed dispute _ => some dispute

def lost : Report → Bool
  | closed _ lost => lost
  | _ => false

/-- A report delivered to a worker that holds the lease of the order, and recorded. -/
def Delivered (report : Report) (leased leased' : Leased) : Prop :=
  (recordBeforeFulfilment report.kind report.dispute leased).Ends
    (.ok (.ok .recordedPending, leased'))

end Report

section Work

variable {α β : Type} {leased leased' : Leased}

theorem Work.ends_bind {w : Work α} {k : α → Work β} {b : β}
    (h : ((w >>= k) leased).Ends (.ok (.ok b, leased'))) :
    ∃ a leased₁, (w leased).Ends (.ok (.ok a, leased₁)) ∧
      (k a leased₁).Ends (.ok (.ok b, leased')) := by
  obtain ⟨⟨result, leased₁⟩, hw, hk⟩ := Prog.ends_bind h
  cases result with
  | ok a => exact ⟨a, leased₁, hw, hk⟩
  | error e => cases hk

/-- A write that succeeds leaves what it wrote, with the next version. -/
theorem Work.ends_write {change : PaymentOrder → PaymentOrder} {u : Unit}
    (h : (Work.write change leased).Ends (.ok (.ok u, leased'))) :
    leased'.order = { change leased.order with version := (change leased.order).version + 1 } := by
  obtain ⟨answer, -, hrs⟩ := Prog.ends_bind h
  match answer with
  | .ok true =>
    cases hrs
    rfl
  | .ok false =>
    obtain ⟨_, -, hdn⟩ := Prog.ends_bind hrs
    cases hdn
  | .error e => cases hrs

/-- **What one report leaves recorded.** -/
theorem Report.Delivered.recorded {report : Report} (h : report.Delivered leased leased') :
    leased'.order.reversalPending = pendingAfter leased.order report.kind ∧
      leased'.order.openDisputes = disputesAfter leased.order report.kind report.dispute := by
  obtain ⟨order, leased₁, hord, h⟩ := Work.ends_bind h
  cases hord
  obtain ⟨_, leased₂, hwri, h⟩ := Work.ends_bind h
  obtain ⟨order', leased₃, hord', h⟩ := Work.ends_bind h
  cases hord'
  obtain ⟨_, leased₄, hmir, hdn⟩ := Work.ends_bind h
  cases hdn
  -- mirroring the disputes is about the membership
  obtain ⟨answer, -, hmir⟩ := Prog.ends_bind hmir
  cases hmir
  unfold Work.onlyIf at hwri
  split at hwri
  · rw [Work.ends_write hwri]
    exact ⟨rfl, rfl⟩
  · rename_i hsm
    cases hwri
    simp only [or_eq_true, bne_iff_ne, ne_eq, not_or, not_not] at hsm
    exact ⟨hsm.1.symm, hsm.2.symm⟩

theorem ends_mirrorDisputes (order : PaymentOrder) : (mirrorDisputes order).Ends (.ok ()) := by
  unfold mirrorDisputes
  cases order.userId with
  | none => exact .done _
  | some userId => exact .call (.ok none) (.done _)

/-- Every report can be recorded. -/
theorem Report.exists_delivered (report : Report) (leased : Leased) :
    ∃ leased', report.Delivered leased leased' := by
  obtain ⟨leased₁, hwri⟩ : ∃ leased₁, (Work.onlyIf
      (pendingAfter leased.order report.kind != leased.order.reversalPending ||
        disputesAfter leased.order report.kind report.dispute != leased.order.openDisputes)
      (Work.write (recordReversal (pendingAfter leased.order report.kind)
        (disputesAfter leased.order report.kind report.dispute))) leased).Ends
        (.ok (.ok (), leased₁)) := by
    unfold Work.onlyIf
    split
    · exact ⟨_, .call (.ok true) (.done _)⟩
    · exact ⟨_, .done _⟩
  have hmir : (Work.ofEngine (mirrorDisputes leased₁.order) leased₁).Ends
      (.ok (.ok (), leased₁)) := (ends_mirrorDisputes leased₁.order).attempt.bind (.done _)
  exact ⟨leased₁, hwri.bind (hmir.bind (.done _))⟩

end Work

/-! ## Many reports -/

/-- Reports recorded one after the other. Between two of them the order may change, apart from
what is recorded on it. -/
inductive Recorded : PaymentOrder → List Report → PaymentOrder → Prop
  | nil (o : PaymentOrder) : Recorded o [] o
  | cons {o o' : PaymentOrder} {leased leased' : Leased} {report : Report} {rest : List Report}
      (hpending : leased.order.reversalPending = o.reversalPending)
      (hopen : leased.order.openDisputes = o.openDisputes)
      (hreport : report.Delivered leased leased') (hrest : Recorded leased'.order rest o') :
      Recorded o (report :: rest) o'

/-- No dispute is opened after it has been closed. -/
def InOrder (delivered : List Report) : Prop :=
  delivered.Pairwise fun earlier later =>
    ∀ dispute lost, earlier = .closed dispute lost → later ≠ .opened dispute

theorem exists_recorded (o : PaymentOrder) (delivered : List Report) :
    ∃ o', Recorded o delivered o' := by
  induction delivered generalizing o with
  | nil => exact ⟨o, .nil o⟩
  | cons report rest ih =>
    obtain ⟨leased', hrep⟩ := report.exists_delivered ⟨o, 0⟩
    obtain ⟨o', hrs⟩ := ih leased'.order
    exact ⟨o', .cons rfl rfl hrep hrs⟩

variable {o o' : PaymentOrder} {delivered : List Report}

theorem Recorded.pending (h : Recorded o delivered o') :
    o'.reversalPending = if delivered.any Report.lost then some .disputeLost
      else if .refunded ∈ delivered then some (o.reversalPending.getD .refund)
      else o.reversalPending := by
  induction h with
  | nil o => simp
  | @cons o o' leased leased' report rest hpend hop hrep hrs ih =>
    rw [ih, hrep.recorded.1]
    rcases report with _ | dispute | ⟨dispute, _ | _⟩
    all_goals simp [Report.kind, Report.lost, pendingAfter, hpend]

theorem mem_disputesAfter (o : PaymentOrder) (report : Report) (id : String) :
    id ∈ disputesAfter o report.kind report.dispute ↔
      (id ∈ o.openDisputes ∨ report = .opened id) ∧ ∀ lost, report ≠ .closed id lost := by
  rcases report with _ | dispute | ⟨dispute, _ | _⟩
  · simp [Report.kind, Report.dispute, disputesAfter]
  · by_cases hkn : dispute ∈ o.openDisputes
    · have hmem : id ∈ o.openDisputes ∨ dispute = id → id ∈ o.openDisputes :=
        fun h => h.elim (fun h => h) fun h => h ▸ hkn
      simpa [Report.kind, Report.dispute, disputesAfter, hkn] using fun h => hmem (.inr h)
    · simp [Report.kind, Report.dispute, disputesAfter, hkn, @eq_comm _ id]
  all_goals simp [Report.kind, Report.dispute, disputesAfter, @eq_comm _ id]

theorem Recorded.mem_open (h : Recorded o delivered o') (hord : InOrder delivered) (id : String) :
    id ∈ o'.openDisputes ↔
      (id ∈ o.openDisputes ∨ .opened id ∈ delivered) ∧ ∀ lost, .closed id lost ∉ delivered := by
  induction h with
  | nil o => simp
  | @cons o o' leased leased' report rest hpend hop hrep hrs ih =>
    obtain ⟨hfst, hlat⟩ := List.pairwise_cons.mp hord
    rw [ih hlat, hrep.recorded.2, mem_disputesAfter, hop]
    simp only [mem_cons, not_or, forall_and, eq_comm (b := report)]
    constructor
    · rintro ⟨⟨hkn | hope, hcl⟩ | hope, hrs⟩
      · exact ⟨.inl hkn, hcl, hrs⟩
      · exact ⟨.inr (.inl hope), hcl, hrs⟩
      · exact ⟨.inr (.inr hope), fun lost h => hfst _ hope id lost h rfl, hrs⟩
    · rintro ⟨hkn | hope | hope, hcl, hrs⟩
      · exact ⟨.inl ⟨.inl hkn, hcl⟩, hrs⟩
      · exact ⟨.inl ⟨.inr hope, hcl⟩, hrs⟩
      · exact ⟨.inr hope, hrs⟩

theorem nodup_disputesAfter (h : o.openDisputes.Nodup) (kind : ReverseKind)
    (dispute : Option String) : (disputesAfter o kind dispute).Nodup := by
  unfold disputesAfter
  split
  · split
    · exact h
    · rename_i hnew
      exact nodup_append.mpr ⟨h, nodup_singleton _, fun a ha b hb => by
        rintro rfl
        exact hnew (mem_singleton.mp hb ▸ ha)⟩
  · exact h.filter _
  · exact h.filter _
  · exact h

theorem Recorded.nodup (h : Recorded o delivered o') (hnod : o.openDisputes.Nodup) :
    o'.openDisputes.Nodup := by
  induction h with
  | nil o => exact hnod
  | cons hpend hop hrep hrs ih =>
    refine ih ?_
    rw [hrep.recorded.2]
    exact nodup_disputesAfter (hop ▸ hnod) _ _

/-! ## Histories -/

/-- What becomes of a dispute: it is closed, as lost or as won, or it stays open. -/
structure DisputeHistory where
  dispute : String
  closed : Option Bool

def DisputeHistory.reports (history : DisputeHistory) : List Report :=
  .opened history.dispute :: history.closed.toList.map (.closed history.dispute)

/-- A delivery of the reports of these disputes, and of a refund: each at least once, in any order
that opens no dispute after it has been closed. -/
structure Delivers (histories : List DisputeHistory) (refund : Bool) (delivered : List Report) :
    Prop where
  reports : ∀ report, report ∈ delivered ↔
    (refund = true ∧ report = .refunded) ∨ ∃ history ∈ histories, report ∈ history.reports
  inOrder : InOrder delivered

variable {histories : List DisputeHistory} {refund : Bool}

theorem Delivers.refunded_mem (h : Delivers histories refund delivered) :
    .refunded ∈ delivered ↔ refund = true := by
  simp [h.reports, DisputeHistory.reports]

theorem Delivers.lost_mem (h : Delivers histories refund delivered) :
    delivered.any Report.lost = true ↔ ∃ history ∈ histories, history.closed = some true := by
  rw [any_eq_true]
  constructor
  · rintro ⟨report, hmem, hls⟩
    obtain ⟨-, rfl⟩ | ⟨history, hhis, hrep⟩ := (h.reports report).mp hmem
    · cases hls
    · rcases mem_cons.mp hrep with rfl | hcl
      · cases hls
      · obtain ⟨lost, hout, rfl⟩ := mem_map.mp hcl
        obtain rfl : lost = true := hls
        exact ⟨history, hhis, Option.mem_toList.mp hout⟩
  · rintro ⟨history, hhis, hls⟩
    refine ⟨.closed history.dispute true, (h.reports _).mpr (.inr ⟨history, hhis, ?_⟩), rfl⟩
    simp [DisputeHistory.reports, hls]

/-- **Reversals before fulfilment commute.** What is recorded on an order already counts as
reported before. -/
theorem early_reversals_commute {o₁ o₂ : PaymentOrder} {delivered₁ delivered₂ : List Report}
    (h₁ : Delivers histories refund delivered₁) (h₂ : Delivers histories refund delivered₂)
    (hrecorded₁ : Recorded o delivered₁ o₁) (hrecorded₂ : Recorded o delivered₂ o₂) :
    o₁.reversalPending = o₂.reversalPending ∧ (∀ id, id ∈ o₁.openDisputes ↔ id ∈ o₂.openDisputes) ∧
      (o₁.reversalPending = some .disputeLost ↔ o.reversalPending = some .disputeLost ∨
        ∃ history ∈ histories, history.closed = some true) ∧
      (o₁.reversalPending = some .refund ↔ (o.reversalPending = some .refund ∨
        o.reversalPending = none ∧ refund = true) ∧
          ¬ ∃ history ∈ histories, history.closed = some true) ∧
      (o.openDisputes.Nodup → o₁.openDisputes.Nodup) := by
  have hpending₁ := hrecorded₁.pending
  have hpending₂ := hrecorded₂.pending
  simp only [h₁.lost_mem, h₁.refunded_mem] at hpending₁
  simp only [h₂.lost_mem, h₂.refunded_mem] at hpending₂
  refine ⟨hpending₁.trans hpending₂.symm, fun id => ?_, ?_, ?_, hrecorded₁.nodup⟩
  · rw [hrecorded₁.mem_open h₁.inOrder, hrecorded₂.mem_open h₂.inOrder]
    simp only [h₁.reports, h₂.reports]
  · rw [hpending₁]
    rcases o.reversalPending with _ | _ | _ <;> split <;> cases refund <;> simp_all
  · rw [hpending₁]
    rcases o.reversalPending with _ | _ | _ <;> split <;> cases refund <;> simp_all

namespace TwoDisputes

/-- One dispute is lost and one is won. -/
def disputes : List DisputeHistory := [⟨"a", some true⟩, ⟨"b", some false⟩]

def delivered₁ : List Report :=
  [.refunded, .opened "a", .opened "b", .closed "a" true, .closed "b" false]

def delivered₂ : List Report :=
  [.opened "b", .opened "a", .closed "a" true, .closed "b" false, .refunded, .closed "a" true]

theorem delivers₁ : Delivers disputes true delivered₁ := by
  constructor
  · simp only [disputes, delivered₁, DisputeHistory.reports]
    simp
    tauto
  · simp [InOrder, delivered₁]

theorem delivers₂ : Delivers disputes true delivered₂ := by
  constructor
  · simp only [disputes, delivered₂, DisputeHistory.reports]
    simp
    tauto
  · simp [InOrder, delivered₂]

theorem two_orders_one_record : ∃ o₁ o₂, Recorded Sample.purchase delivered₁ o₁ ∧
    Recorded Sample.purchase delivered₂ o₂ ∧ o₁.reversalPending = o₂.reversalPending ∧
      (∀ id, id ∈ o₁.openDisputes ↔ id ∈ o₂.openDisputes) ∧
      o₁.reversalPending = some .disputeLost ∧ o₁.openDisputes.Nodup := by
  obtain ⟨o₁, hrecorded₁⟩ := exists_recorded Sample.purchase delivered₁
  obtain ⟨o₂, hrecorded₂⟩ := exists_recorded Sample.purchase delivered₂
  obtain ⟨hsame, hopen, hlost, -, hnodup⟩ :=
    early_reversals_commute delivers₁ delivers₂ hrecorded₁ hrecorded₂
  exact ⟨o₁, o₂, hrecorded₁, hrecorded₂, hsame, hopen,
    hlost.mpr (.inr ⟨⟨"a", some true⟩, mem_cons_self, rfl⟩), hnodup .nil⟩

end TwoDisputes

end SlogaBackend.Payments
