import SlogaBackend.Payments.Checkout
import SlogaBackend.Payments.FulfilmentConduct
import SlogaBackend.Prot.Postings

/-!
# What one watched call does

Every call is judged here once, place by place, and nothing downstream opens an operation
again. A call the store could not answer changes nothing; a call that was answered is
one of the cases of

* `MembershipStep`, for the memberships: they stay, a row is inserted for a user who has
  none, a row at the expected version is replaced, a row is erased, or the ledger moves
  the version of a row it settles;
* `OrderStep`, for the orders with the ghosts that follow them: nothing moves, a lease is
  taken, an order is written by a worker whose copy agrees with the row, a lease is given
  back, or the orders of a user are unlinked;
* `NumberStep`, for the numbers: they stay, one is claimed for an order that has none, or
  the one of an order is put back.
-/

namespace SlogaBackend.Payments

variable {sha256 : List UInt8 → List UInt8}

/-! ## Calls that reach their collection -/

section

variable (sha256 : List UInt8 → List UInt8)

theorem perform_orders_cases (op : OrderOp) (s : Store) :
    (∃ e, s.perform sha256 (.orders op) = (s.next, .error e)) ∨ s.perform sha256 (.orders op) =
        ({ s with orders := (op.run s.orders).1, tick := s.tick + 1 }, (op.run s.orders).2) := by
  unfold Store.perform
  cases s.outside.outage s.tick with
  | none => exact .inr rfl
  | some e => exact .inl ⟨e, rfl⟩

theorem perform_memberships_cases (op : MembershipOp) (s : Store) :
    (∃ e, s.perform sha256 (.memberships op) = (s.next, .error e)) ∨
      s.perform sha256 (.memberships op) =
        ({ s with
            prot := { s.prot with cipherMemberships := (op.run s.memberships).1 }
            tick := s.tick + 1 }, (op.run s.memberships).2) := by
  unfold Store.perform
  cases s.outside.outage s.tick with
  | none => exact .inr rfl
  | some e => exact .inl ⟨e, rfl⟩

theorem perform_numbers_cases (op : NumberOp) (s : Store) :
    (∃ e, s.perform sha256 (.numbers op) = (s.next, .error e)) ∨ s.perform sha256 (.numbers op) =
        ({ s with numbers := (op.run s.numbers).1, tick := s.tick + 1 }, (op.run s.numbers).2) := by
  unfold Store.perform
  cases s.outside.outage s.tick with
  | none => exact .inr rfl
  | some e => exact .inl ⟨e, rfl⟩

theorem perform_ledger_cases (op : LedgerOp) (s : Store) :
    (∃ e, s.perform sha256 (.ledger op) = (s.next, .error e)) ∨ s.perform sha256 (.ledger op) =
        ({ s with
            prot := (op.run sha256 (s.outside.ulid s.tick) s.prot).1
            tick := s.tick + 1 }, (op.run sha256 (s.outside.ulid s.tick) s.prot).2) := by
  unfold Store.perform
  cases s.outside.outage s.tick with
  | none => exact .inr rfl
  | some e => exact .inl ⟨e, rfl⟩

theorem perform_stripe (op : StripeOp) (s : Store) :
    s.perform sha256 (.stripe op) = (s.next, s.outside.stripe s.tick op) := by
  unfold Store.perform
  cases s.outside.outage s.tick <;> rfl

end

/-- A call writes no table but those it is about; a ledger call is about memberships too. -/
theorem perform_frame (c : Call) (s : Store) :
    ((∀ op, c ≠ .orders op) → (s.perform sha256 c).1.orders = s.orders) ∧
      ((∀ op, c ≠ .numbers op) → (s.perform sha256 c).1.numbers = s.numbers) ∧
      ((∀ op, c ≠ .ledger op) → (s.perform sha256 c).1.prot.protLedger = s.prot.protLedger ∧
        ((∀ op, c ≠ .memberships op) → (s.perform sha256 c).1.memberships = s.memberships)) := by
  unfold Store.perform
  cases s.outside.outage s.tick with
  | some e => cases c <;> exact ⟨fun _ => rfl, fun _ => rfl, fun _ => ⟨rfl, fun _ => rfl⟩⟩
  | none =>
    refine ⟨fun h => ?_, fun h => ?_, fun h => ⟨?_, fun h' => ?_⟩⟩
    · cases c <;> first | rfl | exact absurd rfl (h _)
    · cases c <;> first | rfl | exact absurd rfl (h _)
    · cases c <;> first | rfl | exact absurd rfl (h _)
    · cases c <;> first | rfl | exact absurd rfl (h _) | exact absurd rfl (h' _)

theorem outside_perform (c : Call) (s : Store) : (s.perform sha256 c).1.outside = s.outside := by
  unfold Store.perform
  cases s.outside.outage s.tick <;> cases c <;> rfl

/-! ## What a worker knows after its call -/

section

variable (sha256 : List UInt8 → List UInt8) (pid : Nat) (c : Call) (w : World)

theorem locals_own : (w.perform sha256 pid c).1.locals pid =
      conduct.note (w.locals pid) c (w.perform sha256 pid c).2 :=
  update_self ..

theorem locals_other (q : Nat) (hq : q ≠ pid) : (w.perform sha256 pid c).1.locals q = w.locals q :=
  update_of_ne hq ..

end

/-! ## The ledger -/

theorem bump_eq {memberships memberships' : CipherMemberships} {userId : String}
    {m : CipherMembership} (hg : memberships.get userId = some m)
    (h : Prot.bumpCipherMembershipVersionLocked memberships userId m.version = some memberships') :
    memberships' = memberships.insert userId { m with version := m.version + 1 } := by
  unfold Prot.bumpCipherMembershipVersionLocked at h
  rw [hg] at h
  dsimp only at h
  rw [if_pos rfl] at h
  obtain ⟨next, hnx, rfl⟩ := map_eq_some_iff.mp h
  rw [(checkedSuccU64_eq_some.mp hnx).2]

def LedgerOp.protCall (ulid : String) : LedgerOp → Option Prot.ProtCall
  | .apply posting => some (.applyProtPosting ulid posting)
  | .fetchEntry _ => none
  | .fetchAccount _ => none
  | .fetchByMembership _ => none
  | .syncCipher userId now => some (.syncCipherProt ulid userId now)
  | .clawbackCipher userId orderId now => some (.clawbackCipherProt ulid userId orderId now)
  | .forfeit userId now => some (.forfeitProtWallet ulid userId now)

section

variable (sha256 : List UInt8 → List UInt8) (op : LedgerOp) (ulid : String) (db : Prot.ReferenceDb)

theorem ledger_run_cases : (op.run sha256 ulid db).1 = db ∨
      ∃ call p e, op.protCall ulid = some call ∧ Prot.Posts ulid p e db (op.run sha256 ulid db).1 ∧
        Prot.PostedBy db call ulid p (op.run sha256 ulid db).1.cipherMemberships := by
  have hcl : ∀ call, op.protCall ulid = some call →
      (op.run sha256 ulid db).1 = (Prot.exec sha256 db call).1 → (∀ u row, call ≠ .writeMembership u row) →
      (op.run sha256 ulid db).1 = db ∨
      ∃ call p e, op.protCall ulid = some call ∧ Prot.Posts ulid p e db (op.run sha256 ulid db).1 ∧
        Prot.PostedBy db call ulid p (op.run sha256 ulid db).1.cipherMemberships := by
    intro call hop hrun hnot
    rcases Prot.exec_cases sha256 db call with ⟨hsm, -⟩ | ⟨u, row, rfl⟩ | ⟨ulid', p, e, hpst, hby, -⟩
    · exact .inl (hrun.trans hsm)
    · exact absurd rfl (hnot u row)
    · have hul : ulid' = ulid := by
        generalize (Prot.exec sha256 db call).1.cipherMemberships = after at hby
        cases op <;> cases hop <;> cases hby <;> rfl
      subst hul
      rw [hrun]
      exact .inr ⟨call, p, e, hop, hpst, hby⟩
  cases op with
  | fetchEntry _ | fetchAccount _ | fetchByMembership _ => exact .inl rfl
  | _ => exact hcl _ rfl rfl fun _ _ h => by cases h

theorem ledger_run_memberships :
    (op.run sha256 ulid db).1.cipherMemberships = db.cipherMemberships ∨
      ∃ userId row, db.cipherMemberships.get userId = some row ∧
        (op.run sha256 ulid db).1.cipherMemberships =
          db.cipherMemberships.insert userId { row with version := row.version + 1 } := by
  rcases ledger_run_cases sha256 op ulid db with hsm | ⟨call, p, e, -, -, hby⟩
  · exact .inl (congrArg Prot.ReferenceDb.cipherMemberships hsm)
  · generalize (op.run sha256 ulid db).1.cipherMemberships = after at hby
    cases hby with
    | sync ulid userId now m base p memberships hg hbs hpl hbm
    | clawback ulid userId orderId now m base p memberships hg hbs holder hpl hbm =>
      exact .inr ⟨userId, m, hg, bump_eq hg hbm⟩
    | _ => exact .inl rfl

end

theorem grantKey_ne_purchase (userId base orderId : String) (n k : Nat) :
    Prot.grantKey userId n base k ≠ protKeyPurchase orderId := by
  unfold Prot.grantKey protKeyPurchase
  split
  · unfold Prot.protKeyCipherFounding
    simp only [String.append_assoc]
    exact append_ne_append 1 (by decide) (by decide) (by decide) _ _
  · unfold Prot.protKeyCipherUpgrade
    simp only [String.append_assoc]
    exact append_ne_append 1 (by decide) (by decide) (by decide) _ _

theorem forfeit_ne_purchase (userId orderId : String) (n : Nat) :
    Prot.protKeyForfeit userId n ≠ protKeyPurchase orderId := by
  unfold Prot.protKeyForfeit protKeyPurchase
  simp only [String.append_assoc]
  exact append_ne_append 1 (by decide) (by decide) (by decide) _ _

/-- Of the ledger's own postings none is a purchase. -/
theorem apply_of_purchase {op : LedgerOp} {ulid orderId : String} {call : Prot.ProtCall}
    {db : Prot.ReferenceDb} {p : Prot.ProtPosting} {after : CipherMemberships}
    (hcl : op.protCall ulid = some call) (hby : Prot.PostedBy db call ulid p after)
    (hkey : p.key = protKeyPurchase orderId) : op = .apply p := by
  cases hby with
  | apply =>
    cases op with
    | apply posting =>
      obtain ⟨-, rfl⟩ := Prot.ProtCall.applyProtPosting.inj (some.inj hcl)
      rfl
    | _ => simp [LedgerOp.protCall] at hcl
  | sync ulid userId now m base p memberships hg hbs hpl =>
    rw [(Prot.planCipherSync_post hpl).key_eq] at hkey
    exact absurd hkey (grantKey_ne_purchase _ _ _ _ _)
  | clawback ulid userId orderId now m base p memberships hg hbs holder hpl =>
    rw [(Prot.planCipherClawback_some hpl).key_eq] at hkey
    exact absurd hkey (clawback_ne_purchase _ _)
  | _ => exact absurd hkey (forfeit_ne_purchase _ _ _)

/-! ## Memberships -/

/-- What a call may do to the memberships, and to the count of incarnations. -/
inductive MembershipStep (w : World) (c : Call) (w' : World) : Prop where
  | same (htable : w'.store.memberships = w.store.memberships)
      (hincarnation : w'.incarnation = w.incarnation)
  | inserted (m : CipherMembership) (hcall : c = .memberships (.insert m))
      (hnone : w.store.memberships.get m.userId = none)
      (hfree : ∀ row ∈ w.store.memberships.values, row.number ≠ m.number)
      (htable : w'.store.memberships = w.store.memberships.insert m.userId m)
      (hincarnation : w'.incarnation =
        Function.update w.incarnation m.userId (w.incarnation m.userId + 1))
  | replaced (next : CipherMembership) (expected : Nat) (row : CipherMembership)
      (hcall : c = .memberships (.update next expected))
      (hget : w.store.memberships.get next.userId = some row) (hversion : row.version = expected)
      (hfree : ∀ other ∈ w.store.memberships.values, other.userId ≠ next.userId →
        other.number ≠ next.number)
      (htable : w'.store.memberships =
        w.store.memberships.insert next.userId { next with version := expected + 1 })
      (hincarnation : w'.incarnation = w.incarnation)
  | erased (userId : String) (htable : w'.store.memberships = w.store.memberships.erase userId)
      (hincarnation : w'.incarnation = w.incarnation)
  | bumped (userId : String) (row : CipherMembership)
      (hget : w.store.memberships.get userId = some row)
      (htable : w'.store.memberships =
        w.store.memberships.insert userId { row with version := row.version + 1 })
      (hincarnation : w'.incarnation = w.incarnation)

variable {w : World}

theorem perform_eq {c : Call} {s' : Store} {answer : Answer c}
    (h : w.store.perform sha256 c = (s', answer)) (pid : Nat) : w.perform sha256 pid c =
      ({ store := s'
         locals := Function.update w.locals pid ((w.locals pid).note c answer)
         holders := World.holdersAfter pid w.holders c answer
         incarnation := World.incarnationAfter w.incarnation c answer
         readIn := World.readInAfter pid w.incarnation w.readIn c answer
         recorded := World.recordedAfter w.store.orders w.recorded c answer
         seenAt := World.seenAtAfter pid w.recorded w.seenAt c answer
         accepted := World.acceptedAfter (w.store.outside.refundTaken w.store.tick) w.accepted c
           answer }, answer) := by
  unfold World.perform
  rw [h]

section

variable (sha256 : List UInt8 → List UInt8) (pid : Nat) (c : Call) (w : World)

/-- **What a call does to the memberships.** -/
theorem membershipStep : MembershipStep w c (w.perform sha256 pid c).1 := by
  cases c with
  | memberships op =>
    rcases perform_memberships_cases sha256 op w.store with ⟨e, hperf⟩ | hperf
    · rw [perform_eq hperf]
      refine .same rfl ?_
      cases op <;> rfl
    · rw [perform_eq hperf]
      cases op with
      | insert m =>
        rcases insertCipherMembership_cases m w.store.memberships with
          ⟨hsm, href⟩ | ⟨hno, hfr, heq⟩
        · refine .same hsm ?_
          dsimp only [World.incarnationAfter, MembershipOp.run]
          split
          · rename_i hok
            exact absurd hok href
          · rfl
        · have hans : (MembershipOp.run (.insert m) w.store.memberships).2 = .ok true :=
            congrArg Prod.snd heq
          refine .inserted m rfl hno hfr (congrArg Prod.fst heq) ?_
          simp only [World.incarnationAfter, hans]
      | fetch userId | fetchByNumber number => exact .same rfl rfl
      | update next expected =>
        rcases updateCipherMembershipIfVersion_cases next expected w.store.memberships with
          ⟨hsm, -⟩ | ⟨row, hg, hver, hfr, heq⟩
        · exact .same hsm rfl
        · exact .replaced next expected row rfl hg hver hfr (congrArg Prod.fst heq) rfl
      | delete userId => exact .erased userId rfl rfl
      | deleteIfVersion userId expected =>
        rcases deleteCipherMembershipIfVersion_cases userId expected w.store.memberships with
          ⟨hsm, -⟩ | ⟨row, -, -, heq⟩
        · exact .same hsm rfl
        · exact .erased userId (congrArg Prod.fst heq) rfl
  | ledger op =>
    rcases perform_ledger_cases sha256 op w.store with ⟨e, hperf⟩ | hperf
    · rw [perform_eq hperf]
      exact .same rfl rfl
    · rw [perform_eq hperf]
      rcases ledger_run_memberships sha256 op (w.store.outside.ulid w.store.tick)
        w.store.prot with hsm | ⟨userId, row, hg, htab⟩
      · exact .same hsm rfl
      · exact .bumped userId row hg htab rfl
  | _ => exact .same (((perform_frame _ w.store).2.2 fun _ h => by cases h).2 fun _ h => by cases h) rfl

/-- **What a call does to the ledger.** Only ledger calls write rows, and each writes one. -/
theorem ledgerStep : (w.perform sha256 pid c).1.store.prot.protLedger = w.store.prot.protLedger ∨
      ∃ op ulid call p e after, c = .ledger op ∧ op.protCall ulid = some call ∧
        Prot.PostedBy w.store.prot call ulid p after ∧
        Prot.Posts ulid p e w.store.prot (w.perform sha256 pid c).1.store.prot := by
  cases c with
  | ledger op =>
    rcases perform_ledger_cases sha256 op w.store with ⟨err, hperf⟩ | hperf
    · rw [perform_eq hperf]
      exact .inl rfl
    · rw [perform_eq hperf]
      rcases ledger_run_cases sha256 op (w.store.outside.ulid w.store.tick) w.store.prot with
        hsm | ⟨call, p, e, hcl, hpst, hby⟩
      · exact .inl (congrArg Prot.ReferenceDb.protLedger hsm)
      · exact .inr ⟨op, _, call, p, e, _, rfl, hcl, hby, hpst⟩
  | _ => exact .inl ((perform_frame _ w.store).2.2 fun _ h => by cases h).1

end

theorem purchase_written {pid : Nat} {c : Call} {orderId : String} {e : Prot.ProtLedgerEntry}
    (haft : (w.perform sha256 pid c).1.store.prot.protLedger.get (protKeyPurchase orderId) =
      some e) : w.store.prot.protLedger.get (protKeyPurchase orderId) = some e ∨
      ∃ posting, c = .ledger (.apply posting) ∧ posting.key = protKeyPurchase orderId := by
  rcases ledgerStep sha256 pid c w with hsm | ⟨op, ulid, call, p, e', after, hc, hcl, hby, hpst⟩
  · rw [hsm] at haft
    exact .inl haft
  · rw [hpst.ledger_eq, get_insert] at haft
    split at haft
    · rename_i hkey
      exact .inr ⟨p, by rw [hc, apply_of_purchase hcl hby hkey.symm], hkey.symm⟩
    · exact .inl haft

/-! ## Orders -/

/-- Whether a write left the disputes of the row as they were. -/
def sameDisputes (row o : PaymentOrder) : Bool :=
  row.openDisputes == o.openDisputes && row.reversalPending == o.reversalPending

/-- What a call may do to the orders, and to the ghosts that follow them. -/
inductive OrderStep (pid : Nat) (w : World) (c : Call) (w' : World) : Prop where
  | same (htable : w'.store.orders = w.store.orders)
      (hcopies : (w'.locals pid).copies = (w.locals pid).copies) (hholders : w'.holders = w.holders)
      (hrecorded : w'.recorded = w.recorded)
      (hmark : (w'.locals pid).mark = (w.locals pid).mark ∨ (w'.locals pid).mark = none)
      (hplaced : (w'.locals pid).placed = (w.locals pid).placed)
  | inserted (o : PaymentOrder) (hcall : c = .orders (.insert o))
      (hnone : w.store.orders.get o.id = none)
      (htable : w'.store.orders = w.store.orders.insert o.id o)
      (hlocal : w'.locals pid = { w.locals pid with placed := some o.id }) (hholders : w'.holders = w.holders)
      (hrecorded : w'.recorded = w.recorded)
  | acquired (id : String) (now untilMs : Int) (row : PaymentOrder)
      (hcall : c = .orders (.acquire id now untilMs)) (hget : w.store.orders.get id = some row)
      (htable : w'.store.orders = w.store.orders.insert id
        { row with version := row.version + 1, leaseUntil := some untilMs })
      (hlocal : w'.locals pid = { w.locals pid with
        copies := (w.locals pid).copies.insert id
          { row with version := row.version + 1, leaseUntil := some untilMs }
        numbers := (w.locals pid).numbers.erase id
        unheld := none
        mark := none
        placed := none })
      (hholders : w'.holders = w.holders.insert id pid) (hrecorded : w'.recorded = w.recorded)
  | written (o : PaymentOrder) (expected : OrderState) (row : PaymentOrder)
      (hcall : c = .orders (.update o expected)) (hget : w.store.orders.get o.id = some row)
      (hstate : row.state = expected) (hversion : row.version = o.version)
      (hlease : row.leaseUntil = o.leaseUntil) (huser : row.userId = o.userId)
      (htable : w'.store.orders = w.store.orders.insert o.id { o with version := o.version + 1 })
      (hlocal : w'.locals pid = (w.locals pid).wrote o) (hholders : w'.holders = w.holders)
      (hrecorded : w'.recorded = if sameDisputes row o then w.recorded
        else Function.update w.recorded o.id (w.recorded o.id + 1))
  | released (id : String) (untilMs : Int) (hcall : c = .orders (.release id untilMs))
      (htable : w'.store.orders = w.store.orders ∨ ∃ row, w.store.orders.get id = some row ∧
        w'.store.orders = w.store.orders.insert id { row with leaseUntil := none })
      (hlocal : w'.locals pid = { w.locals pid with copies := (w.locals pid).copies.erase id })
      (hholders : w'.holders = w.holders ∨
        (w.holders.get id = some pid ∧ w'.holders = w.holders.erase id))
      (hrecorded : w'.recorded = w.recorded)
  | unlinked (userId : String) (hcall : c = .orders (.unlink userId))
      (htable : ∀ id, (w.store.orders.get id = none → w'.store.orders.get id = none) ∧
        ∀ row, w.store.orders.get id = some row →
          ∃ row', w'.store.orders.get id = some row' ∧ Unlinked userId row row')
      (hlocal : w'.locals pid = w.locals pid) (hholders : w'.holders = w.holders)
      (hrecorded : w'.recorded = w.recorded)

theorem orderStep_of_same {pid : Nat} {c : Call} (hc : ∀ op, c ≠ .orders op)
    (hloc : ∀ answer, ((w.locals pid).note c answer).copies = (w.locals pid).copies ∧
      (((w.locals pid).note c answer).mark = (w.locals pid).mark ∨
        ((w.locals pid).note c answer).mark = none) ∧
      ((w.locals pid).note c answer).placed = (w.locals pid).placed) :
    OrderStep pid w c (w.perform sha256 pid c).1 := by
  have hown := locals_own sha256 pid c w
  refine .same ((perform_frame c w.store).1 hc) ?_ ?_ ?_ ?_ ?_
  · rw [hown]
    exact (hloc _).1
  · cases c with
    | orders op => exact absurd rfl (hc op)
    | _ => rfl
  · cases c with
    | orders op => exact absurd rfl (hc op)
    | _ => rfl
  · rw [hown]
    exact (hloc _).2.1
  · rw [hown]
    exact (hloc _).2.2

/-- A call that moves no order and tells its worker nothing. -/
theorem orderStep_unheard {pid : Nat} {c : Call} (htable : w'.store.orders = w.store.orders)
    (hlocal : w'.locals pid = w.locals pid) (hholders : w'.holders = w.holders)
    (hrecorded : w'.recorded = w.recorded) : OrderStep pid w c w' :=
  .same htable (congrArg Local.copies hlocal) hholders hrecorded
    (.inl (congrArg Local.mark hlocal)) (congrArg Local.placed hlocal)

theorem acquire_refused (pid : Nat) (l : Local) (holders : Table String Nat) (id : String)
    (now untilMs : Int) {answer : Result (Option PaymentOrder)} (h : ∀ o, answer ≠ .ok (some o)) :
    l.noteOrder (.acquire id now untilMs) answer = l ∧
      World.holdersAfter pid holders (.orders (.acquire id now untilMs)) answer = holders := by
  match answer with
  | .ok (some o) => exact absurd rfl (h o)
  | .ok none => exact ⟨rfl, rfl⟩
  | .error _ => exact ⟨rfl, rfl⟩

theorem write_refused (orders : PaymentOrders) (recorded : String → Nat) (l : Local)
    (o : PaymentOrder) (expected : OrderState) {answer : Result Bool} (h : answer ≠ .ok true) :
    l.noteOrder (.update o expected) answer = l ∧
      World.recordedAfter orders recorded (.orders (.update o expected)) answer = recorded := by
  match answer with
  | .ok true => exact absurd rfl h
  | .ok false => exact ⟨rfl, rfl⟩
  | .error _ => exact ⟨rfl, rfl⟩

section

variable (sha256 : List UInt8 → List UInt8)

/-- **What a call does to the orders.** -/
theorem orderStep (pid : Nat) (c : Call) (w : World) :
    OrderStep pid w c (w.perform sha256 pid c).1 := by
  cases c with
  | orders op =>
    have hown := locals_own sha256 pid (.orders op) w
    rcases perform_orders_cases sha256 op w.store with ⟨e, hperf⟩ | hperf
    · rw [perform_eq hperf] at hown ⊢
      cases op with
      | release id untilMs => exact .released id untilMs rfl (.inl rfl) hown (.inl rfl) rfl
      | _ => exact orderStep_unheard rfl hown rfl rfl
    · rw [perform_eq hperf] at hown ⊢
      cases op with
      | insert o =>
        rcases insertPaymentOrder_cases o w.store.orders with heq | ⟨hno, -, heq⟩
        · have hans : (OrderOp.run (.insert o) w.store.orders).2 =
              .error (.databaseError "insert" "payment_order") := congrArg Prod.snd heq
          rw [hans] at hown ⊢
          exact orderStep_unheard (congrArg Prod.fst heq) hown rfl rfl
        · have hans : (OrderOp.run (.insert o) w.store.orders).2 = .ok () := congrArg Prod.snd heq
          rw [hans] at hown ⊢
          exact .inserted o rfl hno (congrArg Prod.fst heq) hown rfl rfl
      | fetch id =>
        have hnt : ∀ found : Option PaymentOrder,
            ((w.locals pid).noteOrder (.fetch id) (.ok found)).copies = (w.locals pid).copies ∧
              ((w.locals pid).noteOrder (.fetch id) (.ok found)).mark = (w.locals pid).mark ∧
              ((w.locals pid).noteOrder (.fetch id) (.ok found)).placed = (w.locals pid).placed :=
          fun found => by cases found <;> exact ⟨rfl, rfl, rfl⟩
        refine .same rfl ?_ rfl rfl (.inl ?_) ?_
        · rw [hown]
          exact (hnt _).1
        · rw [hown]
          exact (hnt _).2.1
        · rw [hown]
          exact (hnt _).2.2
      | fetchByUser userId states => exact orderStep_unheard rfl hown rfl rfl
      | acquire id now untilMs =>
        rcases acquirePaymentOrderLease_cases id now untilMs w.store.orders with
          ⟨hsm, href⟩ | ⟨row, hg, -, -, heq⟩
        · obtain ⟨hnt, hhol⟩ := acquire_refused pid (w.locals pid) w.holders id now untilMs href
          exact orderStep_unheard hsm (hown.trans hnt) hhol rfl
        · have hans : (OrderOp.run (.acquire id now untilMs) w.store.orders).2 =
              .ok (some { row with version := row.version + 1, leaseUntil := some untilMs }) :=
            congrArg Prod.snd heq
          rw [hans] at hown ⊢
          exact .acquired id now untilMs row rfl hg (congrArg Prod.fst heq) hown rfl rfl
      | release id untilMs =>
        refine .released id untilMs rfl ?_ hown ?_ rfl
        · rcases releasePaymentOrderLease_cases id untilMs w.store.orders with
            ⟨hsm, -⟩ | ⟨row, hg, -, heq⟩
          · exact .inl hsm
          · exact .inr ⟨row, hg, heq⟩
        · by_cases hhld : w.holders.get id = some pid
          · exact .inr ⟨hhld, if_pos hhld⟩
          · exact .inl (if_neg hhld)
      | update o expected =>
        rcases updatePaymentOrderIfState_cases o expected w.store.orders with
          ⟨hsm, href⟩ | ⟨row, hg, hsta, hver, hleas, huse, -, heq⟩
        · obtain ⟨hnt, hrec⟩ :=
            write_refused w.store.orders w.recorded (w.locals pid) o expected href
          exact orderStep_unheard hsm (hown.trans hnt) rfl hrec
        · have hans : (OrderOp.run (.update o expected) w.store.orders).2 = .ok true :=
            congrArg Prod.snd heq
          rw [hans] at hown ⊢
          refine .written o expected row rfl hg hsta hver hleas huse
            (congrArg Prod.fst heq) hown rfl ?_
          simp only [World.recordedAfter, hg, any_some, sameDisputes]
          rfl
      | unlink userId =>
        refine .unlinked userId rfl (fun id => ?_) hown rfl rfl
        obtain ⟨hno, hso⟩ := unlinkPaymentOrdersByUser_spec userId w.store.orders id
        refine ⟨hno, fun row hg => ?_⟩
        obtain ⟨row', hg', hunl, -⟩ := hso row hg
        exact ⟨row', hg', hunl⟩
  | memberships op =>
    refine orderStep_of_same (fun _ h => by cases h) fun answer => ?_
    obtain ⟨hcop, -, -, hmr, hplac⟩ := (w.locals pid).noteMembership_frame op answer
    exact ⟨hcop, .inl hmr, hplac⟩
  | numbers op =>
    refine orderStep_of_same (fun _ h => by cases h) fun answer => ?_
    obtain ⟨hcop, -, -, -, hmr, hplac⟩ := (w.locals pid).noteNumber_frame op answer
    exact ⟨hcop, .inl hmr, hplac⟩
  | stripe op =>
    refine orderStep_of_same (fun _ h => by cases h) fun answer => ?_
    change ((w.locals pid).noteStripe op answer).copies = _ ∧
      (((w.locals pid).noteStripe op answer).mark = _ ∨
        ((w.locals pid).noteStripe op answer).mark = none) ∧
      ((w.locals pid).noteStripe op answer).placed = _
    rcases (w.locals pid).noteStripe_frame op answer with hnt | hnt
    · rw [hnt]
      exact ⟨rfl, .inl rfl, rfl⟩
    · rw [hnt]
      exact ⟨rfl, .inr rfl, rfl⟩
  | _ => exact orderStep_of_same (fun _ h => by cases h) fun answer => ⟨rfl, .inl rfl, rfl⟩

/-- What a call may make of one order, and of the count of the writes that move its disputes. -/
inductive RowStep (c : Call) (id : String) (row : PaymentOrder) (n n' : Nat) : PaymentOrder → Prop
  | same (hn : n' = n) : RowStep c id row n n' row
  | acquired (now untilMs : Int) (hcall : c = .orders (.acquire id now untilMs)) (hn : n' = n) :
      RowStep c id row n n' { row with version := row.version + 1, leaseUntil := some untilMs }
  | written (o : PaymentOrder) (expected : OrderState) (hcall : c = .orders (.update o expected))
      (hid : o.id = id) (hversion : row.version = o.version) (huser : row.userId = o.userId)
      (hn : n' = if sameDisputes row o then n else n + 1) :
      RowStep c id row n n' { o with version := o.version + 1 }
  | released (untilMs : Int) (hcall : c = .orders (.release id untilMs)) (hn : n' = n) :
      RowStep c id row n n' { row with leaseUntil := none }
  | unlinked (userId : String) (row' : PaymentOrder) (hcall : c = .orders (.unlink userId))
      (hunlinked : Unlinked userId row row') (hn : n' = n) : RowStep c id row n n' row'

variable {id : String}

/-- **What a call does to one order.** -/
theorem rowStep (pid : Nat) (c : Call) {row : PaymentOrder} (hg : w.store.orders.get id = some row)
    : ∃ row', (w.perform sha256 pid c).1.store.orders.get id = some row' ∧
      RowStep c id row (w.recorded id) ((w.perform sha256 pid c).1.recorded id) row' := by
  cases orderStep sha256 pid c w with
  | same htab hcop hhol hrec => exact ⟨row, by rw [htab, hg], .same (by rw [hrec])⟩
  | inserted o hcl hno htab hloc hhol hrec =>
    have hid : id ≠ o.id := by
      rintro rfl
      cases hno.symm.trans hg
    exact ⟨row, by rw [htab, get_insert, if_neg hid, hg], .same (by rw [hrec])⟩
  | acquired id' now untilMs row' hcl hg' htab hloc hhol hrec =>
    rw [htab, get_insert, hrec]
    split
    · rename_i hid
      subst hid
      cases hg'.symm.trans hg
      exact ⟨_, rfl, .acquired now untilMs hcl rfl⟩
    · exact ⟨row, hg, .same rfl⟩
  | written o expected row' hcl hg' hsta hver hleas huse htab hloc hhol hrec =>
    rw [htab, get_insert, hrec]
    split
    · rename_i hid
      subst hid
      cases hg'.symm.trans hg
      refine ⟨_, rfl, .written o expected hcl rfl hver huse ?_⟩
      split
      · rfl
      · exact update_self ..
    · rename_i hid
      refine ⟨row, hg, .same ?_⟩
      split
      · rfl
      · exact update_of_ne hid ..
  | released id' untilMs hcl htab hloc hhol hrec =>
    rw [hrec]
    rcases htab with htab | ⟨row', hg', htab⟩
    · exact ⟨row, by rw [htab, hg], .same rfl⟩
    · rw [htab, get_insert]
      split
      · rename_i hid
        subst hid
        cases hg'.symm.trans hg
        exact ⟨_, rfl, .released untilMs hcl rfl⟩
      · exact ⟨row, hg, .same rfl⟩
  | unlinked userId hcl htab hloc hhol hrec =>
    obtain ⟨row', hg', hunl⟩ := (htab id).2 row hg
    exact ⟨row', hg', .unlinked userId row' hcl hunl (by rw [hrec])⟩

theorem rowStep_back {pid : Nat} {c : Call} {row' : PaymentOrder}
    (hg' : (w.perform sha256 pid c).1.store.orders.get id = some row') :
    (c = .orders (.insert row') ∧ row'.id = id ∧ w.store.orders.get id = none) ∨
      ∃ row, w.store.orders.get id = some row ∧
        RowStep c id row (w.recorded id) ((w.perform sha256 pid c).1.recorded id) row' := by
  cases hg : w.store.orders.get id with
  | some row =>
    obtain ⟨row'', hg'', hrow⟩ := rowStep sha256 pid c hg
    cases hg''.symm.trans hg'
    exact .inr ⟨row, rfl, hrow⟩
  | none =>
    refine .inl ?_
    have hoth : ∀ {id0 : String} {row0 row1 : PaymentOrder}, w.store.orders.get id0 = some row0 →
        (w.perform sha256 pid c).1.store.orders = w.store.orders.insert id0 row1 → False := by
      intro id0 row0 row1 hg0 htab
      rw [htab, get_insert] at hg'
      split at hg'
      · rename_i hid
        cases hg.symm.trans (hid ▸ hg0)
      · cases hg.symm.trans hg'
    cases orderStep sha256 pid c w with
    | same htab => cases hg.symm.trans (htab ▸ hg')
    | inserted o hcl hno htab =>
      rw [htab, get_insert] at hg'
      split at hg'
      · rename_i hid
        cases hg'
        exact ⟨hcl, hid.symm, rfl⟩
      · cases hg.symm.trans hg'
    | acquired id0 now untilMs row0 hcl hg0 htab
    | written o expected row0 hcl hg0 hsta hver hleas huse htab =>
      exact (hoth hg0 htab).elim
    | released id0 untilMs hcl htab =>
      rcases htab with htab | ⟨row0, hg0, htab⟩
      · cases hg.symm.trans (htab ▸ hg')
      · exact (hoth hg0 htab).elim
    | unlinked userId hcl htab => exact absurd hg' (by rw [(htab id).1 hg]; simp)

end

/-! ## Numbers -/

/-- Every row is stored under its own key. -/
structure Store.Keyed (s : Store) : Prop where
  orders : ∀ id row, s.orders.get id = some row → row.id = id
  memberships : ∀ userId row, s.memberships.get userId = some row → row.userId = userId
  numbers : ∀ number row, s.numbers.get number = some row → row.number = number

/-- What a call may do to the numbers. -/
inductive NumberStep (w : World) (c : Call) (w' : World) : Prop where
  | same (htable : w'.store.numbers = w.store.numbers)
  | claimed (orderId : String) (cap number : Nat) (row : CipherNumber)
      (hcall : c = .numbers (.claim orderId cap))
      (hunclaimed : ∀ n other, w.store.numbers.get n = some other → other.orderId ≠ some orderId)
      (hget : w.store.numbers.get number = some row) (hfree : row.orderId = none)
      (htable : w'.store.numbers =
        w.store.numbers.insert number { row with orderId := some orderId })
  | flagged (number : Nat) (row : CipherNumber) (at_ : Option Int)
      (hget : w.store.numbers.get number = some row)
      (htable : w'.store.numbers =
        w.store.numbers.insert number { row with releasePendingAt := at_ })
  | putBack (orderId : String) (number : Nat) (row : CipherNumber)
      (hcall : c = .numbers (.release orderId))
      (hget : w.store.numbers.get number = some row) (horder : row.orderId = some orderId)
      (htable : w'.store.numbers =
        w.store.numbers.insert number { row with orderId := none, releasePendingAt := none })

variable {numbers : CipherNumbers} {row : CipherNumber}

theorem get_of_fetchRow {orderId : String}
    (hkeye : ∀ number row, numbers.get number = some row → row.number = number)
    (h : fetchCipherNumberRowByOrder orderId numbers = some row) :
    numbers.get row.number = some row ∧ row.orderId = some orderId := by
  obtain ⟨number, hg⟩ := mem_values.mp (mem_of_find?_eq_some h)
  have hnum : row.number = number := hkeye number row hg
  exact ⟨by rw [hnum, hg], by simpa using List.find?_some h⟩

theorem modify_of_get {number : Nat} (h : numbers.get number = some row)
    (f : CipherNumber → CipherNumber) :
    numbers.modify number f = numbers.insert number (f row) := by
  unfold Table.modify
  rw [h]

theorem claimCipherNumber_cases
    (hkeye : ∀ number row, numbers.get number = some row → row.number = number) (orderId : String)
    (cap : Nat) : ((claimCipherNumber orderId cap numbers).1 = numbers ∧
        ∀ n, (claimCipherNumber orderId cap numbers).2 = .ok (some n) →
          ∃ row, numbers.get n = some row ∧ row.orderId = some orderId) ∨
      ∃ number row, numbers.get number = some row ∧ row.orderId = none ∧
        (∀ n other, numbers.get n = some other → other.orderId ≠ some orderId) ∧
        claimCipherNumber orderId cap numbers =
          (numbers.insert number { row with orderId := some orderId }, .ok (some number)) := by
  unfold claimCipherNumber
  split
  · exact .inl ⟨rfl, fun n h => by cases h⟩
  · cases hhl : fetchCipherNumberRowByOrder orderId numbers with
    | some row =>
      obtain ⟨hg, hord⟩ := get_of_fetchRow hkeye hhl
      have hfet : fetchCipherNumberByOrder orderId numbers = some row.number := by
        rw [fetchCipherNumberByOrder, hhl, map_some]
      rw [hfet]
      refine .inl ⟨rfl, fun n h => ?_⟩
      obtain rfl : row.number = n := by simpa using h
      exact ⟨row, hg, hord⟩
    | none =>
      have hfet : fetchCipherNumberByOrder orderId numbers = none := by
        rw [fetchCipherNumberByOrder, hhl, map_none]
      rw [hfet]
      have hunc : ∀ n other, numbers.get n = some other → other.orderId ≠ some orderId := by
        intro n other hg hord
        have := List.find?_eq_none.mp hhl other (mem_values_of_get hg)
        exact this (by simpa using hord)
      cases hfr : smallestFree cap numbers with
      | none => exact .inl ⟨rfl, fun n h => by cases h⟩
      | some number =>
        have hmem := List.min?_mem hfr
        simp only [mem_map, mem_filter, and_eq_true, decide_eq_true_eq,
          isNone_iff_eq_none] at hmem
        obtain ⟨row, ⟨hrow, -, hno⟩, hnum⟩ := hmem
        obtain ⟨n, hg⟩ := mem_values.mp hrow
        have hn : n = number := (hkeye n row hg).symm.trans hnum
        subst hn
        refine .inr ⟨n, row, hg, hno, hunc, ?_⟩
        dsimp only
        rw [modify_of_get hg]

/-- **What a call does to the numbers.** -/
theorem numberStep (sha256 : List UInt8 → List UInt8) (hkeye : w.store.Keyed) (pid : Nat)
    (c : Call) : NumberStep w c (w.perform sha256 pid c).1 := by
  cases c with
  | numbers op =>
    rcases perform_numbers_cases sha256 op w.store with ⟨e, hperf⟩ | hperf
    · rw [perform_eq hperf]
      exact .same rfl
    · rw [perform_eq hperf]
      cases op with
      | claim orderId cap =>
        rcases claimCipherNumber_cases hkeye.numbers orderId cap with
          ⟨hsm, -⟩ | ⟨number, row, hg, hfr, hunc, heq⟩
        · exact .same hsm
        · exact .claimed orderId cap number row rfl hunc hg hfr (congrArg Prod.fst heq)
      | markRelease orderId at_ =>
        cases hrow : fetchCipherNumberRowByOrder orderId w.store.numbers with
        | none =>
          refine .same ?_
          simp only [NumberOp.run, markCipherNumberRelease, hrow]
        | some row =>
          obtain ⟨hg, -⟩ := get_of_fetchRow hkeye.numbers hrow
          refine .flagged row.number row (some (row.releasePendingAt.getD at_)) hg ?_
          simp only [NumberOp.run, markCipherNumberRelease, hrow, modify_of_get hg]
      | cancelRelease orderId =>
        cases hrow : fetchCipherNumberRowByOrder orderId w.store.numbers with
        | none =>
          refine .same ?_
          simp only [NumberOp.run, cancelCipherNumberRelease, hrow]
        | some row =>
          obtain ⟨hg, -⟩ := get_of_fetchRow hkeye.numbers hrow
          refine .flagged row.number row none hg ?_
          simp only [NumberOp.run, cancelCipherNumberRelease, hrow, modify_of_get hg]
      | release orderId =>
        cases hrow : fetchCipherNumberRowByOrder orderId w.store.numbers with
        | none =>
          refine .same ?_
          simp only [NumberOp.run, releaseCipherNumber, hrow]
        | some row =>
          obtain ⟨hg, hord⟩ := get_of_fetchRow hkeye.numbers hrow
          refine .putBack orderId row.number row rfl hg hord ?_
          simp only [NumberOp.run, releaseCipherNumber, hrow, modify_of_get hg]
      | _ => exact .same rfl
  | _ => exact .same ((perform_frame _ w.store).2.1 fun _ h => by cases h)

/-! ## Keys -/

/-- **Rows stay under their own keys.** -/
theorem keyed_perform (h : w.store.Keyed) (pid : Nat) (c : Call) :
    (w.perform sha256 pid c).1.store.Keyed := by
  refine ⟨?_, ?_, ?_⟩
  · intro id row' hg'
    rcases rowStep_back sha256 hg' with ⟨-, hid, -⟩ | ⟨row, hg, hrow⟩
    · exact hid
    · have hid := h.orders id row hg
      cases hrow with
      | written o expected hcl hid => exact hid
      | unlinked userId row' hcl hunl => rcases hunl with rfl | ⟨-, rfl⟩ <;> exact hid
      | _ => exact hid
  · cases membershipStep sha256 pid c w with
    | same htab => exact htab ▸ h.memberships
    | inserted m hcl hno hfr htab | replaced next expected row hcl hg hver hfr htab =>
      exact htab ▸ forall_insert h.memberships rfl
    | erased userId htab => exact htab ▸ Table.forall_erase h.memberships
    | bumped userId row hg htab =>
      exact htab ▸ forall_insert h.memberships (h.memberships userId row hg)
  · cases numberStep sha256 h pid c with
    | same htab => exact htab ▸ h.numbers
    | claimed orderId cap number row hcl hunc hg hfr htab | flagged number row at_ hg htab
    | putBack orderId number row hcl hg hord htab =>
      exact htab ▸ forall_insert h.numbers (h.numbers number row hg)

theorem leased_of_acquired {orders : PaymentOrders} {id : String} {now untilMs : Int}
    {o : PaymentOrder} (h : (acquirePaymentOrderLease id now untilMs orders).2 = .ok (some o)) :
    ∃ row, orders.get id = some row ∧
      o = { row with version := row.version + 1, leaseUntil := some untilMs } := by
  rcases acquirePaymentOrderLease_cases id now untilMs orders with
    ⟨-, href⟩ | ⟨row, hg, -, -, heq⟩
  · exact absurd h (href o)
  · rw [heq] at h
    exact ⟨row, hg, (some.inj (ok.inj h)).symm⟩

theorem possible_of_keyed (h : w.store.Keyed) (pid : Nat) (c : Call) :
    conduct.possible c (w.perform sha256 pid c).2 := by
  cases c with
  | orders op =>
    rcases perform_orders_cases sha256 op w.store with ⟨e, hperf⟩ | hperf
    · rw [perform_eq hperf]
      cases op with
      | fetch id | acquire id now untilMs => exact fun o ho => by cases ho
      | _ => exact trivial
    · rw [perform_eq hperf]
      cases op with
      | fetch id => exact fun o ho => h.orders id o (ok.inj ho)
      | acquire id now untilMs =>
        intro o ho
        obtain ⟨row, hg, rfl⟩ := leased_of_acquired ho
        exact h.orders id row hg
      | _ => exact trivial
  | memberships op =>
    rcases perform_memberships_cases sha256 op w.store with ⟨e, hperf⟩ | hperf
    · rw [perform_eq hperf]
      cases op with
      | fetch userId => exact fun m hm => by cases hm
      | _ => exact trivial
    · rw [perform_eq hperf]
      cases op with
      | fetch userId => exact fun m hm => h.memberships userId m (ok.inj hm)
      | _ => exact trivial
  | _ => exact trivial

/-! ## Runs -/

/-- The invariant holds, and every worker goes on keeping the rules from what it knows. -/
def Deliveries.Lawful (Inv : World → Prop) (sys : Deliveries) : Prop :=
  System.Lawful conduct World.locals (fun _ _ _ => True) Inv sys

section Lawful

variable {permits : Nat → Call → World → Prop} {Inv : World → Prop} {sys : Deliveries}

theorem Deliveries.Lawful.may (h : sys.Lawful Inv) {pid : Nat} {c : Call}
    (hnx : sys.nextCall pid = some c) : (sys.store.locals pid).may c :=
  System.Lawful.allowed h hnx

/-- An invariant that holds of the present world may take the place of another. -/
theorem Deliveries.Lawful.replace (h : sys.Lawful Inv) {Inv' : World → Prop} (hinv : Inv' sys.store)
    : sys.Lawful Inv' := ⟨hinv, h.process, h.fresh⟩

/-- **The rule for runs of deliveries.** What every permitted call that the rules allow
keeps, every run keeps. -/
theorem Deliveries.Lawful.run (hkeye : ∀ w, Inv w → w.store.Keyed)
    (hsp : ∀ pid c w, Inv w → permits pid c w → (w.locals pid).may c →
      Inv (w.perform sha256 pid c).1) {sys' : Deliveries} (hsys : sys.Lawful Inv)
    {h : List (Deliveries × Event (PaymentsSettings × Delivery))}
    (hrun : Run (Deliveries.exec sha256) (Deliveries.Admits permits) sys h sys') :
    sys'.Lawful Inv :=
  System.Lawful.run (locals_own sha256) (locals_other sha256)
    (fun request _ => (conducted_deliver request.1 request.2 _).mono fun _ _ _ => trivial)
    (fun pid c w hinv hper hmay =>
      ⟨hsp pid c w hinv hper hmay, possible_of_keyed (hkeye w hinv) pid c⟩)
    hsys hrun

theorem Deliveries.lawful_idle {store : Store} (hstar : Inv (World.start store)) :
    (Deliveries.idle store).Lawful Inv := System.lawful_idle hstar fun _ => rfl

end Lawful

/-! ## A small store

One user, one number, no Prot grants, and a Stripe that answers nothing: where the runs
that show what goes wrong take place. -/

namespace Sample

def settings : PaymentsSettings where
  enabled := true
  salesOpen := true
  cap := 1
  closeAtMs := none
  expectLivemode := true
  automaticTax := false
  blockedCountries := []
  successUrlWeb := ""
  cancelUrlWeb := ""
  successUrlShell := ""
  cancelUrlShell := ""

def protSettings : ProtSalesSettings where
  enabled := false
  cipherGrantsEnabled := false
  walletCap := 0
  salesOpen := false
  packs := []
  exactMinCents := 0
  exactMaxCents := 0
  blockedCountries := []
  successUrl := ""
  cancelUrl := ""
  shellReturnUrl := ""

def silent : Outside where
  stripe _ _ := .error (.transport "")
  refundTaken _ := false
  protSettings _ := protSettings
  ulid _ := ""
  outage _ := none

/-- An order of the user, waiting for its payment. -/
def order (id : String) (sku : Sku) (cents : Int) : PaymentOrder :=
  { newOrder id "u" sku cents 0 with checkoutSessionId := some id, state := .pending }

def purchase : PaymentOrder := order "A" (.cipherNew .t99) 9900
def upgrade : PaymentOrder := order "C" (.cipherUpgrade .t99 .t149) 5000

/-- The session of an order, paid. -/
def session (o : PaymentOrder) : CheckoutSession where
  id := o.id
  url := none
  paymentStatus := some "paid"
  paymentIntent := some o.id
  amountTotal := some o.amountCents
  currency := some "usd"
  livemode := true
  clientReferenceId := some "u"
  metadataOrderId := some o.id
  expiresAt := none
  billingCountry := none

def store (outside : Outside) (orders : List PaymentOrder) : Store where
  orders := Table.insertAll ∅ PaymentOrder.id orders
  numbers := Table.insert ∅ 1 ⟨1, none, none⟩
  prot := ⟨∅, ∅, ∅⟩
  users := Table.insert ∅ "u" ⟨false, false, none⟩
  outside := outside
  tick := 0

theorem keyed (outside : Outside) (orders : List PaymentOrder) : (store outside orders).Keyed := by
  refine ⟨fun id row hg => ?_, fun userId row hg => absurd hg (by simp [store, Store.memberships]),
    forall_insert (fun _ _ hg => absurd hg (by simp)) rfl⟩
  rcases get_insertAll_cases hg with ⟨-, hid⟩ | ⟨hg, -⟩
  · exact hid
  · cases hg

def digest : List UInt8 → List UInt8 := fun _ => []

/-- A delivery to a new worker, which makes at most `steps` calls. -/
def delivers (pid : Nat) (delivery : Delivery) (steps : Nat) :
    List (Event (PaymentsSettings × Delivery)) :=
  .start pid (settings, delivery) :: List.replicate steps (.step pid)

end Sample

end SlogaBackend.Payments
