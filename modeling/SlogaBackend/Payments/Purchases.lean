import SlogaBackend.Payments.Steps
import SlogaBackend.Prot.CipherSettlement

/-!
# The ledger rows of a Prot order

A Prot order has at most two rows of its own in the ledger: the credit of its purchase and
the clawback that takes it back. The credit, the clawback and the order's state are three
writes, made by workers that crash between them and are carried on by others, each with
its own test whether the row is there already.

What holds across all of that is stated here as an invariant of the store (`Sound`) that
every call of the engine's workers keeps:

* a fulfilled order has its purchase row;
* a refunded order that is linked to its buyer has its clawback row;
* a purchase row credits the wallet of the order's buyer;
* a clawback row has the purchase row beside it, asks for what the purchase credited, and
  debits the wallet it credited.

`Roll` is what the run does not change: which orders are Prot orders, and who bought them.
An account deletion unlinks an order from its buyer; it does not change who bought it.

## Rely and guarantee

`Moves` is what every call promises the other workers: the invariant, the rows of the
ledger, and an order row that has moved has a higher version. So a copy of an order stays
good for as long as the row has the copy's version (`Held`), and a ledger row once seen
stays seen.
-/

namespace SlogaBackend.Payments

variable {sha256 : List UInt8 → List UInt8}

/-! ## The invariant -/

/-- Which orders are Prot orders, and who bought each order. -/
structure Roll where
  prot : String → Prop
  buyer : String → Option String

/-- A session carries the order and the buyer it was made for. -/
def Roll.Names (roll : Roll) (session : CheckoutSession) : Prop :=
  ∃ orderId, session.metadataOrderId = some orderId ∧ session.clientReferenceId = roll.buyer orderId

/-- The purchase row of an order. -/
def Store.purchase (s : Store) (orderId : String) : Option Prot.ProtLedgerEntry :=
  s.prot.protLedger.get (protKeyPurchase orderId)

/-- The clawback row of an order. -/
def Store.clawback (s : Store) (orderId : String) : Option Prot.ProtLedgerEntry :=
  s.prot.protLedger.get (Prot.protKeyClawback orderId)

/-- A clawback takes back what the purchase credited, from the wallet it credited. -/
structure TakesBack (e p : Prot.ProtLedgerEntry) : Prop where
  requested : e.requested = some p.amount
  debit : e.debit = p.credit

structure Roll.Sound (roll : Roll) (s : Store) : Prop where
  keyed : s.Keyed
  family : ∀ id o, s.orders.get id = some o → (roll.prot id ↔ o.sku.family = .prot)
  buyers : ∀ id o u, s.orders.get id = some o → o.userId = some u → roll.buyer id = some u
  rows : ∀ key e, s.prot.protLedger.get key = some e → e.key = key
  sessions : ∀ tick id session, s.outside.stripe tick (.getCheckoutSession id) = .ok session →
    roll.Names session
  credited : ∀ id o, s.orders.get id = some o → roll.prot id → o.state = .fulfilled →
    ∃ p, s.purchase id = some p
  clawed : ∀ id o, s.orders.get id = some o → roll.prot id → o.state = .refunded →
    o.userId ≠ none → ∃ e, s.clawback id = some e
  purchases : ∀ id p, roll.prot id → s.purchase id = some p →
    ∃ u, roll.buyer id = some u ∧ p.credit = Prot.protUserAccount u
  clawbacks : ∀ id e, roll.prot id → s.clawback id = some e →
    ∃ p, s.purchase id = some p ∧ TakesBack e p

/-! ## What a call promises -/

/-- The row is the copy, or has moved on. -/
structure Later (c row : PaymentOrder) : Prop where
  version_le : c.version ≤ row.version
  userId : row.version = c.version → row.userId = c.userId

theorem Later.refl (c : PaymentOrder) : Later c c := ⟨le_refl _, fun _ => rfl⟩

theorem Later.trans {c row row' : PaymentOrder} (h : Later c row) (h' : Later row row') :
    Later c row' := by
  refine ⟨le_trans h.version_le h'.version_le, fun hver => ?_⟩
  have hle := h.version_le
  have hle' := h'.version_le
  have hrow : row.version = c.version := by omega
  have hrow' : row'.version = row.version := by omega
  exact (h'.userId hrow').trans (h.userId hrow)

/-- A step of the store. -/
structure Roll.Moves (roll : Roll) (w w' : World) : Prop where
  sound : roll.Sound w.store → roll.Sound w'.store
  ledger : ∀ k e, w.store.prot.protLedger.get k = some e → w'.store.prot.protLedger.get k = some e
  orders : ∀ id row, w.store.orders.get id = some row →
    ∃ row', w'.store.orders.get id = some row' ∧ Later row row'

/-- A worker's copy of a stored order. -/
structure Roll.Held (roll : Roll) (c : PaymentOrder) (s : Store) : Prop where
  row : ∃ row, s.orders.get c.id = some row ∧ Later c row
  family : roll.prot c.id ↔ c.sku.family = .prot
  buyer : ∀ u, c.userId = some u → roll.buyer c.id = some u
  credited : roll.prot c.id → c.state = .fulfilled → ∃ p, s.purchase c.id = some p
  clawed : roll.prot c.id → c.state = .refunded → c.userId ≠ none → ∃ e, s.clawback c.id = some e

variable {roll : Roll}

/-- The invariant as a condition on worlds. -/
def Roll.Inv (roll : Roll) (w : World) : Prop := roll.Sound w.store

theorem stable_inv : Stable roll.Inv roll.Moves roll.Inv := fun _ _ h hmov _ => hmov.sound h

theorem stable_held (c : PaymentOrder) :
    Stable roll.Inv roll.Moves fun w => roll.Held c w.store := by
  rintro w w' - hmov h
  obtain ⟨row, hg, hlat⟩ := h.row
  obtain ⟨row', hg', hlat'⟩ := hmov.orders c.id row hg
  refine ⟨⟨row', hg', hlat.trans hlat'⟩, h.family, h.buyer, fun hpr hst => ?_,
    fun hpr hst hlin => ?_⟩
  · obtain ⟨p, hp⟩ := h.credited hpr hst
    exact ⟨p, hmov.ledger _ p hp⟩
  · obtain ⟨e, he⟩ := h.clawed hpr hst hlin
    exact ⟨e, hmov.ledger _ e he⟩

theorem stable_purchase (id : String) (p : Prot.ProtLedgerEntry) :
    Stable roll.Inv roll.Moves fun w => w.store.purchase id = some p :=
  fun _ _ _ hmov h => hmov.ledger _ p h

theorem stable_clawback (id : String) (e : Prot.ProtLedgerEntry) :
    Stable roll.Inv roll.Moves fun w => w.store.clawback id = some e :=
  fun _ _ _ hmov h => hmov.ledger _ e h

/-! ## What a worker may do -/

/-- How `o` may be written over the copy `c`. -/
structure Roll.Fits (roll : Roll) (s : Store) (c o : PaymentOrder) : Prop where
  id : o.id = c.id
  version : o.version = c.version
  sku : o.sku = c.sku
  fulfils : roll.prot c.id → o.state = .fulfilled → ∃ p, s.purchase c.id = some p
  refunds : roll.prot c.id → o.state = .refunded → c.userId ≠ none → ∃ e, s.clawback c.id = some e

/-- The two postings of an order. -/
inductive Roll.Posting (roll : Roll) (s : Store) (p : Prot.ProtPosting) : Prop where
  | purchase (id u : String) (hkey : p.key = protKeyPurchase id)
      (hcredit : p.credit = Prot.protUserAccount u) (hbuyer : roll.buyer id = some u)
  | clawback (id : String) (row : Prot.ProtLedgerEntry) (hkey : p.key = Prot.protKeyClawback id)
      (hrow : s.purchase id = some row) (hamount : p.amount = .upTo row.amount)
      (hdebit : p.debit = row.credit)

def Roll.May (roll : Roll) (s : Store) : Call → Prop
  | .orders (.insert _) => False
  | .orders (.update o _) => ∃ c, roll.Held c s ∧ roll.Fits s c o
  | .ledger (.apply p) => roll.Posting s p
  | .ledger (.clawbackCipher _ orderId _) => ¬ roll.prot orderId
  | _ => True

/-! ## Keys -/

variable {c : Call} {id id' : String} {w : World}

theorem purchaseKey_inj (h : protKeyPurchase id = protKeyPurchase id') :
    id = id' := (String.append_right_inj _).mp h

theorem clawbackKey_inj (h : Prot.protKeyClawback id = Prot.protKeyClawback id') :
    id = id' := (String.append_right_inj _).mp h

theorem forfeit_ne_clawback (userId orderId : String) (n : Nat) :
    Prot.protKeyForfeit userId n ≠ Prot.protKeyClawback orderId := by
  unfold Prot.protKeyForfeit Prot.protKeyClawback
  simp only [String.append_assoc]
  exact append_ne_append 1 (by decide) (by decide) (by decide) _ _

theorem apply_of_clawback {op : LedgerOp} {ulid orderId : String} {call : Prot.ProtCall}
    {db : Prot.ReferenceDb} {p : Prot.ProtPosting} {after : CipherMemberships}
    (hcl : op.protCall ulid = some call) (hby : Prot.PostedBy db call ulid p after)
    (hkey : p.key = Prot.protKeyClawback orderId) :
    op = .apply p ∨ ∃ userId now, op = .clawbackCipher userId orderId now := by
  cases hby with
  | apply =>
    cases op with
    | apply posting =>
      obtain ⟨-, rfl⟩ := Prot.ProtCall.applyProtPosting.inj (some.inj hcl)
      exact .inl rfl
    | _ => simp [LedgerOp.protCall] at hcl
  | sync ulid userId now m base p memberships hg hbs hpl =>
    rw [(Prot.planCipherSync_post hpl).key_eq] at hkey
    exact absurd hkey (Prot.grantKey_ne_clawback _ _ _ _ _)
  | clawback ulid userId orderId' now m base p memberships hg hbs holder hpl =>
    rw [(Prot.planCipherClawback_some hpl).key_eq] at hkey
    obtain rfl := clawbackKey_inj hkey
    cases op with
    | clawbackCipher userId' orderId now' =>
      obtain ⟨-, rfl, rfl, rfl⟩ := Prot.ProtCall.clawbackCipherProt.inj (some.inj hcl)
      exact .inr ⟨userId', now', rfl⟩
    | _ => simp [LedgerOp.protCall] at hcl
  | _ => exact absurd hkey (forfeit_ne_clawback _ _ _)

/-! ## One call -/

section

variable (pid : Nat) (c : Call) (w : World)

theorem ledger_kept {k : String} {e : Prot.ProtLedgerEntry}
    (hg : w.store.prot.protLedger.get k = some e) :
    (w.perform sha256 pid c).1.store.prot.protLedger.get k = some e := by
  rcases ledgerStep sha256 pid c w with hsm | ⟨op, ulid, call, p, e', after, hc, hcl, hby, hpst⟩
  · rw [hsm, hg]
  · have hne : k ≠ p.key := by
      rintro rfl
      cases hpst.fresh.symm.trans hg
    rw [hpst.ledger_eq, get_insert, if_neg hne, hg]

theorem orders_move {row : PaymentOrder} (hg : w.store.orders.get id = some row) :
    ∃ row', (w.perform sha256 pid c).1.store.orders.get id = some row' ∧ Later row row' := by
  obtain ⟨row', hg', hrow⟩ := rowStep sha256 pid c hg
  refine ⟨row', hg', ?_⟩
  cases hrow with
  | same => exact Later.refl row
  | acquired => exact ⟨Nat.le_succ _, fun _ => rfl⟩
  | written o expected hcl hid hver huse =>
    refine ⟨?_, fun heq => ?_⟩
    · show row.version ≤ o.version + 1
      omega
    · have heq' : o.version + 1 = row.version := heq
      omega
  | released => exact ⟨le_refl _, fun _ => rfl⟩
  | unlinked userId row' hcl hunl =>
    rcases hunl with rfl | ⟨-, rfl⟩
    · exact Later.refl row'
    · refine ⟨Nat.le_succ _, fun heq => ?_⟩
      have heq' : row.version + 1 = row.version := heq
      omega

theorem outside_kept : (w.perform sha256 pid c).1.store.outside = w.store.outside :=
  outside_perform c w.store

end

theorem row_cases {pid : Nat} (hnot : ∀ o, c ≠ .orders (.insert o)) {row' : PaymentOrder}
    (hg' : (w.perform sha256 pid c).1.store.orders.get id = some row') :
    ∃ row, w.store.orders.get id = some row ∧ ((row'.sku = row.sku ∧ row'.state = row.state ∧
          (row'.userId = row.userId ∨ row'.userId = none)) ∨
        ∃ o expected, c = .orders (.update o expected) ∧ o.id = id ∧ row'.sku = o.sku ∧
          row'.state = o.state ∧ row'.userId = row.userId ∧ row.version = o.version) := by
  obtain ⟨hcl, -⟩ | ⟨row, hg, hrow⟩ := rowStep_back sha256 hg'
  · exact absurd hcl (hnot row')
  refine ⟨row, hg, ?_⟩
  cases hrow with
  | written o expected hcl hid hver huse =>
    exact .inr ⟨o, expected, hcl, hid, rfl, rfl, huse.symm, hver⟩
  | unlinked userId row' hcl hunl =>
    rcases hunl with rfl | ⟨-, rfl⟩
    · exact .inl ⟨rfl, rfl, .inl rfl⟩
    · exact .inl ⟨rfl, rfl, .inr rfl⟩
  | _ => exact .inl ⟨rfl, rfl, .inl rfl⟩

theorem Roll.Held.row_of_version {s : Store} {c o row : PaymentOrder} (h : roll.Held c s)
    (hft : roll.Fits s c o) (hg : s.orders.get o.id = some row)
    (hver : row.version = o.version) : row.userId = c.userId := by
  obtain ⟨row', hg', hlat⟩ := h.row
  rw [← hft.id] at hg'
  cases hg'.symm.trans hg
  exact hlat.userId (hver.trans hft.version)

theorem not_insert_of_may {s : Store} (hmay : roll.May s c) (o : PaymentOrder) :
    c ≠ .orders (.insert o) := by
  rintro rfl
  exact hmay

section

variable (h : roll.Sound w.store) {pid : Nat} (hmay : roll.May w.store c)
include h hmay

theorem Roll.Sound.purchases_perform {p : Prot.ProtLedgerEntry} (hpr : roll.prot id)
    (hg : (w.perform sha256 pid c).1.store.purchase id = some p) :
    ∃ u, roll.buyer id = some u ∧ p.credit = Prot.protUserAccount u := by
  rcases ledgerStep sha256 pid c w with hsm | ⟨op, ulid, call, q, e, after, rfl, hcl, hby, hpst⟩
  · unfold Store.purchase at hg
    rw [hsm] at hg
    exact h.purchases id p hpr hg
  · unfold Store.purchase at hg
    rw [hpst.ledger_eq, get_insert] at hg
    split at hg
    · rename_i hkey
      obtain rfl := some.inj hg
      obtain rfl := apply_of_purchase hcl hby hkey.symm
      cases hmay with
      | purchase id' u hkey' hcred hbuy =>
        obtain rfl := purchaseKey_inj (hkey.trans hkey')
        exact ⟨u, hbuy, hpst.credit_eq.trans hcred⟩
      | clawback id' row hkey' => exact absurd (hkey'.symm.trans hkey.symm) (clawback_ne_purchase _ _)
    · exact h.purchases id p hpr hg

theorem Roll.Sound.clawbacks_perform {e : Prot.ProtLedgerEntry} (hpr : roll.prot id)
    (hg : (w.perform sha256 pid c).1.store.clawback id = some e) :
    ∃ p, (w.perform sha256 pid c).1.store.purchase id = some p ∧ TakesBack e p := by
  have hbef : w.store.clawback id = some e →
      ∃ p, (w.perform sha256 pid c).1.store.purchase id = some p ∧ TakesBack e p := by
    intro hrow
    obtain ⟨p, hp, htak⟩ := h.clawbacks id e hpr hrow
    exact ⟨p, ledger_kept pid c w hp, htak⟩
  rcases ledgerStep sha256 pid c w with hsm | ⟨op, ulid, call, q, e', after, rfl, hcl, hby, hpst⟩
  · unfold Store.clawback at hg
    rw [hsm] at hg
    exact hbef hg
  · have hg' := hg
    unfold Store.clawback at hg'
    rw [hpst.ledger_eq, get_insert] at hg'
    split at hg'
    · rename_i hkey
      obtain rfl := some.inj hg'
      rcases apply_of_clawback hcl hby hkey.symm with rfl | ⟨userId, now, rfl⟩
      · cases hmay with
        | purchase id' u hkey' => exact absurd (hkey.trans hkey') (clawback_ne_purchase _ _)
        | clawback id' row hkey' hrow hamo hdeb =>
          obtain rfl := clawbackKey_inj (hkey.trans hkey')
          refine ⟨row, ledger_kept pid _ w hrow, ?_, hpst.debit_eq.trans hdeb⟩
          have hres := hpst.resolves
          generalize e'.requested = requested at hres ⊢
          generalize e'.shortfall = shortfall at hres
          cases hres with
          | exact n hexa | all hexa => cases hexa.symm.trans hamo
          | upTo n hupTo => rw [Prot.ProtAmount.upTo.inj (hupTo.symm.trans hamo)]
      · exact absurd hpr hmay
    · exact hbef hg'

end

/-- **One call.** -/
theorem Roll.Sound.perform (h : roll.Sound w.store) (pid : Nat) (hmay : roll.May w.store c) :
    roll.Sound (w.perform sha256 pid c).1.store where
  keyed := keyed_perform h.keyed pid c
  family id o hg := by
    obtain ⟨row, hrow, ⟨hsku, -⟩ | ⟨o', expected, rfl, rfl, hsku, -⟩⟩ :=
      row_cases (not_insert_of_may hmay) hg
    · rw [hsku]
      exact h.family id row hrow
    · obtain ⟨c0, hhl, hft⟩ := hmay
      rw [hsku, hft.sku, hft.id]
      exact hhl.family
  buyers id o u hg huse := by
    obtain ⟨row, hrow, ⟨-, -, hkp | hno⟩ | ⟨o', expected, -, -, -, -, hkp, -⟩⟩ :=
      row_cases (not_insert_of_may hmay) hg
    · exact h.buyers id row u hrow (hkp.symm.trans huse)
    · cases hno.symm.trans huse
    · exact h.buyers id row u hrow (hkp.symm.trans huse)
  rows key e hg := by
    rcases ledgerStep sha256 pid c w with hsm | ⟨op, ulid, call, p, e', after, -, -, -, hpst⟩
    · rw [hsm] at hg
      exact h.rows key e hg
    · rw [hpst.ledger_eq, get_insert] at hg
      split at hg
      · rename_i hkey
        obtain rfl := some.inj hg
        rw [hpst.key_eq, hkey]
      · exact h.rows key e hg
  sessions := by
    rw [outside_kept]
    exact h.sessions
  credited id o hg hpr hst := by
    have hbef : ∀ p, w.store.purchase id = some p →
        ∃ p, (w.perform sha256 pid c).1.store.purchase id = some p :=
      fun p hp => ⟨p, ledger_kept pid c w hp⟩
    obtain ⟨row, hrow, ⟨-, hkp, -⟩ | ⟨o', expected, rfl, rfl, -, hwr, -⟩⟩ :=
      row_cases (not_insert_of_may hmay) hg
    · obtain ⟨p, hp⟩ := h.credited id row hrow hpr (hkp.symm.trans hst)
      exact hbef p hp
    · obtain ⟨c0, hhl, hft⟩ := hmay
      rw [hft.id] at hpr hbef ⊢
      obtain ⟨p, hp⟩ := hft.fulfils hpr (hwr.symm.trans hst)
      exact hbef p hp
  clawed id o hg hpr hst hlin := by
    have hbef : ∀ e, w.store.clawback id = some e →
        ∃ e, (w.perform sha256 pid c).1.store.clawback id = some e :=
      fun e he => ⟨e, ledger_kept pid c w he⟩
    obtain ⟨row, hrow, ⟨-, hkp, huse⟩ | ⟨o', expected, rfl, rfl, -, hwr, huse, hver⟩⟩ :=
      row_cases (not_insert_of_may hmay) hg
    · have hrowLinked : row.userId ≠ none := by
        rcases huse with huse | huse
        · rw [← huse]
          exact hlin
        · exact absurd huse hlin
      obtain ⟨e, he⟩ := h.clawed id row hrow hpr (hkp.symm.trans hst) hrowLinked
      exact hbef e he
    · obtain ⟨c0, hhl, hft⟩ := hmay
      have hagr := hhl.row_of_version hft hrow hver
      rw [hft.id] at hpr hbef ⊢
      rw [huse, hagr] at hlin
      obtain ⟨e, he⟩ := hft.refunds hpr (hwr.symm.trans hst) hlin
      exact hbef e he
  purchases id p hpr hg := h.purchases_perform hmay hpr hg
  clawbacks id e hpr hg := h.clawbacks_perform hmay hpr hg

theorem moves_perform (pid : Nat) (hmay : roll.May w.store c) :
    roll.Moves w (w.perform sha256 pid c).1 :=
  ⟨fun h => h.perform pid hmay, fun _ _ hg => ledger_kept pid c w hg,
    fun _ _ hg => orders_move pid c w hg⟩

end SlogaBackend.Payments
