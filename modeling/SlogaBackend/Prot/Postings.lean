import SlogaBackend.Prot.Ledger
import SlogaBackend.Lib.Journal
import SlogaBackend.Lib.Runs

/-!
# What a posting does

Everything the ledger operations can do to the maps is said once here. A call
either leaves them as they are or writes one row: `Posts ulid p e s t` says that the
posting `p` took the maps from `s` to `t` with the row `e` of id `ulid`, and `exec_cases`
that every call that changes the ledger posts. The theorems about runs never
look inside an operation again.
-/

namespace SlogaBackend.Prot

open Checks Payments

def reading : Reading ProtLedgerEntry String where
  debit := ProtLedgerEntry.debit
  credit := ProtLedgerEntry.credit
  amount := ProtLedgerEntry.amount

/-- The version counter of an account; 0 when it has no document. -/
def versionOf (accounts : Table String ProtAccount) (id : String) : Nat :=
  match accounts.get id with
  | some account => account.version
  | none => 0

/-! ## Amounts -/

/-- What the three forms of an amount come to. -/
inductive Resolves (p : ProtPosting) (amount : Int) : Option Int → Option Int → Prop where
  | exact (n : Int) : p.amount = .exact n → amount = n → 0 < n → Resolves p amount none none
  | upTo (n : Int) : p.amount = .upTo n → 0 ≤ amount → amount ≤ n → 0 < n →
      Resolves p amount (some n) (some (n - amount))
  | all : p.amount = .all → 0 ≤ amount → Resolves p amount none none

variable {p : ProtPosting} {amount delta now : Int} {shortfall balance : Option Int}
  {accounts accounts' : Table String ProtAccount} {id userId base orderId : String}
  {m : CipherMembership} {rows : List ProtLedgerEntry}

theorem Resolves.amount_nonneg {requested : Option Int} (h : Resolves p amount requested shortfall)
    : 0 ≤ amount := by
  cases h with
  | exact n _ heq hpos => omega
  | upTo n _ hnon _ _ | all _ hnon => exact hnon

theorem Resolves.requested_eq {n : Int} (h : Resolves p amount (some n) shortfall) :
    0 < n ∧ 0 ≤ amount ∧ amount ≤ n ∧ shortfall = some (n - amount) := by
  cases h with
  | upTo n _ hnon hle hpos => exact ⟨hpos, hnon, hle, rfl⟩

theorem Resolves.requested_of_upTo {requested : Option Int} {n : Int}
    (h : Resolves p amount requested shortfall) (hn : p.amount = .upTo n) :
    requested = some n := by
  cases h with
  | exact m hm | all hm => cases hm.symm.trans hn
  | upTo m hm =>
    cases hm.symm.trans hn
    rfl

theorem validate_amount_pos (h : validateProtPosting p = .ok ()) :
    (∀ n, p.amount = .exact n → 0 < n) ∧ (∀ n, p.amount = .upTo n → 0 < n) ∧
      p.debit ≠ p.credit := by
  unfold validateProtPosting at h
  simp only [bind_eq_ok, refuseIf_eq_ok] at h
  obtain ⟨-, -, -, -, -, hne, -, -, -, -, ⟨⟩, hamou, -⟩ := h
  unfold validateProtAmount at hamou
  refine ⟨fun n hn => ?_, fun n hn => ?_, hne⟩
  · rw [hn] at hamou
    have := refuseIf_eq_ok.mp hamou
    omega
  · rw [hn] at hamou
    simp only [bind_eq_ok, refuseIf_eq_ok] at hamou
    omega

theorem resolves_of_resolveProtAmount {balance : Int} {resolved : ProtResolved}
    (hval : validateProtPosting p = .ok ()) (h : resolveProtAmount p balance = .ok resolved) :
    Resolves p resolved.amount resolved.requested resolved.shortfall := by
  obtain ⟨hexa, hupTo, -⟩ := validate_amount_pos hval
  unfold resolveProtAmount at h
  simp only [bind_eq_ok, okOr_eq_ok, pure_eq_ok] at h
  obtain ⟨⟨amount, requested, shortfall⟩, hamo, required, -, rfl⟩ := h
  generalize hava : (if isProtSystemAccount p.debit = true then (0 : Int)
    else max (clampI64 (balance - p.debitFloor)) 0) = available at hamo
  have hnon : 0 ≤ available := by
    rw [← hava]
    split <;> omega
  unfold resolveAmounts at hamo
  cases hp : p.amount with
  | exact n =>
    rw [hp] at hamo
    simp only [bind_eq_ok, refuseIf_eq_ok, pure_eq_ok, Prod.mk.injEq] at hamo
    obtain ⟨-, -, rfl, rfl, rfl⟩ := hamo
    exact .exact _ hp rfl (hexa _ hp)
  | upTo n =>
    rw [hp] at hamo
    obtain ⟨rfl, rfl, rfl⟩ := hamo
    have hpos := hupTo _ hp
    exact .upTo _ hp (le_min hpos.le hnon) (min_le_left _ _) hpos
  | all =>
    rw [hp] at hamo
    obtain ⟨rfl, rfl, rfl⟩ := hamo
    exact .all hp hnon

/-! ## Sides -/

theorem sideBalance_eq_ok (h : sideBalance accounts id delta = .ok balance) :
    (isProtSystemAccount id = true ∧ balance = none) ∨
      (isProtSystemAccount id = false ∧ balance = some (balanceOf accounts id + delta)) := by
  unfold sideBalance at h
  split at h
  · rename_i hsys
    exact .inl ⟨hsys, (ok.inj h).symm⟩
  · rename_i hsys
    simp only [bind_eq_ok, okOr_eq_ok, pure_eq_ok] at h
    obtain ⟨balance', hft, rfl⟩ := h
    exact .inr ⟨by simpa using hsys, by rw [(toI64_eq_some.mp hft).1]⟩

section

variable (accounts : Table String ProtAccount) (createdAt : Int)

theorem get_commitSide_ne {other : String} (balance : Option Int) (h : other ≠ id) :
    (commitSide accounts createdAt id balance).get other = accounts.get other := by
  cases balance with
  | none => rfl
  | some balance => exact (get_insert _ _ _ _).trans (if_neg h)

theorem balanceOf_commitSide (id : String)
    (balance : Int) : balanceOf (commitSide accounts createdAt id (some balance)) id = balance := by
  unfold balanceOf commitSide
  rw [get_insert_self]

theorem versionOf_commitSide (id : String) (balance : Int) :
    versionOf (commitSide accounts createdAt id (some balance)) id =
      min (versionOf accounts id + 1) maxU64 := by
  unfold versionOf commitSide
  rewrite [get_insert_self]
  rfl

end

theorem balanceOf_congr (h : accounts'.get id = accounts.get id) :
    balanceOf accounts' id = balanceOf accounts id := by
  unfold balanceOf
  rw [h]

theorem versionOf_congr (h : accounts'.get id = accounts.get id) :
    versionOf accounts' id = versionOf accounts id := by
  unfold versionOf
  rw [h]

theorem get_commitSide_system {side : String} {createdAt : Int}
    (hbal : sideBalance accounts side delta = .ok balance) (hid : isProtSystemAccount id = true) :
    (commitSide accounts' createdAt side balance).get id = accounts'.get id := by
  by_cases heq : id = side
  · subst heq
    rcases sideBalance_eq_ok hbal with ⟨-, rfl⟩ | ⟨hnot, -⟩
    · rfl
    · rw [hid] at hnot
      cases hnot
  · exact get_commitSide_ne _ _ _ heq

theorem commitSide_moved (createdAt : Int) (hbal : sideBalance accounts id delta = .ok balance)
    (hid : isProtSystemAccount id = false) (hkp : accounts'.get id = accounts.get id) :
    balanceOf (commitSide accounts' createdAt id balance) id = balanceOf accounts id + delta ∧
      versionOf (commitSide accounts' createdAt id balance) id =
        min (versionOf accounts id + 1) maxU64 := by
  rcases sideBalance_eq_ok hbal with ⟨hyes, -⟩ | ⟨-, rfl⟩
  · rw [hid] at hyes
    cases hyes
  · rw [balanceOf_commitSide, versionOf_commitSide, versionOf_congr hkp]
    exact ⟨rfl, rfl⟩

/-! ## One posting -/

/-- The posting `p` took the ledger and the balances from `s` to `t` with the
row `e`, written under the id `ulid`. -/
structure Posts (ulid : String) (p : ProtPosting) (e : ProtLedgerEntry) (s t : ReferenceDb) :
    Prop where
  id_eq : e.id = ulid
  key_eq : e.key = p.key
  kind_eq : e.kind = p.kind
  debit_eq : e.debit = p.debit
  credit_eq : e.credit = p.credit
  reference_eq : e.reference = p.reference
  sides_ne : p.debit ≠ p.credit
  fresh : s.protLedger.get p.key = none
  ledger_eq : t.protLedger = s.protLedger.insert p.key e
  resolves : Resolves p e.amount e.requested e.shortfall
  debit_moved : isProtSystemAccount p.debit = false →
    balanceOf t.protAccounts p.debit = balanceOf s.protAccounts p.debit - e.amount ∧
      versionOf t.protAccounts p.debit = min (versionOf s.protAccounts p.debit + 1) maxU64
  credit_moved : isProtSystemAccount p.credit = false →
    balanceOf t.protAccounts p.credit = balanceOf s.protAccounts p.credit + e.amount ∧
      versionOf t.protAccounts p.credit = min (versionOf s.protAccounts p.credit + 1) maxU64
  other_kept : ∀ id, (id ≠ p.debit ∧ id ≠ p.credit) ∨ isProtSystemAccount id = true →
    t.protAccounts.get id = s.protAccounts.get id
  floor_kept : isProtSystemAccount p.debit = false → 0 < e.amount →
    p.debitFloor ≤ balanceOf t.protAccounts p.debit

variable {sha256 : List UInt8 → List UInt8}

/-- **A prepared posting posts.** Whatever happened to the memberships before
the commit. -/
theorem posts_of_checkPosting {db : ReferenceDb} {ulid : String} {prepared : PreparedPosting}
    (h : checkPosting sha256 db ulid p = .ok (.new prepared))
    (memberships : Table String CipherMembership) : Posts ulid p prepared.entry db
      (commitLocked { db with cipherMemberships := memberships } prepared) := by
  unfold checkPosting at h
  simp only [bind_eq_ok] at h
  obtain ⟨⟨⟩, hval, hprep⟩ := h
  have hne := (validate_amount_pos hval).2.2
  unfold prepareLocked at hprep
  cases hg : db.protLedger.get p.key with
  | some stored =>
    rw [hg] at hprep
    cases hprep
  | none =>
    rw [hg] at hprep
    simp only [bind_eq_ok, refuseIf_eq_ok, pure_eq_ok, Prepared.new.injEq] at hprep
    obtain ⟨resolved, hreso, debitBalance, hdeb, creditBalance, hcred, -, hflo, rfl⟩ := hprep
    -- the credit side is written after the debit side, on another account
    have hdebitKept : ∀ accounts : Table String ProtAccount,
        (commitSide accounts p.createdAt p.credit creditBalance).get p.debit =
          accounts.get p.debit := fun accounts => get_commitSide_ne _ _ _ hne
    have hdebitMoved := fun hsys => commitSide_moved p.createdAt hdeb hsys rfl
    refine ⟨rfl, rfl, rfl, rfl, rfl, rfl, hne, hg, rfl,
      resolves_of_resolveProtAmount hval hreso, ?_, ?_, ?_, ?_⟩
    · intro hsys
      refine ⟨?_, (versionOf_congr (hdebitKept _)).trans (hdebitMoved hsys).2⟩
      exact ((balanceOf_congr (hdebitKept _)).trans (hdebitMoved hsys).1).trans
        Int.sub_eq_add_neg.symm
    · intro hsys
      exact commitSide_moved _ hcred hsys (get_commitSide_ne _ _ _ hne.symm)
    · rintro id (⟨hd, hc⟩ | hsys)
      · exact (get_commitSide_ne _ _ _ hc).trans (get_commitSide_ne _ _ _ hd)
      · exact (get_commitSide_system hcred hsys).trans (get_commitSide_system hdeb hsys)
    · intro hsys hpos
      refine le_of_le_of_eq ?_ ((balanceOf_congr (hdebitKept _)).trans (hdebitMoved hsys).1).symm
      rcases sideBalance_eq_ok hdeb with ⟨hyes, -⟩ | ⟨-, rfl⟩
      · rw [hsys] at hyes
        cases hyes
      · by_contra hlow
        exact hflo ⟨hpos, _, rfl, by omega⟩

/-! ## Plans -/

def grantKey (userId : String) (number : Nat) (base : String) (seq : Nat) : String :=
  if seq = 0 then protKeyCipherFounding userId number base
  else protKeyCipherUpgrade userId number base seq

theorem planCipherSync_done {sync : CipherProtSync}
    (h : planCipherSync userId m base rows now = .done sync) :
    (m.isActive = true → m.disputedOrders = [] → cipherProtTarget m ≤ cipherProtPosted rows) ∧
      ∀ outcome, sync ≠ .posted outcome := by
  unfold planCipherSync at h
  dsimp only at h
  split at h
  · rename_i hdn
    refine ⟨fun hact hund => ?_, fun outcome heq => ?_⟩
    · rcases hdn with hnot | hdis | hle
      · exact absurd hact hnot
      · exact absurd hund hdis
      · exact hle
    · rw [← CipherSyncPlan.done.inj h] at heq
      split at heq <;> cases heq
  · cases h

structure GrantPosting (userId base : String) (m : CipherMembership) (rows : List ProtLedgerEntry)
    (p : ProtPosting) : Prop where
  active : m.isActive = true
  undisputed : m.disputedOrders = []
  posted_lt : cipherProtPosted rows < cipherProtTarget m
  key_eq : p.key = grantKey userId m.number base (cipherProtGrantCount rows)
  kind_eq : p.kind = if cipherProtGrantCount rows = 0 then .cipherFounding else .cipherUpgrade
  amount_eq : p.amount = .exact (cipherProtTarget m - cipherProtPosted rows)
  debit_eq : p.debit = protSysIssued
  credit_eq : p.credit = protUserAccount userId
  base_eq : p.reference.membershipOrderId = some base

theorem planCipherSync_post (h : planCipherSync userId m base rows now = .post p) :
    GrantPosting userId base m rows p := by
  unfold planCipherSync at h
  dsimp only at h
  split at h
  · cases h
  · rename_i hdue
    simp only [not_or, not_not, not_le] at hdue
    obtain ⟨hact, hund, hlt⟩ := hdue
    rw [← CipherSyncPlan.post.inj h]
    exact ⟨hact, hund, hlt, rfl, rfl, rfl, rfl, rfl, rfl⟩

structure ClawbackPosting (userId orderId base : String) (m : CipherMembership)
    (rows : List ProtLedgerEntry) (p : ProtPosting) : Prop where
  target_lt : cipherProtTarget m < cipherProtPosted rows
  key_eq : p.key = protKeyClawback orderId
  kind_eq : p.kind = .clawback
  amount_eq : p.amount = .upTo (cipherProtPosted rows - cipherProtTarget m)
  debit_eq : p.debit = protUserAccount userId
  credit_eq : p.credit = protSysClawed
  floor_eq : p.debitFloor = 0
  order_eq : p.reference.orderId = some orderId
  base_eq : p.reference.membershipOrderId = some base

theorem planCipherClawback_some (h : planCipherClawback userId orderId m base rows now = some p) :
    ClawbackPosting userId orderId base m rows p := by
  unfold planCipherClawback at h
  dsimp only at h
  split at h
  · cases h
  · rename_i hlt
    rw [← some.inj h]
    exact ⟨not_le.mp hlt, rfl, rfl, rfl, rfl, rfl, rfl, rfl, rfl⟩

theorem planCipherClawback_none (h : planCipherClawback userId orderId m base rows now = none) :
    cipherProtPosted rows ≤ cipherProtTarget m := by
  unfold planCipherClawback at h
  dsimp only at h
  split at h
  · rename_i hle
    exact hle
  · cases h

/-! ## One call -/

/-- The posting a call writes in a state, and what it leaves of the
memberships. -/
inductive PostedBy (s : ReferenceDb) : ProtCall → String → ProtPosting →
    Table String CipherMembership → Prop where
  | apply (ulid : String) (p : ProtPosting) :
      PostedBy s (.applyProtPosting ulid p) ulid p s.cipherMemberships
  | sync (ulid userId : String) (now : Int) (m : CipherMembership) (base : String)
      (p : ProtPosting) (memberships : Table String CipherMembership) :
      s.cipherMemberships.get userId = some m → m.orders.head? = some base →
      planCipherSync userId m base (membershipRows s.protLedger base) now = .post p →
      bumpCipherMembershipVersionLocked s.cipherMemberships userId m.version = some memberships →
      PostedBy s (.syncCipherProt ulid userId now) ulid p memberships
  | clawback (ulid userId orderId : String) (now : Int) (m : CipherMembership) (base : String)
      (p : ProtPosting) (memberships : Table String CipherMembership) :
      s.cipherMemberships.get userId = some m → m.orders.head? = some base → ¬ orderId < base →
      planCipherClawback userId orderId m base (membershipRows s.protLedger base) now = some p →
      bumpCipherMembershipVersionLocked s.cipherMemberships userId m.version = some memberships →
      PostedBy s (.clawbackCipherProt ulid userId orderId now) ulid p memberships
  | forfeit (ulid userId : String) (now : Int) :
      PostedBy s (.forfeitProtWallet ulid userId now) ulid (nextForfeitPosting userId now s)
        s.cipherMemberships
  | forfeitPass (ulid userId : String) (now : Int) :
      PostedBy s (.protForfeitPass ulid userId now) ulid (nextForfeitPosting userId now s)
        s.cipherMemberships

section

variable (sha256 : List UInt8 → List UInt8)

theorem applyProtPosting_cases (ulid : String) (p : ProtPosting) (db : ReferenceDb) :
    ((applyProtPosting sha256 ulid p db).1 = db ∧
      ∀ e, (applyProtPosting sha256 ulid p db).2 ≠ .ok (.applied e)) ∨
    ∃ e, (applyProtPosting sha256 ulid p db).2 = .ok (.applied e) ∧
      Posts ulid p e db (applyProtPosting sha256 ulid p db).1 ∧
      (applyProtPosting sha256 ulid p db).1.cipherMemberships = db.cipherMemberships := by
  unfold applyProtPosting
  cases h : checkPosting sha256 db ulid p with
  | error err => exact .inl ⟨rfl, fun e => by simp⟩
  | ok checked =>
    cases checked with
    | duplicate stored =>
      refine .inl ⟨rfl, fun e => ?_⟩
      show duplicateOutcome _ stored ≠ _
      unfold duplicateOutcome
      split <;> simp
    | new prepared =>
      exact .inr ⟨prepared.entry, rfl, posts_of_checkPosting h db.cipherMemberships, rfl⟩

theorem syncCipherProt_cases (ulid userId : String) (now : Int) (db : ReferenceDb) :
    ((syncCipherProt sha256 ulid userId now db).1 = db ∧
      ∀ e, (syncCipherProt sha256 ulid userId now db).2 ≠ .ok (.posted (.applied e))) ∨
    ∃ p e, (syncCipherProt sha256 ulid userId now db).2 = .ok (.posted (.applied e)) ∧
      Posts ulid p e db (syncCipherProt sha256 ulid userId now db).1 ∧
      PostedBy db (.syncCipherProt ulid userId now) ulid p
        (syncCipherProt sha256 ulid userId now db).1.cipherMemberships := by
  unfold syncCipherProt
  cases hm : db.cipherMemberships.get userId with
  | none => exact .inl ⟨rfl, by simp⟩
  | some m =>
    dsimp only
    cases hbs : m.orders.head? with
    | none => exact .inl ⟨rfl, by simp⟩
    | some base =>
      dsimp only
      cases hpl : planCipherSync userId m base (membershipRows db.protLedger base) now with
      | done sync =>
        refine .inl ⟨rfl, fun e heq => ?_⟩
        exact (planCipherSync_done hpl).2 _ (ok.inj heq)
      | post p =>
        dsimp only
        cases hchk : checkPosting sha256 db ulid p with
        | error err => exact .inl ⟨rfl, by simp⟩
        | ok checked =>
          cases checked with
          | duplicate stored =>
            refine .inl ?_
            dsimp only
            split
            · exact ⟨rfl, by simp⟩
            · exact ⟨rfl, by simp⟩
          | new prepared =>
            cases hbm : bumpCipherMembershipVersionLocked db.cipherMemberships userId m.version with
            | none => exact .inl ⟨rfl, by simp⟩
            | some memberships =>
              exact .inr ⟨p, prepared.entry, rfl, posts_of_checkPosting hchk memberships,
                .sync ulid userId now m base p memberships hm hbs hpl hbm⟩

theorem clawbackCipherProt_cases (ulid userId orderId : String) (now : Int) (db : ReferenceDb) :
    ((clawbackCipherProt sha256 ulid userId orderId now db).1 = db ∧
      ∀ e, (clawbackCipherProt sha256 ulid userId orderId now db).2 ≠ .ok (some (.applied e))) ∨
    ∃ p e, (clawbackCipherProt sha256 ulid userId orderId now db).2 = .ok (some (.applied e)) ∧
      Posts ulid p e db (clawbackCipherProt sha256 ulid userId orderId now db).1 ∧
      PostedBy db (.clawbackCipherProt ulid userId orderId now) ulid p
        (clawbackCipherProt sha256 ulid userId orderId now db).1.cipherMemberships := by
  unfold clawbackCipherProt
  cases hrow : db.protLedger.get (protKeyClawback orderId) with
  | some stored => exact .inl ⟨rfl, by simp⟩
  | none =>
    cases hm : db.cipherMemberships.get userId with
    | none => exact .inl ⟨rfl, by simp⟩
    | some m =>
      dsimp only
      cases hbs : m.orders.head? with
      | none => exact .inl ⟨rfl, by simp⟩
      | some base =>
        dsimp only
        split
        · exact .inl ⟨rfl, by simp⟩
        rename_i holder
        cases hpl : planCipherClawback userId orderId m base
            (membershipRows db.protLedger base) now with
        | none => exact .inl ⟨rfl, by simp⟩
        | some p =>
          dsimp only
          cases hchk : checkPosting sha256 db ulid p with
          | error err => exact .inl ⟨rfl, by simp⟩
          | ok checked =>
            cases checked with
            | duplicate stored => exact .inl ⟨rfl, by simp⟩
            | new prepared =>
              cases hbm : bumpCipherMembershipVersionLocked db.cipherMemberships userId
                  m.version with
              | none => exact .inl ⟨rfl, by simp⟩
              | some memberships =>
                exact .inr ⟨p, prepared.entry, rfl, posts_of_checkPosting hchk memberships,
                  .clawback ulid userId orderId now m base p memberships hm hbs holder hpl hbm⟩

/-- The pass loop writes one forfeit row or nothing: a pass that found its key
taken changed nothing, so every pass counts the same rows. -/
theorem runForfeitPasses_cases (ulid userId : String) (now : Int)
    (passes : Nat) (db : ReferenceDb) :
    ((runForfeitPasses sha256 ulid userId now passes db).1 = db ∧
      ∀ e, (runForfeitPasses sha256 ulid userId now passes db).2 ≠ .ok (some (.applied e))) ∨
    ∃ e, (runForfeitPasses sha256 ulid userId now passes db).2 = .ok (some (.applied e)) ∧
      Posts ulid (nextForfeitPosting userId now db) e db
        (runForfeitPasses sha256 ulid userId now passes db).1 ∧
      (runForfeitPasses sha256 ulid userId now passes db).1.cipherMemberships =
        db.cipherMemberships := by
  induction passes with
  | zero => exact .inl ⟨rfl, by simp [runForfeitPasses]⟩
  | succ passes ih =>
    unfold runForfeitPasses protForfeitPass
    have hps := applyProtPosting_cases sha256 ulid (nextForfeitPosting userId now db) db
    generalize applyProtPosting sha256 ulid (nextForfeitPosting userId now db) db = step at hps ⊢
    obtain ⟨db', result⟩ := step
    rcases hps with ⟨hkp, hnot⟩ | ⟨e, hres, hpst, hmem⟩
    · dsimp only at hkp hnot
      subst hkp
      cases result with
      | error err => exact .inl ⟨rfl, by simp⟩
      | ok outcome =>
        cases outcome with
        | applied e => exact absurd rfl (hnot e)
        | alreadyApplied e =>
          dsimp only
          split
          · exact .inl ⟨rfl, by simp⟩
          · exact ih
    · dsimp only at hres
      subst hres
      exact .inr ⟨e, rfl, hpst, hmem⟩

/-- **What a call can do.** It changes nothing and does not report a row
written; or it is another writer's and touches the memberships only; or it
writes one row and reports it. -/
theorem exec_cases (s : ReferenceDb) (call : ProtCall) :
    ((exec sha256 s call).1 = s ∧ ¬ (exec sha256 s call).2.Applied) ∨
    (∃ userId row, call = .writeMembership userId row) ∨
    ∃ ulid p e, Posts ulid p e s (exec sha256 s call).1 ∧
      PostedBy s call ulid p (exec sha256 s call).1.cipherMemberships ∧
      (exec sha256 s call).2.Applied := by
  cases call with
  | applyProtPosting ulid p =>
    rcases applyProtPosting_cases sha256 ulid p s with ⟨hkp, hnot⟩ | ⟨e, hok, hpst, hm⟩
    · exact .inl ⟨hkp, fun ⟨e, he⟩ => hnot e he⟩
    · refine .inr (.inr ⟨ulid, p, e, hpst, ?_, e, hok⟩)
      show PostedBy s _ ulid p (applyProtPosting sha256 ulid p s).1.cipherMemberships
      rw [hm]
      exact .apply ulid p
  | syncCipherProt ulid userId now =>
    rcases syncCipherProt_cases sha256 ulid userId now s with ⟨hkp, hnot⟩ | ⟨p, e, hok, hpst, hby⟩
    · exact .inl ⟨hkp, fun ⟨e, he⟩ => hnot e he⟩
    · exact .inr (.inr ⟨ulid, p, e, hpst, hby, e, hok⟩)
  | clawbackCipherProt ulid userId orderId now =>
    rcases clawbackCipherProt_cases sha256 ulid userId orderId now s with
      ⟨hkp, hnot⟩ | ⟨p, e, hok, hpst, hby⟩
    · exact .inl ⟨hkp, fun ⟨e, he⟩ => hnot e he⟩
    · exact .inr (.inr ⟨ulid, p, e, hpst, hby, e, hok⟩)
  | forfeitProtWallet ulid userId now =>
    by_cases hemp : balanceOf s.protAccounts (protUserAccount userId) ≤ 0
    · have hcl : forfeitProtWallet sha256 ulid userId now s = (s, .ok none) := if_pos hemp
      refine .inl ⟨congrArg Prod.fst hcl, ?_⟩
      intro happ
      have hno : (ProtAnswer.optional (forfeitProtWallet sha256 ulid userId now s).2).Applied :=
        happ
      rw [hcl] at hno
      obtain ⟨e, he⟩ := hno
      cases he
    · have hcl : forfeitProtWallet sha256 ulid userId now s =
          runForfeitPasses sha256 ulid userId now protStateRetries s := if_neg hemp
      unfold exec
      dsimp only
      rw [hcl]
      rcases runForfeitPasses_cases sha256 ulid userId now protStateRetries s with
        ⟨hkp, hnot⟩ | ⟨e, hok, hpst, hm⟩
      · exact .inl ⟨hkp, fun ⟨e, he⟩ => hnot e he⟩
      · refine .inr (.inr ⟨ulid, _, e, hpst, ?_, e, hok⟩)
        rw [hm]
        exact .forfeit ulid userId now
  | protForfeitPass ulid userId now =>
    rcases applyProtPosting_cases sha256 ulid (nextForfeitPosting userId now s) s with
      ⟨hkp, hnot⟩ | ⟨e, hok, hpst, hm⟩
    · exact .inl ⟨hkp, fun ⟨e, he⟩ => hnot e he⟩
    · refine .inr (.inr ⟨ulid, _, e, hpst, ?_, e, hok⟩)
      show PostedBy s _ ulid _ (protForfeitPass sha256 ulid userId now s).1.cipherMemberships
      unfold protForfeitPass
      rw [hm]
      exact .forfeitPass ulid userId now
  | writeMembership userId row => exact .inr (.inl ⟨userId, row, rfl⟩)

end

end SlogaBackend.Prot
