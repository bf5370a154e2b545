import SlogaBackend.Prot.Postings

/-!
# The books balance

Over every run of the ledger operations from an empty ledger, the balances are
sums over the rows. `Books` is the invariant: the balances and counters agree
with the rows (`Reading.Balanced`), system accounts have no document, every row
stands under its own key, and a row with a request accounts for it. One posting
keeps it (`Books.post`), so every run does (`Books.of_run`).

Two facts are about a run and not a state. Rows stay (`ledger_grows`), and an
account whose every debit named a floor of at least zero never falls below zero
(`balance_nonneg_of_floors`).
-/

namespace SlogaBackend.Prot

open Checks Payments

variable {sha256 : List UInt8 → List UInt8}

/-- A ledger nothing was ever written to; the memberships are whatever they are. -/
def ReferenceDb.EmptyLedger (s : ReferenceDb) : Prop := s.protLedger = ∅ ∧ s.protAccounts = ∅

/-- Every call is admitted in every state. -/
def anyCall (_ : ReferenceDb) (_ : ProtCall) : Prop := True

/-- Whether an account is a system side. -/
def System (id : String) : Prop := isProtSystemAccount id = true

/-- The ledger and the balances agree. -/
structure Books (s : ReferenceDb) : Prop where
  balanced : reading.Balanced System maxU64 s.protLedger.values (balanceOf s.protAccounts)
    (versionOf s.protAccounts)
  system_none : ∀ id, System id → s.protAccounts.get id = none
  own_key : ∀ key row, s.protLedger.get key = some row → row.key = key
  request_met : ∀ row ∈ s.protLedger.values, ∀ n, row.requested = some n →
    0 ≤ n ∧ 0 ≤ row.amount ∧ ∃ short, row.shortfall = some short ∧ 0 ≤ short ∧
      row.amount + short = n

variable {s t : ReferenceDb} {ulid key id : String} {p : ProtPosting} {e row : ProtLedgerEntry}
  {history : List (ReferenceDb × ProtCall)}

theorem Books.empty (h : s.EmptyLedger) : Books s := by
  obtain ⟨hled, hacc⟩ := h
  refine ⟨?_, fun id _ => ?_, fun key row hrow => ?_, fun row hrow => ?_⟩
  · rw [hled, hacc]
    exact Reading.Balanced.empty
  · rw [hacc]
    rfl
  · rw [hled] at hrow
    cases hrow
  · rw [hled] at hrow
    exact absurd hrow (by simp [Table.values])

/-- **One posting keeps the books.** -/
theorem Books.post (h : Books s) (hpst : Posts ulid p e s t) : Books t := by
  have hval : t.protLedger.values = e :: s.protLedger.values := by
    rw [hpst.ledger_eq, Table.values_insert_of_get_none hpst.fresh]
  refine ⟨?_, fun id hid => ?_, fun key row hrow => ?_, fun row hrow n hn => ?_⟩
  · rw [hval]
    refine h.balanced.post ?_ ?_ ?_ ?_
    · show e.debit ≠ e.credit
      rw [hpst.debit_eq, hpst.credit_eq]
      exact hpst.sides_ne
    · show ¬ System e.debit → _
      intro hsys
      show balanceOf t.protAccounts e.debit = balanceOf s.protAccounts e.debit - e.amount ∧
        versionOf t.protAccounts e.debit = min (versionOf s.protAccounts e.debit + 1) maxU64
      rw [hpst.debit_eq] at hsys ⊢
      exact hpst.debit_moved (by simpa [System] using hsys)
    · show ¬ System e.credit → _
      intro hsys
      show balanceOf t.protAccounts e.credit = balanceOf s.protAccounts e.credit + e.amount ∧
        versionOf t.protAccounts e.credit = min (versionOf s.protAccounts e.credit + 1) maxU64
      rw [hpst.credit_eq] at hsys ⊢
      exact hpst.credit_moved (by simpa [System] using hsys)
    · intro id hdeb hcred
      have hkp := hpst.other_kept id (.inl ⟨hpst.debit_eq ▸ hdeb, hpst.credit_eq ▸ hcred⟩)
      exact ⟨balanceOf_congr hkp, versionOf_congr hkp⟩
  · rw [hpst.other_kept id (.inr hid)]
    exact h.system_none id hid
  · rw [hpst.ledger_eq, get_insert] at hrow
    split at hrow
    · rename_i hkey
      rw [← some.inj hrow, hpst.key_eq, hkey]
    · exact h.own_key key row hrow
  · rw [hval] at hrow
    rcases mem_cons.mp hrow with rfl | hrow
    · have hres := hpst.resolves
      rw [hn] at hres
      obtain ⟨hpos, hnon, hle, hshor⟩ := hres.requested_eq
      exact ⟨hpos.le, hnon, _, hshor, by omega, by omega⟩
    · exact h.request_met row hrow n hn

theorem Books.of_same (h : Books s) (hled : t.protLedger = s.protLedger)
    (hacc : t.protAccounts = s.protAccounts) : Books t := by
  obtain ⟨hbal, hsys, hkey, hmet⟩ := h
  refine ⟨?_, ?_, ?_, ?_⟩
  · rw [hled, hacc]
    exact hbal
  · rw [hacc]
    exact hsys
  · rw [hled]
    exact hkey
  · rw [hled]
    exact hmet

theorem Books.step (h : Books s) (call : ProtCall) : Books (exec sha256 s call).1 := by
  rcases exec_cases sha256 s call with ⟨hkp, -⟩ | ⟨userId, row, rfl⟩ | ⟨ulid, p, e, hpst, -, -⟩
  · rw [hkp]
    exact h
  · exact h.of_same rfl rfl
  · exact h.post hpst

/-- **Every run keeps the books.** -/
theorem Books.of_run (hrun : Run (exec sha256) anyCall s history t) (h : Books s) : Books t :=
  hrun.invariant (fun _ call _ hs => hs.step call) h

/-! ## Rows stay -/

theorem get_of_posts (hpst : Posts ulid p e s t) (h : s.protLedger.get key = some row) :
    t.protLedger.get key = some row := by
  rw [hpst.ledger_eq, get_insert]
  split
  · rename_i hkey
    rw [hkey, hpst.fresh] at h
    cases h
  · exact h

/-- **No call changes or removes a row.** -/
theorem ledger_grows (hrun : Run (exec sha256) anyCall s history t)
    (h : s.protLedger.get key = some row) : t.protLedger.get key = some row := by
  refine hrun.invariant (P := fun db => db.protLedger.get key = some row) ?_ h
  intro db call _ hrow
  rcases exec_cases sha256 db call with ⟨hkp, -⟩ | ⟨userId, m, rfl⟩ | ⟨ulid, p, e, hpst, -, -⟩
  · rw [hkp]
    exact hrow
  · exact hrow
  · exact get_of_posts hpst hrow

/-! ## Floors -/

/-- Every debit of the account in the history named a floor of at least zero.
Only a free posting can name another one. -/
def FlooredDebits (sha256 : List UInt8 → List UInt8) (id : String)
    (history : List (ReferenceDb × ProtCall)) : Prop :=
  ∀ s ulid p, (s, ProtCall.applyProtPosting ulid p) ∈ history → p.debit = id →
    (exec sha256 s (.applyProtPosting ulid p)).2.Applied → 0 ≤ p.debitFloor

variable {call : ProtCall}

theorem debitFloor_of_postedBy {memberships : Table String CipherMembership}
    (h : PostedBy s call ulid p memberships) :
    call = .applyProtPosting ulid p ∨ isProtSystemAccount p.debit = true ∨ p.debitFloor = 0 := by
  cases h with
  | apply ulid p => exact .inl rfl
  | sync ulid userId now m base p memberships hm hbs hpl hbm =>
    refine .inr (.inl ?_)
    rw [(planCipherSync_post hpl).debit_eq]
    decide
  | clawback ulid userId orderId now m base p memberships hm hbs holder hpl hbm =>
    exact .inr (.inr (planCipherClawback_some hpl).floor_eq)
  | _ => exact .inr (.inr rfl)

theorem balance_nonneg_of_posts (hpst : Posts ulid p e s t) (hid : isProtSystemAccount id = false)
    (hfloo : p.debit = id → 0 ≤ p.debitFloor) (h : 0 ≤ balanceOf s.protAccounts id) :
    0 ≤ balanceOf t.protAccounts id := by
  have hamo := hpst.resolves.amount_nonneg
  by_cases hdeb : p.debit = id
  · subst hdeb
    have hmov := (hpst.debit_moved hid).1
    have hhl := hpst.floor_kept hid
    have hfloo' := hfloo rfl
    rcases lt_or_eq_of_le hamo with hpos | hzr
    · exact le_trans hfloo' (hhl hpos)
    · omega
  · by_cases hcred : p.credit = id
    · subst hcred
      have hmov := (hpst.credit_moved hid).1
      omega
    · rw [balanceOf_congr (hpst.other_kept id (.inl ⟨Ne.symm hdeb, Ne.symm hcred⟩))]
      exact h

/-- **Floors hold over a run.** -/
theorem balance_nonneg_of_floors (hrun : Run (exec sha256) anyCall s history t)
    (hid : isProtSystemAccount id = false) (hflo : FlooredDebits sha256 id history)
    (h : 0 ≤ balanceOf s.protAccounts id) : 0 ≤ balanceOf t.protAccounts id := by
  induction hrun with
  | nil s => exact h
  | @cons s t call history hadm hrs ih =>
    have hrestFloors : FlooredDebits sha256 id history := fun s' ulid p hmem =>
      hflo s' ulid p (mem_cons_of_mem _ hmem)
    refine ih hrestFloors ?_
    rcases exec_cases sha256 s call with ⟨hkp, -⟩ | ⟨userId, row, rfl⟩ | ⟨ulid, p, e, hpst, hby, happ⟩
    · rw [hkp]
      exact h
    · exact h
    · refine balance_nonneg_of_posts hpst hid (fun hdeb => ?_) h
      rcases debitFloor_of_postedBy hby with rfl | hsys | hzr
      · exact hflo s ulid p mem_cons_self hdeb happ
      · rw [hdeb, hid] at hsys
        cases hsys
      · omega

/-! ## The ledger -/

theorem unchanged_of_not_applied (hcl : ∀ userId row, call ≠ .writeMembership userId row)
    (h : ¬ (exec sha256 s call).2.Applied) : (exec sha256 s call).1 = s := by
  rcases exec_cases sha256 s call with ⟨hkp, -⟩ | ⟨userId, row, rfl⟩ | ⟨ulid, p, e, -, -, happ⟩
  · exact hkp
  · exact absurd rfl (hcl userId row)
  · exact absurd happ h

/-- A posting that is written for up to an amount has this amount as its request. -/
theorem requested_of_applied (h : (exec sha256 s call).2.Applied) : ∃ ulid p row,
    PostedBy s call ulid p (exec sha256 s call).1.cipherMemberships ∧
      (exec sha256 s call).1.protLedger = s.protLedger.insert p.key row ∧
        ∀ n, p.amount = .upTo n → row.requested = some n := by
  rcases exec_cases sha256 s call with ⟨-, hnot⟩ | ⟨userId, row, rfl⟩ | ⟨ulid, p, e, hposts, hby, -⟩
  · exact absurd h hnot
  · cases h
  · exact ⟨ulid, p, e, hby, hposts.ledger_eq, fun n hn => hposts.resolves.requested_of_upTo hn⟩

/-- **Double-entry ledger.** In every run from an empty ledger: the balance of an
account that is not a system side is what rows credit to it less what rows debit
from it, and its version counts the rows that name it (up to `u64::MAX`, which a
map of fewer rows never reaches); no system account has a balance document; a key
has one row, and rows stay as they were written; an account whose every debit
named a floor of at least zero is never negative; a row with a request accounts
for it; a call that reports a row writes one, with the request of its posting; and
a call that does not leaves everything as it was. -/
theorem double_entry {s t : ReferenceDb} {history : List (ReferenceDb × ProtCall)}
    (hempty : s.EmptyLedger) (hrun : Run (exec sha256) anyCall s history t) :
    (∀ id, isProtSystemAccount id = false → balanceOf t.protAccounts id =
          reading.credited t.protLedger.values id - reading.debited t.protLedger.values id ∧
        versionOf t.protAccounts id = min (reading.named t.protLedger.values id) maxU64 ∧
        (t.protLedger.values.length ≤ maxU64 →
          versionOf t.protAccounts id = reading.named t.protLedger.values id)) ∧
    (∀ id, isProtSystemAccount id = true → t.protAccounts.get id = none) ∧
    (∀ row ∈ t.protLedger.values, ∀ row' ∈ t.protLedger.values, row.key = row'.key → row = row') ∧
    (∀ history' t', Run (exec sha256) anyCall t history' t' →
      ∀ key row, t.protLedger.get key = some row → t'.protLedger.get key = some row) ∧
    (∀ id, isProtSystemAccount id = false → FlooredDebits sha256 id history →
      0 ≤ balanceOf t.protAccounts id) ∧
    (∀ row ∈ t.protLedger.values, ∀ n, row.requested = some n →
      0 ≤ n ∧ 0 ≤ row.amount ∧ ∃ short, row.shortfall = some short ∧ 0 ≤ short ∧
        row.amount + short = n) ∧
    (∀ call, (exec sha256 t call).2.Applied → ∃ ulid p row,
      PostedBy t call ulid p (exec sha256 t call).1.cipherMemberships ∧
        (exec sha256 t call).1.protLedger = t.protLedger.insert p.key row ∧
          ∀ n, p.amount = .upTo n → row.requested = some n) ∧
    ∀ call, (∀ userId row, call ≠ .writeMembership userId row) →
      ¬ (exec sha256 t call).2.Applied → (exec sha256 t call).1 = t := by
  have hbooks : Books t := Books.of_run hrun (Books.empty hempty)
  refine ⟨fun id hid => ?_, hbooks.system_none, fun row hrow row' hrow' hkey => ?_,
    fun history' t' hrun' key row hrow => ledger_grows hrun' hrow, fun id hid hfloors => ?_,
    hbooks.request_met, fun call happlied => requested_of_applied happlied,
    fun call hcall happlied => unchanged_of_not_applied hcall happlied⟩
  · have hnot : ¬ System id := by simp [System, hid]
    have hversion := hbooks.balanced.version_eq id hnot
    refine ⟨hbooks.balanced.balance_eq id hnot, hversion, fun hlen => ?_⟩
    have hnamed : reading.named t.protLedger.values id ≤ t.protLedger.values.length :=
      List.length_filter_le _ _
    omega
  · obtain ⟨key, hget⟩ := mem_values.mp hrow
    obtain ⟨key', hget'⟩ := mem_values.mp hrow'
    rw [hbooks.own_key key row hget, hbooks.own_key key' row' hget'] at hkey
    rw [hkey, hget'] at hget
    exact (some.inj hget).symm
  · refine balance_nonneg_of_floors hrun hid hfloors ?_
    rw [hempty.2]
    exact le_refl 0

namespace Sample

/-- A hash for the sample runs, which never compare two payloads. -/
def digest : List UInt8 → List UInt8 := fun _ => []

/-- Nothing stored. -/
def empty : ReferenceDb := ⟨∅, ∅, ∅⟩

/-- A pack bought by a user. -/
def purchase : ProtPosting where
  key := "purchase:O1"
  kind := .purchase
  debit := protSysIssued
  credit := protUserAccount "U"
  amount := .exact 2600
  debitFloor := 0
  actor := protActorPayments
  reference := { ProtRef.default with orderId := some "O1" }
  reason := none
  createdAt := 1000

/-- The purchase is credited, and the wallet forfeited. -/
def calls : List ProtCall := [.applyProtPosting "R1" purchase, .forfeitProtWallet "R2" "U" 2000]

end Sample

open Prot.Sample

/-- The sample run: 2600 Prot go in and out, two rows name the wallet. -/
theorem double_entry_sample :
    balanceOf (execAll (exec digest) empty calls).protAccounts "user:U" = 0 ∧
      versionOf (execAll (exec digest) empty calls).protAccounts "user:U" = 2 ∧
      reading.credited (execAll (exec digest) empty calls).protLedger.values
        "user:U" = 2600 ∧
      0 = 2600 - reading.debited
        (execAll (exec digest) empty calls).protLedger.values "user:U" := by
  have hadmits : AdmitsAll (exec digest) anyCall empty calls := ⟨trivial, trivial, trivial⟩
  have hrun := Run.of_admitsAll hadmits
  have hbalance : balanceOf (execAll (exec digest) empty calls).protAccounts
      "user:U" = 0 := by
    decide
  have hcredited : reading.credited
      (execAll (exec digest) empty calls).protLedger.values "user:U" = 2600 := by
    decide
  have hbooks := ((double_entry ⟨rfl, rfl⟩ hrun).1 "user:U" (by decide)).1
  refine ⟨hbalance, by decide, hcredited, ?_⟩
  exact hbooks

end SlogaBackend.Prot
