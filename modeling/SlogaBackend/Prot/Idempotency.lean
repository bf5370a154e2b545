import Mathlib.Data.List.ReduceOption
import SlogaBackend.E2EE.Payloads
import SlogaBackend.Prot.DoubleEntry

/-!
# Retried postings

A posting whose key is taken is a retry or a mistake, and the digest stored with the row tells which.
The digested text has thirteen lines, and validation keeps line breaks out of the fields, so the text
determines every field it shows (`protPayload_inj`). An absent reference reads like an empty one.
-/

namespace SlogaBackend.Prot

open Checks Payments E2EE

variable {sha256 : List UInt8 → List UInt8} {p q : ProtPosting}

/-- Postings that move the same for the same reason, an absent text reference being an empty one. -/
structure SamePayload (p q : ProtPosting) : Prop where
  kind : p.kind = q.kind
  debit : p.debit = q.debit
  credit : p.credit = q.credit
  amount : p.amount = q.amount
  orderId : p.reference.orderId.getD "" = q.reference.orderId.getD ""
  tankId : p.reference.tankId.getD "" = q.reference.tankId.getD ""
  goalId : p.reference.goalId.getD "" = q.reference.goalId.getD ""
  pledgeId : p.reference.pledgeId.getD "" = q.reference.pledgeId.getD ""
  day : p.reference.day.getD "" = q.reference.day.getD ""
  membershipNumber : p.reference.membershipNumber = q.reference.membershipNumber
  membershipOrderId : p.reference.membershipOrderId.getD "" = q.reference.membershipOrderId.getD ""

/-! ## The text -/

def amountText : ProtAmount → String
  | .exact n => "exact:" ++ n.repr
  | .upTo n => "upto:" ++ n.repr
  | .all => "all"

/-- The lines of the text but the last. -/
def payloadLines (p : ProtPosting) : List String :=
  ["prot-posting/v1", "kind=" ++ p.kind.asStr, "currency=Prot", "debit=" ++ p.debit,
    "credit=" ++ p.credit, "amount=" ++ amountText p.amount,
    "ref.order_id=" ++ p.reference.orderId.getD "", "ref.tank_id=" ++ p.reference.tankId.getD "",
    "ref.goal_id=" ++ p.reference.goalId.getD "", "ref.pledge_id=" ++ p.reference.pledgeId.getD "",
    "ref.day=" ++ p.reference.day.getD "",
    "ref.membership_number=" ++ (p.reference.membershipNumber.map Nat.repr).getD ""]

theorem protPayload_eq (p : ProtPosting) : protPayload p = joinLines (payloadLines p ++
    ["ref.membership_order_id=" ++ p.reference.membershipOrderId.getD ""]) := by
  cases p.amount <;> rfl

theorem asStr_injective : Function.Injective ProtEntryKind.asStr := by
  let kinds : List ProtEntryKind := [.purchase, .cipherFounding, .cipherUpgrade, .contribution,
    .tierUpgrade, .pledgeHold, .pledgeCapture, .pledgeReturn, .pledgeWithdraw, .launchReturn, .burn,
    .settlement, .writeOff, .clawback, .clawbackHold, .forfeit, .forfeitHold, .forfeitTank,
    .adminAdjust]
  have hfn : ∀ kind : ProtEntryKind, kinds.find? (·.asStr == kind.asStr) = some kind := by
    intro kind
    cases kind <;> decide
  intro kind kind' h
  have hsm := hfn kind
  rw [h, hfn kind'] at hsm
  exact (some.inj hsm).symm

theorem amountText_injective : Function.Injective amountText := by
  have hexa : ∀ (n : Int) (rest : String), "exact:" ++ n.repr ≠ "upto:" ++ rest :=
    fun n rest => append_ne_append 1 (by decide) (by decide) (by decide) _ _
  have hall : ∀ n : Int, "exact:" ++ n.repr ≠ "all" ++ "" ∧ "upto:" ++ n.repr ≠ "all" ++ "" :=
    fun n => ⟨append_ne_append 1 (by decide) (by decide) (by decide) _ _,
      append_ne_append 1 (by decide) (by decide) (by decide) _ _⟩
  intro a b h
  cases a with
  | exact n =>
    cases b with
    | exact m => rw [intRepr_injective ((String.append_right_inj _).mp h)]
    | upTo m => exact absurd h (hexa n _)
    | all => exact absurd h (hall n).1
  | upTo n =>
    cases b with
    | exact m => exact absurd h.symm (hexa m _)
    | upTo m => rw [intRepr_injective ((String.append_right_inj _).mp h)]
    | all => exact absurd h (hall n).2
  | all =>
    cases b with
    | exact m => exact absurd h.symm (hall m).1
    | upTo m => exact absurd h.symm (hall m).2
    | all => rfl

theorem numberText_injective {m n : Option Nat}
    (h : (m.map Nat.repr).getD "" = (n.map Nat.repr).getD "") : m = n := by
  cases m with
  | none =>
    cases n with
    | none => rfl
    | some n => exact absurd h.symm Nat.repr_ne_empty
  | some m =>
    cases n with
    | none => exact absurd h Nat.repr_ne_empty
    | some n => rw [natRepr_injective h]

/-- Validation keeps line breaks out of the lines. -/
theorem oneLine_payloadLines (hvalid : validateProtPosting p = .ok ()) :
    ∀ line ∈ payloadLines p, OneLine line := by
  unfold validateProtPosting at hvalid
  simp only [bind_eq_ok, refuseIf_eq_ok] at hvalid
  obtain ⟨-, -, -, -, -, -, -, -, -, hfree, -⟩ := hvalid
  have hfields : ∀ field ∈ [some p.debit, some p.credit, p.reference.orderId, p.reference.tankId,
      p.reference.goalId, p.reference.pledgeId, p.reference.day, p.reference.membershipOrderId],
      OneLine (field.getD "") := by
    intro field hmem
    cases field with
    | none => exact not_mem_nil
    | some value => exact fun hbreak => hfree ⟨value, List.reduceOption_mem_iff.mpr hmem, hbreak⟩
  have hkind : OneLine p.kind.asStr := by cases p.kind <;> decide
  have hamount : OneLine (amountText p.amount) := by
    cases p.amount with
    | exact n | upTo n => exact .append (by decide) (oneLine_repr n)
    | all => decide
  have hnumber : OneLine ((p.reference.membershipNumber.map Nat.repr).getD "") := by
    cases p.reference.membershipNumber with
    | none => decide
    | some n => exact oneLine_natRepr n
  simp only [List.forall_mem_cons] at hfields
  obtain ⟨hdebit, hcredit, horder, htank, hgoal, hpledge, hday, -⟩ := hfields
  simp only [payloadLines, List.forall_mem_cons]
  exact ⟨by decide, .append (by decide) hkind, by decide, .append (by decide) hdebit,
    .append (by decide) hcredit, .append (by decide) hamount, .append (by decide) horder,
    .append (by decide) htank, .append (by decide) hgoal, .append (by decide) hpledge,
    .append (by decide) hday, .append (by decide) hnumber, fun _ hmem => by cases hmem⟩

/-- **The text determines the payload.** -/
theorem protPayload_inj (hp : validateProtPosting p = .ok ()) (hq : validateProtPosting q = .ok ()) :
    protPayload p = protPayload q ↔ SamePayload p q := by
  rw [protPayload_eq, protPayload_eq]
  constructor
  · intro h
    obtain ⟨hlines, hls⟩ := joinLines_concat_inj (payloadLines p) (payloadLines q) rfl
      (oneLine_payloadLines hp) (oneLine_payloadLines hq) h
    simp only [payloadLines, List.cons.injEq, String.append_right_inj, true_and, and_true] at hlines
    obtain ⟨hkind, hdebit, hcredit, hamount, horder, htank, hgoal, hpledge, hday, hnumber⟩ := hlines
    exact ⟨asStr_injective hkind, hdebit, hcredit, amountText_injective hamount, horder, htank,
      hgoal, hpledge, hday, numberText_injective hnumber, (String.append_right_inj _).mp hls⟩
  · intro h
    simp only [payloadLines, h.kind, h.debit, h.credit, h.amount, h.orderId, h.tankId, h.goalId,
      h.pledgeId, h.day, h.membershipNumber, h.membershipOrderId]

/-! ## The digest -/

theorem toHex_injective : Function.Injective Mls.toHex := by
  have hdig : ∀ x < 16, ∀ y < 16, Nat.digitChar x = Nat.digitChar y → x = y := by decide
  intro as bs h
  replace h := String.ofList_injective h
  induction as generalizing bs with
  | nil =>
    cases bs with
    | nil => rfl
    | cons b bs => cases h
  | cons a as ih =>
    cases bs with
    | nil => cases h
    | cons b bs =>
      obtain ⟨hhg, h⟩ := cons.inj h
      obtain ⟨hlow, h⟩ := cons.inj h
      have hlt : ∀ c : UInt8, c.toNat / 16 < 16 ∧ c.toNat % 16 < 16 := by
        intro c
        have := c.toNat_lt
        omega
      have hhg' : a.toNat / 16 = b.toNat / 16 := hdig _ (hlt a).1 _ (hlt b).1 hhg
      have hlow' : a.toNat % 16 = b.toNat % 16 := hdig _ (hlt a).2 _ (hlt b).2 hlow
      have hsm : a.toNat = b.toNat := by omega
      rw [ih h, UInt8.toNat_inj.mp hsm]

/-- The posting that a row was written from. -/
def WrittenFrom (sha256 : List UInt8 → List UInt8) (q : ProtPosting) (stored : ProtLedgerEntry) :
    Prop :=
  ∃ db ulid prepared, checkPosting sha256 db ulid q = .ok (.new prepared) ∧ prepared.entry = stored

theorem WrittenFrom.payloadHash {stored : ProtLedgerEntry} (h : WrittenFrom sha256 q stored) :
    stored.payloadHash = protPayloadHash sha256 q := by
  obtain ⟨db, ulid, prepared, hchk, rfl⟩ := h
  unfold checkPosting at hchk
  simp only [bind_eq_ok] at hchk
  obtain ⟨⟨⟩, -, hprep⟩ := hchk
  unfold prepareLocked at hprep
  cases hg : db.protLedger.get q.key with
  | some stored =>
    rw [hg] at hprep
    cases hprep
  | none =>
    rw [hg] at hprep
    simp only [bind_eq_ok, refuseIf_eq_ok, pure_eq_ok, Prepared.new.injEq] at hprep
    obtain ⟨resolved, -, debitBalance, -, creditBalance, -, -, -, rfl⟩ := hprep
    rfl

/-- **Retries are told from conflicts.** Whatever the balances are. -/
theorem retries_told_from_conflicts (hp : validateProtPosting p = .ok ())
    (hq : validateProtPosting q = .ok ()) :
    (protPayload p = protPayload q ↔ SamePayload p q) ∧
      ∀ (sha256 : List UInt8 → List UInt8) (db : ReferenceDb) (ulid : String)
        (stored : ProtLedgerEntry), db.protLedger.get p.key = some stored →
        WrittenFrom sha256 q stored →
        (sha256 (Mls.asBytes (protPayload p)) = sha256 (Mls.asBytes (protPayload q)) →
          protPayload p = protPayload q) →
        (applyProtPosting sha256 ulid p db).1 = db ∧
          ((applyProtPosting sha256 ulid p db).2 = .ok (.alreadyApplied stored) ↔ SamePayload p q) ∧
          ((applyProtPosting sha256 ulid p db).2 = .error .protIdempotencyConflict ↔
            ¬SamePayload p q) := by
  have hinj := protPayload_inj hp hq
  refine ⟨hinj, fun sha256 db ulid stored hget hwritten hcollision => ?_⟩
  have hcheck : checkPosting sha256 db ulid p = .ok (.duplicate stored) := by
    unfold checkPosting prepareLocked
    rw [hp, hget]
    rfl
  have hsame : stored.payloadHash = protPayloadHash sha256 p ↔ SamePayload p q := by
    rw [hwritten.payloadHash, ← hinj]
    exact ⟨fun h => hcollision (toHex_injective h).symm,
      fun h => by rw [protPayloadHash, protPayloadHash, h]⟩
  unfold applyProtPosting duplicateOutcome
  rw [hcheck, ← hsame]
  dsimp only
  split
  · rename_i hhash
    simp [hhash]
  · rename_i hhash
    simp [hhash]

open Prot.Sample

def credit (tankId : Option String) : ProtPosting where
  key := "purchase:A"
  kind := .purchase
  debit := protSysIssued
  credit := "user:U"
  amount := .exact 500
  debitFloor := 0
  actor := protActorPayments
  reference := { ProtRef.default with orderId := some "A", tankId := tankId }
  reason := none
  createdAt := 0

def credited : ReferenceDb := (applyProtPosting id "R1" (credit none) empty).1

/-- An empty reference is retried without one, and another tank is a conflict. -/
theorem retries_told_from_conflicts_credit :
    protPayload (credit none) = protPayload (credit (some "")) ∧
      (∃ row, (applyProtPosting id "R2" (credit (some "")) credited).2 =
        .ok (.alreadyApplied row)) ∧
      (applyProtPosting id "R2" (credit (some "T")) credited).2 =
        .error .protIdempotencyConflict := by
  have hwritten : ∃ row, credited.protLedger.get "purchase:A" = some row ∧
      WrittenFrom id (credit none) row := ⟨_, rfl, empty, "R1", _, rfl, rfl⟩
  obtain ⟨row, hget, hfrom⟩ := hwritten
  obtain ⟨hpayload, hanswers⟩ :=
    retries_told_from_conflicts (p := credit (some "")) (q := credit none) (by decide) (by decide)
  have hsame : SamePayload (credit (some "")) (credit none) :=
    ⟨rfl, rfl, rfl, rfl, rfl, rfl, rfl, rfl, rfl, rfl, rfl⟩
  have hother := (retries_told_from_conflicts (p := credit (some "T")) (q := credit none)
    (by decide) (by decide)).2 id credited "R2" row hget hfrom fun h => absurd h (by decide +kernel)
  refine ⟨(hpayload.mpr hsame).symm, ⟨row, ?_⟩, hother.2.2.mpr fun h => absurd h.tankId (by decide)⟩
  exact (hanswers id credited "R2" row hget hfrom fun _ => hpayload.mpr hsame).2.1.mpr hsame

/-- **A key moves Prot once.**  After any run a retry of an applied posting answers with the row
that was written, and no posting under the key writes another. -/
theorem applied_once {s t : ReferenceDb} {history : List (ReferenceDb × ProtCall)} {ulid : String}
    {row : ProtLedgerEntry} (happlied : (applyProtPosting sha256 ulid p s).2 = .ok (.applied row))
    (hrun : Run (exec sha256) anyCall (applyProtPosting sha256 ulid p s).1 history t)
    (ulid' : String) : applyProtPosting sha256 ulid' p t = (t, .ok (.alreadyApplied row)) ∧
      ∀ q, q.key = p.key → (applyProtPosting sha256 ulid' q t).1 = t ∧
        ∀ row', (applyProtPosting sha256 ulid' q t).2 ≠ .ok (.applied row') := by
  rcases applyProtPosting_cases sha256 ulid p s with ⟨-, hnot⟩ | ⟨e, hok, hposts, -⟩
  · exact absurd happlied (hnot row)
  obtain rfl : e = row := by
    rw [hok] at happlied
    cases happlied
    rfl
  have hget : t.protLedger.get p.key = some e := by
    refine ledger_grows hrun ?_
    rw [hposts.ledger_eq]
    exact get_insert_self
  refine ⟨?_, fun q hkey => ?_⟩
  · unfold applyProtPosting at hok
    split at hok
    · cases hok
    · unfold duplicateOutcome at hok
      split at hok <;> cases hok
    · rename_i prepared hnew
      cases hok
      obtain ⟨⟨⟩, hvalid, -⟩ := bind_eq_ok.mp hnew
      have hcheck : checkPosting sha256 t ulid' p = .ok (.duplicate prepared.entry) := by
        rw [checkPosting, hvalid, prepareLocked, hget]
        rfl
      have hsame := WrittenFrom.payloadHash ⟨s, ulid, prepared, hnew, rfl⟩
      rw [applyProtPosting, hcheck]
      exact congrArg (Prod.mk t) (if_pos hsame)
  · rcases applyProtPosting_cases sha256 ulid' q t with hkept | ⟨e', -, hposts', -⟩
    · exact hkept
    · cases hget.symm.trans (hkey ▸ hposts'.fresh)

/-- Another purchase is credited and the wallet forfeited before the retry. -/
def creditedAndForfeited : ReferenceDb :=
  execAll (exec digest) (applyProtPosting digest "R1" purchase empty).1
    [.applyProtPosting "R2" (credit none), .forfeitProtWallet "R3" "U" 2000]

theorem applied_once_credit : ∃ row, applyProtPosting digest "R4" purchase creditedAndForfeited =
    (creditedAndForfeited, .ok (.alreadyApplied row)) := by
  have hrun : Run (exec digest) anyCall (applyProtPosting digest "R1" purchase empty).1 _
      creditedAndForfeited := Run.of_admitsAll ⟨trivial, trivial, trivial⟩
  exact ⟨_, (applied_once rfl hrun "R4").1⟩

end SlogaBackend.Prot
