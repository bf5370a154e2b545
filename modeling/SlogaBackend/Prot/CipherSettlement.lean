import SlogaBackend.Prot.DoubleEntry

/-!
# A membership's Prot settles to its target

A membership incarnation is named by its base order. Its rows are the ledger
rows that carry that order: grants, each under a key with a sequence number, and
clawbacks, one key for each reversed order. What is posted is the sum of the
grants less what the clawbacks *requested*, so a clawback that found an empty
wallet still settles.

The invariant `Incarnation` is over runs of the calls of one incarnation with
anything else the ledger does in between (`IncarnationCall`): other postings may
fill or empty the wallet, as long as they write no row of the incarnation and
take none of its grant keys.

## The order of the rows

The code adds the rows up in the order of their ids with saturating arithmetic.
Ids are ULIDs from a package outside the repository; they sort by time, and the
sums then run through the amounts posted over time, which stay below `2^32`.
Where two ids of one millisecond come out of order the sums can leave that range,
but by fewer than `2^32` for each row, so nothing saturates below `2^31` rows.
`FreshId` asks of each new row one or the other.
-/

namespace SlogaBackend.Prot

open Checks Payments

/-! ## Sums in any order -/

/-- What one row adds to the posted amount. -/
def postedDelta (row : ProtLedgerEntry) : Int :=
  match row.kind with
  | .cipherFounding => row.amount
  | .cipherUpgrade => row.amount
  | .clawback => -row.requested.getD row.amount
  | _ => 0

/-- The posted amount without saturation. -/
def exactPosted (rows : List ProtLedgerEntry) : Int := (rows.map postedDelta).sum

@[simp] theorem exactPosted_nil : exactPosted [] = 0 := rfl

@[simp] theorem exactPosted_append (rows rows' : List ProtLedgerEntry) :
    exactPosted (rows ++ rows') = exactPosted rows + exactPosted rows' := by
  unfold exactPosted
  rw [map_append, List.sum_append]

@[simp] theorem exactPosted_cons (row : ProtLedgerEntry) (rows : List ProtLedgerEntry) :
    exactPosted (row :: rows) = postedDelta row + exactPosted rows := by
  unfold exactPosted
  rw [map_cons, sum_cons]

/-- Every sum along the list is an `i64`. -/
def Fits (rows : List ProtLedgerEntry) : Prop :=
  ∀ before after, rows = before ++ after → minI64 ≤ exactPosted before ∧ exactPosted before ≤ maxI64

theorem postedAfter_eq_clamp (posted : Int) (row : ProtLedgerEntry)
    (h : minI64 ≤ posted ∧ posted ≤ maxI64) :
    postedAfter posted row = clampI64 (posted + postedDelta row) := by
  have hzr : posted = clampI64 (posted + 0) := by rw [Int.add_zero, clampI64_of_fits h.1 h.2]
  unfold postedAfter postedDelta
  cases row.kind with
  | cipherFounding => rfl
  | cipherUpgrade => rfl
  | clawback => rw [Int.sub_eq_add_neg]
  | _ => exact hzr

variable {rows : List ProtLedgerEntry} {row e : ProtLedgerEntry}
  {ledger : Table String ProtLedgerEntry} {key base userId ulid orderId : String}
  {s t : ReferenceDb} {m : CipherMembership} {p : ProtPosting} {now : Int}

/-- **Nothing saturates where every sum fits.** -/
theorem cipherProtPosted_eq (h : Fits rows) : cipherProtPosted rows = exactPosted rows := by
  induction rows using List.reverseRecOn with
  | nil => rfl
  | append_singleton rows row ih =>
    have hrw : Fits rows := fun before after heq =>
      h before (after ++ [row]) (by rw [heq, append_assoc])
    have hbef := h rows [row] rfl
    have hall := h (rows ++ [row]) [] (append_nil _).symm
    have hfl : cipherProtPosted (rows ++ [row]) = postedAfter (cipherProtPosted rows) row := by
      unfold cipherProtPosted
      rw [List.foldl_append]
      rfl
    rw [hfl, ih hrw, postedAfter_eq_clamp _ _ hbef]
    rw [exactPosted_append, exactPosted_cons, exactPosted_nil, Int.add_zero] at hall ⊢
    exact clampI64_of_fits hall.1 hall.2

theorem Fits.append_singleton (h : Fits rows)
    (hsum : minI64 ≤ exactPosted (rows ++ [row]) ∧ exactPosted (rows ++ [row]) ≤ maxI64) :
    Fits (rows ++ [row]) := by
  intro before after heq
  rcases List.eq_nil_or_concat after with rfl | ⟨after', last, rfl⟩
  · rw [append_nil] at heq
    rw [← heq]
    exact hsum
  · rw [List.concat_eq_append, ← append_assoc] at heq
    exact h before after' (List.append_inj_left' heq rfl)

/-- Each row moves less than `2^32`. -/
def SmallDeltas (rows : List ProtLedgerEntry) : Prop :=
  ∀ row ∈ rows, -2 ^ 32 < postedDelta row ∧ postedDelta row < 2 ^ 32

theorem fits_of_length (hsmal : SmallDeltas rows) (hlen : rows.length < 2 ^ 31) : Fits rows := by
  have hboun : ∀ l : List ProtLedgerEntry, SmallDeltas l →
      -(2 ^ 32 * (l.length : Int)) ≤ exactPosted l ∧ exactPosted l ≤ 2 ^ 32 * (l.length : Int) := by
    intro l hl
    induction l with
    | nil => simp
    | cons row l ih =>
      have hrow := hl row mem_cons_self
      have hrs := ih fun r hr => hl r (mem_cons_of_mem _ hr)
      rw [exactPosted_cons, length_cons]
      omega
  rintro before after rfl
  have hbef := hboun before fun r hr => hsmal r (mem_append_left _ hr)
  rw [length_append] at hlen
  simp only [minI64, maxI64]
  omega

/-! ## Rows of the incarnation -/

theorem membershipRows_insert (row : ProtLedgerEntry) (hfr : ledger.get key = none)
    (hbs : row.reference.membershipOrderId = some base) :
    ∃ before after, membershipRows ledger base = before ++ after ∧
      membershipRows (ledger.insert key row) base = before ++ row :: after ∧
      ((∀ r ∈ membershipRows ledger base, r.id < row.id) → after = []) := by
  have hfil : (ledger.insert key row).values.filter
      (fun r => r.reference.membershipOrderId = some base) =
        row :: ledger.values.filter fun r => r.reference.membershipOrderId = some base := by
    rw [Table.values_insert_of_get_none hfr, List.filter_cons_of_pos (by simpa using hbs)]
  unfold membershipRows
  rw [hfil]
  generalize ledger.values.filter (fun r => r.reference.membershipOrderId = some base) = old
  have htran : ∀ a b c : ProtLedgerEntry, decide (a.id ≤ b.id) = true →
      decide (b.id ≤ c.id) = true → decide (a.id ≤ c.id) = true := by
    intro a b c hab hbc
    exact decide_eq_true (le_trans (of_decide_eq_true hab) (of_decide_eq_true hbc))
  have htot : ∀ a b : ProtLedgerEntry, (decide (a.id ≤ b.id) || decide (b.id ≤ a.id)) = true := by
    intro a b
    simpa using le_total a.id b.id
  obtain ⟨before, after, hnew, hold, -⟩ := List.mergeSort_cons htran htot row old
  refine ⟨before, after, hold, hnew, fun hls => ?_⟩
  -- what follows the new row is not below it
  have hsor := List.pairwise_mergeSort htran htot (row :: old)
  rw [hnew, List.pairwise_append, List.pairwise_cons] at hsor
  refine List.eq_nil_iff_forall_not_mem.mpr fun r hr => ?_
  have hge : row.id ≤ r.id := of_decide_eq_true (hsor.2.1.1 r hr)
  have hlt : r.id < row.id := hls r (by rw [hold]; exact mem_append_right _ hr)
  exact absurd hlt (not_lt.mpr hge)

theorem membershipRows_insert_foreign (hfr : ledger.get key = none)
    (hbs : row.reference.membershipOrderId ≠ some base) :
    membershipRows (ledger.insert key row) base = membershipRows ledger base := by
  unfold membershipRows
  rw [Table.values_insert_of_get_none hfr, List.filter_cons_of_neg (by simpa using hbs)]

theorem mem_membershipRows : row ∈ membershipRows ledger base ↔
      row ∈ ledger.values ∧ row.reference.membershipOrderId = some base := by
  unfold membershipRows
  rw [List.mem_mergeSort, mem_filter, decide_eq_true_eq]

/-! ## Keys -/

theorem founding_ne_upgrade (userId userId' base base' : String) (n n' seq : Nat) :
    protKeyCipherFounding userId n base ≠ protKeyCipherUpgrade userId' n' base' seq := by
  unfold protKeyCipherFounding protKeyCipherUpgrade
  simp only [String.append_assoc]
  exact append_ne_append 8 (by decide) (by decide) (by decide) _ _

theorem grantKey_seq_inj {n n' k k' : Nat}
    (h : grantKey userId n base k = grantKey userId n' base k') : k = k' := by
  unfold grantKey at h
  split at h
  · rename_i hk
    split at h
    · rename_i hk'
      rw [hk, hk']
    · exact absurd h (founding_ne_upgrade _ _ _ _ _ _ _)
  · split at h
    · exact absurd h.symm (founding_ne_upgrade _ _ _ _ _ _ _)
    · exact natRepr_injective (joinColon_inj_last (colon_notMem_repr k) (colon_notMem_repr k') h).2

theorem grantKey_ne_clawback (userId base orderId : String) (n k : Nat) :
    grantKey userId n base k ≠ protKeyClawback orderId := by
  unfold grantKey protKeyClawback
  split
  · unfold protKeyCipherFounding
    simp only [String.append_assoc]
    exact append_ne_append 2 (by decide) (by decide) (by decide) _ _
  · unfold protKeyCipherUpgrade
    simp only [String.append_assoc]
    exact append_ne_append 2 (by decide) (by decide) (by decide) _ _

/-! ## The calls of an incarnation -/

/-- A row written in this state under `ulid` sorts after the incarnation's rows,
or they are few enough for their order not to matter. -/
def FreshId (s : ReferenceDb) (base ulid : String) : Prop :=
  (∀ row ∈ membershipRows s.protLedger base, row.id < ulid) ∨
    (membershipRows s.protLedger base).length + 1 < 2 ^ 31

/-- A membership row of the incarnation; its grant is a `u32`. -/
def MemberOf (base : String) (m : CipherMembership) : Prop :=
  m.orders.head? = some base ∧ m.protGrant < 2 ^ 32

/-- A posting that writes no row of the incarnation and takes no grant key of
it. -/
def Foreign (userId base : String) (p : ProtPosting) : Prop :=
  p.reference.membershipOrderId ≠ some base ∧ ∀ n k, p.key ≠ grantKey userId n base k

/-- The calls of one incarnation: writes that keep the base order first, syncs,
clawbacks of orders that are not older than the base, and whatever else the
ledger does that is foreign to it. -/
inductive IncarnationCall (userId base : String) (s : ReferenceDb) : ProtCall → Prop where
  | write (row : Option CipherMembership) : (∀ m, row = some m → MemberOf base m) →
      IncarnationCall userId base s (.writeMembership userId row)
  | sync (ulid : String) (now : Int) : FreshId s base ulid →
      IncarnationCall userId base s (.syncCipherProt ulid userId now)
  | clawback (ulid orderId : String) (now : Int) : FreshId s base ulid → ¬ orderId < base →
      IncarnationCall userId base s (.clawbackCipherProt ulid userId orderId now)
  | other (call : ProtCall) : (∀ row, call ≠ .writeMembership userId row) →
      (∀ ulid p memberships, PostedBy s call ulid p memberships →
        Foreign userId base p ∧ memberships.get userId = s.cipherMemberships.get userId) →
      IncarnationCall userId base s call

/-- What the rows of an incarnation are: grants to the wallet and clawbacks from
it. -/
inductive OwnRow (userId : String) (row : ProtLedgerEntry) : Prop where
  | grant : isCipherGrant row = true → row.credit = protUserAccount userId → 0 < row.amount →
      row.amount < 2 ^ 32 → OwnRow userId row
  | clawback (orderId : String) (requested : Int) : row.kind = .clawback →
      row.debit = protUserAccount userId → row.key = protKeyClawback orderId →
      row.reference.orderId = some orderId → row.requested = some requested → 0 ≤ row.amount →
      row.amount ≤ requested → requested < 2 ^ 32 → OwnRow userId row

theorem postedDelta_of_grant (h : isCipherGrant row = true) : postedDelta row = row.amount := by
  unfold isCipherGrant at h
  unfold postedDelta
  cases hkn : row.kind <;> simp_all

theorem postedDelta_of_clawback {n : Int} (h : row.kind = .clawback) (hn : row.requested = some n) :
    postedDelta row = -n := by
  unfold postedDelta
  rw [h, hn]
  rfl

theorem OwnRow.small (h : OwnRow userId row) :
    -2 ^ 32 < postedDelta row ∧ postedDelta row < 2 ^ 32 := by
  cases h with
  | grant hgran _ hpos hlt =>
    rw [postedDelta_of_grant hgran]
    omega
  | clawback orderId requested hkn _ _ _ hreq hnon hle hlt =>
    rw [postedDelta_of_clawback hkn hreq]
    omega

structure Incarnation (userId base : String) (s : ReferenceDb) : Prop where
  members : ∀ m, s.cipherMemberships.get userId = some m → MemberOf base m
  own_rows : ∀ row ∈ membershipRows s.protLedger base, OwnRow userId row
  keys : ∀ n k row, s.protLedger.get (grantKey userId n base k) = some row →
    k < cipherProtGrantCount (membershipRows s.protLedger base)
  range : 0 ≤ exactPosted (membershipRows s.protLedger base) ∧
    exactPosted (membershipRows s.protLedger base) < 2 ^ 32
  fits : Fits (membershipRows s.protLedger base)

def postedOf (s : ReferenceDb) (base : String) : Int :=
  cipherProtPosted (membershipRows s.protLedger base)

theorem Incarnation.posted_eq (h : Incarnation userId base s) :
    postedOf s base = exactPosted (membershipRows s.protLedger base) := cipherProtPosted_eq h.fits

theorem Incarnation.empty (hemp : s.EmptyLedger)
    (hmbs : ∀ m, s.cipherMemberships.get userId = some m → MemberOf base m) :
    Incarnation userId base s := by
  have hrw : membershipRows s.protLedger base = [] := by
    rw [hemp.1]
    simp [membershipRows, Table.values]
  refine ⟨hmbs, ?_, ?_, ?_, ?_⟩
  · rw [hrw]
    simp
  · intro n k row hrow
    rw [hemp.1] at hrow
    cases hrow
  · rw [hrw]
    exact ⟨le_refl 0, by decide⟩
  · rw [hrw]
    exact fits_of_length (by simp [SmallDeltas]) (by decide)

theorem target_range (h : MemberOf base m) :
    0 ≤ cipherProtTarget m ∧ cipherProtTarget m < 2 ^ 32 := by
  have hgran := h.2
  unfold cipherProtTarget
  split <;> omega

theorem Incarnation.rows_insert (h : Incarnation userId base s) (hpst : Posts ulid p e s t)
    (hbs : p.reference.membershipOrderId = some base) (hown : OwnRow userId e)
    (hid : FreshId s base ulid)
    (hran : 0 ≤ exactPosted (membershipRows s.protLedger base) + postedDelta e ∧
      exactPosted (membershipRows s.protLedger base) + postedDelta e < 2 ^ 32) :
    exactPosted (membershipRows t.protLedger base) =
        exactPosted (membershipRows s.protLedger base) + postedDelta e ∧
      (∀ row ∈ membershipRows t.protLedger base, OwnRow userId row) ∧
      Fits (membershipRows t.protLedger base) ∧
      cipherProtGrantCount (membershipRows t.protLedger base) =
        cipherProtGrantCount (membershipRows s.protLedger base) +
          if isCipherGrant e then 1 else 0 := by
  obtain ⟨before, after, hold, hnew, hls⟩ :=
    membershipRows_insert e hpst.fresh (hpst.reference_eq ▸ hbs)
  rw [hpst.ledger_eq, hnew]
  have hrw : ∀ row ∈ before ++ e :: after, OwnRow userId row := by
    intro row hrow
    rcases mem_append.mp hrow with hrow | hrow
    · exact h.own_rows row (hold ▸ mem_append_left _ hrow)
    · rcases mem_cons.mp hrow with rfl | hrow
      · exact hown
      · exact h.own_rows row (hold ▸ mem_append_right _ hrow)
  have hsum : exactPosted (before ++ e :: after) =
      exactPosted (membershipRows s.protLedger base) + postedDelta e := by
    rw [hold, exactPosted_append, exactPosted_append, exactPosted_cons]
    omega
  refine ⟨hsum, hrw, ?_, ?_⟩
  · rcases hid with hid | hlen
    · have hnil := hls (fun row hrow => hpst.id_eq ▸ hid row hrow)
      subst hnil
      rw [append_nil] at hold
      refine Fits.append_singleton (hold ▸ h.fits) ?_
      simp only [minI64, maxI64]
      omega
    · refine fits_of_length (fun row hrow => (hrw row hrow).small) ?_
      rw [hold, length_append] at hlen
      rw [length_append, length_cons]
      omega
  · unfold cipherProtGrantCount
    rw [hold, List.filter_append, List.filter_append, length_append, length_append]
    by_cases hgran : isCipherGrant e = true
    · rw [List.filter_cons_of_pos hgran, length_cons, if_pos hgran]
      omega
    · rw [List.filter_cons_of_neg hgran, if_neg hgran]
      omega

theorem get_of_bump {memberships memberships' : Table String CipherMembership} {expected : Nat}
    (hm : memberships.get userId = some m)
    (h : bumpCipherMembershipVersionLocked memberships userId expected = some memberships') :
    memberships'.get userId = some { m with version := expected + 1 } := by
  unfold bumpCipherMembershipVersionLocked at h
  rw [hm] at h
  dsimp only at h
  split at h
  · obtain ⟨next, hnx, rfl⟩ := map_eq_some_iff.mp h
    rw [get_insert_self, (checkedSuccU64_eq_some.mp hnx).2]
  · cases h

section

variable (h : Incarnation userId base s)
include h

theorem Incarnation.keys_insert (hpst : Posts ulid p e s t)
    {count : Nat} (hcnt : cipherProtGrantCount (membershipRows s.protLedger base) ≤ count)
    (hkey : ∀ n k, p.key = grantKey userId n base k → k < count) :
    ∀ n k row, t.protLedger.get (grantKey userId n base k) = some row → k < count := by
  intro n k row hrow
  rw [hpst.ledger_eq, get_insert] at hrow
  split at hrow
  · rename_i heq
    exact hkey n k heq.symm
  · exact lt_of_lt_of_le (h.keys n k row hrow) hcnt

/-- **A sync settles upward.** A sync that posts brings the sum to the target. -/
theorem Incarnation.sync_posts (hid : FreshId s base ulid) (hpst : Posts ulid p e s t)
    (hby : PostedBy s (.syncCipherProt ulid userId now) ulid p t.cipherMemberships) :
    Incarnation userId base t ∧ ∃ m m', s.cipherMemberships.get userId = some m ∧
        t.cipherMemberships.get userId = some m' ∧ cipherProtTarget m' = cipherProtTarget m ∧
        exactPosted (membershipRows t.protLedger base) = cipherProtTarget m := by
  cases hby with
  | sync _ _ _ m base' _ _ hm hbs hpl hbm =>
    have hmb := h.members m hm
    have hsm : base' = base := some.inj (hbs.symm.trans hmb.1)
    subst hsm
    have hpla := planCipherSync_post hpl
    have hpost := h.posted_eq
    unfold postedOf at hpost
    have hlt := hpla.posted_lt
    have hamountEq := hpla.amount_eq
    rw [hpost] at hlt hamountEq
    have htgt := target_range hmb
    have hold := h.range
    -- the row moves exactly what is missing
    have hamo : e.amount =
        cipherProtTarget m - exactPosted (membershipRows s.protLedger base') := by
      have hres := hpst.resolves
      generalize e.requested = requested, e.shortfall = shortfall at hres
      cases hres with
      | exact n hn heq _ =>
        rw [hamountEq] at hn
        rw [heq, ← ProtAmount.exact.inj hn]
      | upTo n hn | all hn => cases hamountEq.symm.trans hn
    have hgran : isCipherGrant e = true := by
      unfold isCipherGrant
      rw [hpst.kind_eq, hpla.kind_eq]
      split <;> simp
    have hown : OwnRow userId e :=
      .grant hgran (hpst.credit_eq.trans hpla.credit_eq) (by omega) (by omega)
    have hdel := postedDelta_of_grant hgran
    obtain ⟨hsum, hrw, hft, hcnt⟩ := h.rows_insert hpst hpla.base_eq hown hid (by omega)
    rw [if_pos hgran] at hcnt
    have hm' := get_of_bump hm hbm
    refine ⟨⟨?_, hrw, ?_, by omega, hft⟩, m, _, hm, hm', rfl, by omega⟩
    · intro m1 hm1
      rw [hm'] at hm1
      cases hm1
      exact hmb
    · rw [hcnt]
      refine h.keys_insert hpst (Nat.le_succ _) fun n k hkey => ?_
      rw [hpla.key_eq] at hkey
      exact Nat.lt_succ_of_le (le_of_eq (grantKey_seq_inj hkey).symm)

/-- **A clawback settles downward.** A clawback that posts brings the sum to the
target, whatever it found in the wallet. -/
theorem Incarnation.clawback_posts (hid : FreshId s base ulid) (hpst : Posts ulid p e s t)
    (hby : PostedBy s (.clawbackCipherProt ulid userId orderId now) ulid p t.cipherMemberships) :
    Incarnation userId base t ∧ ∃ m, s.cipherMemberships.get userId = some m ∧
        exactPosted (membershipRows t.protLedger base) = cipherProtTarget m := by
  cases hby with
  | clawback _ _ _ _ m base' _ _ hm hbs holder hpl hbm =>
    have hmb := h.members m hm
    have hsm : base' = base := some.inj (hbs.symm.trans hmb.1)
    subst hsm
    have hpla := planCipherClawback_some hpl
    have hpost := h.posted_eq
    unfold postedOf at hpost
    have hlt := hpla.target_lt
    have hamountEq := hpla.amount_eq
    rw [hpost] at hlt hamountEq
    have htgt := target_range hmb
    have hold := h.range
    have hrequ : e.requested =
          some (exactPosted (membershipRows s.protLedger base') - cipherProtTarget m) ∧
        0 ≤ e.amount ∧
        e.amount ≤ exactPosted (membershipRows s.protLedger base') - cipherProtTarget m := by
      have hres := hpst.resolves
      generalize e.requested = requested, e.shortfall = shortfall at hres ⊢
      cases hres with
      | exact n hn | all hn => cases hamountEq.symm.trans hn
      | upTo n hn hnon hle _ =>
        rw [hamountEq] at hn
        rw [ProtAmount.upTo.inj hn]
        exact ⟨rfl, hnon, hle⟩
    obtain ⟨hreq, hnon, hle⟩ := hrequ
    have hkn : e.kind = .clawback := hpst.kind_eq.trans hpla.kind_eq
    have hown : OwnRow userId e := .clawback orderId _ hkn
      (hpst.debit_eq.trans hpla.debit_eq) (hpst.key_eq.trans hpla.key_eq)
      (by rw [hpst.reference_eq, hpla.order_eq]) hreq hnon hle (by omega)
    have hdel := postedDelta_of_clawback hkn hreq
    obtain ⟨hsum, hrw, hft, hcnt⟩ := h.rows_insert hpst hpla.base_eq hown hid (by omega)
    refine ⟨⟨?_, hrw, ?_, by omega, hft⟩, m, hm, by omega⟩
    · intro m1 hm1
      rw [get_of_bump hm hbm] at hm1
      cases hm1
      exact hmb
    · refine h.keys_insert hpst (by omega) fun n k hkey => ?_
      rw [hpla.key_eq] at hkey
      exact absurd hkey.symm (grantKey_ne_clawback _ _ _ _ _)

theorem Incarnation.foreign_posts (hpst : Posts ulid p e s t) (hfor : Foreign userId base p)
    (hm : t.cipherMemberships.get userId = s.cipherMemberships.get userId) :
    Incarnation userId base t := by
  have hrw : membershipRows t.protLedger base = membershipRows s.protLedger base := by
    rw [hpst.ledger_eq]
    exact membershipRows_insert_foreign hpst.fresh (hpst.reference_eq ▸ hfor.1)
  refine ⟨hm ▸ h.members, hrw ▸ h.own_rows, ?_, hrw ▸ h.range, hrw ▸ h.fits⟩
  rw [hrw]
  exact h.keys_insert hpst (le_refl _) fun n k hkey => absurd hkey (hfor.2 n k)

end

variable {sha256 : List UInt8 → List UInt8}

theorem Incarnation.step {call : ProtCall} (h : Incarnation userId base s)
    (hcl : IncarnationCall userId base s call) :
    Incarnation userId base (exec sha256 s call).1 := by
  cases hcl with
  | write row hrow =>
    refine ⟨fun m hm => ?_, h.own_rows, h.keys, h.range, h.fits⟩
    cases row with
    | none =>
      have hm' : (s.cipherMemberships.erase userId).get userId = some m := hm
      rw [get_erase, if_pos rfl] at hm'
      cases hm'
    | some m' =>
      have hm' : (s.cipherMemberships.insert userId m').get userId = some m := hm
      rw [get_insert_self] at hm'
      exact some.inj hm' ▸ hrow m' rfl
  | sync ulid now hid =>
    rcases exec_cases sha256 s (.syncCipherProt ulid userId now) with
      ⟨hkp, -⟩ | ⟨u, row, heq⟩ | ⟨ulid', p, e, hpst, hby, -⟩
    · rw [hkp]
      exact h
    · cases heq
    · have hul : ulid' = ulid := by
        cases hby
        rfl
      subst hul
      exact (h.sync_posts hid hpst hby).1
  | clawback ulid orderId now hid holder =>
    rcases exec_cases sha256 s (.clawbackCipherProt ulid userId orderId now) with
      ⟨hkp, -⟩ | ⟨u, row, heq⟩ | ⟨ulid', p, e, hpst, hby, -⟩
    · rw [hkp]
      exact h
    · cases heq
    · have hul : ulid' = ulid := by
        cases hby
        rfl
      subst hul
      exact (h.clawback_posts hid hpst hby).1
  | other _ hw hfor =>
    rcases exec_cases sha256 s call with ⟨hkp, -⟩ | ⟨u, row, rfl⟩ | ⟨ulid, p, e, hpst, hby, -⟩
    · rw [hkp]
      exact h
    · have hu : userId ≠ u := by
        rintro rfl
        exact hw row rfl
      refine ⟨fun m hm => h.members m ?_, h.own_rows, h.keys, h.range, h.fits⟩
      rw [← hm]
      cases row with
      | none => exact ((get_erase _ _ _).trans (if_neg hu)).symm
      | some m' => exact ((get_insert _ _ _ _).trans (if_neg hu)).symm
    · obtain ⟨hp, hm⟩ := hfor ulid p _ hby
      exact h.foreign_posts hpst hp hm

/-- **Every run of an incarnation keeps it.** -/
theorem Incarnation.of_run {history : List (ReferenceDb × ProtCall)}
    (hrun : Run (exec sha256) (IncarnationCall userId base) s history t)
    (h : Incarnation userId base s) : Incarnation userId base t :=
  hrun.invariant (fun _ _ hcl hs => hs.step hcl) h

/-! ## What the calls answer -/

theorem Incarnation.grant_fresh (h : Incarnation userId base s)
    (hpl : planCipherSync userId m base (membershipRows s.protLedger base) now = .post p) :
    s.protLedger.get p.key = none := by
  rw [(planCipherSync_post hpl).key_eq]
  cases hrow : s.protLedger.get (grantKey userId m.number base
      (cipherProtGrantCount (membershipRows s.protLedger base))) with
  | none => rfl
  | some row => exact absurd (h.keys _ _ row hrow) (lt_irrefl _)

theorem checkPosting_ne_duplicate {stored : ProtLedgerEntry} (hfr : s.protLedger.get p.key = none) :
    checkPosting sha256 s ulid p ≠ .ok (.duplicate stored) := by
  intro h
  unfold checkPosting at h
  simp only [bind_eq_ok] at h
  obtain ⟨-, -, hprep⟩ := h
  unfold prepareLocked at hprep
  rw [hfr] at hprep
  simp only [bind_eq_ok, pure_eq_ok] at hprep
  obtain ⟨resolved, -, debitBalance, -, creditBalance, -, -, -, heq⟩ := hprep
  cases heq

theorem syncCipherProt_idle (hm : s.cipherMemberships.get userId = some m)
    (hbs : m.orders.head? = some base) (hpost : cipherProtTarget m ≤ postedOf s base)
    (ulid : String) (now : Int) : (syncCipherProt sha256 ulid userId now s).1 = s ∧
      ∀ outcome, (syncCipherProt sha256 ulid userId now s).2 ≠ .ok (.posted outcome) := by
  cases hpl : planCipherSync userId m base (membershipRows s.protLedger base) now with
  | done sync =>
    simp only [syncCipherProt, hm, hbs, hpl]
    refine ⟨trivial, fun outcome heq => ?_⟩
    exact (planCipherSync_done hpl).2 outcome (ok.inj heq)
  | post p => exact absurd (planCipherSync_post hpl).posted_lt (not_lt.mpr hpost)

/-- A sync that returns on an active, undisputed membership has reached the
target, and has reached it exactly if it posted. -/
theorem Incarnation.sync_returns {sync : CipherProtSync} (h : Incarnation userId base s)
    (hid : FreshId s base ulid) (hm : s.cipherMemberships.get userId = some m)
    (hact : m.isActive = true) (hund : m.disputedOrders = [])
    (hok : (syncCipherProt sha256 ulid userId now s).2 = .ok sync) :
    ∃ m', (syncCipherProt sha256 ulid userId now s).1.cipherMemberships.get userId = some m' ∧
      m'.orders.head? = some base ∧ cipherProtTarget m' = cipherProtTarget m ∧
      cipherProtTarget m ≤ postedOf (syncCipherProt sha256 ulid userId now s).1 base ∧
      ((∃ outcome, sync = .posted outcome) →
        postedOf (syncCipherProt sha256 ulid userId now s).1 base = cipherProtTarget m) := by
  have hmb := h.members m hm
  rcases syncCipherProt_cases sha256 ulid userId now s with ⟨hkp, hnot⟩ | ⟨p, e, -, hpst, hby⟩
  · -- nothing was written: the plan had nothing to post
    rw [hkp]
    refine ⟨m, hm, hmb.1, rfl, ?_⟩
    cases hpl : planCipherSync userId m base (membershipRows s.protLedger base) now with
    | done sync' =>
      simp only [syncCipherProt, hm, hmb.1, hpl] at hok
      obtain ⟨hreac, hnoRow⟩ := planCipherSync_done hpl
      refine ⟨hreac hact hund, fun hpost => ?_⟩
      obtain ⟨outcome, rfl⟩ := hpost
      exact absurd (ok.inj hok) (hnoRow outcome)
    | post p =>
      exfalso
      simp only [syncCipherProt, hm, hmb.1, hpl] at hok hnot
      cases hchk : checkPosting sha256 s ulid p with
      | error err =>
        rw [hchk] at hok
        cases hok
      | ok checked =>
        rw [hchk] at hok hnot
        cases checked with
        | duplicate stored => exact checkPosting_ne_duplicate (h.grant_fresh hpl) hchk
        | new prepared =>
          cases hbm : bumpCipherMembershipVersionLocked s.cipherMemberships userId m.version with
          | none =>
            rw [hbm] at hok
            cases hok
          | some memberships =>
            rw [hbm] at hnot
            exact hnot _ rfl
  · obtain ⟨hkp, m1, m', hm1, hm', htgt, hsum⟩ := h.sync_posts hid hpst hby
    have hsm : m1 = m := some.inj (hm1.symm.trans hm)
    subst hsm
    have hpost := hkp.posted_eq
    refine ⟨m', hm', (hkp.members m' hm').1, htgt, ?_, fun _ => ?_⟩
    · rw [hpost, hsum]
    · rw [hpost, hsum]

/-- A clawback that returns, for an order without a clawback row, leaves no more
posted than the target. -/
theorem Incarnation.clawback_returns {outcome : Option ProtApplyOutcome}
    (h : Incarnation userId base s) (hid : FreshId s base ulid) (holder : ¬ orderId < base)
    (hrow : s.protLedger.get (protKeyClawback orderId) = none)
    (hm : s.cipherMemberships.get userId = some m)
    (hok : (clawbackCipherProt sha256 ulid userId orderId now s).2 = .ok outcome) :
    postedOf (clawbackCipherProt sha256 ulid userId orderId now s).1 base ≤ cipherProtTarget m := by
  have hmb := h.members m hm
  rcases clawbackCipherProt_cases sha256 ulid userId orderId now s with
    ⟨hkp, hnot⟩ | ⟨p, e, -, hpst, hby⟩
  · rw [hkp]
    by_contra hov
    -- the plan has a posting, its key is free, so the call wrote it or failed
    cases hpl : planCipherClawback userId orderId m base (membershipRows s.protLedger base) now with
    | none => exact hov (planCipherClawback_none hpl)
    | some p =>
      simp only [clawbackCipherProt, hrow, hm, hmb.1, if_neg holder, hpl] at hok hnot
      have hfr : s.protLedger.get p.key = none := by rw [(planCipherClawback_some hpl).key_eq, hrow]
      cases hchk : checkPosting sha256 s ulid p with
      | error err =>
        rw [hchk] at hok
        cases hok
      | ok checked =>
        rw [hchk] at hok hnot
        cases checked with
        | duplicate stored => exact checkPosting_ne_duplicate hfr hchk
        | new prepared =>
          cases hbm : bumpCipherMembershipVersionLocked s.cipherMemberships userId m.version with
          | none =>
            rw [hbm] at hok
            cases hok
          | some memberships =>
            rw [hbm] at hnot
            exact hnot _ rfl
  · obtain ⟨hkp, m1, hm1, hsum⟩ := h.clawback_posts hid hpst hby
    have hsm : m1 = m := some.inj (hm1.symm.trans hm)
    subst hsm
    rw [hkp.posted_eq, hsum]

/-! ## The wallet -/

/-- What the incarnation's grants put into the wallet. -/
def grantedOf (s : ReferenceDb) (base : String) : Int :=
  (((membershipRows s.protLedger base).filter isCipherGrant).map ProtLedgerEntry.amount).sum

/-- What the incarnation's clawbacks took from the wallet. -/
def clawedOf (s : ReferenceDb) (base : String) : Int :=
  (((membershipRows s.protLedger base).filter fun row => row.kind = .clawback).map
    ProtLedgerEntry.amount).sum

theorem exactPosted_le_of_ownRows :
    ∀ {rows : List ProtLedgerEntry}, (∀ row ∈ rows, OwnRow userId row) →
      exactPosted rows ≤ ((rows.filter isCipherGrant).map ProtLedgerEntry.amount).sum -
        ((rows.filter fun row => row.kind = .clawback).map ProtLedgerEntry.amount).sum
  | [], _ => by simp
  | row :: rows, h => by
    have ih := exactPosted_le_of_ownRows fun r hr => h r (mem_cons_of_mem _ hr)
    rw [exactPosted_cons]
    cases h row mem_cons_self with
    | grant hgran _ _ _ =>
      have hkn : row.kind ≠ .clawback := by
        intro hkn
        unfold isCipherGrant at hgran
        rw [hkn] at hgran
        exact absurd hgran (by decide)
      rw [postedDelta_of_grant hgran, List.filter_cons_of_pos hgran,
        List.filter_cons_of_neg (by simpa using hkn), map_cons, sum_cons]
      omega
    | clawback orderId requested hkn _ _ _ hreq _ hle _ =>
      have hgran : ¬ isCipherGrant row = true := by
        unfold isCipherGrant
        rw [hkn]
        decide
      rw [postedDelta_of_clawback hkn hreq, List.filter_cons_of_neg hgran,
        List.filter_cons_of_pos (by simpa using hkn), map_cons, sum_cons]
      omega

theorem Incarnation.clawback_unique (h : Incarnation userId base s) (hbook : Books s)
    {row' : ProtLedgerEntry} (hrow : row ∈ membershipRows s.protLedger base)
    (hrow' : row' ∈ membershipRows s.protLedger base) (hkn : row.kind = .clawback)
    (hkn' : row'.kind = .clawback) (hord : row.reference.orderId = row'.reference.orderId) :
    row = row' := by
  have hkeyOf : ∀ r ∈ membershipRows s.protLedger base, r.kind = .clawback →
      ∃ orderId, r.reference.orderId = some orderId ∧
        s.protLedger.get (protKeyClawback orderId) = some r := by
    intro r hr hk
    cases h.own_rows r hr with
    | grant hgran =>
      unfold isCipherGrant at hgran
      rw [hk] at hgran
      exact absurd hgran (by decide)
    | clawback orderId requested _ _ hkey href _ _ _ _ =>
      obtain ⟨key, hg⟩ := mem_values.mp (mem_membershipRows.mp hr).1
      refine ⟨orderId, href, ?_⟩
      rw [← hkey, hbook.own_key key r hg]
      exact hg
  obtain ⟨orderId, href, hg⟩ := hkeyOf row hrow hkn
  obtain ⟨orderId', href', hg'⟩ := hkeyOf row' hrow' hkn'
  have hsm : orderId = orderId' := by
    rw [href, href'] at hord
    exact some.inj hord
  rw [hsm, hg'] at hg
  exact (some.inj hg).symm

/-- **Cipher Prot settles to its target.** In every run of an incarnation from an
empty ledger: a planned grant finds its key free; a sync that returns on an
active, undisputed membership leaves at least the target posted, exactly the
target if it posted, and the next sync posts nothing; a clawback that returns,
for an order without a clawback row, leaves at most the target posted; an order
has at most one clawback row; and the clawbacks take no more from the wallet than
the grants put in. -/
theorem cipher_prot_settles {userId base : String} {s t : ReferenceDb}
    {history : List (ReferenceDb × ProtCall)} (hempty : s.EmptyLedger)
    (hmembers : ∀ m, s.cipherMemberships.get userId = some m → MemberOf base m)
    (hrun : Run (exec sha256) (IncarnationCall userId base) s history t) :
    (∀ m now p, planCipherSync userId m base (membershipRows t.protLedger base) now = .post p →
      t.protLedger.get p.key = none ∧
        ∀ ulid stored, checkPosting sha256 t ulid p ≠ .ok (.duplicate stored)) ∧
    (∀ ulid now m sync, FreshId t base ulid → t.cipherMemberships.get userId = some m →
      m.isActive = true → m.disputedOrders = [] →
      (syncCipherProt sha256 ulid userId now t).2 = .ok sync →
        cipherProtTarget m ≤ postedOf (syncCipherProt sha256 ulid userId now t).1 base ∧
        ((∃ outcome, sync = .posted outcome) →
          postedOf (syncCipherProt sha256 ulid userId now t).1 base = cipherProtTarget m) ∧
        ∀ ulid' now',
          (syncCipherProt sha256 ulid' userId now' (syncCipherProt sha256 ulid userId now t).1).1 =
              (syncCipherProt sha256 ulid userId now t).1 ∧
            ∀ outcome, (syncCipherProt sha256 ulid' userId now'
              (syncCipherProt sha256 ulid userId now t).1).2 ≠ .ok (.posted outcome)) ∧
    (∀ ulid orderId now m outcome, FreshId t base ulid → ¬ orderId < base →
      t.protLedger.get (protKeyClawback orderId) = none →
      t.cipherMemberships.get userId = some m →
      (clawbackCipherProt sha256 ulid userId orderId now t).2 = .ok outcome →
        postedOf (clawbackCipherProt sha256 ulid userId orderId now t).1 base ≤
          cipherProtTarget m) ∧
    (∀ row ∈ membershipRows t.protLedger base, ∀ row' ∈ membershipRows t.protLedger base,
      row.kind = .clawback → row'.kind = .clawback →
        row.reference.orderId = row'.reference.orderId → row = row') ∧
    (∀ row ∈ membershipRows t.protLedger base, OwnRow userId row) ∧
    clawedOf t base ≤ grantedOf t base := by
  have hincarnation : Incarnation userId base t :=
    Incarnation.of_run hrun (Incarnation.empty hempty hmembers)
  have hbooks : Books t := Books.of_run (hrun.mono fun _ _ _ => trivial) (Books.empty hempty)
  refine ⟨fun m now p hplan => ?_, fun ulid now m sync hid hm hactive hundisputed hok => ?_,
    fun ulid orderId now m outcome hid holder hrow hm hok => ?_,
    fun row hrow row' hrow' hkind hkind' horder => ?_, hincarnation.own_rows, ?_⟩
  · have hfresh := hincarnation.grant_fresh hplan
    exact ⟨hfresh, fun ulid stored => checkPosting_ne_duplicate hfresh⟩
  · obtain ⟨m', hm', hbase, htarget, hreached, hexact⟩ :=
      hincarnation.sync_returns hid hm hactive hundisputed hok
    refine ⟨hreached, hexact, fun ulid' now' => ?_⟩
    exact syncCipherProt_idle hm' hbase (htarget ▸ hreached) ulid' now'
  · exact hincarnation.clawback_returns hid holder hrow hm hok
  · exact hincarnation.clawback_unique hbooks hrow hrow' hkind hkind' horder
  · have hle := exactPosted_le_of_ownRows hincarnation.own_rows
    have hrange := hincarnation.range
    unfold clawedOf grantedOf
    omega

namespace Sample

/-- A new membership with its purchase order. -/
def member : CipherMembership where
  userId := "U"
  number := 7
  tier := .t99
  protGrant := 16500
  orders := ["B"]
  disputedOrders := []
  grantedAt := 1000
  revokedAt := none
  revokeReason := none
  protPostedAt := none
  version := 0

/-- Its member buys a higher rank. -/
def upgraded : CipherMembership :=
  { member with tier := .t149, protGrant := 24800, orders := ["B", "C"] }

/-- The membership is synced before the higher rank is written. -/
def ranked : List ProtCall :=
  [.writeMembership "U" (some member), .syncCipherProt "R1" "U" 2000,
    .writeMembership "U" (some upgraded)]

def raised : ReferenceDb := execAll (exec digest) empty ranked

theorem raised_sync : ((syncCipherProt digest "R2" "U" 3000 raised).2.toOption).isSome = true := by
  decide +kernel

end Sample

open Prot.Sample

/-- The next sync grants what the higher rank adds, and the one after it finds nothing to do. -/
theorem cipher_prot_settles_sample :
    ∃ sync, (syncCipherProt digest "R2" "U" 3000 raised).2 = .ok sync ∧
      24800 ≤ postedOf (syncCipherProt digest "R2" "U" 3000 raised).1 "B" ∧
      (syncCipherProt digest "R3" "U" 4000 (syncCipherProt digest "R2" "U" 3000 raised).1).1 =
        (syncCipherProt digest "R2" "U" 3000 raised).1 := by
  have hadmits : AdmitsAll (exec digest) (IncarnationCall "U" "B") empty ranked := by
    refine ⟨.write _ fun m hm => ?_, .sync _ _ (.inr (by decide +kernel)),
      .write _ fun m hm => ?_, trivial⟩ <;> cases hm <;> exact ⟨rfl, by decide⟩
  have hrun : Run (exec digest) (IncarnationCall "U" "B") empty _ raised := Run.of_admitsAll hadmits
  have hsettles := cipher_prot_settles ⟨rfl, rfl⟩ (fun m hm => absurd hm (by simp [empty])) hrun
  cases hsync : (syncCipherProt digest "R2" "U" 3000 raised).2 with
  | error e => exact absurd raised_sync (by rw [hsync]; simp [Except.toOption])
  | ok sync =>
    have hfresh : FreshId raised "B" "R2" := .inr (by decide +kernel)
    obtain ⟨htarget, -, hidle⟩ := hsettles.2.1 "R2" 3000 upgraded sync hfresh rfl rfl rfl hsync
    exact ⟨sync, rfl, htarget, (hidle "R3" 4000).1⟩

end SlogaBackend.Prot
