import SlogaBackend.Payments.Leases
import SlogaBackend.Payments.MembershipSwaps

/-!
# Who owns a number

Numbers, memberships and orders are three tables without a common transaction. A number is
claimed for the order of a new purchase, and the membership that the purchase makes holds
it; the order stays the first on the membership's list for as long as there is one. A
number goes back to the pool under the lease of its order, after the membership is gone and
after nobody was seen to hold the number.

`Store.NumbersOwned` says what holds of the three tables. It is kept by what workers know,
and that is the rest of `Ownership`:

* a worker that holds the lease of an order and has looked up its number is right about it,
  since only the holder of the lease puts a number back;
* a worker that holds the lease of an order and saw nobody hold its number is still right,
  since whoever makes a membership with that number holds the same lease.

Both rest on the lease. The third thing they rest on is that a membership is replaced only
by a write computed from it; a membership that was bought again starts at the version of
the one before, and a write computed from that one gives it another owner
(`number_owned_by_another`).
-/

namespace SlogaBackend.Payments

variable {sha256 : List UInt8 → List UInt8}

/-! ## What holds of the tables -/

/-- The number belongs to the order. -/
def Store.Owns (s : Store) (orderId : String) (number : Nat) : Prop :=
  ∃ row, s.numbers.get number = some row ∧ row.orderId = some orderId

structure Store.NumbersOwned (s : Store) : Prop where
  /-- No two memberships hold the same number. -/
  distinct : ∀ userId userId' m m', s.memberships.get userId = some m →
    s.memberships.get userId' = some m' → m.number = m'.number → userId = userId'
  /-- An order is on at most one number row. -/
  single : ∀ orderId number number', s.Owns orderId number → s.Owns orderId number' →
    number = number'
  /-- The number of a membership belongs to the first of its orders. -/
  owned : ∀ userId m, s.memberships.get userId = some m →
    ∃ orderId, m.orders.head? = some orderId ∧ s.Owns orderId m.number

/-- The first order of a membership is a stored new purchase. -/
def Store.BasesNew (s : Store) : Prop :=
  ∀ userId m orderId, s.memberships.get userId = some m → m.orders.head? = some orderId →
    ∃ row, s.orders.get orderId = some row ∧ row.sku.isCipherNew = true

/-- The tables, and what the holders of leases know of numbers. -/
structure Ownership (w : World) : Prop where
  leases : CopiesTrack w
  reads : ReadsTrack w
  tables : w.store.NumbersOwned
  bases : w.store.BasesNew
  known : ∀ pid orderId c number, (w.locals pid).copies.get orderId = some c →
    w.holders.get orderId = some pid → (w.locals pid).numbers.get orderId = some number →
    w.store.Owns orderId number
  unheld : ∀ pid orderId c number, (w.locals pid).copies.get orderId = some c →
    w.holders.get orderId = some pid → (w.locals pid).unheld = some number →
    w.store.Owns orderId number →
    ∀ userId m, w.store.memberships.get userId = some m → m.number ≠ number

theorem Ownership.start {store : Store} (hkey : store.Keyed) (htabl : store.NumbersOwned)
    (hbas : store.BasesNew) : Ownership (World.start store) :=
  ⟨CopiesTrack.start hkey, ReadsTrack.start hkey, htabl, hbas,
    fun _ _ _ _ hcp => absurd hcp (by simp [World.start, Local.init]),
    fun _ _ _ _ hcp => absurd hcp (by simp [World.start, Local.init])⟩

/-! ## What a call does to the owners -/

variable {w : World} {number pid : Nat} {m m' : CipherMembership} {orderId : String}

theorem owner_kept (hkey : w.store.Keyed) (pid : Nat) (c : Call) (h : w.store.Owns orderId number) :
    (w.perform sha256 pid c).1.store.Owns orderId number ∨ c = .numbers (.release orderId) := by
  obtain ⟨row, hg, hord⟩ := h
  cases numberStep sha256 hkey pid c with
  | same htab => exact .inl ⟨row, by rw [htab, hg], hord⟩
  | claimed orderId' cap number' row' hcl hunc hg' hfr htab =>
    refine .inl ⟨row, ?_, hord⟩
    rw [htab, get_insert, if_neg, hg]
    rintro rfl
    obtain rfl : row' = row := some.inj (hg'.symm.trans hg)
    cases hfr.symm.trans hord
  | flagged number' row' at_ hg' htab =>
    by_cases hnum : number = number'
    · subst hnum
      obtain rfl : row' = row := some.inj (hg'.symm.trans hg)
      exact .inl ⟨{ row' with releasePendingAt := at_ },
        by rw [htab, get_insert_self], hord⟩
    · exact .inl ⟨row, by rw [htab, get_insert, if_neg hnum, hg], hord⟩
  | putBack orderId' number' row' hcl hg' hord' htab =>
    by_cases hnum : number = number'
    · subst hnum
      obtain rfl : row' = row := some.inj (hg'.symm.trans hg)
      obtain rfl : orderId' = orderId := some.inj (hord'.symm.trans hord)
      exact .inr hcl
    · exact .inl ⟨row, by rw [htab, get_insert, if_neg hnum, hg], hord⟩

theorem owner_cases (hkey : w.store.Keyed) (pid : Nat) (c : Call)
    (h : (w.perform sha256 pid c).1.store.Owns orderId number) : w.store.Owns orderId number ∨
      ((∃ op, c = .numbers op) ∧ (∃ row, w.store.numbers.get number = some row ∧ row.orderId = none) ∧
        (∀ number', ¬ w.store.Owns orderId number') ∧
        ∀ number', (w.perform sha256 pid c).1.store.Owns orderId number' → number' = number) := by
  obtain ⟨row, hg, hord⟩ := h
  cases numberStep sha256 hkey pid c with
  | same htab => exact .inl ⟨row, by rw [← htab, hg], hord⟩
  | claimed orderId' cap number' row' hcl hunc hg' hfr htab =>
    rw [htab, get_insert] at hg
    split at hg
    · rename_i hnum
      subst hnum
      cases hg
      cases hord
      refine .inr ⟨⟨_, hcl⟩, ⟨row', hg', hfr⟩,
        fun n ⟨other, hoth, hown⟩ => hunc n other hoth hown,
        fun n ⟨other, hoth, hown⟩ => ?_⟩
      rw [htab, get_insert] at hoth
      split at hoth
      · assumption
      · exact absurd hown (hunc n other hoth)
    · exact .inl ⟨row, hg, hord⟩
  | flagged number' row' at_ hg' htab =>
    rw [htab, get_insert] at hg
    split at hg
    · rename_i hnum
      subst hnum
      cases hg
      exact .inl ⟨row', hg', hord⟩
    · exact .inl ⟨row, hg, hord⟩
  | putBack orderId' number' row' hcl hg' hord' htab =>
    rw [htab, get_insert] at hg
    split at hg
    · cases hg
      cases hord
    · exact .inl ⟨row, hg, hord⟩

theorem memberships_numbers (pid : Nat) (op : NumberOp) (w : World) :
    (w.perform sha256 pid (.numbers op)).1.store.memberships = w.store.memberships := by
  rcases perform_numbers_cases sha256 op w.store with ⟨e, hperf⟩ | hperf
  · rw [perform_eq hperf]
    rfl
  · rw [perform_eq hperf]
    rfl

/-! ## What a worker learns -/

/-- The answer to a call on the numbers tells which number an order has. -/
def NumberOp.Tells (orderId : String) (number : Nat) : (op : NumberOp) → Result op.Value → Prop
  | .claim orderId' _, answer => orderId' = orderId ∧ answer = .ok (some number)
  | .fetchByOrder orderId', answer => orderId' = orderId ∧ answer = .ok (some number)
  | .fetchRowByOrder orderId', answer =>
    orderId' = orderId ∧ ∃ row : CipherNumber, answer = .ok (some row) ∧ row.number = number
  | _, _ => False

variable {op : NumberOp}

/-- A worker knows a number from this answer or from before, and forgets it when it puts
the number back. -/
theorem Local.noteNumber_cases {l : Local} {answer : Result op.Value}
    (h : (l.noteNumber op answer).numbers.get orderId = some number) :
    op.Tells orderId number answer ∨
      (l.numbers.get orderId = some number ∧ op ≠ .release orderId) := by
  have hins : ∀ orderId' number', (l.numbers.insert orderId' number').get orderId = some number →
      (orderId' = orderId ∧ number' = number) ∨ l.numbers.get orderId = some number := by
    intro orderId' number' hg
    rw [get_insert] at hg
    split at hg
    · rename_i hid
      exact .inl ⟨hid.symm, some.inj hg⟩
    · exact .inr hg
  cases op with
  | claim orderId' cap | fetchByOrder orderId' =>
    match answer with
    | .ok (some number') =>
      rcases hins orderId' number' h with ⟨rfl, rfl⟩ | hbef
      · exact .inl ⟨rfl, rfl⟩
      · exact .inr ⟨hbef, fun heq => by cases heq⟩
    | .ok none | .error _ => exact .inr ⟨h, fun heq => by cases heq⟩
  | fetchRowByOrder orderId' =>
    match answer with
    | .ok (some row) =>
      rcases hins orderId' row.number h with ⟨rfl, rfl⟩ | hbef
      · exact .inl ⟨rfl, row, rfl, rfl⟩
      · exact .inr ⟨hbef, fun heq => by cases heq⟩
    | .ok none | .error _ => exact .inr ⟨h, fun heq => by cases heq⟩
  | release orderId' =>
    change (l.numbers.erase orderId').get orderId = some number at h
    rw [get_erase] at h
    split at h
    · cases h
    · rename_i hid
      refine .inr ⟨h, fun heq => ?_⟩
      cases heq
      exact hid rfl
  | _ => exact .inr ⟨h, fun heq => by cases heq⟩

theorem owns_of_tells (hkey : w.store.Keyed)
    (h : op.Tells orderId number (w.perform sha256 pid (.numbers op)).2) :
    (w.perform sha256 pid (.numbers op)).1.store.Owns orderId number := by
  rcases perform_numbers_cases sha256 op w.store with ⟨e, hperf⟩ | hperf
  · rw [perform_eq hperf] at h
    cases op with
    | claim orderId' cap | fetchByOrder orderId' => cases h.2
    | fetchRowByOrder orderId' =>
      obtain ⟨-, row, hrow, -⟩ := h
      cases hrow
    | _ => exact False.elim h
  · rw [perform_eq hperf] at h ⊢
    cases op with
    | claim orderId' cap =>
      obtain ⟨rfl, hans⟩ := h
      have hans' : (claimCipherNumber orderId' cap w.store.numbers).2 = .ok (some number) := hans
      rcases claimCipherNumber_cases hkey.numbers orderId' cap with
        ⟨hsm, htl⟩ | ⟨number', row, hg, hfr, hunc, heq⟩
      · obtain ⟨row, hg, hord⟩ := htl number hans'
        exact ⟨row, (congrArg (fun numbers => Table.get numbers number) hsm).trans hg, hord⟩
      · rw [heq] at hans'
        obtain rfl : number' = number := some.inj (ok.inj hans')
        refine ⟨{ row with orderId := some orderId' }, ?_, rfl⟩
        have htab := congrArg (fun result => Table.get result.1 number') heq
        exact htab.trans get_insert_self
    | fetchByOrder orderId' =>
      obtain ⟨rfl, hans⟩ := h
      have hfet : fetchCipherNumberByOrder orderId' w.store.numbers = some number := ok.inj hans
      obtain ⟨row, hrow, rfl⟩ := map_eq_some_iff.mp hfet
      obtain ⟨hg, hord⟩ := get_of_fetchRow hkey.numbers hrow
      exact ⟨row, hg, hord⟩
    | fetchRowByOrder orderId' =>
      obtain ⟨rfl, row, hans, rfl⟩ := h
      obtain ⟨hg, hord⟩ := get_of_fetchRow hkey.numbers (ok.inj hans)
      exact ⟨row, hg, hord⟩
    | _ => exact False.elim h

/-- What a worker knows of numbers after a call is so, or it knew it before and did not put
the number back. -/
theorem number_learned (hkey : w.store.Keyed) (pid : Nat) (c : Call)
    (h : ((w.perform sha256 pid c).1.locals pid).numbers.get orderId = some number) :
    (w.perform sha256 pid c).1.store.Owns orderId number ∨
      ((w.locals pid).numbers.get orderId = some number ∧ c ≠ .numbers (.release orderId)) := by
  rw [locals_own sha256 pid c w] at h
  cases c with
  | numbers op =>
    rcases Local.noteNumber_cases h with htel | ⟨hbef, hop⟩
    · exact .inl (owns_of_tells hkey htel)
    · exact .inr ⟨hbef, fun heq => hop (Call.numbers.inj heq)⟩
  | orders op => exact .inr ⟨Local.noteOrder_numbers h, fun heq => by cases heq⟩
  | memberships op =>
    refine .inr ⟨?_, fun heq => by cases heq⟩
    rw [← (Local.noteMembership_frame _ op _).2.2.1]
    exact h
  | stripe op =>
    refine .inr ⟨?_, fun heq => by cases heq⟩
    change ((w.locals pid).noteStripe op _).numbers.get orderId = some number at h
    rcases (w.locals pid).noteStripe_frame op (w.perform sha256 pid (.stripe op)).2 with
      hnt | hnt
    · rw [hnt] at h
      exact h
    · rw [hnt] at h
      exact h
  | _ => exact .inr ⟨h, fun heq => by cases heq⟩

/-- A worker saw a number without a holder in this call or before, and forgets it when it
writes a membership. -/
theorem unheld_learned (pid : Nat) (c : Call)
    (h : ((w.perform sha256 pid c).1.locals pid).unheld = some number) :
    (∀ userId m, (w.perform sha256 pid c).1.store.memberships.get userId = some m →
        m.number ≠ number) ∨
      ((w.locals pid).unheld = some number ∧ (∀ m, c ≠ .memberships (.insert m)) ∧
        ∀ m expected, c ≠ .memberships (.update m expected)) := by
  rw [locals_own sha256 pid c w] at h
  cases c with
  | memberships op =>
    cases op with
    | fetchByNumber number' =>
      rcases perform_memberships_cases sha256 (.fetchByNumber number') w.store with
        ⟨e, hperf⟩ | hperf
      · rw [perform_eq hperf] at h
        exact .inr ⟨h, fun _ heq => (by cases heq), fun _ _ heq => by cases heq⟩
      · cases hfet : fetchCipherMembershipByNumber number' w.store.memberships with
        | none =>
          have hrun : (MembershipOp.run (.fetchByNumber number') w.store.memberships).2 = .ok none :=
            congrArg Except.ok hfet
          rw [perform_eq hperf, hrun] at h
          cases h
          refine .inl fun userId m hg hnum => ?_
          have hg' : w.store.memberships.get userId = some m := by
            rw [perform_eq hperf] at hg
            exact hg
          have := List.find?_eq_none.mp hfet m (mem_values_of_get hg')
          exact this (by simpa using hnum)
        | some m =>
          have hrun : (MembershipOp.run (.fetchByNumber number') w.store.memberships).2 =
              .ok (some m) := congrArg Except.ok hfet
          rw [perform_eq hperf, hrun] at h
          exact .inr ⟨h, fun _ heq => (by cases heq), fun _ _ heq => by cases heq⟩
    | insert m | update m expected => cases h
    | fetch userId =>
      refine .inr ⟨?_, fun _ heq => (by cases heq), fun _ _ heq => by cases heq⟩
      revert h
      generalize (w.perform sha256 pid (.memberships (.fetch userId))).2 = answer
      match answer with
      | .ok _ => exact fun h => h
      | .error _ => exact fun h => h
    | delete userId | deleteIfVersion userId expected =>
      exact .inr ⟨h, fun _ heq => (by cases heq), fun _ _ heq => by cases heq⟩
  | orders op =>
    refine .inr ⟨?_, fun _ heq => (by cases heq), fun _ _ heq => by cases heq⟩
    exact Local.noteOrder_unheld h
  | numbers op =>
    refine .inr ⟨?_, fun _ heq => (by cases heq), fun _ _ heq => by cases heq⟩
    rw [← (Local.noteNumber_frame _ op _).2.2.2.1]
    exact h
  | stripe op =>
    refine .inr ⟨?_, fun _ heq => (by cases heq), fun _ _ heq => by cases heq⟩
    change ((w.locals pid).noteStripe op _).unheld = some number at h
    rcases (w.locals pid).noteStripe_frame op (w.perform sha256 pid (.stripe op)).2 with
      hnt | hnt
    · rw [hnt] at h
      exact h
    · rw [hnt] at h
      exact h
  | _ => exact .inr ⟨h, fun _ heq => (by cases heq), fun _ _ heq => by cases heq⟩

/-! ## Where a membership comes from -/

def Call.WritesMembership (c : Call) : Prop :=
  (∃ m, c = .memberships (.insert m)) ∨ ∃ m expected, c = .memberships (.update m expected)

/-- The worker founds a membership on an order it holds, under the number it looked up. -/
structure Local.FoundsOn (l : Local) (m : CipherMembership) (orderId : String) : Prop where
  head : m.orders.head? = some orderId
  number : l.numbers.get orderId = some m.number
  copy : ∃ c, l.copies.get orderId = some c ∧ c.sku.isCipherNew = true

theorem Local.Founds.foundsOn {l : Local} (h : l.Founds m orderId) : l.FoundsOn m orderId := by
  obtain ⟨c, hcp, -, hsku⟩ := h.paying
  exact ⟨by rw [h.orders]; rfl, h.number, c, hcp, hsku⟩

section

variable (h : Ownership w)
include h

variable {userId orderId : String}

theorem Ownership.replaced_cases {next : CipherMembership}
    (hg : w.store.memberships.get userId = some m) (hrep : (w.locals pid).Replaces m next) :
    (next.number = m.number ∧ next.orders.head? = m.orders.head?) ∨
      ∃ orderId, (w.locals pid).FoundsOn next orderId := by
  obtain ⟨base, hbs, -⟩ := h.tables.owned userId m hg
  cases hrep with
  | kept hnum horde => exact .inl ⟨hnum, by rw [horde]⟩
  | extended orderId c hcp hpayin hnum horde =>
    refine .inl ⟨hnum, ?_⟩
    rw [horde, List.head?_append, hbs]
    rfl
  | shrunk orderId c hcp hsku hnum horde =>
    refine .inl ⟨hnum, ?_⟩
    -- an order that is rolled back is an upgrade, and the first order is not
    have hne : base ≠ orderId := by
      rintro rfl
      obtain ⟨row, hrow, hnew⟩ := h.bases userId m base hg hbs
      obtain ⟨row', hrow', htrk⟩ := h.leases.copies pid base c hcp
      cases hrow'.symm.trans hrow
      rw [htrk.sku, hsku] at hnew
      cases hnew
    obtain ⟨rest, hrs⟩ : ∃ rest, m.orders = base :: rest := List.head?_eq_some_iff.mp hbs
    rw [horde, hrs, List.filter_cons_of_pos (by simpa using hne)]
    rfl
  | founded orderId hfoun => exact .inr ⟨orderId, hfoun.foundsOn⟩

/-- **Where a membership comes from.** Its number and its first order are those of a
membership that was stored before, or the worker founded it just now. -/
theorem Ownership.origin {c : Call} (hmay : (w.locals pid).may c) (hpres : w.ReadsPresent pid c)
    (hg' : (w.perform sha256 pid c).1.store.memberships.get userId = some m') :
    (∃ m, w.store.memberships.get userId = some m ∧ m'.number = m.number ∧
        m'.orders.head? = m.orders.head?) ∨
      (c.WritesMembership ∧ ∃ orderId, (w.locals pid).FoundsOn m' orderId) := by
  cases membershipStep sha256 pid c w with
  | same htab => exact .inl ⟨m', by rw [← htab, hg'], rfl, rfl⟩
  | inserted m hcl hno hfr htab =>
    subst hcl
    rw [htab, get_insert] at hg'
    split at hg'
    · cases hg'
      obtain ⟨orderId, hfoun⟩ := hmay
      exact .inr ⟨.inl ⟨_, rfl⟩, orderId, hfoun.foundsOn⟩
    · exact .inl ⟨m', hg', rfl, rfl⟩
  | replaced next expected row hcl hg hver hfr htab =>
    subst hcl
    rw [htab, get_insert] at hg'
    split at hg'
    · rename_i huse
      subst huse
      cases hg'
      rcases h.replaced_cases hg (h.reads.replaces_stored hmay hpres hg hver) with
        ⟨hnum, hhd⟩ | ⟨orderId, hfoun⟩
      · exact .inl ⟨row, hg, hnum, hhd⟩
      · exact .inr ⟨.inr ⟨_, _, rfl⟩, orderId, hfoun.head, hfoun.number, hfoun.copy⟩
    · exact .inl ⟨m', hg', rfl, rfl⟩
  | erased userId' htab =>
    rw [htab, get_erase] at hg'
    split at hg'
    · cases hg'
    · exact .inl ⟨m', hg', rfl, rfl⟩
  | bumped userId' row hg htab =>
    rw [htab, get_insert] at hg'
    split at hg'
    · rename_i huse
      subst huse
      cases hg'
      exact .inl ⟨row, hg, rfl, rfl⟩
    · exact .inl ⟨m', hg', rfl, rfl⟩

theorem Ownership.distinct_perform (pid : Nat) (c : Call) {userId' : String}
    (hg : (w.perform sha256 pid c).1.store.memberships.get userId = some m)
    (hg' : (w.perform sha256 pid c).1.store.memberships.get userId' = some m')
    (hnum : m.number = m'.number) : userId = userId' := by
  have hdist := h.tables.distinct
  cases membershipStep sha256 pid c w with
  | same htab =>
    rw [htab] at hg hg'
    exact hdist _ _ _ _ hg hg' hnum
  | inserted m0 hcl hno hfr htab =>
    rw [htab, get_insert] at hg hg'
    split at hg
    · rename_i huse
      cases hg
      split at hg'
      · rename_i huse'
        rw [huse, huse']
      · exact absurd hnum.symm (hfr m' (mem_values_of_get hg'))
    · split at hg'
      · cases hg'
        exact absurd hnum (hfr m (mem_values_of_get hg))
      · exact hdist _ _ _ _ hg hg' hnum
  | replaced next expected row hcl hrow hver hfr htab =>
    have hkey := h.leases.keyed.memberships
    rw [htab, get_insert] at hg hg'
    split at hg
    · rename_i huse
      cases hg
      split at hg'
      · rename_i huse'
        rw [huse, huse']
      · rename_i huse'
        refine absurd hnum.symm (hfr m' (mem_values_of_get hg') ?_)
        rw [hkey userId' m' hg']
        exact huse'
    · rename_i huse
      split at hg'
      · cases hg'
        refine absurd hnum (hfr m (mem_values_of_get hg) ?_)
        rw [hkey userId m hg]
        exact huse
      · exact hdist _ _ _ _ hg hg' hnum
  | erased userId0 htab =>
    rw [htab, get_erase] at hg hg'
    split at hg
    · cases hg
    · split at hg'
      · cases hg'
      · exact hdist _ _ _ _ hg hg' hnum
  | bumped userId0 row hrow htab =>
    rw [htab, get_insert] at hg hg'
    split at hg
    · rename_i huse
      cases hg
      split at hg'
      · rename_i huse'
        rw [huse, huse']
      · rw [huse]
        exact hdist _ _ _ _ hrow hg' hnum
    · split at hg'
      · rename_i huse'
        cases hg'
        rw [huse']
        exact hdist _ _ _ _ hg hrow hnum
      · exact hdist _ _ _ _ hg hg' hnum

/-! ## The invariant of a run -/

theorem Ownership.owns_of_founds (hkp : w.LeasesKept pid)
    (hfoun : (w.locals pid).FoundsOn m orderId) : w.store.Owns orderId m.number := by
  obtain ⟨c, hcp, -⟩ := hfoun.copy
  exact h.known pid orderId c m.number hcp (hkp.holds hcp) hfoun.number

theorem Ownership.released_unheld (hkp : w.LeasesKept pid)
    (hmay : (w.locals pid).may (.numbers (.release orderId)))
    (hg : w.store.memberships.get userId = some m) : m.orders.head? ≠ some orderId := by
  intro hhd
  obtain ⟨c, number, hcp, hnum, hunh⟩ := hmay
  have hhld := hkp.holds hcp
  have how := h.known pid orderId c number hcp hhld hnum
  obtain ⟨base, hbs, hown⟩ := h.tables.owned userId m hg
  obtain rfl : base = orderId := some.inj (hbs.symm.trans hhd)
  exact h.unheld pid base c number hcp hhld hunh how userId m hg
    (h.tables.single base m.number number hown how)

theorem Ownership.free_unheld {row : CipherNumber} (hrow : w.store.numbers.get number = some row)
    (hfr : row.orderId = none) (hg : w.store.memberships.get userId = some m)
    : m.number ≠ number := by
  rintro rfl
  obtain ⟨base, -, row', hrow', hbs⟩ := h.tables.owned userId m hg
  cases hrow'.symm.trans hrow
  cases hfr.symm.trans hbs

/-- An owned number that nobody held is not taken by a call, unless the owner's holder
founds a membership on it. -/
theorem Ownership.unheld_kept {q : Nat} {c : Call} (hmay : (w.locals pid).may c)
    (hkp : w.LeasesKept pid) (hpres : w.ReadsPresent pid c) {copy : PaymentOrder}
    (hcp : (w.locals q).copies.get orderId = some copy) (hhld : w.holders.get orderId = some q)
    (hunh : (w.locals q).unheld = some number) (how : w.store.Owns orderId number)
    (hnot : q = pid → ¬ c.WritesMembership)
    (hg' : (w.perform sha256 pid c).1.store.memberships.get userId = some m') :
    m'.number ≠ number := by
  rcases h.origin hmay hpres hg' with ⟨m, hg, hnum, -⟩ | ⟨hws, base, hfoun⟩
  · rw [hnum]
    exact h.unheld q orderId copy number hcp hhld hunh how userId m hg
  · rintro rfl
    obtain ⟨row, hrow, hord⟩ := how
    obtain ⟨row', hrow', hbs⟩ := h.owns_of_founds hkp hfoun
    cases hrow'.symm.trans hrow
    cases hbs.symm.trans hord
    obtain ⟨c0, hcp0, -⟩ := hfoun.copy
    exact hnot (some.inj (hhld.symm.trans (hkp.holds hcp0))) hws

end

section

variable (h : Ownership w) (pid : Nat) (c : Call) (hmay : (w.locals pid).may c)
  (hkp : w.LeasesKept pid) (hpres : w.ReadsPresent pid c)
include h hmay hkp hpres

theorem Ownership.tables_perform : (w.perform sha256 pid c).1.store.NumbersOwned where
  distinct _ _ _ _ hg hg' hnum := h.distinct_perform pid c hg hg' hnum
  single orderId number number' hown hown' := by
    rcases owner_cases h.leases.keyed pid c hown with hbef | ⟨-, -, hno, hon⟩
    · rcases owner_cases h.leases.keyed pid c hown' with hbef' | ⟨-, -, hno, -⟩
      · exact h.tables.single orderId number number' hbef hbef'
      · exact absurd hbef (hno number)
    · exact (hon number' hown').symm
  owned userId m' hg' := by
    rcases h.origin hmay hpres hg' with ⟨m, hg, hnum, hhd⟩ | ⟨hws, orderId, hfoun⟩
    · obtain ⟨base, hbs, hown⟩ := h.tables.owned userId m hg
      refine ⟨base, hhd.trans hbs, ?_⟩
      rw [hnum]
      rcases owner_kept h.leases.keyed pid c hown with hkp' | rfl
      · exact hkp'
      · exact absurd hbs (h.released_unheld hkp hmay hg)
    · refine ⟨orderId, hfoun.head, ?_⟩
      rcases owner_kept h.leases.keyed pid c (h.owns_of_founds hkp hfoun) with hkp' | rfl
      · exact hkp'
      · rcases hws with ⟨_, hcl⟩ | ⟨_, _, hcl⟩
        · cases hcl
        · cases hcl

/-- **One call.** -/
theorem Ownership.perform : Ownership (w.perform sha256 pid c).1 := by
  have hkey := h.leases.keyed
  have hoth := locals_other sha256 pid c w
  refine ⟨h.leases.perform pid c (Local.writesHeld_of_may hmay), h.reads.perform pid c, h.tables_perform pid c hmay hkp
    hpres, fun userId m' orderId hg' hhd' => ?_, fun q orderId copy number hcp hhld
    hnum => ?_, fun q orderId copy number hcp hhld hunh how userId m' hg' => ?_⟩
  · -- the first order of a membership is a new purchase
    rcases h.origin hmay hpres hg' with ⟨m, hg, -, hhd⟩ | ⟨-, base, hfoun⟩
    · obtain ⟨row, hrow, hsku⟩ := h.bases userId m orderId hg (hhd.symm.trans hhd')
      obtain ⟨row', hrow', hsm⟩ := h.leases.order_stays pid c hmay hrow
      exact ⟨row', hrow', by rw [hsm, hsku]⟩
    · obtain rfl : base = orderId := some.inj (hfoun.head.symm.trans hhd')
      obtain ⟨copy, hcp, hsku⟩ := hfoun.copy
      obtain ⟨row, hrow, htrk⟩ := h.leases.copies pid base copy hcp
      obtain ⟨row', hrow', hsm⟩ := h.leases.order_stays pid c hmay hrow
      exact ⟨row', hrow', by rw [hsm, htrk.sku, hsku]⟩
  · -- the number that was looked up
    rcases held_cases hmay hcp hhld with ⟨copy', hcp', hhld'⟩ | ⟨hfor, -⟩
    · have hbef : (w.perform sha256 pid c).1.store.Owns orderId number ∨
          ((w.locals q).numbers.get orderId = some number ∧
            (q = pid → c ≠ .numbers (.release orderId))) := by
        by_cases hq : q = pid
        · subst hq
          rcases number_learned hkey q c hnum with how | ⟨hbef, hnot⟩
          · exact .inl how
          · exact .inr ⟨hbef, fun _ => hnot⟩
        · exact .inr ⟨by rw [← hoth q hq, hnum], fun heq => absurd heq hq⟩
      rcases hbef with how | ⟨hbef, hnot⟩
      · exact how
      · rcases owner_kept hkey pid c (h.known q orderId copy' number hcp' hhld' hbef) with
          how | rfl
        · exact how
        · -- only the holder of the lease puts the number back
          obtain ⟨c0, _, hcp0, -⟩ := hmay
          have hpid := hhld'.symm.trans (hkp.holds hcp0)
          exact absurd rfl (hnot (some.inj hpid))
    · cases hfor.symm.trans hnum
  · -- the number that nobody held
    rcases held_cases hmay hcp hhld with ⟨copy', hcp', hhld'⟩ | ⟨-, hfor⟩
    · have hbef : m'.number ≠ number ∨
          ((w.locals q).unheld = some number ∧ (q = pid → ¬ c.WritesMembership)) := by
        by_cases hq : q = pid
        · subst hq
          rcases unheld_learned q c hunh with hsn | ⟨hbef, hins, hupd⟩
          · exact .inl (hsn userId m' hg')
          · refine .inr ⟨hbef, fun _ hws => ?_⟩
            rcases hws with ⟨m, hcl⟩ | ⟨m, expected, hcl⟩
            · exact hins m hcl
            · exact hupd m expected hcl
        · exact .inr ⟨by rw [← hoth q hq, hunh], fun heq => absurd heq hq⟩
      rcases hbef with hne | ⟨hbef, hnot⟩
      · exact hne
      · rcases owner_cases hkey pid c how with
          how' | ⟨⟨op, rfl⟩, ⟨row, hrow, hfr⟩, -, -⟩
        · exact h.unheld_kept hmay hkp hpres hcp' hhld' hbef how' hnot hg'
        · -- a number that was free until now
          rw [memberships_numbers] at hg'
          exact h.free_unheld hrow hfr hg'
    · cases hfor.symm.trans hunh

end

/-! ## Runs -/

/-- **Numbers are owned.** Take a run in which no lease is taken over while its holder works
and every replacement of a membership comes from a read of the present life. Then in every
state it reaches no two memberships hold the same number, an order is on at most one number
row, and the number of every membership belongs to the first of the membership's orders. -/
theorem numbers_owned {store : Store} (hkeyed : store.Keyed) (htables : store.NumbersOwned)
    (hbases : store.BasesNew) {sys : Deliveries}
    (hreached : Reachable (Deliveries.exec sha256)
      (Deliveries.Admits fun pid c w => w.LeasesKept pid ∧ w.ReadsPresent pid c)
      (Deliveries.idle store) sys) :
    sys.store.store.NumbersOwned := by
  obtain ⟨h, hrun⟩ := hreached
  have hlawful : sys.Lawful Ownership := Deliveries.Lawful.run (fun w hw => hw.leases.keyed)
    (fun pid c w hw hpermits hmay => hw.perform pid c hmay hpermits.1 hpermits.2)
    (Deliveries.lawful_idle (Ownership.start hkeyed htables hbases)) hrun
  exact hlawful.store.tables

/-! ## A number with two owners -/

section

variable (outside : Outside) (orders : List PaymentOrder)

theorem Sample.numbersOwned : (Sample.store outside orders).NumbersOwned := by
  refine ⟨fun userId userId' m m' hg => absurd hg (by simp [store, Store.memberships]),
    fun orderId number number' hown _ => ?_,
    fun userId m hg => absurd hg (by simp [store, Store.memberships])⟩
  obtain ⟨row, hrow, hord⟩ := hown
  have hfr : row.orderId = none :=
    forall_insert (P := fun _ row => row.orderId = none)
      (fun _ _ hg => absurd hg (by simp)) rfl number row hrow
  cases hfr.symm.trans hord

theorem Sample.basesNew : (Sample.store outside orders).BasesNew :=
  fun userId m orderId hg => absurd hg (by simp [store, Store.memberships])

end

namespace Reinsertion

open Sample

/-- The upgrade has read the membership it is about to replace. -/
def read : Deliveries := execAll (Deliveries.exec digest) start upgradeRead

/-- The upgrade has replaced the membership that was bought again. -/
def overwritten : Deliveries := execAll (Deliveries.exec digest) start (boughtAgain ++ [.step 1])

end Reinsertion

open Reinsertion in
/-- A purchase and an upgrade that has read the membership. -/
theorem numbers_owned_upgrade : read.store.store.NumbersOwned := by
  have hreached : Reachable (Deliveries.exec Sample.digest)
      (Deliveries.Admits fun pid c w => w.LeasesKept pid ∧ w.ReadsPresent pid c) start read :=
    Reachable.of_admitsAll (by decide +kernel)
  exact numbers_owned (Sample.keyed _ _) (Sample.numbersOwned _ _) (Sample.basesNew _ _) hreached

open Reinsertion in
/-- **A number owned by another order.** No lease is ever taken over. The upgrade of the
first purchase replaces the membership of the second, and the number of the stored
membership belongs to an order that is not on it. -/
theorem number_owned_by_another :
    Reachable (Deliveries.exec Sample.digest) (Deliveries.Admits fun pid _ w => w.LeasesKept pid)
        start overwritten ∧
      ∃ m row, overwritten.store.store.memberships.get "u" = some m ∧
        overwritten.store.store.numbers.get m.number = some row ∧ m.orders = ["A", "C"] ∧
        row.orderId = some "B" := by
  refine ⟨Reachable.of_admitsAll (by decide +kernel), ?_⟩
  have hmembership : (overwritten.store.store.memberships.get "u").map (fun m => (m.number, m.orders)) =
      some (1, ["A", "C"]) := by decide +kernel
  have hnumber : (overwritten.store.store.numbers.get 1).map CipherNumber.orderId =
      some (some "B") := by decide +kernel
  obtain ⟨m, hget, hm⟩ := map_eq_some_iff.mp hmembership
  obtain ⟨row, hrow, horder⟩ := map_eq_some_iff.mp hnumber
  obtain ⟨hone, horders⟩ := Prod.mk.inj hm
  exact ⟨m, row, hget, by rw [hone, hrow], horders, horder⟩

end SlogaBackend.Payments
