import SlogaBackend.Payments.Steps

/-!
# Compare-and-swap on memberships

Two orders of one user are worked on under different leases, so a membership is protected
by its version alone: a write is computed from a row that was read and goes through when
the stored version is still the one of that row.

That is enough as long as a version names one row for ever. Within one life of a
membership it does: every writer moves the version on, the ledger included
(`MembershipStep`). But a row that is deleted and bought again starts over at version 0,
and then the same version can name two rows, of two purchases. `incarnation` counts the
lives of a user's membership. A worker whose read lies in the present life replaces or
deletes exactly the row it read (`membership_swap_exact`); one whose read lies in an
earlier life may hit a row it never saw (`membership_swap_lost`).
-/

namespace SlogaBackend.Payments

variable {sha256 : List UInt8 → List UInt8}

/-! ## The invariant -/

/-- What a worker read is not ahead of the stored row of the same life, and where the
versions agree it is that row. -/
structure ReadsTrack (w : World) : Prop where
  keyed : w.store.Keyed
  past : ∀ pid m, (w.locals pid).read = some m → w.readIn pid ≤ w.incarnation m.userId
  tracks : ∀ pid m row, (w.locals pid).read = some m → w.readIn pid = w.incarnation m.userId →
    w.store.memberships.get m.userId = some row →
    m.version ≤ row.version ∧ (row.version = m.version → row = m)

theorem ReadsTrack.start {store : Store} (h : store.Keyed) : ReadsTrack (World.start store) :=
  ⟨h, fun _ _ hrd => absurd hrd (by simp [World.start, Local.init]),
    fun _ _ _ hrd => absurd hrd (by simp [World.start, Local.init])⟩

variable {pid expected : Nat} {w : World}

theorem readInAfter_other {q : Nat} (hq : q ≠ pid) (incarnation : String → Nat) (readIn : Nat → Nat)
    (c : Call) (answer : Answer c) :
    World.readInAfter pid incarnation readIn c answer q = readIn q := by
  cases c with
  | memberships op =>
    cases op with
    | fetch userId =>
      match answer with
      | .ok _ => exact update_of_ne hq ..
      | .error _ => rfl
    | _ => rfl
  | _ => rfl

section

variable (sha256 : List UInt8 → List UInt8) (pid : Nat) (c : Call) (w : World)

theorem read_cases (q : Nat) : (((w.perform sha256 pid c).1.locals q).read = (w.locals q).read ∧
        (w.perform sha256 pid c).1.readIn q = w.readIn q) ∨
      ∃ userId, q = pid ∧ c = .memberships (.fetch userId) ∧
        ((w.perform sha256 pid c).1.locals q).read = w.store.memberships.get userId ∧
        (w.perform sha256 pid c).1.readIn q = w.incarnation userId := by
  by_cases hq : q = pid
  · subst hq
    have hown := locals_own sha256 q c w
    cases c with
    | memberships op =>
      cases op with
      | fetch userId =>
        rcases perform_memberships_cases sha256 (.fetch userId) w.store with
          ⟨e, hperf⟩ | hperf
        · rw [perform_eq hperf] at hown ⊢
          exact .inl ⟨congrArg Local.read hown, rfl⟩
        · rw [perform_eq hperf] at hown ⊢
          exact .inr ⟨userId, rfl, rfl, congrArg Local.read hown, update_self ..⟩
      | fetchByNumber number =>
        refine .inl ⟨?_, rfl⟩
        rw [hown]
        generalize (w.perform sha256 q (.memberships (.fetchByNumber number))).2 = answer
        match answer with
        | .ok none => rfl
        | .ok (some _) => rfl
        | .error _ => rfl
      | _ =>
        refine .inl ⟨?_, rfl⟩
        rw [hown]
        rfl
    | orders op =>
      exact .inl ⟨(congrArg Local.read hown).trans (Local.noteOrder_read _ op _), rfl⟩
    | numbers op =>
      exact .inl ⟨(congrArg Local.read hown).trans (Local.noteNumber_frame _ op _).2.1, rfl⟩
    | stripe op =>
      refine .inl ⟨(congrArg Local.read hown).trans ?_, rfl⟩
      change ((w.locals q).noteStripe op _).read = _
      rcases Local.noteStripe_frame (w.locals q) op (w.perform sha256 q (.stripe op)).2 with
        hnt | hnt
      · rw [hnt]
      · rw [hnt]
    | _ => exact .inl ⟨congrArg Local.read hown, rfl⟩
  · refine .inl ⟨congrArg Local.read (locals_other sha256 pid c w q hq), ?_⟩
    exact readInAfter_other hq w.incarnation w.readIn c _

theorem incarnation_le (userId : String) :
    w.incarnation userId ≤ (w.perform sha256 pid c).1.incarnation userId := by
  cases membershipStep sha256 pid c w with
  | inserted m hcl hno hfr htab hinc =>
    rw [hinc]
    by_cases huse : userId = m.userId
    · subst huse
      rw [update_self]
      omega
    · rw [update_of_ne huse]
  | same htab hinc | replaced next expected row hcl hg hver hfr htab hinc
  | erased userId' htab hinc | bumped userId' row hg htab hinc =>
    rw [hinc]

end

variable {userId : String}

theorem row_moves (pid : Nat) (c : Call) {row' : CipherMembership}
    (hlf : (w.perform sha256 pid c).1.incarnation userId = w.incarnation userId)
    (hg' : (w.perform sha256 pid c).1.store.memberships.get userId = some row') :
    w.store.memberships.get userId = some row' ∨
      ∃ row, w.store.memberships.get userId = some row ∧ row'.version = row.version + 1 := by
  cases membershipStep sha256 pid c w with
  | same htab => exact .inl (by rw [← htab, hg'])
  | inserted m hcl hno hfr htab hinc =>
    rw [htab, get_insert] at hg'
    split at hg'
    · rename_i huse
      subst huse
      rw [hinc, update_self] at hlf
      omega
    · exact .inl hg'
  | replaced next expected row hcl hg hver hfr htab =>
    rw [htab, get_insert] at hg'
    split at hg'
    · rename_i huse
      subst huse
      refine .inr ⟨row, hg, ?_⟩
      rw [← some.inj hg', hver]
    · exact .inl hg'
  | erased userId' htab =>
    rw [htab, get_erase] at hg'
    split at hg'
    · cases hg'
    · exact .inl hg'
  | bumped userId' row hg htab =>
    rw [htab, get_insert] at hg'
    split at hg'
    · rename_i huse
      subst huse
      refine .inr ⟨row, hg, ?_⟩
      rw [← some.inj hg']
    · exact .inl hg'

/-- **One call.** -/
theorem ReadsTrack.perform (h : ReadsTrack w) (pid : Nat) (c : Call) :
    ReadsTrack (w.perform sha256 pid c).1 := by
  refine ⟨keyed_perform h.keyed pid c, fun q m hrd => ?_, fun q m row' hrd hlf hg' => ?_⟩
  · rcases read_cases sha256 pid c w q with ⟨hrd', hin⟩ | ⟨userId, -, -, hrd', hin⟩
    · rw [hrd'] at hrd
      rw [hin]
      exact (h.past q m hrd).trans (incarnation_le sha256 pid c w m.userId)
    · have huse : m.userId = userId := h.keyed.memberships userId m (hrd'.symm.trans hrd)
      rw [hin, huse]
      exact incarnation_le sha256 pid c w userId
  · rcases read_cases sha256 pid c w q with
      ⟨hrd', hin⟩ | ⟨userId, rfl, rfl, hrd', hin⟩
    · -- an older read: its life is the present one before and after the call
      rw [hrd'] at hrd
      have hle := h.past q m hrd
      have hle' := incarnation_le sha256 pid c w m.userId
      have hbef : w.readIn q = w.incarnation m.userId := by omega
      rcases row_moves pid c (by omega) hg' with hg | ⟨row, hg, hver⟩
      · exact h.tracks q m row' hrd hbef hg
      · have := (h.tracks q m row hrd hbef hg).1
        exact ⟨by omega, fun heq => by omega⟩
    · -- the read itself: the row that came back is the stored one
      have hsto : w.store.memberships.get userId = some m := hrd'.symm.trans hrd
      have huse : m.userId = userId := h.keyed.memberships userId m hsto
      have hsm : (w.perform sha256 q (.memberships (.fetch userId))).1.store.memberships =
          w.store.memberships := by
        rcases perform_memberships_cases sha256 (.fetch userId) w.store with
          ⟨e, hperf⟩ | hperf
        · rw [perform_eq hperf]
          rfl
        · rw [perform_eq hperf]
          rfl
      rw [hsm, huse, hsto] at hg'
      cases hg'
      exact ⟨le_refl _, fun _ => rfl⟩

/-! ## Compare-and-swap -/

/-- The user a compare-and-swap is about, and the version it expects. -/
def Call.swap : Call → Option (String × Nat)
  | .memberships (.update next expected) => some (next.userId, expected)
  | .memberships (.deleteIfVersion userId expected) => some (userId, expected)
  | _ => none

/-- The compare-and-swap went through. -/
def Call.Swapped : (c : Call) → Answer c → Prop
  | .memberships (.update _ _), answer => answer = Except.ok true
  | .memberships (.deleteIfVersion _ _), answer => answer = Except.ok true
  | _, _ => False

instance (c : Call) (answer : Answer c) : Decidable (c.Swapped answer) := by
  cases c with
  | memberships op =>
    cases op with
    | update _ _ => exact inferInstanceAs (Decidable ((answer : Result Bool) = Except.ok true))
    | deleteIfVersion _ _ => exact inferInstanceAs (Decidable ((answer : Result Bool) = Except.ok true))
    | _ => exact inferInstanceAs (Decidable False)
  | _ => exact inferInstanceAs (Decidable False)

theorem stored_of_swapped {c : Call} (hsw : c.swap = some (userId, expected))
    (hdn : c.Swapped (w.perform sha256 pid c).2) :
    ∃ row, w.store.memberships.get userId = some row ∧ row.version = expected := by
  cases c with
  | memberships op =>
    rcases perform_memberships_cases sha256 op w.store with ⟨e, hperf⟩ | hperf
    · rw [perform_eq hperf] at hdn
      cases op with
      | update next expected' | deleteIfVersion userId' expected' =>
        exact absurd hdn (by simp [Call.Swapped])
      | _ => exact absurd hsw (by simp [Call.swap])
    · rw [perform_eq hperf] at hdn
      cases op with
      | update next expected' =>
        obtain ⟨rfl, rfl⟩ : next.userId = userId ∧ expected' = expected := by
          simpa [Call.swap] using hsw
        rcases updateCipherMembershipIfVersion_cases next expected' w.store.memberships with
          ⟨-, href⟩ | ⟨row, hg, hver, -, -⟩
        · exact absurd hdn href
        · exact ⟨row, hg, hver⟩
      | deleteIfVersion userId' expected' =>
        obtain ⟨rfl, rfl⟩ : userId' = userId ∧ expected' = expected := by
          simpa [Call.swap] using hsw
        rcases deleteCipherMembershipIfVersion_cases userId' expected' w.store.memberships with
          ⟨-, href⟩ | ⟨row, hg, hver, -⟩
        · exact absurd hdn href
        · exact ⟨row, hg, hver⟩
      | _ => exact absurd hsw (by simp [Call.swap])
  | _ => exact absurd hsw (by simp [Call.swap])

theorem read_of_swap {l : Local} {c : Call} (hmay : l.may c)
    (hsw : c.swap = some (userId, expected)) :
    ∃ m, l.read = some m ∧ m.userId = userId ∧ m.version = expected := by
  cases c with
  | memberships op =>
    cases op with
    | update next expected' =>
      obtain ⟨rfl, rfl⟩ : next.userId = userId ∧ expected' = expected := by
        simpa [Call.swap] using hsw
      obtain ⟨m, hrd, huse, hver, -⟩ := hmay
      exact ⟨m, hrd, huse.symm, hver.symm⟩
    | deleteIfVersion userId' expected' =>
      obtain ⟨rfl, rfl⟩ : userId' = userId ∧ expected' = expected := by simpa [Call.swap] using hsw
      obtain ⟨m, hrd, huse, hver⟩ := hmay
      exact ⟨m, hrd, huse.symm, hver.symm⟩
    | _ => exact absurd hsw (by simp [Call.swap])
  | _ => exact absurd hsw (by simp [Call.swap])

theorem ReadsTrack.stored_eq_read (h : ReadsTrack w) {c : Call} {m : CipherMembership}
    (hsw : c.swap = some (userId, expected)) (hdn : c.Swapped (w.perform sha256 pid c).2)
    (hrd : (w.locals pid).read = some m) (huse : m.userId = userId) (hver : m.version = expected)
    (hlf : w.readIn pid = w.incarnation userId) : w.store.memberships.get userId = some m := by
  obtain ⟨row, hg, hrow⟩ := stored_of_swapped hsw hdn
  subst huse
  rw [hg, (h.tracks pid m row hrd hlf hg).2 (hrow.trans hver.symm)]

/-- A replacement that would go through comes from a read of the present life. -/
def World.ReadsPresent (w : World) (pid : Nat) : Call → Prop
  | .memberships (.update next expected) =>
    (w.store.memberships.get next.userId).map CipherMembership.version = some expected →
      w.readIn pid = w.incarnation next.userId
  | _ => True

instance (w : World) (pid : Nat) : ∀ c, Decidable (w.ReadsPresent pid c)
  | .memberships (.update next expected) =>
    inferInstanceAs (Decidable ((w.store.memberships.get next.userId).map
      CipherMembership.version = some expected → w.readIn pid = w.incarnation next.userId))
  | .memberships (.insert _) => isTrue trivial
  | .memberships (.fetch _) => isTrue trivial
  | .memberships (.fetchByNumber _) => isTrue trivial
  | .memberships (.delete _) => isTrue trivial
  | .memberships (.deleteIfVersion _ _) => isTrue trivial
  | .orders _ => isTrue trivial
  | .numbers _ => isTrue trivial
  | .ledger _ => isTrue trivial
  | .users _ => isTrue trivial
  | .stripe _ => isTrue trivial
  | .protSettings => isTrue trivial

/-- Such a replacement takes the place of the row it was computed from, in one of the ways
the rules know. -/
theorem ReadsTrack.replaces_stored (h : ReadsTrack w) {next row : CipherMembership}
    (hmay : (w.locals pid).may (.memberships (.update next expected)))
    (hpres : w.ReadsPresent pid (.memberships (.update next expected)))
    (hg : w.store.memberships.get next.userId = some row) (hver : row.version = expected) :
    (w.locals pid).Replaces row next := by
  obtain ⟨m, hrd, huse, hexp, hrep⟩ := hmay
  have hlf := hpres (by rw [hg, map_some, hver])
  rw [huse] at hlf hg
  rw [(h.tracks pid m row hrd hlf hg).2 (hver.trans hexp)]
  exact hrep

/-- **No lost membership update within one life.** In every state of every interleaving
of deliveries, with crashes and stalls anywhere, a worker about to swap a membership is
about to do so at the version of the row it read last; and when no membership of the user
was inserted since that read and the swap goes through, the stored row is the row it
read. -/
theorem membership_swap_exact {store : Store} (hkeyed : store.Keyed)
    {h : List (Deliveries × Event (PaymentsSettings × Delivery))} {sys : Deliveries}
    (hrun : Run (Deliveries.exec sha256) (Deliveries.Admits fun _ _ _ => True)
      (Deliveries.idle store) h sys)
    (pid : Nat) (c : Call) (userId : String) (expected : Nat) (hnext : sys.nextCall pid = some c)
    (hswap : c.swap = some (userId, expected)) :
    ∃ m, (sys.store.locals pid).read = some m ∧ m.userId = userId ∧ m.version = expected ∧
      (c.Swapped (sys.store.perform sha256 pid c).2 →
        sys.store.readIn pid = sys.store.incarnation userId →
        sys.store.store.memberships.get userId = some m) := by
  have hlawful : sys.Lawful ReadsTrack := Deliveries.Lawful.run (fun w hw => hw.keyed)
    (fun pid c w hw _ _ => hw.perform pid c) (Deliveries.lawful_idle (ReadsTrack.start hkeyed)) hrun
  obtain ⟨m, hread, huser, hversion⟩ := read_of_swap (hlawful.may hnext) hswap
  exact ⟨m, hread, huser, hversion, fun hdone hlife =>
    hlawful.store.stored_eq_read hswap hdone hread huser hversion hlife⟩

/-! ## A membership bought again -/

namespace Reinsertion

open Sample

/-- The purchase the user makes after the first was refunded. -/
def again : PaymentOrder := order "B" (.cipherNew .t99) 9900

def start : Deliveries := Deliveries.idle (store silent [purchase, upgrade, again])

/-- The purchase is fulfilled, and the worker of the upgrade has read the membership. -/
def upgradeRead : List (Event (PaymentsSettings × Delivery)) :=
  delivers 0 (.fulfil "A" (session purchase) 1000) 17 ++
    delivers 1 (.fulfil "C" (session upgrade) 2000) 5

/-- While that worker stalls the purchase is refunded in full, which deletes the
membership and frees the number, and the user buys again. -/
def boughtAgain : List (Event (PaymentsSettings × Delivery)) :=
  upgradeRead ++ delivers 2 (.reverse "A" .refund (some ⟨3000, true, .succeeded⟩) 3000) 27 ++
    delivers 3 (.fulfil "B" (session again) 4000) 17

/-- The membership of the first purchase, and of the second. -/
def first : CipherMembership := freshMembership purchase "u" .t99 1 1000
def second : CipherMembership := freshMembership again "u" .t99 1 4000

/-- What the worker of the upgrade is about to write. -/
def swap : Call := .memberships (.update (upgraded first upgrade .t149) 0)

end Reinsertion

/-- The worker of the upgrade swaps the membership it read, when nothing came between. -/
theorem membership_swap_exact_upgrade :
    (execAll (Deliveries.exec Sample.digest) Reinsertion.start Reinsertion.upgradeRead).store.store.memberships.get
      "u" = some Reinsertion.first := by
  have hadmits : AdmitsAll (Deliveries.exec Sample.digest) (Deliveries.Admits fun _ _ _ => True)
      Reinsertion.start Reinsertion.upgradeRead := by decide +kernel
  obtain ⟨m, hread, -, -, hstored⟩ := membership_swap_exact (Sample.keyed _ _)
    (Run.of_admitsAll hadmits) 1 Reinsertion.swap "u" 0 (by decide +kernel) rfl
  have hm : m = Reinsertion.first := by
    have hfirst : ((execAll (Deliveries.exec Sample.digest) Reinsertion.start
      Reinsertion.upgradeRead).store.locals 1).read = some Reinsertion.first := by decide +kernel
    exact some.inj (hread.symm.trans hfirst)
  rw [← hm]
  exact hstored (by decide +kernel) (by decide +kernel)

/-- **A swap computed from the first purchase replaces the second.** The worker of the
upgrade is about to swap at the version it read, the swap goes through, and the stored row
is not the one it read but the membership of another purchase. -/
theorem membership_swap_lost :
    ∃ sys, Reachable (Deliveries.exec Sample.digest) (Deliveries.Admits fun _ _ _ => True)
        Reinsertion.start sys ∧
      sys.nextCall 1 = some Reinsertion.swap ∧ Reinsertion.swap.swap = some ("u", 0) ∧
      Reinsertion.swap.Swapped (sys.store.perform Sample.digest 1 Reinsertion.swap).2 ∧
      (sys.store.locals 1).read = some Reinsertion.first ∧ Reinsertion.first.version = 0 ∧
      sys.store.store.memberships.get "u" = some Reinsertion.second ∧
      Reinsertion.second ≠ Reinsertion.first :=
  ⟨execAll (Deliveries.exec Sample.digest) Reinsertion.start Reinsertion.boughtAgain,
    Reachable.of_admitsAll (by decide +kernel), by decide +kernel, rfl, by decide +kernel,
    by decide +kernel, rfl, by decide +kernel, by decide⟩

end SlogaBackend.Payments
