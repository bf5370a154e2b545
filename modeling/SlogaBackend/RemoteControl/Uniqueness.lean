import SlogaBackend.Lib.SecondaryIndex
import SlogaBackend.RemoteControl.Conduct

/-!
# Grants and their indexes

A grant is recorded under the channel and the sharer, and four indexes name it. A creation claims
two of these keys if they are free; an end deletes them as they are, and so does it with what is
there by then. A heartbeat adds a member to the expiry index whether the grant is there or not, and
the reaper drops one whose grant it did not find.

`Undisturbed` says of each of these that it comes when it finds what it means. Then the indexes name
the recorded grants, up to what a creation has still to write and an end has still to remove
(`Matched`), and nobody has two.
-/

namespace SlogaBackend.RemoteControl

namespace Stage

def wrote : Stage → Bool
  | created => true
  | granted => true
  | rechecking => true
  | raced => true
  | accepted => true
  | undone => true
  | _ => false

/-- The creation is under way or is being taken back, and the record is there. -/
def keeps : Stage → Bool
  | claimed => true
  | indexed => true
  | refused => true
  | unindexed => true
  | owning => true
  | pointed => true
  | _ => false

/-- The pointer of the id is written. -/
def points (stage : Stage) : Bool := stage = pointed || stage.wrote

/-- The pointer of the controller is. -/
def owns (stage : Stage) : Bool := stage = owning || stage.points

/-- The member of the expiry index is, and it is to stay. -/
def needs (stage : Stage) : Bool := stage = indexed || stage.owns

/-- The member may be there. -/
def shows (stage : Stage) : Bool := stage = refused || stage.needs

variable {stage : Stage}

theorem points_of_wrote (h : stage.wrote = true) : stage.points = true := by simp [points, h]

theorem owns_of_wrote (h : stage.wrote = true) : stage.owns = true := by
  simp [owns, points_of_wrote h]

theorem needs_of_wrote (h : stage.wrote = true) : stage.needs = true := by
  simp [needs, owns_of_wrote h]

theorem shows_of_needs (h : stage.needs = true) : stage.shows = true := by simp [shows, h]

theorem shows_of_owns (h : stage.owns = true) : stage.shows = true :=
  shows_of_needs (by simp [needs, h])

theorem shows_of_points (h : stage.points = true) : stage.shows = true :=
  shows_of_owns (by simp [owns, h])

theorem shows_of_wrote (h : stage.wrote = true) : stage.shows = true :=
  shows_of_needs (needs_of_wrote h)

theorem not_keeps_of_wrote (h : stage.wrote = true) : stage.keeps = false := by
  cases stage <;> first | rfl | cases h

end Stage

namespace World

/-- The recorded grants whose accepts have come to such a stage. -/
def holding (w : World) (p : Stage → Bool) : Set Grant :=
  {grant | w.Recorded grant ∧ ∃ stage, w.phase grant.id = .accept stage grant ∧ p stage = true}

/-- Somebody has deleted a grant here and has not unlisted the sharer. -/
def Unlisting (w : World) (key : GrantKey) : Prop :=
  ∃ pid grant, w.phase pid = .ending .deleted grant ∧ grant.key = key

/-- Somebody has deleted the grant and not dropped the member. -/
def Removing (w : World) (member : ExpiryMember) : Prop :=
  ∃ pid stage grant, w.phase pid = .ending stage grant ∧ stage ≠ .revoked ∧
    grant.expiryMember = member

/-- The grant has been created. -/
def Created (w : World) (grant : Grant) : Prop :=
  ∃ stage, w.phase grant.id = .accept stage grant ∧ stage.wrote = true

/-- The member is of a recorded grant. -/
def Shown (w : World) (p : Stage → Bool) (member : ExpiryMember) : Prop :=
  ∃ grant ∈ w.store.grants.get member.key, grant.expiryMember = member ∧
    ∃ stage, w.phase grant.id = .accept stage grant ∧ p stage = true

/-- A deletion comes to a grant that was created, and finds its keys its own or gone; a sharer is
unlisted where no other grant of the sharer has been created; a heartbeat comes to a grant that is
recorded or being removed; and the reaper drops a member that no grant needs. -/
def Undisturbed (pid : ℕ) (c : Call) (w : World) : Prop :=
  match c with
  | .delRecords grant => w.Created grant ∧ (∀ other ∈ w.store.grants.get grant.key, other = grant) ∧
      ∀ key ∈ w.store.controllers.get grant.controllerId, key = grant.key
  | .sremGrant key => ∀ other ∈ w.store.grants.get key, ¬ w.Created other
  | .zadd member _ => w.phase pid = .start → w.Shown Stage.shows member ∨ w.Removing member
  | .zrem member => w.phase pid = .start → ¬ w.Shown Stage.needs member
  | _ => True

end World

/-- **What is so of records and indexes.** -/
structure Matched (w : World) : Prop where
  recorded : ∀ pid stage grant, w.phase pid = .accept stage grant → stage.keeps = true →
    w.Recorded grant
  standing : ∀ pid grant, w.phase pid = .accept .withdrawn grant → ¬ w.Recorded grant
  deleted : ∀ pid stage grant, w.phase pid = .ending stage grant → stage ≠ .revoked →
    ¬ w.Recorded grant
  pointer : Indexes w.store.grantIds Grant.id Grant.key (w.holding Stage.points)
  controller : Indexes w.store.controllers Grant.controllerId Grant.key (w.holding Stage.owns)
  listed : Lagging {key | key ∈ w.store.channelGrants} Grant.key (w.holding Stage.wrote)
    (w.holding Stage.wrote) w.Unlisting
  expiring : Lagging w.store.expiry.domain Grant.expiryMember (w.holding Stage.needs)
    (w.holding Stage.shows) w.Removing

section Steps

variable {w w' : World} {store : Store} {pid : ℕ} {l : Local} {grant other : Grant}
  {p : Stage → Bool} {stage stage' : Stage} {known known' : List Grant}

/-! ## What a step holds -/

theorem World.mem_holding (hph : w.phase grant.id = .accept stage grant) :
    grant ∈ w.holding p ↔ w.Recorded grant ∧ p stage = true := by
  refine ⟨fun h => ⟨h.1, ?_⟩, fun h => ⟨h.1, stage, hph, h.2⟩⟩
  obtain ⟨-, stage', hph', hp⟩ := h
  obtain ⟨rfl, -⟩ := Phase.accept.inj (hph.symm.trans hph')
  exact hp

theorem World.not_mem_holding (hid : other.id = pid)
    (hacc : ∀ stage, w.phase pid ≠ .accept stage other) : other ∉ w.holding p := by
  rintro ⟨-, stage, hph, -⟩
  exact hacc stage (hid ▸ hph)

theorem World.mem_holding_put
    (hsl : other.id = pid → (other ∈ (w.put store pid l).holding p ↔ other ∈ w.holding p))
    (hreco : other.id ≠ pid → (store.grants.get other.key = some other ↔ w.Recorded other)) :
    other ∈ (w.put store pid l).holding p ↔ other ∈ w.holding p := by
  by_cases hid : other.id = pid
  · exact hsl hid
  show _ ∧ (∃ stage, (w.put store pid l).phase other.id = .accept stage other ∧ _) ↔ _
  rw [World.phase_put_of_ne hid]
  exact and_congr_left fun _ => hreco hid

theorem World.holding_pass (hgran : store.grants = w.store.grants)
    (hacc : ∀ stage other, w.phase pid ≠ .accept stage other)
    (hacc' : ∀ stage other, l.phase ≠ .accept stage other) :
    (w.put store pid l).holding p = w.holding p := by
  refine Set.ext fun other => World.mem_holding_put (fun hid => ?_) fun _ => by rw [hgran]; rfl
  refine iff_of_false (World.not_mem_holding hid fun stage h => ?_)
    (World.not_mem_holding hid fun stage => hacc stage other)
  rw [World.phase_put_self] at h
  exact hacc' stage other h

/-- What is held when the accept of a grant moves. -/
def moved (p : Stage → Bool) (stage stage' : Stage) (grant : Grant) (held : Set Grant) : Set Grant :=
  if p stage' = p stage then held else if p stage' then insert grant held else held \ {grant}

theorem World.holding_move (hid : grant.id = pid) (hl : w.locals pid = ⟨.accept stage grant, known⟩)
    (hgran : store.grants = w.store.grants) (hreco : w.Recorded grant ∨ p stage' = p stage) :
    (w.put store pid ⟨.accept stage' grant, known'⟩).holding p =
      moved p stage stage' grant (w.holding p) := by
  have hph := World.phase_eq hl
  ext other
  by_cases hoth : other = grant
  · subst hoth
    have hph' : (w.put store pid ⟨.accept stage' other, known'⟩).phase other.id =
        .accept stage' other := by rw [hid, World.phase_put_self]
    have hkp : (w.put store pid ⟨.accept stage' other, known'⟩).Recorded other ↔
        w.Recorded other := by
      show store.grants.get _ = _ ↔ _
      rw [hgran]
      rfl
    rw [World.mem_holding hph', hkp, moved]
    split_ifs with hp hp'
    · rw [World.mem_holding (hid ▸ hph), hp]
    · exact iff_of_true ⟨hreco.resolve_right hp, hp'⟩ (Set.mem_insert ..)
    · exact iff_of_false (fun h => hp' h.2) fun h => h.2 rfl
  · have hmov : other ∈ moved p stage stage' grant (w.holding p) ↔ other ∈ w.holding p := by
      unfold moved
      split_ifs <;> simp [hoth]
    rw [hmov]
    refine World.mem_holding_put (fun hid' => ?_) fun _ => by rw [hgran]; rfl
    refine iff_of_false (World.not_mem_holding hid' fun stage h => ?_)
      (World.not_mem_holding hid' fun stage h => ?_)
    · rw [World.phase_put_self] at h
      exact hoth (Phase.accept.inj h).2.symm
    · exact hoth (Phase.accept.inj (hph.symm.trans h)).2.symm

/-! ## What is to be removed -/

theorem World.Unlisting.put {key : GrantKey} (h : w.Unlisting key)
    (hkee : ∀ other, w.phase pid = .ending .deleted other → other.key = key →
      l.phase = .ending .deleted other) : (w.put store pid l).Unlisting key := by
  obtain ⟨q, other, hph, hkey⟩ := h
  refine ⟨q, other, ?_, hkey⟩
  rw [World.phase_put]
  split_ifs with hq
  · exact hkee other (hq ▸ hph) hkey
  · exact hph

theorem World.Removing.put {member : ExpiryMember} (h : w.Removing member)
    (hkee : ∀ stage other, w.phase pid = .ending stage other → stage ≠ .revoked →
      other.expiryMember = member → ∃ stage', l.phase = .ending stage' other ∧ stage' ≠ .revoked) :
    (w.put store pid l).Removing member := by
  obtain ⟨q, stage, other, hph, hstg, hmb⟩ := h
  by_cases hq : q = pid
  · subst hq
    obtain ⟨stage', hph', hstg'⟩ := hkee stage other hph hstg hmb
    exact ⟨q, stage', other, by rw [World.phase_put_self, hph'], hstg', hmb⟩
  · exact ⟨q, stage, other, by rw [World.phase_put_of_ne hq, hph], hstg, hmb⟩

/-! ## One step -/

section

variable (hm : Matched w) (hs : Sourced w)
include hm hs

theorem Matched.put (hacc : ∀ stage other, l.phase = .accept stage other →
      (stage.keeps = true → store.grants.get other.key = some other) ∧
        (stage = .withdrawn → store.grants.get other.key ≠ some other))
    (hendi : ∀ stage other, l.phase = .ending stage other → stage ≠ .revoked →
      store.grants.get other.key ≠ some other)
    (hkp : ∀ stage other, other.id ≠ pid → w.phase other.id = .accept stage other →
      stage.keeps = true → w.Recorded other → store.grants.get other.key = some other)
    (hgn : ∀ other, w.Issued other → ¬ w.Recorded other → store.grants.get other.key ≠ some other)
    (hptr : Indexes store.grantIds Grant.id Grant.key ((w.put store pid l).holding Stage.points))
    (hcon : Indexes store.controllers Grant.controllerId Grant.key
      ((w.put store pid l).holding Stage.owns))
    (hlst : Lagging {key | key ∈ store.channelGrants} Grant.key
      ((w.put store pid l).holding Stage.wrote) ((w.put store pid l).holding Stage.wrote)
      (w.put store pid l).Unlisting) (hexp : Lagging store.expiry.domain Grant.expiryMember
      ((w.put store pid l).holding Stage.needs) ((w.put store pid l).holding Stage.shows)
      (w.put store pid l).Removing) : Matched (w.put store pid l) := by
  refine ⟨fun q stage other h hke => ?_, fun q other h => ?_, fun q stage other h hstg => ?_,
    hptr, hcon, hlst, hexp⟩
  · rw [World.phase_put] at h
    split_ifs at h with hq
    · exact (hacc stage other h).1 hke
    · have hid := hs.own q stage other h
      exact hkp stage other (hid.trans_ne hq) (hid ▸ h) hke (hm.recorded q stage other h hke)
  · rw [World.phase_put] at h
    split_ifs at h with hq
    · exact (hacc _ other h).2 rfl
    · exact hgn other ⟨_, hs.own q _ other h ▸ h⟩ (hm.standing q other h)
  · rw [World.phase_put] at h
    split_ifs at h with hq
    · exact hendi stage other h hstg
    · exact hgn other (hs.ending q stage other h) (hm.deleted q stage other h hstg)

/-- **A step of an accept** that leaves the records. -/
theorem Matched.move
    (hl : w.locals pid = ⟨.accept stage grant, known⟩) (hgran : store.grants = w.store.grants)
    (hstg : stage.keeps = true ∨ stage.wrote = true ∧ stage'.wrote = true)
    (hwit : stage' ≠ .withdrawn) (hptr : Indexes store.grantIds Grant.id Grant.key
      (moved Stage.points stage stage' grant (w.holding Stage.points)))
    (hcon : Indexes store.controllers Grant.controllerId Grant.key
      (moved Stage.owns stage stage' grant (w.holding Stage.owns)))
    (hlst : Lagging {key | key ∈ store.channelGrants} Grant.key
      (moved Stage.wrote stage stage' grant (w.holding Stage.wrote))
      (moved Stage.wrote stage stage' grant (w.holding Stage.wrote)) w.Unlisting)
    (hexp : Lagging store.expiry.domain Grant.expiryMember
      (moved Stage.needs stage stage' grant (w.holding Stage.needs))
      (moved Stage.shows stage stage' grant (w.holding Stage.shows)) w.Removing) :
    Matched (w.put store pid ⟨.accept stage' grant, known'⟩) := by
  have hph := World.phase_eq hl
  have hhold : ∀ p : Stage → Bool, (∀ stage, stage.wrote = true → p stage = true) →
      (w.put store pid ⟨.accept stage' grant, known'⟩).holding p =
        moved p stage stage' grant (w.holding p) := fun p hp =>
    World.holding_move (hs.own pid stage grant hph) hl hgran (hstg.imp
      (hm.recorded pid stage grant hph) fun h => (hp _ h.2).trans (hp _ h.1).symm)
  refine hm.put hs (fun stage0 other h => ?_) nofun
    (fun _ other _ _ _ h => by rw [hgran]; exact h) (fun other _ h => by rw [hgran]; exact h) ?_ ?_
    ?_ ?_
  · obtain ⟨rfl, rfl⟩ := Phase.accept.inj h
    refine ⟨fun hke => ?_, fun h => absurd h hwit⟩
    rw [hgran]
    refine hm.recorded pid stage grant hph (hstg.resolve_right fun hov => ?_)
    exact absurd (hke.symm.trans (Stage.not_keeps_of_wrote hov.2)) (by decide)
  · rwa [hhold _ fun _ => Stage.points_of_wrote]
  · rwa [hhold _ fun _ => Stage.owns_of_wrote]
  · rw [hhold _ fun _ => id]
    exact hlst.mono subset_rfl fun key _ hun => hun.put fun other h => nomatch hph.symm.trans h
  · rw [hhold _ fun _ => Stage.needs_of_wrote, hhold _ fun _ => Stage.shows_of_wrote]
    exact hexp.mono subset_rfl fun member _ hrem =>
      hrem.put fun _ other h => nomatch hph.symm.trans h

/-- **A step of a request that accepts nothing**, and leaves the records. -/
theorem Matched.pass {phase phase' : Phase}
    (hl : w.locals pid = ⟨phase, known⟩) (hacc : ∀ stage other, phase ≠ .accept stage other)
    (hacc' : ∀ stage other, phase' ≠ .accept stage other)
    (hgran : store.grants = w.store.grants) (hids : store.grantIds = w.store.grantIds)
    (hcont : store.controllers = w.store.controllers)
    (hdel : ∀ stage other, phase' = .ending stage other → stage ≠ .revoked → ¬ w.Recorded other)
    (hlst : Lagging {key | key ∈ store.channelGrants} Grant.key (w.holding Stage.wrote)
      (w.holding Stage.wrote) w.Unlisting) (hunl : ∀ other, phase = .ending .deleted other →
      phase' = .ending .deleted other ∨ other.key ∉ store.channelGrants)
    (hexp : Lagging store.expiry.domain Grant.expiryMember (w.holding Stage.needs)
      (w.holding Stage.shows) w.Removing)
    (hrem : ∀ stage other, phase = .ending stage other → stage ≠ .revoked →
      (∃ stage', phase' = .ending stage' other ∧ stage' ≠ .revoked) ∨
        other.expiryMember ∉ store.expiry.domain) : Matched (w.put store pid ⟨phase', known'⟩) := by
  have hph := World.phase_eq hl
  have hhold : ∀ p, (w.put store pid ⟨phase', known'⟩).holding p = w.holding p := fun p =>
    World.holding_pass hgran (fun stage other h => hacc stage other (hph.symm.trans h)) hacc'
  refine hm.put hs (fun stage other h => absurd h (hacc' stage other))
    (fun stage other h hstg => by rw [hgran]; exact hdel stage other h hstg)
    (fun _ other _ _ _ h => by rw [hgran]; exact h) (fun other _ h => by rw [hgran]; exact h)
    ?_ ?_ ?_ ?_
  · rw [hhold, hids]
    exact hm.pointer
  · rw [hhold, hcont]
    exact hm.controller
  · rw [hhold]
    refine hlst.mono subset_rfl fun key hkey hun => hun.put fun other h hoth => ?_
    exact (hunl other (hph.symm.trans h)).resolve_right fun hnot => hnot (hoth ▸ hkey)
  · rw [hhold, hhold]
    refine hexp.mono subset_rfl fun member hmb hr => hr.put fun stage other h hstg hoth => ?_
    exact (hrem stage other (hph.symm.trans h) hstg).resolve_right fun hnot => hnot (hoth ▸ hmb)

/-- **A record is written or dropped** while no index is to name it. -/
theorem Matched.file (hsto : ∃ grants, store = { w.store with grants := grants })
    (hendi : ∀ stage other, w.phase pid ≠ .ending stage other)
    (hloc : l = ⟨.accept stage' grant, known'⟩)
    (hsl : (stage'.keeps = true → store.grants.get grant.key = some grant) ∧
      (stage' = .withdrawn → store.grants.get grant.key ≠ some grant))
    (hreco : ∀ other : Grant, other.id ≠ pid →
      (store.grants.get other.key = some other ↔ w.Recorded other))
    (hgn : ∀ other, w.Issued other → ¬ w.Recorded other → store.grants.get other.key ≠ some other)
    (hshow : stage'.shows = false) (hno : ∀ other, other.id = pid → other ∉ w.holding Stage.shows) :
    Matched (w.put store pid l) := by
  subst hloc
  obtain ⟨grants, rfl⟩ := hsto
  have hhold : ∀ p : Stage → Bool, (∀ stage, p stage = true → stage.shows = true) →
      (w.put { w.store with grants := grants } pid ⟨.accept stage' grant, known'⟩).holding p =
        w.holding p := by
    refine fun p hp => Set.ext fun other => World.mem_holding_put (fun hoth => ?_) (hreco other)
    refine iff_of_false ?_ fun h => hno other hoth ?_
    · rintro ⟨-, stage, h, hstg⟩
      rw [hoth, World.phase_put_self] at h
      obtain ⟨rfl, -⟩ := Phase.accept.inj h
      exact absurd ((hp _ hstg).symm.trans hshow) (by decide)
    · obtain ⟨hrec, stage, hph, hstg⟩ := h
      exact ⟨hrec, stage, hph, hp stage hstg⟩
  refine hm.put hs (fun stage other h => ?_) nofun
    (fun _ other hne _ _ h => (hreco other hne).mpr h) hgn ?_ ?_ ?_ ?_
  · obtain ⟨rfl, rfl⟩ := Phase.accept.inj h
    exact hsl
  · rw [hhold _ fun _ => Stage.shows_of_points]
    exact hm.pointer
  · rw [hhold _ fun _ => Stage.shows_of_owns]
    exact hm.controller
  · rw [hhold _ fun _ => Stage.shows_of_wrote]
    exact hm.listed.mono subset_rfl fun key _ hun =>
      hun.put fun other h _ => absurd h (hendi _ other)
  · rw [hhold _ fun _ => Stage.shows_of_needs, hhold _ fun _ => id]
    exact hm.expiring.mono subset_rfl fun member _ hrem =>
      hrem.put fun stage other h _ _ => absurd h (hendi stage other)

theorem Matched.claims
    (hl : w.locals pid = ⟨.named grant.id, known⟩) (hfr : w.store.grants.get grant.key = none) :
    Matched (w.put { w.store with grants := w.store.grants.insert grant.key grant } pid
      ⟨.accept .claimed grant, known⟩) := by
  have hph := World.phase_eq hl
  have hid : grant.id = pid := hs.named pid grant.id hph
  have hreco : ∀ other : Grant, other.id ≠ pid →
      ((w.store.grants.insert grant.key grant).get other.key = some other ↔ w.Recorded other) := by
    intro other hoth
    rw [get_insert]
    split_ifs with hkey
    · refine iff_of_false (fun h => hoth ?_) fun h => ?_
      · rw [← some.inj h, hid]
      · rw [World.Recorded, hkey, hfr] at h
        cases h
    · rfl
  refine hm.file hs ⟨_, rfl⟩ (fun _ _ h => nomatch hph.symm.trans h) rfl
    ⟨fun _ => get_insert_self, nofun⟩ hreco
    (fun other hiss hgn h => hgn ((hreco other ?_).mp h)) rfl
    fun other hoth => World.not_mem_holding hoth fun _ h => nomatch hph.symm.trans h
  rintro rfl
  obtain ⟨stage, hiss⟩ := hiss
  cases hph.symm.trans hiss

theorem Matched.withdraws (hl : w.locals pid = ⟨.accept .unindexed grant, known⟩) :
    Matched (w.put { w.store with grants := w.store.grants.erase grant.key } pid
      ⟨.accept .withdrawn grant, known⟩) := by
  have hph := World.phase_eq hl
  have hid : grant.id = pid := hs.own pid _ grant hph
  have hgra : w.store.grants.get grant.key = some grant := hm.recorded pid _ grant hph rfl
  refine hm.file hs ⟨_, rfl⟩ (fun _ _ h => nomatch hph.symm.trans h) rfl
    ⟨nofun, fun _ h => ?_⟩ (fun other hoth => ?_) (fun other _ hgn h => hgn (get_of_erase h)) rfl
    fun other hoth hhl => ?_
  · exact absurd (((get_erase ..).trans (if_pos rfl)).symm.trans h) nofun
  · show (w.store.grants.erase grant.key).get other.key = _ ↔ _
    rw [get_erase]
    split_ifs with hkey
    · refine iff_of_false nofun fun h => hoth ?_
      rw [World.Recorded, hkey, hgra] at h
      rw [← some.inj h, hid]
    · rfl
  · obtain ⟨-, stage, h, hstg⟩ := hhl
    rw [hoth, hph] at h
    obtain ⟨rfl, -⟩ := Phase.accept.inj h
    cases hstg

end

theorem World.Created.not_keeps (h : w.Created grant)
    (hph : w.phase grant.id = .accept stage grant) : stage.keeps = false := by
  obtain ⟨stage', hph', hov⟩ := h
  obtain ⟨rfl, -⟩ := Phase.accept.inj (hph.symm.trans hph')
  exact Stage.not_keeps_of_wrote hov

/-- **A deletion** takes the grant out of everything that the one command reaches. -/
theorem Matched.deletes (hm : Matched w) (hs : Sourced w)
    (hl : w.locals pid = ⟨.ending .revoked grant, known⟩)
    (hund : w.Undisturbed pid (.delRecords grant)) :
    Matched (w.put (perform pid (.delRecords grant) w.store).1 pid ⟨.ending .deleted grant, known⟩) := by
  obtain ⟨hcreat, hown, hcon⟩ := hund
  have hph := World.phase_eq hl
  have hreco : ∀ other : Grant, (w.store.grants.erase grant.key).get other.key = some other ↔
      w.Recorded other ∧ other ≠ grant := by
    intro other
    rw [get_erase]
    split_ifs with hkey
    · exact iff_of_false nofun fun h => h.2 (hown other (hkey ▸ h.1))
    · exact ⟨fun h => ⟨h, fun heq => hkey (congrArg Grant.key heq)⟩, And.left⟩
  have hhold : ∀ p, (w.put (perform pid (.delRecords grant) w.store).1 pid
      ⟨.ending .deleted grant, known⟩).holding p = w.holding p \ {grant} := by
    refine fun p => Set.ext fun other => ?_
    show (w.store.grants.erase grant.key).get other.key = some other ∧ _ ↔ _
    rw [hreco, World.phase_put]
    split_ifs with hoth
    · exact iff_of_false (fun ⟨_, _, h, _⟩ => nomatch h)
        fun h => World.not_mem_holding hoth (fun stage h => nomatch hph.symm.trans h) h.1
    · exact and_right_comm
  refine hm.put hs nofun (fun stage other h _ hg => ?_) (fun stage other _ h hke hrec => ?_)
    (fun other _ hgn h => hgn ((hreco other).mp h).1) ?_ ?_ ?_ ?_
  · obtain ⟨-, rfl⟩ := Phase.ending.inj h
    exact ((hreco _).mp hg).2 rfl
  · refine (hreco other).mpr ⟨hrec, ?_⟩
    rintro rfl
    exact absurd (hke.symm.trans (hcreat.not_keeps h)) (by decide)
  · rw [hhold]
    refine hm.pointer.erase fun other hoth hid => ?_
    obtain ⟨stage, hiss, -⟩ := hoth.2
    obtain ⟨stage', hiss', -⟩ := hcreat
    exact World.Issued.unique ⟨stage, hiss⟩ ⟨stage', hiss'⟩ hid
  · rw [hhold]
    refine hm.controller.erase fun other hoth hcontrollerId => hown other ?_
    have hg := hm.controller.get hoth
    rw [hcontrollerId] at hg
    rw [← hcon _ hg]
    exact hoth.1
  · rw [hhold]
    refine hm.listed.forsake fun key h => h.elim (fun hun => ?_) fun hkey => ?_
    · exact hun.put fun _ h => nomatch hph.symm.trans h
    · exact ⟨pid, grant, World.phase_put_self, hkey.symm⟩
  · rw [hhold, hhold]
    refine hm.expiring.forsake fun member h => h.elim (fun hrem => ?_) fun hmb => ?_
    · refine hrem.put fun stage other h hstg => ?_
      exact absurd (Phase.ending.inj (hph.symm.trans h)).1.symm hstg
    · exact ⟨pid, _, grant, World.phase_put_self, nofun, hmb.symm⟩

theorem World.shown_iff {member : ExpiryMember} :
    w.Shown p member ↔ ∃ other ∈ w.holding p, other.expiryMember = member := by
  constructor
  · rintro ⟨other, hg, rfl, hstg⟩
    exact ⟨other, ⟨hg, hstg⟩, rfl⟩
  · rintro ⟨other, ⟨hreco, hstg⟩, rfl⟩
    exact ⟨other, hreco, rfl, hstg⟩

theorem World.eq_of_member (hgra : w.Issued grant) (hoth : other ∈ w.holding p)
    (hmb : other.expiryMember = grant.expiryMember) : other = grant := by
  obtain ⟨-, stage, hph, -⟩ := hoth
  exact World.Issued.unique ⟨stage, hph⟩ hgra (congrArg ExpiryMember.grantId hmb)

variable {c : Call}

/-- **One step.** -/
theorem Matched.step (hm : Matched w) (hs : Sourced w) (hund : w.Undisturbed pid c)
    (hst : Step w pid c w') : Matched w' := by
  cases hst with
  | looks c => exact hm
  | fetches known key hl | names known hl | finds known grant hl =>
    exact hm.pass hs hl nofun nofun rfl rfl rfl nofun hm.listed nofun hm.expiring nofun
  | claims known grant hl hg => exact hm.claims hs hl hg
  | indexes known grant score hl =>
    refine hm.move hs hl rfl (.inl rfl) nofun hm.pointer hm.controller hm.listed ?_
    rw [Table.domain_insert]
    exact hm.expiring.join
  | owns known grant hl hg =>
    exact hm.move hs hl rfl (.inl rfl) nofun hm.pointer (hm.controller.insert hg) hm.listed
      hm.expiring
  | refuses known grant hl =>
    exact hm.move hs hl rfl (.inl rfl) nofun hm.pointer hm.controller hm.listed
      (hm.expiring.mono Set.sdiff_subset fun _ _ => id)
  | unindexes known grant hl =>
    have hph := World.phase_eq hl
    have hiss : w.phase grant.id = .accept .refused grant := by rw [hs.own pid _ grant hph, hph]
    refine hm.move hs hl rfl (.inl rfl) nofun hm.pointer hm.controller hm.listed ?_
    rw [Table.domain_erase]
    refine hm.expiring.leave fun other hoth hmb => ?_
    obtain rfl := World.eq_of_member ⟨_, hiss⟩ hoth hmb
    cases ((World.mem_holding hiss).mp hoth).2
  | withdraws known grant hl => exact hm.withdraws hs hl
  | points known grant hl =>
    have hph := World.phase_eq hl
    refine hm.move hs hl rfl (.inl rfl) nofun (hm.pointer.insert ?_) hm.controller hm.listed
      hm.expiring
    refine Option.eq_none_iff_forall_not_mem.mpr fun key hg => ?_
    -- a grant of this number is this one, and it is not pointed at
    obtain ⟨other, ⟨-, stage, hph', hpoin⟩, hid, -⟩ := (hm.pointer _ _).mp hg
    rw [hid, hs.own pid _ grant hph, hph] at hph'
    obtain ⟨rfl, -⟩ := Phase.accept.inj hph'
    cases hpoin
  | lists known grant hl =>
    refine hm.move hs hl rfl (.inl rfl) nofun hm.pointer hm.controller ?_ hm.expiring
    rw [show {key | key ∈ w.store.channelGrants.insert grant.key} =
      insert grant.key {key | key ∈ w.store.channelGrants} from Set.ext fun _ => List.mem_insert_iff]
    exact hm.listed.join
  | grants known grant hl | passes known grant other key hl hg hid | misses known grant key hl
  | undoes known grant hl =>
    exact hm.move hs hl rfl (.inr ⟨rfl, rfl⟩) nofun hm.pointer hm.controller hm.listed hm.expiring
  | rechecks known grant stage hl hstg =>
    rcases hstg with rfl | rfl
    · exact hm.move hs hl rfl (.inr ⟨rfl, rfl⟩) nofun hm.pointer hm.controller hm.listed hm.expiring
    · exact hm.move hs hl rfl (.inr ⟨rfl, rfl⟩) nofun hm.pointer hm.controller hm.listed hm.expiring
  | revokes known grant hl hmem =>
    refine hm.pass hs hl (by simp) (by simp) rfl rfl rfl (fun stage other h hstg => ?_) hm.listed
      (by simp) hm.expiring (by simp)
    exact absurd (Phase.ending.inj h).1.symm hstg
  | deletes known grant hl => exact hm.deletes hs hl hund
  | unlists known grant hl =>
    have hset : {key | key ∈ (perform pid (.sremGrant grant.key) w.store).1.channelGrants} =
        {key | key ∈ w.store.channelGrants} \ {grant.key} := by
      ext key
      simp [perform]
    refine hm.pass hs hl (by simp) (by simp) rfl rfl rfl (fun stage other h _ => ?_) ?_
      (fun other h => .inr ?_) hm.expiring fun stage other h _ => .inl ⟨.unlisted, ?_, (by simp)⟩
    · obtain ⟨-, rfl⟩ := Phase.ending.inj h
      exact hm.deleted pid _ grant (World.phase_eq hl) (by simp)
    · rw [hset]
      exact hm.listed.drop fun other hoth hkey => hund other (hkey ▸ hoth.1) hoth.2
    · obtain ⟨-, rfl⟩ := Phase.ending.inj h
      exact fun hmem => (hset.subset hmem).2 rfl
    · rw [(Phase.ending.inj h).2]
  | ends known grant hl =>
    have hph := World.phase_eq hl
    refine hm.pass hs hl (by simp) (by simp) rfl rfl rfl (by simp) hm.listed (by simp) ?_
      fun stage other h _ => .inr ?_
    · rw [Table.domain_erase]
      refine hm.expiring.drop fun other hoth hmb => ?_
      obtain rfl := World.eq_of_member (hs.ending pid _ grant hph) hoth hmb
      exact hm.deleted pid _ other hph (by simp) hoth.1
    · rw [Table.domain_erase, ← (Phase.ending.inj h).2]
      exact fun hmem => hmem.2 rfl
  | beats known grant score hl hmem =>
    refine hm.pass hs hl (by simp) (by simp) rfl rfl rfl (by simp) hm.listed (by simp) ?_ (by simp)
    rw [Table.domain_insert]
    exact hm.expiring.add ((hund (World.phase_eq hl)).imp_left World.shown_iff.mp)
  | ejects known channel identity hl =>
    exact hm.pass hs hl (by simp) (by simp) rfl rfl rfl (by simp) hm.listed (by simp) hm.expiring
      (by simp)
  | drops known member hl =>
    refine hm.pass hs hl (by simp) (by simp) rfl rfl rfl (by simp) hm.listed (by simp) ?_ (by simp)
    rw [Table.domain_erase]
    exact hm.expiring.drop fun other hoth hmb => hund (World.phase_eq hl)
      (World.shown_iff.mpr ⟨other, hoth, hmb⟩)

/-! ## Created, and not ended -/

/-- What is created after a step was created before it, if the step is no creation's last, and is
recorded if it was and its record is left. -/
theorem created_of_put {phase : Phase} {known : List Grant} (hl : w.locals pid = ⟨phase, known⟩)
    (hov : ∀ stage, l.phase = .accept stage grant → stage.wrote = true →
      ∃ stage', phase = .accept stage' grant ∧ stage'.wrote = true)
    (hkp : w.Recorded grant → store.grants.get grant.key = some grant)
    (h : (w.put store pid l).Created grant) :
    (w.put store pid l).Recorded grant ∨ w.Created grant ∧ ¬ w.Recorded grant ∨
      c = .delRecords grant := by
  have hcreat : w.Created grant := by
    obtain ⟨stage, hph, hstg⟩ := h
    by_cases hid : grant.id = pid
    · rw [hid, World.phase_put_self] at hph
      obtain ⟨stage', rfl, hstg'⟩ := hov stage hph hstg
      exact ⟨stage', by rw [hid, World.phase_eq hl], hstg'⟩
    · exact ⟨stage, World.phase_put_of_ne hid ▸ hph, hstg⟩
  by_cases hreco : w.Recorded grant
  · exact .inl (hkp hreco)
  · exact .inr (.inl ⟨hcreat, hreco⟩)

theorem not_wrote {known : List Grant} {stage : Stage} {phase : Phase} (hstg : stage.wrote = false) :
    ∀ stage', (⟨.accept stage other, known⟩ : Local).phase = .accept stage' grant →
      stage'.wrote = true → ∃ stage'', phase = .accept stage'' grant ∧ stage''.wrote = true := by
  intro stage' h hov
  obtain ⟨rfl, -⟩ := Phase.accept.inj h
  rw [hstg] at hov
  cases hov

theorem wrote_of_wrote {known : List Grant} {stage stage' : Stage} (hstg : stage.wrote = true) :
    ∀ stage'', (⟨.accept stage' other, known⟩ : Local).phase = .accept stage'' grant →
      stage''.wrote = true →
        ∃ stage0, Phase.accept stage other = .accept stage0 grant ∧ stage0.wrote = true := by
  intro stage'' h _
  obtain ⟨-, rfl⟩ := Phase.accept.inj h
  exact ⟨stage, rfl, hstg⟩

/-- **A created grant stays recorded until it is deleted.** -/
theorem Matched.created_of_step (hm : Matched w) (hs : Sourced w) (hund : w.Undisturbed pid c)
    (hst : Step w pid c w') (h : w'.Created grant) :
    w'.Recorded grant ∨ w.Created grant ∧ ¬ w.Recorded grant ∨ c = .delRecords grant := by
  cases hst with
  | looks c => exact (em (w.Recorded grant)).imp_right fun hgn => .inl ⟨h, hgn⟩
  | fetches known key hl | names known hl | finds known other hl | revokes known other hl hmem
  | unlists known other hl | ends known other hl | beats known other score hl hmem
  | ejects known channel identity hl | drops known member hl =>
    exact created_of_put hl nofun id h
  | claims known other hl hg =>
    refine created_of_put hl (not_wrote rfl) (fun hreco => ?_) h
    rw [get_insert, if_neg fun hkey => ?_]
    · exact hreco
    · rw [World.Recorded, hkey, hg] at hreco
      cases hreco
  | indexes known other score hl | owns known other hl hg | refuses known other hl
  | unindexes known other hl | points known other hl =>
    exact created_of_put hl (not_wrote rfl) id h
  | withdraws known other hl =>
    have hph := World.phase_eq hl
    have hoth : grant ≠ other := by
      rintro rfl
      obtain ⟨stage, hph', hstg⟩ := h
      rw [hs.own pid _ grant hph, World.phase_put_self] at hph'
      obtain ⟨rfl, -⟩ := Phase.accept.inj hph'
      cases hstg
    refine created_of_put hl (not_wrote rfl) (fun hreco => ?_) h
    rw [get_erase, if_neg fun hkey => ?_]
    · exact hreco
    · rw [World.Recorded, hkey, hm.recorded pid _ other hph rfl] at hreco
      exact hoth (some.inj hreco).symm
  | lists known other hl =>
    by_cases hoth : other = grant
    · exact .inl (hm.recorded pid _ grant (hoth ▸ World.phase_eq hl) rfl)
    · exact created_of_put hl (fun stage h _ => absurd (Phase.accept.inj h).2 hoth) id h
  | grants known other hl | rechecks known other stage hl hstg
  | passes known other other' key hl hg hid | misses known other key hl | undoes known other hl =>
    exact created_of_put hl (wrote_of_wrote rfl) id h
  | deletes known other hl =>
    by_cases hoth : other = grant
    · exact .inr (.inr (congrArg _ hoth))
    · refine created_of_put hl nofun (fun hreco => ?_) h
      show (w.store.grants.erase other.key).get grant.key = some grant
      rw [get_erase, if_neg fun hkey => ?_]
      · exact hreco
      · exact hoth (hund.2.1 grant (hkey ▸ hreco)).symm

end Steps

/-! ## Runs -/

/-- Somebody has deleted the records of the grant. -/
def Ended (history : List (Requests × Event Request)) (grant : Grant) : Prop :=
  ∃ entry ∈ history, entry.1.calls entry.2 = some (.delRecords grant)

/-- The records and all that names them agree. -/
structure Store.Agrees (s : Store) : Prop where
  record : ∀ key grant, s.grants.get key = some grant → grant.key = key
  pointer : ∀ id key, s.grantIds.get id = some key ↔
    ∃ grant, s.grants.get key = some grant ∧ grant.id = id
  controller : ∀ user key, s.controllers.get user = some key ↔
    ∃ grant, s.grants.get key = some grant ∧ grant.controllerId = user
  channel : ∀ key, key ∈ s.channelGrants ↔ ∃ grant, s.grants.get key = some grant
  expiry : ∀ member, (s.expiry.get member).isSome ↔
    ∃ grant, s.grants.get member.key = some grant ∧ grant.expiryMember = member

section Runs

variable {nodes : Table String String} {history : List (Requests × Event Request)} {sys : Requests}

theorem matched_start : Matched (idle nodes).store := by
  have hemp : ∀ p, (idle nodes).store.holding p = ∅ := fun p =>
    Set.eq_empty_of_forall_notMem fun grant hgra => by cases hgra.1
  refine ⟨nofun, nofun, nofun, ?_, ?_, ⟨?_, nofun⟩, ⟨?_, fun member h => ?_⟩⟩
  · rw [hemp]
    exact indexes_empty
  · rw [hemp]
    exact indexes_empty
  · rw [hemp]
    exact nofun
  · rw [hemp]
    exact nofun
  · cases h

section

variable
  (hrun : Run exec (System.StepAdmits (fun _ => True) World.Undisturbed) (idle nodes) history sys)
include hrun

theorem matched_of_run : Sourced sys.store ∧ Matched sys.store ∧
      (sys.AllEnded → ∀ pid, (sys.store.phase pid).rests = true) :=
  inv_of_run matched_start (fun _ _ _ _ hs hm hund hst => hm.step hs hund hst) hrun

theorem recorded_or_ended :
    ∀ grant, sys.store.Created grant → sys.store.Recorded grant ∨ Ended history grant := by
  refine hrun.invariant_history (P := fun history (sys : Requests) => ∀ grant, sys.store.Created grant →
    sys.store.Recorded grant ∨ Ended history grant) (fun grant h => ?_)
    fun history sys event hbef hadm hkp grant hcreat => ?_
  · obtain ⟨stage, hph, -⟩ := h
    cases hph
  · have hlat : Ended history grant → Ended (history ++ [(sys, event)]) grant := by
      rintro ⟨entry, hent, hcal⟩
      exact ⟨entry, mem_append_left _ hent, hcal⟩
    obtain ⟨hs, hm, -⟩ := matched_of_run hbef
    rcases step_of_run matched_start (fun _ _ _ _ hs hm hund hst =>
      hm.step hs hund hst) hbef hadm with hsm | ⟨pid, c, rfl, hcal, hund, hst⟩
    · rw [hsm] at hcreat ⊢
      exact (hkp grant hcreat).imp_right hlat
    · rcases hm.created_of_step hs hund hst hcreat with hreco | ⟨hold, hgn⟩ | rfl
      · exact .inl hreco
      · exact .inr (hlat ((hkp grant hold).resolve_left hgn))
      · exact .inr ⟨_, mem_append_right _ mem_cons_self, hcal⟩

end

section

variable (hs : Sourced sys.store) (hm : Matched sys.store)
  (hrests : ∀ pid, (sys.store.phase pid).rests = true)
include hs hm hrests

theorem holding_at_rest {p : Stage → Bool}
    (hp : ∀ stage, stage.wrote = true → p stage = true) (grant : Grant) :
    grant ∈ sys.store.holding p ↔ sys.store.Recorded grant := by
  refine ⟨And.left, fun hreco => ⟨hreco, ?_⟩⟩
  obtain ⟨-, stage, hph⟩ := hs.stored _ _ hreco
  refine ⟨stage, hph, hp stage ?_⟩
  have hrs := hrests grant.id
  rw [hph] at hrs
  cases stage with
  | withdrawn => exact absurd hreco (hm.standing _ grant hph)
  | accepted => rfl
  | undone => rfl
  | _ => cases hrs

theorem agrees_at_rest : sys.store.store.Agrees := by
  have hhl : ∀ p : Stage → Bool, (∀ stage, stage.wrote = true → p stage = true) → ∀ key grant,
      sys.store.store.grants.get key = some grant ↔
        grant ∈ sys.store.holding p ∧ grant.key = key := by
    intro p hp key grant
    rw [holding_at_rest hs hm hrests hp]
    refine ⟨fun hg => ?_, fun h => h.2 ▸ h.1⟩
    obtain rfl := (hs.stored key grant hg).1
    exact ⟨hg, rfl⟩
  refine ⟨fun key grant hg => (hs.stored key grant hg).1, fun id key => ?_, fun user key => ?_,
    fun key => ⟨fun hkey => ?_, fun h => ?_⟩, fun member => ⟨fun hmb => ?_, fun h => ?_⟩⟩
  · simp only [hhl _ fun _ => Stage.points_of_wrote, hm.pointer id key]
    exact exists_congr fun grant => by tauto
  · simp only [hhl _ fun _ => Stage.owns_of_wrote, hm.controller user key]
    exact exists_congr fun grant => by tauto
  · rcases hm.listed.listed key hkey with ⟨grant, hgra⟩ | ⟨pid, grant, hph, -⟩
    · exact ⟨grant, (hhl _ (fun _ => id) key grant).mpr hgra⟩
    · cases (congrArg Phase.rests hph).symm.trans (hrests pid)
  · obtain ⟨grant, hg⟩ := h
    obtain ⟨hgra, rfl⟩ := (hhl _ (fun _ => id) key grant).mp hg
    exact hm.listed.held grant hgra
  · rcases hm.expiring.listed member hmb with ⟨grant, hgra, rfl⟩ | ⟨pid, _, grant, hph, -⟩
    · exact ⟨grant, (hhl _ (fun _ => Stage.shows_of_wrote) _ grant).mpr ⟨hgra, rfl⟩, rfl⟩
    · cases (congrArg Phase.rests hph).symm.trans (hrests pid)
  · obtain ⟨grant, hg, rfl⟩ := h
    exact hm.expiring.held grant ((hhl _ (fun _ => Stage.needs_of_wrote) _ grant).mp hg).1

end

/-- **One grant each.** Nobody controls two sharers, and no sharer is controlled twice; and once all
is done, everything that names grants names the same. -/
theorem one_grant_each
    (hrun : Run exec (System.StepAdmits (fun _ => True) World.Undisturbed) (idle nodes) history sys) :
    (∀ grant other, sys.store.Created grant → ¬ Ended history grant → sys.store.Created other →
      ¬ Ended history other → grant.controllerId = other.controllerId ∨ grant.key = other.key →
        grant = other) ∧
    (sys.AllEnded → sys.store.store.Agrees) := by
  obtain ⟨hs, hm, hrests⟩ := matched_of_run hrun
  refine ⟨fun grant other hcreated hended hcreated' hended' hsame => ?_,
    fun hended => agrees_at_rest hs hm (hrests hended)⟩
  have hrecorded := (recorded_or_ended hrun grant hcreated).resolve_right hended
  have hrecorded' := (recorded_or_ended hrun other hcreated').resolve_right hended'
  have hkey : grant.key = other.key := by
    refine hsame.elim (fun hcontroller => ?_) id
    obtain ⟨stage, hphase, hover⟩ := hcreated
    obtain ⟨stage', hphase', hover'⟩ := hcreated'
    have hpointer := hm.controller.get ⟨hrecorded, stage, hphase, Stage.owns_of_wrote hover⟩
    have hpointer' := hm.controller.get ⟨hrecorded', stage', hphase', Stage.owns_of_wrote hover'⟩
    rw [hcontroller, hpointer'] at hpointer
    exact (some.inj hpointer).symm
  rw [World.Recorded, hkey, hrecorded'] at hrecorded
  exact (some.inj hrecorded).symm

end Runs

/-! ## Two who end one grant -/

/-- An accept of this grant has come to such a stage. -/
def Phase.holds (p : Stage → Bool) (grant : Grant) : Phase → Bool
  | accept stage other => other = grant && p stage
  | _ => false

theorem Phase.holds_iff {p : Stage → Bool} {grant : Grant} {phase : Phase} :
    phase.holds p grant = true ↔ ∃ stage, phase = .accept stage grant ∧ p stage = true := by
  cases phase <;> simp [Phase.holds, and_comm]

namespace World

instance (w : World) (grant : Grant) : Decidable (w.Created grant) :=
  decidable_of_iff _ Phase.holds_iff

instance (w : World) (p : Stage → Bool) (member : ExpiryMember) : Decidable (w.Shown p member) :=
  decidable_of_iff (∃ grant ∈ w.store.grants.get member.key, grant.expiryMember = member ∧
    (w.phase grant.id).holds p grant = true) (by simp only [Shown, Phase.holds_iff])

/-- `Undisturbed`, with no heartbeat of a grant that is being removed. -/
def Quiet (pid : ℕ) (c : Call) (w : World) : Prop :=
  match c with
  | .zadd member _ => w.phase pid = .start → w.Shown Stage.shows member
  | c => w.Undisturbed pid c

theorem Quiet.undisturbed {pid : ℕ} {c : Call} {w : World} (h : w.Quiet pid c) :
    w.Undisturbed pid c := by
  cases c with
  | zadd member score => exact fun hph => .inl (h hph)
  | _ => exact h

instance (pid : ℕ) (c : Call) (w : World) : Decidable (w.Quiet pid c) :=
  match c with
  | .zadd .. => inferInstanceAs (Decidable (_ = _ → _))
  | .delRecords _ => inferInstanceAs (Decidable (_ ∧ (∀ other ∈ _, _ = _) ∧ ∀ key ∈ _, _ = _))
  | .sremGrant _ => inferInstanceAs (Decidable (∀ other ∈ _, ¬ _))
  | .zrem _ => inferInstanceAs (Decidable (_ = _ → ¬ _))
  | .newUlid | .getChannelNode _ | .setNxGrant _ | .getGrant _ | .delGrant _ | .setNxController ..
  | .getController _ | .setGrantId .. | .getGrantId _ | .saddGrant _ | .existsGrants _
  | .smembersGrants _ | .zrangeByScore _ | .updatePermissions .. | .removeIdentity .. => .isTrue trivial

end World

instance (history : List (Requests × Event Request)) (grant : Grant) :
    Decidable (Ended history grant) := inferInstanceAs (Decidable (∃ _ ∈ _, _))

/-- The request accepts, and the grant is created. -/
def accepts (pid : ℕ) : List (Event Request) :=
  .start pid (.accept "room" "sharer" "controller" "controller" 0) :: calls pid 7

def releases (pid id : ℕ) : List (Event Request) := [.start pid (.release "room" id "sharer" false)]

/-- A grant is kept, and released; then there is another one. -/
def succession : List (Event Request) :=
  accepts 0 ++ calls 0 3 ++ .start 1 (.heartbeat "room" "sharer" true 0) :: calls 1 2 ++
    releases 2 0 ++ calls 2 6 ++ accepts 3 ++ calls 3 3

/-- Two release a grant, and the second deletes when there is another one. -/
def contended : List (Event Request) :=
  accepts 0 ++ calls 0 3 ++ releases 1 0 ++ releases 2 0 ++ calls 2 2 ++ calls 1 6 ++ accepts 3 ++
    calls 2 2 ++ accepts 4

theorem one_grant_each_succession : (execAll exec (idle rooms) succession).store.store.Agrees := by
  have hrun : Run exec (System.StepAdmits (fun _ => True) World.Quiet) (idle rooms) _
      (execAll exec (idle rooms) succession) := Run.of_admitsAll (by decide)
  refine (one_grant_each (hrun.mono fun sys event hadm => ?_)).2 (System.allEnded_of_all (by decide))
  cases event with
  | step pid => exact fun c hnext => (hadm c hnext).undisturbed
  | _ => exact trivial

theorem contended_grants_are_two : ¬ ∀ (history : List (Requests × Event Request)) (sys : Requests),
      Run exec (System.StepAdmits (fun _ => True) fun _ _ _ => True) (idle rooms) history sys →
        ∀ grant other, sys.store.Created grant → ¬ Ended history grant → sys.store.Created other →
          ¬ Ended history other → grant.controllerId = other.controllerId → grant = other := by
  intro hclaim
  have hrun : Run exec (System.StepAdmits (fun _ => True) fun _ _ _ => True) (idle rooms) _
      (execAll exec (idle rooms) contended) := Run.of_admitsAll (by decide)
  have hsame := hclaim _ _ hrun ⟨3, "room", "node", "sharer", "controller", "controller"⟩
    ⟨4, "room", "node", "sharer", "controller", "controller"⟩ (by decide) (by decide) (by decide)
    (by decide) rfl
  cases hsame

end SlogaBackend.RemoteControl
