import SlogaBackend.RemoteControl.Conduct

/-!
# A capability has a trace

The authority of a grant is a permission at the SFU; what Redis has is there to find it and take it
away. An accept records first, pushes the permission and looks again; who ends a grant revokes
first and deletes then. When the two cross, the revocation may come before the permission is given
and the deletion after the look: the permission stays, and the last trace of it goes.

The reaper has a way of its own: it drops a member whose grant it has not found, and while an accept
has not written the pointer of the id the grant is not found.

Where neither happens, a participant that can publish data is named in the expiry index once nobody
is under way.
-/

namespace SlogaBackend.RemoteControl

/-- The permission has been pushed, and the look at the record is still to come or has missed. -/
def Stage.due : Stage → Bool
  | .granted => true
  | .rechecking => true
  | .raced => true
  | _ => false

def Phase.due : Phase → Bool
  | accept stage _ => stage.due
  | _ => false

theorem rests_of_due {stage : Stage} {grant : Grant} (hdue : stage.due = true) :
    (Phase.accept stage grant).rests = false := by
  cases stage <;> first | rfl | cases hdue

/-- The member has been written, and the look at the record has not passed. -/
def Stage.traced : Stage → Bool
  | .indexed => true
  | .owning => true
  | .pointed => true
  | .created => true
  | .granted => true
  | .rechecking => true
  | _ => false

def ExpiryMember.participant (member : ExpiryMember) : String × String :=
  (member.channelId, member.controllerIdentity)

def Grant.participant (grant : Grant) : String × String :=
  (grant.channelId, grant.controllerIdentity)

namespace World

/-- The accept of this number is yet to look, or to take the permission back. -/
def Due (w : World) (id : ℕ) : Prop := (w.phase id).due = true

/-- The participant has the permission of this grant, and the accept will not take it back. -/
def Stands (w : World) (member : ExpiryMember) : Prop :=
  w.store.permissions.get member.participant = some ⟨true, member.grantId⟩ ∧ ¬ w.Due member.grantId

def RecordGone (w : World) (member : ExpiryMember) : Prop :=
  ∀ grant ∈ w.store.grants.get member.key, grant.id ≠ member.grantId

/-- A deletion comes where the permission of the grant does not stand, and the reaper drops a member
where in addition the record is gone. -/
def Revoked (pid : ℕ) (c : Call) (w : World) : Prop :=
  match c with
  | .delRecords grant => ¬ w.Stands grant.expiryMember
  | .zrem member => w.phase pid = .start → ¬ w.Stands member ∧ w.RecordGone member
  | _ => True

end World

/-- **What is so of permissions and traces.** -/
structure Traced (w : World) : Prop where
  indexed : ∀ pid stage grant, w.phase pid = .accept stage grant → stage.traced = true →
    (w.store.expiry.get grant.expiryMember).isSome ∨ ¬ w.Recorded grant
  held : ∀ participant id, w.store.permissions.get participant = some ⟨true, id⟩ →
    ∃ stage grant, w.phase id = .accept stage grant ∧ grant.participant = participant ∧
      (stage.due = true ∨ stage = .accepted ∧ (w.store.expiry.get grant.expiryMember).isSome)
  deleted : ∀ pid stage grant, w.phase pid = .ending stage grant → stage ≠ .revoked →
    ¬ w.Recorded grant ∧
      (w.store.permissions.get grant.participant = some ⟨true, grant.id⟩ → w.Due grant.id)

section Steps

variable {w w' : World} {store : Store} {pid : ℕ} {l : Local} {grant other : Grant} {stage : Stage}

theorem World.due_of (h : w.phase grant.id = .accept stage grant) (hdue : stage.due = true)
    : w.Due grant.id := by
  unfold World.Due
  rw [h]
  exact hdue

theorem World.due_iff {id : ℕ} (h : w.phase id = .accept stage grant) :
    w.Due id ↔ stage.due = true := by
  unfold World.Due
  rw [h]
  rfl

section

variable (ht : Traced w) (hs : Sourced w)
  (hexp : ∀ stage other, other.id ≠ pid → w.phase other.id = .accept stage other →
    (w.store.expiry.get other.expiryMember).isSome →
      (store.expiry.get other.expiryMember).isSome ∨ store.grants.get other.key ≠ some other ∧
        (stage = .accepted → store.permissions.get other.participant ≠ some ⟨true, other.id⟩))
include ht hs hexp

/-- **The rule for a step.** -/
theorem Traced.put
    (hown : ∀ stage other, l.phase = .accept stage other → other.id = pid)
    (hgran : ∀ other, w.Issued other → store.grants.get other.key = some other → w.Recorded other)
    (hperm : ∀ participant id, store.permissions.get participant = some ⟨true, id⟩ →
      w.store.permissions.get participant = some ⟨true, id⟩ ∨
        ∃ grant, l.phase = .accept .granted grant ∧ grant.id = id ∧ grant.participant = participant)
    (hmov : ∀ stage other, w.phase pid = .accept stage other → stage ≠ .accepted ∧
      ∃ stage', l.phase = .accept stage' other ∧ (stage.due = true →
        stage'.due = true ∨ w.Recorded other ∧ stage' = .accepted ∨
        store.permissions.get other.participant ≠ some ⟨true, other.id⟩))
    (hacc : ∀ stage other, l.phase = .accept stage other → stage.traced = true →
      (store.expiry.get other.expiryMember).isSome ∨ store.grants.get other.key ≠ some other)
    (hacce : ∀ other, l.phase = .accept .accepted other →
      (store.expiry.get other.expiryMember).isSome)
    (hend : ∀ stage other, l.phase = .ending stage other → stage ≠ .revoked →
      w.Issued other ∧ store.grants.get other.key ≠ some other ∧
        (store.permissions.get other.participant = some ⟨true, other.id⟩ → w.Due other.id)) :
    Traced (w.put store pid l) := by
  refine ⟨fun q stage other hph htrac => ?_, fun participant id hper => ?_,
    fun q stage other hph hstg => ?_⟩
  · rw [World.phase_put] at hph
    split_ifs at hph with hq
    · exact hacc stage other hph htrac
    · have hid := hs.own q stage other hph
      rcases ht.indexed q stage other hph htrac with hsm | hgn
      · exact (hexp stage other (hid.trans_ne hq) (hid ▸ hph) hsm).imp_right And.left
      · exact .inr fun h => hgn (hgran other ⟨stage, hid ▸ hph⟩ h)
  · rcases hperm participant id hper with hold | ⟨grant, hph, rfl, hpar⟩
    · obtain ⟨stage, grant, hph, hpar, hstg⟩ := ht.held participant id hold
      obtain rfl := hs.own id stage grant hph
      subst hpar
      by_cases hid : grant.id = pid
      · obtain ⟨huna, stage', hph', hdue⟩ := hmov stage grant (hid ▸ hph)
        refine ⟨stage', grant, by rw [hid, World.phase_put_self, hph'], rfl, ?_⟩
        rcases hdue (hstg.resolve_right fun h => huna h.1) with h | ⟨-, rfl⟩ | hnot
        · exact .inl h
        · exact .inr ⟨rfl, hacce grant hph'⟩
        · exact absurd hper hnot
      · refine ⟨stage, grant, by rw [World.phase_put_of_ne hid, hph], rfl, ?_⟩
        rcases hstg with hdue | ⟨rfl, hsm⟩
        · exact .inl hdue
        · exact .inr ⟨rfl, (hexp _ grant hid hph hsm).resolve_right fun h => h.2 rfl hper⟩
    · exact ⟨.granted, grant, by rw [hown _ grant hph, World.phase_put_self, hph], hpar, .inl rfl⟩
  · rw [World.phase_put] at hph
    split_ifs at hph with hq
    · obtain ⟨⟨stage', hiss⟩, hgn, hdue⟩ := hend stage other hph hstg
      refine ⟨hgn, fun h => ?_⟩
      have hne : other.id ≠ pid := by
        intro hid
        obtain ⟨-, stage'', hph', -⟩ := hmov stage' other (hid ▸ hiss)
        cases hph.symm.trans hph'
      refine World.due_of ((World.phase_put_of_ne hne).trans hiss) ?_
      exact (World.due_iff hiss).mp (hdue h)
    · obtain ⟨hgn, hdue⟩ := ht.deleted q stage other hph hstg
      have hiss := hs.ending q stage other hph
      refine ⟨fun h => hgn (hgran other hiss h), fun hper => ?_⟩
      rcases hperm _ _ hper with hold | ⟨grant, hph', hid, -⟩
      · obtain ⟨stage', hph'⟩ := hiss
        have hdue' := (World.due_iff hph').mp (hdue hold)
        by_cases hid : other.id = pid
        · obtain ⟨-, stage'', hnx, hmv⟩ := hmov stage' other (hid ▸ hph')
          rcases hmv hdue' with h | ⟨hrec, -⟩ | hnot
          · exact World.due_of (by rw [hid, World.phase_put_self, hnx]) h
          · exact absurd hrec hgn
          · exact absurd hper hnot
        · exact World.due_of ((World.phase_put_of_ne hid).trans hph') hdue'
      · rw [World.Due, ← hid, hown _ grant hph', World.phase_put_self, hph']
        rfl

variable {known known' : List Grant}

theorem Traced.pass {phase phase' : Phase}
    (hl : w.locals pid = ⟨phase, known⟩) (hacc : ∀ stage other, phase ≠ .accept stage other)
    (hacc' : ∀ stage other, phase' ≠ .accept stage other)
    (hperm : ∀ participant id, store.permissions.get participant = some ⟨true, id⟩ →
      w.store.permissions.get participant = some ⟨true, id⟩)
    (hgran : ∀ key other, store.grants.get key = some other → w.store.grants.get key = some other)
    (hend : ∀ stage other, phase' = .ending stage other → stage ≠ .revoked →
      w.Issued other ∧ store.grants.get other.key ≠ some other ∧
        (store.permissions.get other.participant = some ⟨true, other.id⟩ → w.Due other.id)) :
    Traced (w.put store pid ⟨phase', known'⟩) :=
  ht.put hs hexp (fun stage other h => absurd h (hacc' stage other)) (fun _ _ h => hgran _ _ h)
    (fun participant id h => .inl (hperm participant id h))
    (fun stage other h => absurd ((World.phase_eq hl).symm.trans h) (hacc stage other))
    (fun stage other h => absurd h (hacc' stage other))
    (fun _ h => absurd h (hacc' _ _)) hend

end

theorem Traced.move (ht : Traced w) (hs : Sourced w) {stage' : Stage}
    (hl : w.locals pid = ⟨.accept stage grant, known⟩)
    (hperm : store.permissions = w.store.permissions)
    (hgran : ∀ key other, store.grants.get key = some other → w.store.grants.get key = some other)
    (hexp : ∀ other : Grant, other.id ≠ pid → (w.store.expiry.get other.expiryMember).isSome →
      (store.expiry.get other.expiryMember).isSome) (hstg : stage ≠ .accepted)
    (hgra : stage' ≠ .granted)
    (hdue : stage.due = true → stage'.due = true ∨ w.Recorded grant ∧ stage' = .accepted)
    (htrac : stage'.traced = true →
      (store.expiry.get grant.expiryMember).isSome ∨ store.grants.get grant.key ≠ some grant)
    (hacce : stage' = .accepted → (store.expiry.get grant.expiryMember).isSome) :
    Traced (w.put store pid ⟨.accept stage' grant, known'⟩) := by
  have hph := World.phase_eq hl
  refine ht.put hs (fun _ other hne _ hsm => .inl (hexp other hne hsm))
    (fun stage0 other h => ?_) (fun other _ h => hgran _ _ h)
    (fun participant id h => .inl (hperm ▸ h)) (fun stage0 other h => ?_)
    (fun stage0 other h hstg0 => ?_) (fun other h => ?_) nofun
  · obtain ⟨-, rfl⟩ := Phase.accept.inj h
    exact hs.own pid stage grant hph
  · obtain ⟨rfl, rfl⟩ := Phase.accept.inj (hph.symm.trans h)
    exact ⟨hstg, stage', rfl, fun h => (hdue h).imp_right .inl⟩
  · obtain ⟨rfl, rfl⟩ := Phase.accept.inj h
    exact htrac hstg0
  · obtain ⟨rfl, rfl⟩ := Phase.accept.inj h
    exact hacce rfl

theorem get_push_false {participant : String × String} {id : ℕ}
    (h : (w.store.permissions.insert grant.participant ⟨false, grant.id⟩).get participant =
      some ⟨true, id⟩) :
    participant ≠ grant.participant ∧ w.store.permissions.get participant = some ⟨true, id⟩ := by
  rw [get_insert] at h
  split_ifs at h with hpar
  · cases h
  · exact ⟨hpar, h⟩

/-- What may have been dropped is of a grant whose record is gone and whose permission does not
stand. -/
theorem Traced.drop (ht : Traced w) (hs : Sourced w) {phase : Phase} {member : ExpiryMember}
    (hl : w.locals pid = ⟨phase, known⟩) (hacc : ∀ stage other, phase ≠ .accept stage other)
    (hgn : ∀ other, w.Issued other → other.expiryMember = member → ¬ w.Recorded other)
    (hstan : ¬ w.Stands member) :
    Traced (w.put { w.store with expiry := w.store.expiry.erase member } pid ⟨.start, known⟩) := by
  refine ht.pass hs (fun stage other _ hph hsm => ?_) hl hacc nofun (fun _ _ h => h)
    (fun _ _ h => h) nofun
  by_cases hmb : other.expiryMember = member
  · refine .inr ⟨hgn other ⟨stage, hph⟩ hmb, ?_⟩
    rintro rfl hper
    subst hmb
    refine hstan ⟨hper, fun hdue => ?_⟩
    cases (World.due_iff hph).mp hdue
  · exact .inl (isSome_erase hmb hsm)

/-- **What a step keeps.** -/
theorem Traced.step (ht : Traced w) (hs : Sourced w) {c : Call} (hrev : w.Revoked pid c)
    (hst : Step w pid c w') : Traced w' := by
  cases hst with
  | looks c => exact ht
  | fetches known key hl | names known hl | finds known grant hl =>
    exact ht.pass hs (fun _ _ _ _ h => .inl h) hl nofun nofun (fun _ _ h => h) (fun _ _ h => h) nofun
  | claims known grant hl hg =>
    have hph := World.phase_eq hl
    refine ht.put hs (fun _ _ _ _ h => .inl h) (fun stage other h => ?_)
      (fun other hiss h => ?_) (fun _ _ h => .inl h)
      (fun stage other h => nomatch hph.symm.trans h) (fun stage other h htrac => ?_) nofun nofun
    · obtain ⟨-, rfl⟩ := Phase.accept.inj h
      exact hs.named pid _ hph
    · rw [get_insert] at h
      split_ifs at h with hkey
      · cases h
        obtain ⟨stage, hiss⟩ := hiss
        rw [hs.named pid _ hph, hph] at hiss
        cases hiss
      · exact h
    · obtain ⟨rfl, -⟩ := Phase.accept.inj h
      cases htrac
  | indexes known grant score hl =>
    refine ht.move hs hl rfl (fun _ _ h => h) (fun _ _ => isSome_insert) nofun nofun nofun
      (fun _ => .inl ?_) nofun
    rw [get_insert_self]
    rfl
  | owns known grant hl hg | points known grant hl | lists known grant hl =>
    exact ht.move hs hl rfl (fun _ _ h => h) (fun _ _ h => h) nofun nofun nofun
      (fun _ => ht.indexed pid _ grant (World.phase_eq hl) rfl) nofun
  | refuses known grant hl =>
    exact ht.move hs hl rfl (fun _ _ h => h) (fun _ _ h => h) nofun nofun nofun nofun nofun
  | unindexes known grant hl =>
    refine ht.move hs hl rfl (fun _ _ h => h) (fun other hne => isSome_erase fun h => hne ?_) nofun
      nofun nofun nofun nofun
    exact (congrArg ExpiryMember.grantId h).trans (hs.own pid _ grant (World.phase_eq hl))
  | withdraws known grant hl =>
    exact ht.move hs hl rfl (fun _ _ => get_of_erase) (fun _ _ h => h) nofun nofun nofun nofun nofun
  | grants known grant hl =>
    have hph := World.phase_eq hl
    refine ht.put hs (fun _ _ _ _ h => .inl h) (fun stage other h => ?_) (fun _ _ h => h)
      (fun participant id h => ?_) (fun stage other h => ?_) (fun stage other h _ => ?_) nofun nofun
    · obtain ⟨-, rfl⟩ := Phase.accept.inj h
      exact hs.own pid _ grant hph
    · have hg : (w.store.permissions.insert grant.participant ⟨true, grant.id⟩).get participant =
          some ⟨true, id⟩ := h
      rw [get_insert] at hg
      split_ifs at hg with hpar
      · exact .inr ⟨grant, rfl, congrArg Permission.grantId (some.inj hg), hpar.symm⟩
      · exact .inl hg
    · obtain ⟨rfl, rfl⟩ := Phase.accept.inj (hph.symm.trans h)
      exact ⟨nofun, .granted, rfl, nofun⟩
    · obtain ⟨-, rfl⟩ := Phase.accept.inj h
      exact ht.indexed pid _ grant hph rfl
  | rechecks known grant stage hl hstg =>
    refine ht.move hs hl rfl (fun _ _ h => h) (fun _ _ h => h) nofun ?_ ?_
      (fun _ => ht.indexed pid _ grant (World.phase_eq hl) rfl) ?_
    · rcases hstg with rfl | rfl <;> nofun
    · rcases hstg with rfl | rfl <;> exact fun _ => .inl rfl
    · rcases hstg with rfl | rfl <;> nofun
  | passes known grant other key hl hg hid =>
    have hph := World.phase_eq hl
    have hown := hs.own pid _ grant hph
    obtain ⟨rfl, hiss⟩ := hs.stored key other hg
    obtain rfl : other = grant := hiss.unique ⟨_, by rw [hown, hph]⟩ hid
    refine ht.move hs hl rfl (fun _ _ h => h) (fun _ _ h => h) nofun nofun
      (fun _ => .inr ⟨hg, rfl⟩) nofun fun _ => ?_
    exact (ht.indexed pid _ other hph rfl).resolve_right fun h => h hg
  | misses known grant key hl =>
    exact ht.move hs hl rfl (fun _ _ h => h) (fun _ _ h => h) nofun nofun (fun _ => .inl rfl) nofun
      nofun
  | undoes known grant hl =>
    have hph := World.phase_eq hl
    refine ht.put hs (fun _ _ _ _ h => .inl h) (fun stage other h => ?_) (fun _ _ h => h)
      (fun participant id h => .inl (get_push_false h).2) (fun stage other h => ?_)
      (fun stage other h htrac => ?_) nofun nofun
    · obtain ⟨-, rfl⟩ := Phase.accept.inj h
      exact hs.own pid _ grant hph
    · obtain ⟨rfl, rfl⟩ := Phase.accept.inj (hph.symm.trans h)
      exact ⟨nofun, .undone, rfl, fun _ => .inr (.inr fun h => (get_push_false h).1 rfl)⟩
    · obtain ⟨rfl, -⟩ := Phase.accept.inj h
      cases htrac
  | revokes known grant hl hmem =>
    refine ht.pass hs (by exact fun _ _ _ _ h => .inl h) hl nofun nofun
      (fun _ _ h => (get_push_false h).2) (fun _ _ h => h) fun stage other h hstg => ?_
    obtain ⟨rfl, -⟩ := Phase.ending.inj h
    exact absurd rfl hstg
  | deletes known grant hl =>
    refine ht.pass hs (by exact fun _ _ _ _ h => .inl h) hl nofun nofun (fun _ _ h => h)
      (fun _ _ => get_of_erase) fun stage other h hstg => ?_
    obtain ⟨-, rfl⟩ := Phase.ending.inj h
    refine ⟨hs.ending pid _ grant (World.phase_eq hl), fun h => ?_, fun hper => ?_⟩
    · have hg : (w.store.grants.erase grant.key).get grant.key = some grant := h
      rw [get_erase, if_pos rfl] at hg
      cases hg
    · by_contra hdue
      exact hrev ⟨hper, hdue⟩
  | unlists known grant hl =>
    refine ht.pass hs (by exact fun _ _ _ _ h => .inl h) hl nofun nofun (fun _ _ h => h)
      (fun _ _ h => h) fun stage other h hstg => ?_
    obtain ⟨-, rfl⟩ := Phase.ending.inj h
    have hph := World.phase_eq hl
    exact ⟨hs.ending pid _ grant hph, ht.deleted pid _ grant hph nofun⟩
  | ends known grant hl =>
    have hph := World.phase_eq hl
    obtain ⟨hgn, hdue⟩ := ht.deleted pid _ grant hph nofun
    refine ht.drop hs hl nofun (fun other hiss hmb => ?_) fun hstan => ?_
    · obtain rfl := hiss.unique (hs.ending pid _ grant hph) (congrArg ExpiryMember.grantId hmb)
      exact hgn
    · exact hstan.2 (hdue hstan.1)
  | beats known grant score hl hmem =>
    exact ht.pass hs (fun _ _ _ _ h => .inl (isSome_insert h)) hl nofun nofun (fun _ _ h => h)
      (fun _ _ h => h) nofun
  | ejects known channel identity hl =>
    exact ht.pass hs (by exact fun _ _ _ _ h => .inl h) hl nofun nofun
      (fun _ _ => get_of_erase) (fun _ _ h => h) nofun
  | drops known member hl =>
    obtain ⟨hstan, hgn⟩ := hrev (World.phase_eq hl)
    refine ht.drop hs hl nofun (fun other hiss hmb hrec => ?_) hstan
    subst hmb
    exact hgn other hrec rfl

end Steps

/-! ## Runs -/

/-- **A capability does not outlive its trace.** -/
theorem capability_has_a_trace {nodes : Table String String}
    {history : List (Requests × Event Request)} {sys : Requests}
    (hrun : Run exec (System.StepAdmits (fun _ => True) World.Revoked) (idle nodes) history sys)
    (hended : sys.AllEnded) {participant : String × String} {permission : Permission}
    (hpermission : sys.store.store.permissions.get participant = some permission)
    (hpublish : permission.canPublishData = true) :
    ∃ member, (sys.store.store.expiry.get member).isSome ∧ member.participant = participant := by
  have hstart : Traced (idle nodes).store := by
    refine ⟨nofun, fun participant id h => ?_, nofun⟩
    simp [idle, System.idle, Watched.start] at h
  obtain ⟨-, htraced, hrests⟩ := inv_of_run hstart
    (fun pid c w w' hs ht hrevoked hstep => ht.step hs hrevoked hstep) hrun
  obtain ⟨canPublishData, id⟩ := permission
  obtain rfl : canPublishData = true := hpublish
  obtain ⟨stage, grant, hphase, rfl, hstage⟩ := htraced.held participant id hpermission
  have hrest := hrests hended id
  rw [hphase] at hrest
  rcases hstage with hdue | ⟨-, hsome⟩
  · rw [rests_of_due hdue] at hrest
    cases hrest
  · exact ⟨grant.expiryMember, hsome, rfl⟩

/-! ## An accept and a release that cross -/

namespace World

instance (w : World) (id : ℕ) : Decidable (w.Due id) := inferInstanceAs (Decidable (_ = _))

instance (w : World) (member : ExpiryMember) : Decidable (w.Stands member) :=
  inferInstanceAs (Decidable (_ ∧ ¬ _))

instance (w : World) (member : ExpiryMember) : Decidable (w.RecordGone member) :=
  inferInstanceAs (Decidable (∀ grant ∈ _, _))

instance (pid : ℕ) (c : Call) (w : World) : Decidable (Revoked pid c w) :=
  match c with
  | .delRecords _ => inferInstanceAs (Decidable (¬ _))
  | .zrem _ => inferInstanceAs (Decidable (_ = _ → _ ∧ _))
  | .newUlid | .getChannelNode _ | .setNxGrant _ | .getGrant _ | .delGrant _ | .setNxController ..
  | .getController _ | .setGrantId .. | .getGrantId _ | .saddGrant _ | .sremGrant _
  | .existsGrants _ | .smembersGrants _ | .zadd .. | .zrangeByScore _ | .updatePermissions ..
  | .removeIdentity .. => .isTrue trivial

end World

/-- The request accepts until it comes to the SFU. -/
def recorded : List (Event Request) :=
  .start 0 (.accept "room" "sharer" "controller" "controller" 0) :: calls 0 7

/-- Nobody crosses it. -/
def uncrossed : List (Event Request) := recorded ++ calls 0 3

/-- A release reads and revokes before the permission is pushed, and deletes after the look. -/
def crossed : List (Event Request) :=
  recorded ++ .start 1 (.release "room" 0 "sharer" false) :: calls 1 3 ++ calls 0 3 ++ calls 1 3

theorem capability_has_a_trace_uncrossed :
    ∃ member, ((execAll exec (idle rooms) uncrossed).store.store.expiry.get member).isSome ∧
      member.participant = ("room", "controller") := by
  have hrun : Run exec (System.StepAdmits (fun _ => True) World.Revoked) (idle rooms) _
      (execAll exec (idle rooms) uncrossed) := Run.of_admitsAll (by decide)
  have hpermission : (execAll exec (idle rooms) uncrossed).store.store.permissions.get
      ("room", "controller") = some ⟨true, 0⟩ := by decide
  exact capability_has_a_trace hrun (System.allEnded_of_all (by decide)) hpermission rfl

theorem crossed_capability_has_no_trace :
    ¬ ∀ (history : List (Requests × Event Request)) (sys : Requests),
      Run exec (System.StepAdmits (fun _ => True) fun _ _ _ => True) (idle rooms) history sys →
        sys.AllEnded → ∀ participant permission,
          sys.store.store.permissions.get participant = some permission →
            permission.canPublishData = true →
              ∃ member, (sys.store.store.expiry.get member).isSome ∧
                member.participant = participant := by
  intro hclaim
  have hrun : Run exec (System.StepAdmits (fun _ => True) fun _ _ _ => True) (idle rooms) _
      (execAll exec (idle rooms) crossed) := Run.of_admitsAll (by decide)
  obtain ⟨member, hsome, -⟩ := hclaim _ _ hrun (System.allEnded_of_all (by decide))
    ("room", "controller") ⟨true, 0⟩ (by decide) rfl
  cases hsome

end SlogaBackend.RemoteControl
