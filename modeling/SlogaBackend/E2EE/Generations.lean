import SlogaBackend.E2EE.Backups
import SlogaBackend.Lib.Publications

/-!
# Generations of a backup

Two uploads that overlap can both read the same backup, and the one that is replaced last need not
be the one with the higher generation.

* `Stage`: where an upload is, with the read it goes by.
* `monotone_iff`: the generation of a backup never goes back, and no answer is ever untrue, **exactly
  when** no upload is overtaken between its read and its write by one of a generation that is not
  below its own.
-/

namespace SlogaBackend.E2EE

variable {parseJson : String → Option Json}

/-! ## What a history says -/

/-- A step of a run: the state before it, and what happens. -/
abbrev Entry := Uploads × Event Request

/-- The row that the step reads. -/
def fetches (entry : Entry) : Option String :=
  match entry.1.calls entry.2 with
  | some (.fetchE2EEBackup userId deviceId) => some (E2EEBackup.compositeId userId deviceId)
  | _ => none

/-- The row that the step writes. -/
def writes (entry : Entry) : Option E2EEBackup :=
  match entry.1.calls entry.2 with
  | some (.upsertE2EEBackup backup) => some backup
  | _ => none

/-- Every change of a stored backup is to a higher generation. -/
def Increases (parseJson : String → Option Json) (history : List Entry) : Prop :=
  ∀ before m event after, history = before ++ (m, event) :: after → ∀ id,
    (Uploads.exec parseJson m event).1.store.get id ≠ m.store.get id →
      ∃ new, (Uploads.exec parseJson m event).1.store.get id = some new ∧
        ∀ old, m.store.get id = some old → old.generation < new.generation

/-- Whoever was answered with its own generation finds that one, or a higher one, stored. -/
def Answered (sys : Uploads) : Prop :=
  ∀ pid request, sys.returned pid = some (request, .ok request.data.generation) →
    ∃ backup, sys.store.get request.id = some backup ∧ request.data.generation ≤ backup.generation

/-- The generations never go back, in a run with this history and this end. -/
structure Monotone (parseJson : String → Option Json) (history : List Entry) (sys : Uploads) :
    Prop where
  increases : Increases parseJson history
  answered : ∀ m ∈ history.map Prod.fst ++ [sys], Answered m

/-- Between the read of an upload and its write no other backup of the device is stored whose
generation is not below its own. -/
def NotOvertaken (history : List Entry) : Prop :=
  ∀ before m₁ pid between m₂ after backup,
    history = before ++ (m₁, .step pid) :: (between ++ (m₂, .step pid) :: after) →
      fetches (m₁, .step pid) = some backup.id → writes (m₂, .step pid) = some backup →
        ∀ entry ∈ between, ∀ other ∈ writes entry, other.id = backup.id → other ≠ backup →
          other.generation < backup.generation

/-! ## One step -/

variable {m t sys : Uploads} {event : Event Request} {history : List Entry}
  {backup old : E2EEBackup} {request : Request}

theorem writes_eq_some :
    writes (m, event) = some backup ↔ m.calls event = some (.upsertE2EEBackup backup) := by
  unfold writes
  constructor
  · intro hws
    split at hws
    · rename_i hcal
      rw [hcal, some.inj hws]
    · cases hws
  · intro hcal
    rw [hcal]

theorem get_exec (m : Uploads) (event : Event Request) (id : String) :
    (Uploads.exec parseJson m event).1.store.get id = m.store.get id ∨
      ∃ backup ∈ writes (m, event), backup.id = id ∧
        (Uploads.exec parseJson m event).1.store.get id = some backup := by
  rcases System.store_exec perform (putBackup parseJson) m event with
    ⟨-, hst⟩ | ⟨pid, c, -, hcal, hst⟩
  · exact .inl (congrArg (Table.get · id) hst)
  · cases c with
    | fetchE2EEBackup userId deviceId => exact .inl (congrArg (Table.get · id) hst)
    | upsertE2EEBackup backup =>
      have hg := (congrArg (Table.get · id) hst).trans (get_insert _ _ _ _)
      split at hg
      · rename_i hid
        exact .inr ⟨backup, writes_eq_some.mpr hcal, hid.symm, hg⟩
      · exact .inl hg

variable {id : String}

theorem get_exec_of_fetches (hfet : fetches (m, event) = some id) (id' : String) :
    (Uploads.exec parseJson m event).1.store.get id' = m.store.get id' := by
  obtain hsm | ⟨backup, hws, -, -⟩ :
      (Uploads.exec parseJson m event).1.store.get id' = m.store.get id' ∨ _ := get_exec m event id'
  · exact hsm
  · unfold fetches at hfet
    rw [writes_eq_some.mp hws] at hfet
    cases hfet

theorem get_exec_of_writes (hws : writes (m, event) = some backup) :
    (Uploads.exec parseJson m event).1.store.get backup.id = some backup := by
  rcases System.store_exec perform (putBackup parseJson) m event with
    ⟨hno, -⟩ | ⟨pid, c, -, hcal, hst⟩
  · rw [writes_eq_some.mp hws] at hno
    cases hno
  · obtain rfl : c = .upsertE2EEBackup backup :=
      some.inj (hcal.symm.trans (writes_eq_some.mp hws))
    refine (congrArg (Table.get · backup.id) hst).trans ?_
    exact get_insert_self

/-! ## Along a run -/

abbrev UploadRun (parseJson : String → Option Json) (s : Uploads) (history : List Entry)
    (t : Uploads) : Prop := Run (Uploads.exec parseJson) (fun _ _ => True) s history t

theorem get_of_run {s : Uploads} (hrun : UploadRun parseJson s history t) (id : String) :
    t.store.get id = s.store.get id ∨ ∃ entry ∈ history, ∃ backup ∈ writes entry, backup.id = id ∧
        t.store.get id = some backup := by
  induction hrun with
  | nil s => exact .inl rfl
  | @cons s t event history _ _ ih =>
    rcases ih with hsm | ⟨entry, hent, backup, hws, hid, hg⟩
    · rcases get_exec s event id with hst | ⟨backup, hws, hid, hst⟩
      · exact .inl (hsm.trans hst)
      · exact .inr ⟨_, mem_cons_self, backup, hws, hid, hsm.trans hst⟩
    · exact .inr ⟨entry, mem_cons_of_mem _ hent, backup, hws, hid, hg⟩

theorem get_of_increases {s : Uploads} (hrun : UploadRun parseJson s history t)
    (hinc : Increases parseJson history) (hold : s.store.get id = some old) :
    ∃ backup, t.store.get id = some backup ∧
      (backup = old ∨ old.generation < backup.generation) := by
  induction hrun generalizing old with
  | nil s => exact ⟨old, hold, .inl rfl⟩
  | @cons s t event history _ _ ih =>
    have hrs : Increases parseJson history := fun before m event' after heq =>
      hinc ((s, event) :: before) m event' after (congrArg _ heq)
    by_cases hchg : (Uploads.exec parseJson s event).1.store.get id = s.store.get id
    · exact ih hrs (hchg.trans hold)
    · obtain ⟨new, hnew, hls⟩ := hinc [] s event history rfl id hchg
      obtain ⟨backup, hbac, hcs⟩ := ih hrs hnew
      refine ⟨backup, hbac, .inr ?_⟩
      rcases hcs with rfl | hmr
      · exact hls old hold
      · exact Int.lt_trans (hls old hold) hmr

/-! ## Where an upload is -/

/-- What an upload still has to do, and the read that it goes by. -/
inductive Stage (history : List Entry) (pid : Nat) (request : Request) : Program → Prop
  | fetching : Stage history pid request
      (.call (.fetchE2EEBackup request.user request.data.deviceId) (settle request))
  | writing {before between : List Entry} {m : Uploads} {existing : Option E2EEBackup}
      (hhistory : history = before ++ (m, .step pid) :: between)
      (hfetches : fetches (m, .step pid) = some request.id)
      (hexisting : m.store.get request.id = existing)
      (habove : ∀ stored ∈ existing, stored.generation < request.data.generation) :
      Stage history pid request (store request existing)
  | done (result : Except PutError Int) : Stage history pid request (.done result)

theorem Stage.append {pid : Nat} {prog : Program} (hstg : Stage history pid request prog)
    (entry : Entry) : Stage (history ++ [entry]) pid request prog := by
  cases hstg with
  | fetching => exact .fetching
  | writing hhis hfet hexi habo =>
    have happ := congrArg (· ++ [entry]) hhis
    simp only [append_assoc, cons_append] at happ
    exact .writing happ hfet hexi habo
  | done result => exact .done result

theorem stage_putBackup (history : List Entry) (pid : Nat) (request : Request) :
    Stage history pid request (putBackup parseJson request) := by
  unfold putBackup
  cases request.check parseJson with
  | ok _ => exact .fetching
  | error e => exact .done _

/-- **What follows the read**: an answer, or a write of a generation above the one that was read. -/
theorem settle_cases (request : Request) (existing : Option E2EEBackup) :
    (∃ e, settle request existing = .done (.error e)) ∨
      (∃ stored, existing = some stored ∧ request.data.generation ≤ stored.generation ∧
        settle request existing = .done (.ok stored.generation)) ∨
      (∀ stored ∈ existing, stored.generation < request.data.generation) ∧
        settle request existing = store request existing := by
  unfold settle
  cases request.checkGeneration existing with
  | error e => exact .inl ⟨e, rfl⟩
  | ok _ =>
    cases existing with
    | none => exact .inr (.inr ⟨nofun, rfl⟩)
    | some stored =>
      by_cases hle : request.data.generation ≤ stored.generation
      · exact .inr (.inl ⟨stored, rfl, hle, if_pos hle⟩)
      · refine .inr (.inr ⟨?_, if_neg hle⟩)
        rintro _ ⟨⟩
        exact Int.not_le.mp hle

/-- What holds along a run. -/
structure Kept (parseJson : String → Option Json) (history : List Entry) (sys : Uploads) : Prop where
  stage : ∀ pid request prog, sys.processes.get pid = some ⟨request, some prog⟩ →
    Stage history pid request prog
  answered : Increases parseJson history → Answered sys

theorem Increases.of_append {entry : Entry} (hinc : Increases parseJson (history ++ [entry]))
    : Increases parseJson history := by
  rintro before m event after rfl
  refine hinc before m event (after ++ [entry]) ?_
  rw [append_assoc, cons_append]

theorem Increases.get_exec (hinc : Increases parseJson (history ++ [(m, event)]))
    (hold : m.store.get id = some old) {generation : Int} (hle : generation ≤ old.generation) :
    ∃ backup, (Uploads.exec parseJson m event).1.store.get id = some backup ∧
      generation ≤ backup.generation := by
  by_cases hchg : (Uploads.exec parseJson m event).1.store.get id = m.store.get id
  · exact ⟨old, hchg.trans hold, hle⟩
  · obtain ⟨new, hnew, hls⟩ := hinc history m event [] rfl id hchg
    exact ⟨new, hnew, Int.le_of_lt (Int.lt_of_le_of_lt hle (hls old hold))⟩

theorem stage_next {pid : Nat} {c : Call} {rest : Reply c → Program}
    (hg : m.processes.get pid = some ⟨request, some (.call c rest)⟩)
    (hstg : Stage history pid request (.call c rest)) :
    Stage (history ++ [(m, .step pid)]) pid request (rest (perform pid c m.store).2) ∧
      (rest (perform pid c m.store).2 = .done (.ok request.data.generation) →
        ∃ backup, (perform pid c m.store).1.get request.id = some backup ∧
          request.data.generation ≤ backup.generation) := by
  cases hstg with
  | fetching =>
    show Stage _ _ _ (settle request (m.store.get request.id)) ∧
      (settle request (m.store.get request.id) = _ → _)
    obtain ⟨e, hdn⟩ | ⟨stored, hsto, hle, hdn⟩ | ⟨habo, hst⟩ :=
      settle_cases request (m.store.get request.id)
    · rw [hdn]
      exact ⟨.done _, nofun⟩
    · rw [hdn]
      exact ⟨.done _, fun _ => ⟨stored, hsto, hle⟩⟩
    · rw [hst]
      refine ⟨.writing (rfl : _ = history ++ (m, .step pid) :: []) ?_ rfl habo, nofun⟩
      unfold fetches
      rw [System.calls_step hg]
      rfl
  | writing hhis hfet hexi habo =>
    rename_i existing
    refine ⟨.done _, fun _ => ⟨request.backup existing, ?_, Int.le_refl _⟩⟩
    exact get_insert_self

theorem kept_step (event : Event Request) (hkp : Kept parseJson history m) :
    Kept parseJson (history ++ [(m, event)]) (Uploads.exec parseJson m event).1 := by
  -- whoever was answered before the step still finds a generation of its own or above
  have hstl : Increases parseJson (history ++ [(m, event)]) → ∀ pid request,
      m.processes.get pid = some ⟨request, some (.done (.ok request.data.generation))⟩ →
        ∃ backup, (Uploads.exec parseJson m event).1.store.get request.id = some backup ∧
          request.data.generation ≤ backup.generation := by
    intro hinc pid request hg
    obtain ⟨old, hold, hle⟩ := hkp.answered hinc.of_append pid request
      (System.returned_eq_some.mpr hg)
    exact hinc.get_exec hold hle
  have hput : ∀ {store : Store} {pid : Nat} {request : Request} {next : Option Program},
      (Uploads.exec parseJson m event).1 = ⟨store, m.processes.insert pid ⟨request, next⟩⟩ →
      (∀ prog, next = some prog → Stage (history ++ [(m, event)]) pid request prog ∧
        (prog = .done (.ok request.data.generation) → ∃ backup,
          store.get request.id = some backup ∧ request.data.generation ≤ backup.generation)) →
      Kept parseJson (history ++ [(m, event)]) (Uploads.exec parseJson m event).1 := by
    intro store pid request next hnx hown
    rw [hnx] at hstl ⊢
    refine ⟨fun pid' request' prog hg' => ?_, fun hinc pid' request' hret => ?_⟩
    · rcases get_insert_cases hg' with ⟨hpid, heq⟩ | hold
      · injection heq with hreq hpr
        rw [hpid, hreq]
        exact (hown prog hpr.symm).1
      · exact (hkp.stage pid' request' prog hold).append _
    · rcases get_insert_cases (System.returned_eq_some.mp hret) with ⟨-, heq⟩ | hold
      · injection heq with hreq hpr
        subst hreq
        exact (hown _ hpr.symm).2 rfl
      · exact hstl hinc pid' request' hold
  obtain hsm | ⟨pid, request, -, -, hnx⟩ | ⟨pid, request, c, rest, rfl, hg, hnx⟩ |
    ⟨pid, request, c, rest, -, -, hnx⟩ := exec_cases perform (putBackup parseJson) m event
  · have hsame : (Uploads.exec parseJson m event).1 = m := hsm
    rw [hsame] at hstl ⊢
    refine ⟨fun pid' request' prog hg' => (hkp.stage pid' request' prog hg').append _, ?_⟩
    exact fun hinc pid' request' hret => hstl hinc pid' request' (System.returned_eq_some.mp hret)
  · refine hput hnx fun prog hpr => ?_
    cases hpr
    refine ⟨stage_putBackup _ pid request, fun hdn => ?_⟩
    -- an upload that has just started has not been answered
    unfold putBackup at hdn
    cases hchk : request.check parseJson <;> rw [hchk] at hdn <;> cases hdn
  · refine hput hnx fun prog hpr => ?_
    cases hpr
    exact stage_next hg (hkp.stage pid request _ hg)
  · exact hput hnx nofun

/-! ## Generations never go back -/

section

variable {s : Store} (hrun : UploadRun parseJson (idle s) history sys)
include hrun

theorem kept_of_run : Kept parseJson history sys := by
  have hil : Kept parseJson [] (idle s : Uploads) := by
    refine ⟨fun pid request prog hg => ?_, fun _ pid request hret => ?_⟩
    · cases hg
    · cases System.returned_eq_some.mp hret
  exact Run.invariant_history (P := Kept parseJson) hil
    (fun _ _ event _ _ hkp => kept_step event hkp) hrun

/-- Uploads that are not overtaken only increase the generations. -/
theorem increases_of_notOvertaken (hove : NotOvertaken history) : Increases parseJson history := by
  rintro before m event after rfl id hchg
  obtain ⟨hbef, -, haft⟩ := hrun.split_at
  rcases get_exec m event id with hsm | ⟨backup, hws, rfl, hg⟩
  · exact absurd hsm hchg
  · refine ⟨backup, hg, fun old hold => ?_⟩
    obtain ⟨pid, request, rest, rfl, hproc⟩ := System.calls_eq_some (writes_eq_some.mp hws)
    have hstg := (kept_of_run hbef).stage pid request _ hproc
    cases hstg with
    | writing hhis hfet hexi habo =>
      rename_i earlier between m1 _
      subst hhis
      obtain ⟨-, -, hbet⟩ := hbef.split_at
      have hrd : (Uploads.exec parseJson m1 (.step pid)).1.store.get request.id =
          m1.store.get request.id := get_exec_of_fetches hfet request.id
      rcases get_of_run hbet request.id with hsm | ⟨entry, hent, other, hoth, hid, hg'⟩
      · -- the backup is still the one that was read
        have hsm' : m.store.get request.id = m1.store.get request.id := hsm.trans hrd
        exact habo old (hexi.symm.trans (hsm'.symm.trans hold))
      · -- another upload came in between, with a lower generation
        obtain rfl : other = old := some.inj (hg'.symm.trans hold)
        refine hove earlier m1 pid between m after _ ?_ hfet hws entry hent other hoth hid ?_
        · rw [append_assoc, cons_append]
        · rintro rfl
          exact hchg (hg.trans hold.symm)

theorem notOvertaken_of_increases (hinc : Increases parseJson history) : NotOvertaken history := by
  rintro before m1 pid between m2 after backup rfl hfet hws entry hent other hoth hid hne
  obtain ⟨m, event⟩ := entry
  obtain ⟨between1, between2, rfl⟩ := append_of_mem hent
  -- the other backup is stored, and up to the write only a higher one can take its place
  obtain ⟨-, -, haft⟩ := hrun.split_at
  rw [append_assoc, cons_append] at haft
  obtain ⟨-, -, hlat⟩ := haft.split_at
  obtain ⟨hbet, -, -⟩ := hlat.split_at
  have hpt : Increases parseJson between2 := by
    rintro before' m' event' after' rfl
    refine hinc (before ++ (m1, .step pid) :: (between1 ++ (m, event) :: before')) m' event'
      (after' ++ (m2, .step pid) :: after) ?_
    simp
  obtain ⟨stored, hsto, hcs⟩ := get_of_increases hbet hpt (get_exec_of_writes hoth)
  rw [hid] at hsto
  have hwr : (Uploads.exec parseJson m2 (.step pid)).1.store.get backup.id = some backup :=
    get_exec_of_writes hws
  have hspl : before ++ (m1, Event.step pid) ::
      (between1 ++ (m, event) :: between2 ++ (m2, Event.step pid) :: after) =
        (before ++ (m1, Event.step pid) :: (between1 ++ (m, event) :: between2)) ++
          (m2, Event.step pid) :: after := by
    simp
  by_cases hsm : stored = backup
  · rcases hcs with rfl | hls
    · exact absurd hsm hne
    · exact hsm ▸ hls
  · have hchg : (Uploads.exec parseJson m2 (.step pid)).1.store.get backup.id ≠
        m2.store.get backup.id := by
      rw [hwr, hsto]
      exact fun heq => hsm (some.inj heq).symm
    obtain ⟨new, hnew, hls⟩ := hinc _ m2 _ after hspl backup.id hchg
    cases hnew.symm.trans hwr
    rcases hcs with rfl | hmr
    · exact hls stored hsto
    · exact Int.lt_trans hmr (hls stored hsto)

end

/-- **The generations of a backup never go back exactly when no upload is overtaken**, in every
interleaving of uploads, any of which may stop between its calls. -/
theorem monotone_iff (parseJson : String → Option Json) (s : Store) (events : List (Event Request)) :
    Monotone parseJson (historyOf (Uploads.exec parseJson) (idle s) events)
        (execAll (Uploads.exec parseJson) (idle s) events) ↔
      NotOvertaken (historyOf (Uploads.exec parseJson) (idle s) events) := by
  have hrun : UploadRun parseJson (idle s)
      (historyOf (Uploads.exec parseJson) (idle s) events)
      (execAll (Uploads.exec parseJson) (idle s) events) :=
    Run.of_admitsAll (admitsAll_true events)
  generalize historyOf (Uploads.exec parseJson) (idle s) events = history at hrun ⊢
  constructor
  · exact fun hmonotone => notOvertaken_of_increases hrun hmonotone.increases
  · intro hovertaken
    have hincreases := increases_of_notOvertaken hrun hovertaken
    refine ⟨hincreases, fun m hm => ?_⟩
    rcases mem_append.mp hm with hpassed | hend
    · obtain ⟨⟨m', event⟩, hmem, rfl⟩ := mem_map.mp hpassed
      obtain ⟨before, after, rfl⟩ := append_of_mem hmem
      obtain ⟨hbefore, -, -⟩ := hrun.split_at
      refine (kept_of_run hbefore).answered ?_
      rintro before' m event' after' rfl
      refine hincreases before' m event' (after' ++ (m', event) :: after) ?_
      rw [append_assoc, cons_append]
    · rw [mem_singleton.mp hend]
      exact (kept_of_run hrun).answered hincreases

/-! ## An upload that is overtaken -/

def someDevice : String := "0123456789abcdef0123456789abcdef"

/-- A header as the client writes it. -/
def headerText (generation : String) : String :=
  "\x7b\"v\":1,\"kdf\":\x7b\"alg\":\"argon2id\",\"m_kib\":8192,\"t\":1,\"p\":1\x7d,\"user_id\":\"U\"," ++
    "\"device_id\":\"" ++ someDevice ++ "\",\"generation\":" ++ generation ++ "\x7d"

/-- What the text of such a header says. -/
def headerJson (generation : Int) : Json :=
  .object [("v", .int 1),
    ("kdf", .object [("alg", .string "argon2id"), ("m_kib", .int 8192), ("t", .int 1), ("p", .int 1)]),
    ("user_id", .string "U"), ("device_id", .string someDevice), ("generation", .int generation)]

def parseHeaders (text : String) : Option Json :=
  if text = headerText "2" then some (headerJson 2)
  else if text = headerText "3" then some (headerJson 3)
  else none

def upload (generation : Int) (header : String) : Request where
  e2eeEnabled := true
  user := "U"
  bot := false
  sessionId := "S"
  identity := .ok ⟨"S"⟩
  now := 0
  data := ⟨someDevice, header, "AAAA", generation⟩

/-- Both uploads read that there is no backup yet, and the higher generation is stored first. -/
def overtaken : List (Event Request) :=
  [.start 0 (upload 2 (headerText "2")), .step 0, .start 1 (upload 3 (headerText "3")), .step 1,
    .step 1]

set_option maxRecDepth 10000 in
/-- The stored generation can go back. -/
theorem generation_goes_back : ¬∀ (parseJson : String → Option Json) (s : Store)
    (events : List (Event Request)),
      Monotone parseJson (historyOf (Uploads.exec parseJson) (idle s) events)
        (execAll (Uploads.exec parseJson) (idle s) events) := by
  intro hall
  have hmonotone := hall parseHeaders ∅ (overtaken ++ [.step 0])
  have hchange : (Uploads.exec parseHeaders (execAll (Uploads.exec parseHeaders) (idle ∅)
      overtaken) (.step 0)).1.store.get (upload 2 (headerText "2")).id ≠
        (execAll (Uploads.exec parseHeaders) (idle ∅) overtaken).store.get
          (upload 2 (headerText "2")).id := by decide
  obtain ⟨new, hnew, hless⟩ := hmonotone.increases
    (historyOf (Uploads.exec parseHeaders) (idle ∅) overtaken) _ (.step 0) []
    (historyOf_concat _ _ _ _) _ hchange
  have hnew' : ((Uploads.exec parseHeaders (execAll (Uploads.exec parseHeaders) (idle ∅)
      overtaken) (.step 0)).1.store.get (upload 2 (headerText "2")).id).map
        E2EEBackup.generation = some 2 := by decide
  have hold' : ((execAll (Uploads.exec parseHeaders) (idle ∅) overtaken).store.get
      (upload 2 (headerText "2")).id).map E2EEBackup.generation = some 3 := by decide
  obtain ⟨old, hold, hgeneration⟩ := map_eq_some_iff.mp hold'
  rw [hnew] at hnew'
  have hthree := hless old hold
  rw [hgeneration, some.inj hnew'] at hthree
  exact absurd hthree (by decide)

end SlogaBackend.E2EE
