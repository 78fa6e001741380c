import Mathlib.Data.List.Induction
import ActantDb.Storage.Statement

/-!
# Ingesting replicated events

`ingest_events` checks each row of a batch on its own, against the workspaces, the device and the content-derived id, and inserts it unless its id is already there. The id is derived from the canonical payload, the clock stamp and the actor; every other column is what the sender says. So a row that is not the first of its id is dropped whatever it carries, and one that is first is stored whatever it carries: replicas that saw two rows of one id in different orders differ for good, and the payload and the payload hash that are stored are not the ones the id was checked against.

The batch loop is described by what it stores: `Inserted` says which rows of a batch are inserted, and everything that follows is about that.
-/

namespace ActantDb

structure IngestEvent where
  event : AgentEvent
  hlc : Hlc
  deviceId : String
  canonicalPayload : List UInt8
deriving DecidableEq

structure IngestReject where
  index : Nat
  eventId : Option EventId
  reason : String
deriving DecidableEq, Repr

structure IngestReport where
  accepted : Nat
  skipped : Nat
  rejected : List IngestReject
deriving DecidableEq, Repr

/-- `u32::saturating_add(1)`. -/
def saturatingSucc (n : Nat) : Nat := min (n + 1) (2 ^ 32 - 1)

/-- `as i64`, on a `u64`. -/
def toI64 (n : Nat) : Int := if n < 2 ^ 63 then n else n - 2 ^ 64

/-- The row that is bound to the insertion. -/
def IngestEvent.row (ie : IngestEvent) : AgentEventRow where
  event := ie.event
  deviceId := ie.deviceId
  hlcPhysicalMs := toI64 ie.hlc.physicalMs.toNat
  hlcLogical := ie.hlc.logical.toNat

def IngestReport.reject (report : IngestReport) (index : Nat) (ie : IngestEvent) (reason : String) :
    IngestReport :=
  { report with rejected := report.rejected ++ [⟨index, some ie.event.id, reason⟩] }

def IngestReport.count (report : IngestReport) (inserted : Bool) : IngestReport :=
  if inserted then { report with accepted := saturatingSucc report.accepted }
  else { report with skipped := saturatingSucc report.skipped }

/-- The report so far and the highest stamp of a row that was inserted or skipped. -/
abbrev IngestProgress := IngestReport × Option Hlc

def highest (maxHlc : Option Hlc) (hlc : Hlc) : Hlc :=
  match maxHlc with
  | some prev => if prev ≥ hlc then prev else hlc
  | none => hlc

variable (X : Crates)

/-- The body of the loop. -/
def ingestRow (index : Nat) (ie : IngestEvent) (progress : IngestProgress) :
    Action IngestProgress :=
  if ie.deviceId = "" then pure (progress.1.reject index ie "missing_fields", progress.2)
  else if contentDerived X ie.canonicalPayload ie.hlc ie.event.actorId ≠ ie.event.id then
    pure (progress.1.reject index ie "hash_mismatch", progress.2)
  else do
    match ← execute (.getWorkspace ie.event.workspaceId) with
    | none => return (progress.1.reject index ie "workspace_unknown", progress.2)
    | some _ =>
      let inserted ← execute (.ingestEvent ie.row)
      return (progress.1.count inserted, some (highest progress.2 ie.hlc))

def ingestLoop (index : Nat) (progress : IngestProgress) : List IngestEvent → Action IngestProgress
  | [] => pure progress
  | ie :: rest => do
    let progress ← ingestRow X index ie progress
    ingestLoop (index + 1) progress rest

/-- `ingest_events`. The second component is the stamp that the caller's clock, if there is one, observes. -/
def ingestEvents (batch : List IngestEvent) : Action IngestProgress :=
  ingestLoop X 0 (⟨0, 0, []⟩, none) batch

/-! ### What a batch stores -/

/-- The three checks a row must pass. -/
structure Valid (db : Db) (ie : IngestEvent) : Prop where
  device : ie.deviceId ≠ ""
  id : contentDerived X ie.canonicalPayload ie.hlc ie.event.actorId = ie.event.id
  workspace : db.workspace.contains ie.event.workspaceId = true

instance (db : Db) (ie : IngestEvent) : Decidable (Valid X db ie) :=
  decidable_of_iff
    (ie.deviceId ≠ "" ∧ contentDerived X ie.canonicalPayload ie.hlc ie.event.actorId = ie.event.id ∧
      db.workspace.contains ie.event.workspaceId = true)
    ⟨fun h => ⟨h.1, h.2.1, h.2.2⟩, fun h => ⟨h.1, h.2, h.3⟩⟩

/-- With every valid row of `pre` stored, so is a row of this id. -/
def StoredAfter (db : Db) (pre : List IngestEvent) (id : EventId) : Prop :=
  db.agentEvent.contains id = true ∨ ∃ ie ∈ pre, Valid X db ie ∧ ie.event.id = id

/-- What the foreign keys ask of a row that comes after `pre`. -/
structure RefersAfter (db : Db) (pre : List IngestEvent) (e : AgentEvent) : Prop where
  actor : db.actor.contains e.actorId = true
  session : refersTo db.session e.sessionId = true
  parent : ∀ id, e.parentEventId = some id → StoredAfter X db pre id ∨ id = e.id
  authorityScope : e.authorityScopeId.all (db.authorityScope.contains ·) = true

/-- A row that does not end the batch: it is rejected, or skipped, or its references are stored. -/
def Passes (db : Db) (pre : List IngestEvent) (ie : IngestEvent) : Prop :=
  Valid X db ie → StoredAfter X db pre ie.event.id ∨ RefersAfter X db pre ie.event

/-- All of `pre` passes, each row after those before it. -/
def AllPass (db : Db) (pre : List IngestEvent) : Prop :=
  ∀ p ie q, pre = p ++ ie :: q → Passes X db p ie

/-- The row is valid, the first of its id, and refers to stored rows. -/
structure New (db : Db) (pre : List IngestEvent) (ie : IngestEvent) : Prop where
  valid : Valid X db ie
  first : ¬ StoredAfter X db pre ie.event.id
  refers : RefersAfter X db pre ie.event

/-- A row that the batch `pre` inserts. -/
def Inserted (db : Db) (pre : List IngestEvent) (r : AgentEventRow) : Prop :=
  ∃ p ie q, pre = p ++ ie :: q ∧ New X db p ie ∧ r = ie.row

/-- The effect of one row on the database, when the storage does not fail. -/
def landRow (db : Db) (ie : IngestEvent) : Except SqlError Db :=
  if Valid X db ie then ((Sql.ingestEvent ie.row).exec db).map Prod.snd else .ok db

def landAll (db : Db) : List IngestEvent → Except SqlError Db
  | [] => .ok db
  | ie :: rest => do
    let db' ← landRow X db ie
    landAll db' rest

variable {X} {db db' : Db} {pre : List IngestEvent} {ie : IngestEvent}

theorem landRow_skip (h : ¬ Valid X db ie ∨ db.agentEvent.contains ie.event.id = true) :
    landRow X db ie = .ok db := by
  by_cases hvalid : Valid X db ie
  · have hrow : db.agentEvent.contains ie.row.id = true := h.resolve_left (not_not_intro hvalid)
    rw [landRow, if_pos hvalid, Sql.exec, if_pos hrow]
    rfl
  · rw [landRow, if_neg hvalid]

theorem landRow_insert (hvalid : Valid X db ie)
    (hfresh : db.agentEvent.contains ie.event.id = false) :
    landRow X db ie = db.insertEvent ie.row := by
  have hrow : ¬ db.agentEvent.contains ie.row.id = true := by
    rw [AgentEventRow.id, IngestEvent.row, hfresh]
    exact Bool.false_ne_true
  rw [landRow, if_pos hvalid, Sql.exec, if_neg hrow]
  cases db.insertEvent ie.row <;> rfl

/-- What a row does: nothing, when it is invalid or its id is stored, or else its insertion. -/
theorem landRow_cases (h : landRow X db ie = .ok db') :
    ((¬ Valid X db ie ∨ db.agentEvent.contains ie.event.id = true) ∧ db' = db) ∨
      (Valid X db ie ∧ db.agentEvent.contains ie.event.id = false ∧
        db.agentEventReferences ie.event = true ∧
        ∃ t, db.agentEvent.insert? ie.row = some t ∧ db' = { db with agentEvent := t }) := by
  by_cases hskip : ¬ Valid X db ie ∨ db.agentEvent.contains ie.event.id = true
  · rw [landRow_skip hskip] at h
    cases h
    exact Or.inl ⟨hskip, rfl⟩
  · rw [not_or, not_not, Bool.not_eq_true] at hskip
    rw [landRow_insert hskip.1 hskip.2] at h
    obtain ⟨href, hins⟩ := Db.insertEvent_eq_ok.mp h
    exact Or.inr ⟨hskip.1, hskip.2, href, hins⟩

/-- Of the database a row's validity depends on the workspaces only. -/
theorem valid_congr (h : db'.workspace = db.workspace) : Valid X db' ie ↔ Valid X db ie := by
  constructor
  · intro hv
    exact ⟨hv.device, hv.id, h ▸ hv.workspace⟩
  · intro hv
    exact ⟨hv.device, hv.id, h.symm ▸ hv.workspace⟩

/-- The database after the rows of `pre`. -/
structure Landed (X : Crates) (db : Db) (pre : List IngestEvent) (db' : Db) : Prop where
  workspace : db'.workspace = db.workspace
  actor : db'.actor = db.actor
  session : db'.session = db.session
  authorityScope : db'.authorityScope = db.authorityScope
  contains : ∀ id, db'.agentEvent.contains id = true ↔ StoredAfter X db pre id
  mem : ∀ r, r ∈ db'.agentEvent ↔ r ∈ db.agentEvent ∨ Inserted X db pre r

theorem Landed.nil : Landed X db [] db :=
  ⟨rfl, rfl, rfl, rfl, fun id => by simp [StoredAfter], fun r => by simp [Inserted]⟩

theorem Landed.valid_iff (h : Landed X db pre db') : Valid X db' ie ↔ Valid X db ie := valid_congr h.workspace

theorem Landed.references_iff (h : Landed X db pre db') (hvalid : Valid X db ie) :
    db'.agentEventReferences ie.event = true ↔ RefersAfter X db pre ie.event := by
  have hparent : (refersTo db'.agentEvent ie.event.parentEventId ||
      ie.event.parentEventId == some ie.event.id) = true ↔
      ∀ id, ie.event.parentEventId = some id → StoredAfter X db pre id ∨ id = ie.event.id := by
    cases ie.event.parentEventId with
    | none => simp [refersTo]
    | some id => simp [refersTo, h.contains]
  rw [Db.agentEventReferences, h.workspace, h.actor, h.session, h.authorityScope]
  simp only [Bool.and_eq_true, hparent, hvalid.workspace, true_and]
  constructor
  · intro hrefs
    exact ⟨hrefs.1.1.1, hrefs.1.1.2, hrefs.1.2, hrefs.2⟩
  · intro hrefs
    exact ⟨⟨⟨hrefs.actor, hrefs.session⟩, hrefs.parent⟩, hrefs.authorityScope⟩

theorem storedAfter_append {id : EventId} :
    StoredAfter X db (pre ++ [ie]) id ↔
      StoredAfter X db pre id ∨ Valid X db ie ∧ ie.event.id = id := by
  simp only [StoredAfter, List.mem_append, List.mem_singleton]
  constructor
  · intro h
    rcases h with h | ⟨ie', h | rfl, hv⟩
    · exact Or.inl (Or.inl h)
    · exact Or.inl (Or.inr ⟨ie', h, hv⟩)
    · exact Or.inr hv
  · intro h
    rcases h with (h | ⟨ie', h, hv⟩) | hv
    · exact Or.inl h
    · exact Or.inr ⟨ie', Or.inl h, hv⟩
    · exact Or.inr ⟨ie, Or.inr rfl, hv⟩

theorem append_singleton_eq {α : Type*} {l p q : List α} {a b : α} :
    l ++ [a] = p ++ b :: q ↔
      (∃ q', q = q' ++ [a] ∧ l = p ++ b :: q') ∨ (q = [] ∧ l = p ∧ a = b) := by
  constructor
  · intro h
    rcases List.eq_nil_or_concat' q with rfl | ⟨q', c, rfl⟩
    · obtain ⟨rfl, hab⟩ := List.append_inj' h rfl
      exact Or.inr ⟨rfl, rfl, List.head_eq_of_cons_eq hab⟩
    · rw [← List.cons_append, ← List.append_assoc] at h
      obtain ⟨rfl, hac⟩ := List.append_inj' h rfl
      obtain rfl := List.head_eq_of_cons_eq hac
      exact Or.inl ⟨q', rfl, rfl⟩
  · intro h
    rcases h with ⟨q', rfl, rfl⟩ | ⟨rfl, rfl, rfl⟩
    · simp
    · rfl

theorem inserted_append {r : AgentEventRow} :
    Inserted X db (pre ++ [ie]) r ↔ Inserted X db pre r ∨ New X db pre ie ∧ r = ie.row := by
  simp only [Inserted, append_singleton_eq]
  constructor
  · intro h
    rcases h with ⟨p, ie', q, ⟨q', rfl, rfl⟩ | ⟨rfl, rfl, rfl⟩, hnew, hr⟩
    · exact Or.inl ⟨p, ie', q', rfl, hnew, hr⟩
    · exact Or.inr ⟨hnew, hr⟩
  · intro h
    rcases h with ⟨p, ie', q, rfl, hnew, hr⟩ | ⟨hnew, hr⟩
    · exact ⟨p, ie', q ++ [ie], Or.inl ⟨q, rfl, rfl⟩, hnew, hr⟩
    · exact ⟨pre, ie, [], Or.inr ⟨rfl, rfl, rfl⟩, hnew, hr⟩

/-- A row that lands after the rows of `pre` passes, and `Landed` goes on with it. -/
theorem Landed.append {db'' : Db} (h : Landed X db pre db') (hrow : landRow X db' ie = .ok db'') :
    Passes X db pre ie ∧ Landed X db (pre ++ [ie]) db'' := by
  rcases landRow_cases hrow with ⟨hskip, rfl⟩ | ⟨hvalid, hfresh, href, t, hins, rfl⟩
  · have hstored : Valid X db ie → StoredAfter X db pre ie.event.id := fun hv =>
      (h.contains _).mp (hskip.resolve_left (not_not_intro (h.valid_iff.mpr hv)))
    refine ⟨fun hv => Or.inl (hstored hv), h.workspace, h.actor, h.session, h.authorityScope,
      fun id => ?_, fun r => ?_⟩
    · rw [h.contains, storedAfter_append, iff_self_or]
      intro hv
      rw [← hv.2]
      exact hstored hv.1
    · rw [h.mem, inserted_append]
      refine or_congr_right (iff_self_or.mpr fun hnew => ?_)
      exact absurd (hstored hnew.1.valid) hnew.1.first
  · have hv : Valid X db ie := h.valid_iff.mp hvalid
    have hrefers : RefersAfter X db pre ie.event := (h.references_iff hv).mp href
    have hfirst : ¬ StoredAfter X db pre ie.event.id := fun hstored => by
      rw [(h.contains _).mpr hstored] at hfresh
      cases hfresh
    refine ⟨fun _ => Or.inr hrefers, h.workspace, h.actor, h.session, h.authorityScope,
      fun id => ?_, fun r => ?_⟩
    · show t.contains id = true ↔ _
      rw [Table.contains_insert? hins, Bool.or_eq_true, h.contains, storedAfter_append,
        decide_eq_true_eq]
      exact or_congr_right ⟨fun hid => ⟨hv, hid⟩, fun hid => hid.2⟩
    · rw [inserted_append, ← or_assoc, ← h.mem]
      exact (Table.mem_insert? hins).trans
        (or_congr_right ⟨fun hr => ⟨⟨hv, hfirst, hrefers⟩, hr⟩, fun hr => hr.2⟩)

/-- A row that passes lands. -/
theorem Landed.landRow (h : Landed X db pre db') (hpasses : Passes X db pre ie) :
    ∃ db'', landRow X db' ie = .ok db'' := by
  by_cases hskip : ¬ Valid X db' ie ∨ db'.agentEvent.contains ie.event.id = true
  · exact ⟨db', landRow_skip hskip⟩
  · rw [not_or, not_not, Bool.not_eq_true] at hskip
    obtain ⟨hvalid, hfresh⟩ := hskip
    have hv : Valid X db ie := h.valid_iff.mp hvalid
    have hrefers : RefersAfter X db pre ie.event := by
      apply (hpasses hv).resolve_left
      intro hstored
      rw [(h.contains _).mpr hstored] at hfresh
      cases hfresh
    obtain ⟨t, hins⟩ : ∃ t, db'.agentEvent.insert? ie.row = some t := by
      cases hins : db'.agentEvent.insert? ie.row with
      | some t => exact ⟨t, rfl⟩
      | none =>
        have hcontains := Table.insert?_eq_none.mp hins
        rw [AgentEventRow.id, IngestEvent.row, hfresh] at hcontains
        cases hcontains
    refine ⟨{ db' with agentEvent := t }, ?_⟩
    rw [landRow_insert hvalid hfresh, Db.insertEvent_eq_ok]
    exact ⟨(h.references_iff hv).mpr hrefers, t, hins, rfl⟩

theorem landAll_append (db : Db) (pre post : List IngestEvent) :
    landAll X db (pre ++ post) = (landAll X db pre).bind fun db' => landAll X db' post := by
  induction pre generalizing db with
  | nil => rfl
  | cons ie pre ih =>
    rw [List.cons_append, landAll, landAll]
    cases landRow X db ie with
    | error e => rfl
    | ok db' => exact ih db'

/-- **What a batch that is processed to its end stores**, and which batches those are. -/
theorem landAll_spec (db : Db) (pre : List IngestEvent) :
    (∀ db', landAll X db pre = .ok db' → AllPass X db pre ∧ Landed X db pre db') ∧
      (AllPass X db pre → ∃ db', landAll X db pre = .ok db') := by
  induction pre using List.reverseRecOn with
  | nil =>
    refine ⟨fun db' h => ?_, fun _ => ⟨db, rfl⟩⟩
    cases h
    exact ⟨fun p ie q hsplit => by simp at hsplit, Landed.nil⟩
  | append_singleton pre ie ih =>
    have hsplit : AllPass X db (pre ++ [ie]) ↔ AllPass X db pre ∧ Passes X db pre ie := by
      constructor
      · intro h
        refine ⟨fun p ie' q heq => h p ie' (q ++ [ie]) (by simp [heq]), h pre ie [] rfl⟩
      · intro h p ie' q heq
        rcases append_singleton_eq.mp heq with ⟨q', -, hpre⟩ | ⟨-, rfl, rfl⟩
        · exact h.1 p ie' q' hpre
        · exact h.2
    constructor
    · intro db'' h
      rw [landAll_append] at h
      cases hpre : landAll X db pre with
      | error e =>
        rw [hpre] at h
        cases h
      | ok db' =>
        obtain ⟨hall, hlanded⟩ := ih.1 db' hpre
        rw [hpre] at h
        have hrow : landRow X db' ie = .ok db'' := by
          simp only [Except.bind, landAll] at h
          cases hr : landRow X db' ie with
          | error e =>
            rw [hr] at h
            cases h
          | ok d =>
            rw [hr] at h
            exact h
        obtain ⟨hpasses, hlanded'⟩ := hlanded.append hrow
        exact ⟨hsplit.mpr ⟨hall, hpasses⟩, hlanded'⟩
    · intro h
      obtain ⟨hall, hpasses⟩ := hsplit.mp h
      obtain ⟨db', hpre⟩ := ih.2 hall
      obtain ⟨db'', hrow⟩ := (ih.1 db' hpre).2.landRow hpasses
      refine ⟨db'', ?_⟩
      rw [landAll_append, hpre]
      simp only [Except.bind, landAll, hrow]
      rfl

/-! ### The loop -/

/-- What one turn of the loop does to the database: the row lands, or the call ends and nothing changes. -/
inductive RowOutcome (X : Crates) (E : Env) (ie : IngestEvent) (w : World) :
    Except ActantError IngestProgress × World → Prop where
  | landed (progress : IngestProgress) (w' : World) (h : landRow X w.db ie = .ok w'.db) :
    RowOutcome X E ie w (.ok progress, w')
  | stopped (e : ActantError) (w' : World) (hdb : w'.db = w.db)
    (h : (∃ n, E.fault n = true) ∨ ∃ err, landRow X w.db ie = .error err) :
    RowOutcome X E ie w (.error e, w')

theorem ingestRow_outcome (E : Env) (index : Nat) (ie : IngestEvent) (progress : IngestProgress)
    (w : World) : RowOutcome X E ie w ((ingestRow X index ie progress).run (handle E) w) := by
  unfold ingestRow
  split
  · rename_i hdevice
    exact .landed _ w (landRow_skip (Or.inl fun hv => hv.device hdevice))
  split
  · rename_i hid
    exact .landed _ w (landRow_skip (Or.inl fun hv => hid hv.id))
  rename_i hdevice hid
  obtain ⟨⟨err, hanswer⟩, hsame, hrefused⟩ | ⟨reply, db', hfault, hexec, hanswer, hdb⟩ :=
    handle_sql E (.getWorkspace ie.event.workspaceId) w
  · rw [Prog.run_bind_error _ (run_execute_error hanswer)]
    rcases hrefused with hfault | ⟨err, herr⟩
    · exact .stopped _ _ hsame (Or.inl ⟨_, hfault⟩)
    · cases herr
  · rw [Prog.run_bind_ok _ (run_execute_ok hanswer)]
    cases hexec
    cases hfind : w.db.workspace.find? ie.event.workspaceId with
    | none =>
      refine .landed _ _ ?_
      rw [hdb]
      refine landRow_skip (Or.inl fun hv => ?_)
      have hworkspace := hv.workspace
      rw [← Table.isSome_find?, hfind] at hworkspace
      cases hworkspace
    | some ws =>
      have hvalid : Valid X w.db ie :=
        ⟨hdevice, not_not.mp hid, by rw [← Table.isSome_find?, hfind]; rfl⟩
      have hland : landRow X w.db ie = ((Sql.ingestEvent ie.row).exec w.db).map Prod.snd := by
        rw [landRow, if_pos hvalid]
      obtain ⟨⟨err, hanswer'⟩, hsame, hrefused⟩ | ⟨reply, db', -, hexec, hanswer', hdb'⟩ :=
        handle_sql E (.ingestEvent ie.row) (handle E (.sql (.getWorkspace ie.event.workspaceId)) w).2
      · rw [Prog.run_bind_error _ (run_execute_error hanswer')]
        refine .stopped _ _ (hsame.trans hdb) ?_
        refine hrefused.imp (fun hfault => ⟨_, hfault⟩) fun hrefused => ?_
        obtain ⟨err', herr⟩ := hrefused
        rw [hdb] at herr
        exact ⟨err', by rw [hland, herr]; rfl⟩
      · rw [Prog.run_bind_ok _ (run_execute_ok hanswer')]
        refine .landed _ _ ?_
        rw [hdb] at hexec
        rw [hland, hexec, hdb']
        rfl

theorem workspace_of_landRow (h : landRow X db ie = .ok db') : db'.workspace = db.workspace := by
  rcases landRow_cases h with ⟨-, rfl⟩ | ⟨-, -, -, t, -, rfl⟩ <;> rfl

/-- The insertion answers whether the id was not stored. -/
theorem inserted_of_exec {row : AgentEventRow} {inserted : Bool}
    (h : (Sql.ingestEvent row).exec db = .ok (inserted, db')) : inserted = !db.agentEvent.contains row.id := by
  rw [Sql.exec] at h
  cases hcontains : db.agentEvent.contains row.id with
  | true =>
    rw [if_pos hcontains] at h
    cases h
    rfl
  | false =>
    rw [if_neg (by rw [hcontains]; exact Bool.false_ne_true)] at h
    cases hinsert : db.insertEvent row with
    | error e =>
      rw [hinsert] at h
      cases h
    | ok db'' =>
      rw [hinsert] at h
      cases h
      rfl

/-- What one turn of the loop adds to the report: a valid row is counted, as inserted when its id was not stored, and its stamp looked at; another one is rejected. -/
theorem ingestRow_counts {E : Env} {index : Nat} {progress progress' : IngestProgress} {w w' : World}
    (h : (ingestRow X index ie progress).run (handle E) w = (.ok progress', w')) :
    (Valid X w.db ie ∧ progress' =
        (progress.1.count (!w.db.agentEvent.contains ie.event.id), some (highest progress.2 ie.hlc))) ∨
      (¬ Valid X w.db ie ∧ ∃ reason, progress' = (progress.1.reject index ie reason, progress.2)) := by
  unfold ingestRow at h
  split at h
  · rename_i hdevice
    cases h
    exact Or.inr ⟨fun hv => hv.device hdevice, _, rfl⟩
  split at h
  · rename_i hid
    cases h
    exact Or.inr ⟨fun hv => hid hv.id, _, rfl⟩
  rename_i hdevice hid
  obtain ⟨⟨err, hanswer⟩, -⟩ | ⟨reply, db', -, hexec, hanswer, hdb⟩ :=
    handle_sql E (.getWorkspace ie.event.workspaceId) w
  · rw [Prog.run_bind_error _ (run_execute_error hanswer)] at h
    cases h
  · rw [Prog.run_bind_ok _ (run_execute_ok hanswer)] at h
    cases hexec
    cases hfind : w.db.workspace.find? ie.event.workspaceId with
    | none =>
      rw [hfind] at h
      cases h
      refine Or.inr ⟨fun hv => ?_, _, rfl⟩
      have hworkspace := hv.workspace
      rw [← Table.isSome_find?, hfind] at hworkspace
      cases hworkspace
    | some ws =>
      have hvalid : Valid X w.db ie := ⟨hdevice, not_not.mp hid, by rw [← Table.isSome_find?, hfind]; rfl⟩
      rw [hfind] at h
      obtain ⟨⟨err, hanswer'⟩, -⟩ | ⟨inserted, db', -, hexec, hanswer', -⟩ :=
        handle_sql E (.ingestEvent ie.row) (handle E (.sql (.getWorkspace ie.event.workspaceId)) w).2
      · dsimp only at h
        rw [Prog.run_bind_error _ (run_execute_error hanswer')] at h
        cases h
      · dsimp only at h
        rw [Prog.run_bind_ok _ (run_execute_ok hanswer')] at h
        cases h
        rw [hdb] at hexec
        exact Or.inl ⟨hvalid, by rw [inserted_of_exec hexec]; rfl⟩

theorem ingestRow_progress {E : Env} {index : Nat} {progress progress' : IngestProgress} {w w' : World}
    (h : (ingestRow X index ie progress).run (handle E) w = (.ok progress', w')) :
    (Valid X w.db ie ∧ ∃ inserted, progress' = (progress.1.count inserted, some (highest progress.2 ie.hlc))) ∨
      (¬ Valid X w.db ie ∧ ∃ reason, progress' = (progress.1.reject index ie reason, progress.2)) :=
  (ingestRow_counts h).imp_left fun hvalid => ⟨hvalid.1, _, hvalid.2⟩

theorem workspace_of_ingestRow {E : Env} {index : Nat} {progress progress' : IngestProgress} {w w' : World}
    (h : (ingestRow X index ie progress).run (handle E) w = (.ok progress', w')) : w'.db.workspace = w.db.workspace := by
  have hrow := ingestRow_outcome (X := X) E index ie progress w
  rw [h] at hrow
  cases hrow with
  | landed _ _ hland => exact workspace_of_landRow hland

/-- Nothing is rejected just when every row is valid. -/
theorem ingestLoop_rejected {E : Env} {index : Nat} {progress progress' : IngestProgress} {batch : List IngestEvent} {w w' : World}
    (h : (ingestLoop X index progress batch).run (handle E) w = (.ok progress', w')) :
    progress'.1.rejected = [] ↔ progress.1.rejected = [] ∧ ∀ ie ∈ batch, Valid X w.db ie := by
  induction batch generalizing index progress w with
  | nil =>
    cases h
    simp
  | cons ie batch ih =>
    rw [ingestLoop, Prog.run_bind] at h
    generalize hrun : (ingestRow X index ie progress).run (handle E) w = out at h
    obtain ⟨res, w₁⟩ := out
    cases res with
    | error e => cases h
    | ok progress₁ =>
      have hworkspace := workspace_of_ingestRow hrun
      rw [ih h, List.forall_mem_cons]
      simp only [valid_congr hworkspace]
      rcases ingestRow_progress hrun with ⟨hvalid, inserted, rfl⟩ | ⟨hinvalid, reason, rfl⟩
      · have hcount : (progress.1.count inserted).rejected = progress.1.rejected := by
          cases inserted <;> rfl
        rw [hcount, and_iff_right hvalid]
      · simp [IngestReport.reject, hinvalid]

/-- What one call does to the database: every row lands, or some first rows do and the next one cannot. -/
inductive BatchOutcome (X : Crates) (E : Env) (batch : List IngestEvent) (w : World) :
    Except ActantError IngestProgress × World → Prop where
  | finished (progress : IngestProgress) (w' : World) (h : landAll X w.db batch = .ok w'.db) :
    BatchOutcome X E batch w (.ok progress, w')
  | stopped (e : ActantError) (w' : World) (done : List IngestEvent) (ie : IngestEvent)
    (rest : List IngestEvent) (hbatch : batch = done ++ ie :: rest)
    (hdone : landAll X w.db done = .ok w'.db)
    (h : (∃ n, E.fault n = true) ∨ ∃ err, landRow X w'.db ie = .error err) :
    BatchOutcome X E batch w (.error e, w')

theorem landAll_cons {rest : List IngestEvent} (h : landRow X db ie = .ok db') :
    landAll X db (ie :: rest) = landAll X db' rest := by
  rw [landAll, h]
  rfl

theorem ingestLoop_outcome (E : Env) (index : Nat) (progress : IngestProgress)
    (batch : List IngestEvent) (w : World) :
    BatchOutcome X E batch w ((ingestLoop X index progress batch).run (handle E) w) := by
  induction batch generalizing index progress w with
  | nil => exact .finished progress w rfl
  | cons ie batch ih =>
    rw [ingestLoop, Prog.run_bind]
    generalize hrun : (ingestRow X index ie progress).run (handle E) w = out
    have hrow : RowOutcome X E ie w out := hrun ▸ ingestRow_outcome E index ie progress w
    cases hrow with
    | landed p w' h =>
      dsimp only
      generalize hloop : (ingestLoop X (index + 1) p batch).run (handle E) w' = out
      have hrest : BatchOutcome X E batch w' out := hloop ▸ ih (index + 1) p w'
      cases hrest with
      | finished p' w'' hall => exact .finished p' w'' ((landAll_cons h).trans hall)
      | stopped e w'' done ie' rest hbatch hdone hstop =>
        exact .stopped e w'' (ie :: done) ie' rest (by rw [hbatch, List.cons_append])
          ((landAll_cons h).trans hdone) hstop
    | stopped e w' hdb h =>
      exact .stopped e w' [] ie batch rfl (by rw [hdb]; rfl) (hdb ▸ h)

theorem ingestEvents_outcome (E : Env) (batch : List IngestEvent) (w : World) :
    BatchOutcome X E batch w ((ingestEvents X batch).run (handle E) w) :=
  ingestLoop_outcome E 0 _ batch w

/-- With a storage that does not fail, a batch whose rows all pass is processed to its end. -/
theorem ingestEvents_of_allPass {E : Env} (hfault : ∀ n, E.fault n = false) {w : World}
    {batch : List IngestEvent} (h : AllPass X w.db batch) :
    ∃ progress w', (ingestEvents X batch).run (handle E) w = (.ok progress, w') ∧
      Landed X w.db batch w'.db := by
  generalize hrun : (ingestEvents X batch).run (handle E) w = out
  have hbatch : BatchOutcome X E batch w out := hrun ▸ ingestEvents_outcome E batch w
  cases hbatch with
  | finished p w' hall => exact ⟨p, w', rfl, ((landAll_spec _ _).1 _ hall).2⟩
  | stopped e w' done ie rest hsplit hdone hstop =>
    -- the row that stops the batch would not have passed
    rcases hstop with ⟨n, hn⟩ | ⟨err, herr⟩
    · rw [hfault] at hn
      cases hn
    · obtain ⟨db'', hland⟩ := ((landAll_spec _ _).1 _ hdone).2.landRow (h done ie rest hsplit)
      rw [hland] at herr
      cases herr

theorem ingestLoop_append (index : Nat) (progress : IngestProgress) (pre post : List IngestEvent) :
    ingestLoop X index progress (pre ++ post) =
      ingestLoop X index progress pre >>= fun progress' =>
        ingestLoop X (index + pre.length) progress' post := by
  induction pre generalizing index progress with
  | nil => rfl
  | cons ie pre ih =>
    rw [List.cons_append, ingestLoop, ingestLoop, Prog.bind_assoc]
    refine congrArg _ (funext fun progress' => ?_)
    rw [ih, List.length_cons, Nat.add_right_comm, Nat.add_assoc]

end ActantDb
