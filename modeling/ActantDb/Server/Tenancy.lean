import ActantDb.Server.AutoRest

/-!
# Tenancy of the REST routes

A request touches only rows of the workspace it was authorised for, but for a `POST` that inserts: its row is of the workspace that the body names, if it names one.
-/

namespace ActantDb

namespace AutoRest

/-- The rows that the request has read, inserted, updated or deleted; an updated one is two, as it was and as it is. -/
def Outcome.touched (o : Outcome) : List Row :=
  o.read ++ o.inserted ++ o.deleted ++ o.updated.flatMap fun r => [r.1, r.2]

/-- Every row that was touched is of the workspace that was authorised. -/
def Outcome.Tenant (o : Outcome) : Prop :=
  ∀ r ∈ o.touched, ∃ w, o.authorised = some w ∧ r "workspace_id" = .text w

section Tenancy

variable {s : Server} {db : Db} {tbl : TableMeta} {req : Request} {workspaceId : String} {filters : List Filter}
  {entries : List (String × Value)} {r : Row}

/-- The `POST` goes through, with these entries in its body. -/
structure Inserts (s : Server) (db : Db) (req : Request) (tbl : TableMeta) (workspaceId : String)
    (entries : List (String × Value)) : Prop where
  table : s.schemaCache.bind (fun tables => tables.find? (·.name = req.table)) = some tbl
  method : req.method = .post
  workspace : workspaceIdFrom req.params req.body = some workspaceId
  rate : s.enforceRateLimit workspaceId = none
  auth : s.enforceAuth .post workspaceId = none
  body : req.body = .object entries
  columns : entries.find? (fun e => !tbl.hasColumn e.1) = none
  tenant : tbl.hasColumn "workspace_id" = true
  accepts : s.engine.accepts
    (Function.update db tbl.name (db tbl.name ++ [insertedRow s tbl entries workspaceId])) = true

/-- What the body names as the workspace, as it is bound. -/
def bodyWorkspace (s : Server) (req : Request) : Option String :=
  (req.body.get "workspace_id").map (valueToSqlString s)

theorem tenant_refuse {authorised : Option String} {response : Response} : (refuse db authorised response).Tenant := by
  intro r hr
  cases hr

theorem selects_workspace (h : selects s workspaceId filters r = true) : r "workspace_id" = .text workspaceId := by
  rw [selects, Bool.and_eq_true, decide_eq_true_eq] at h
  exact h.1

theorem mem_orderRows {order : Option (String × Bool)} {rows : List Row} (h : r ∈ orderRows s order rows) : r ∈ rows := by
  unfold orderRows at h
  split at h
  · exact h
  split at h
  · exact List.mem_mergeSort.mp h
  · exact List.mem_mergeSort.mp h

theorem mem_arrange {p : RequestParams} {rows : List Row} (h : r ∈ arrange s p rows) : r ∈ rows := by
  unfold arrange at h
  split at h
  · exact mem_orderRows h
  · exact mem_orderRows (List.mem_of_mem_drop (List.mem_of_mem_take h))

/-- A workspace is stored as it is bound. -/
theorem store_workspace {c : ColumnMeta} (h : tbl.column "workspace_id" = some c) (t : String) :
    store s c t = .text t := by
  have hname : c.name = "workspace_id" := by simpa using List.find?_some h
  rw [store, if_pos (tbl.workspaceText c (List.mem_of_find?_eq_some h) hname)]

theorem column_of_hasColumn {name : String} (h : tbl.hasColumn name = true) : ∃ c, tbl.column name = some c := by
  rw [TableMeta.hasColumn, List.any_eq_true] at h
  obtain ⟨c, hc, hname⟩ := h
  exact Option.isSome_iff_exists.mp (List.find?_isSome.mpr ⟨c, hc, hname⟩)

theorem insertedRow_workspace (h : tbl.hasColumn "workspace_id" = true) :
    insertedRow s tbl entries workspaceId "workspace_id" =
      .text (((Value.get (.object entries) "workspace_id").map (valueToSqlString s)).getD workspaceId) := by
  obtain ⟨c, hc⟩ := column_of_hasColumn h
  rw [insertedRow, hc]
  dsimp only
  cases Value.get (.object entries) "workspace_id" <;> simp [store_workspace hc]

theorem patchedRow_workspace (h : entries.find? (fun e => e.1 = "workspace_id" || !tbl.hasColumn e.1) = none) :
    patchedRow s tbl entries r "workspace_id" = r "workspace_id" := by
  have hnone : Value.get (.object entries) "workspace_id" = none := by
    rw [Value.get, Option.map_eq_none_iff, List.find?_eq_none]
    intro e he
    have hother := List.find?_eq_none.mp h e he
    intro heq
    simp [of_decide_eq_true heq] at hother
  rw [patchedRow, hnone]
  cases tbl.column "workspace_id" <;> rfl

theorem tenant_get : (handleGet s db tbl req).Tenant := by
  unfold handleGet
  split
  · exact tenant_refuse
  rename_i p _
  split
  · exact tenant_refuse
  split
  · exact tenant_refuse
  intro r hr
  rw [Outcome.touched] at hr
  simp only [List.append_nil, List.flatMap_nil] at hr
  exact ⟨_, rfl, selects_workspace (List.mem_filter.mp (mem_arrange hr)).2⟩

theorem tenant_patch : (handlePatch s db tbl req).Tenant := by
  unfold handlePatch
  split
  · exact tenant_refuse
  rename_i p _
  split
  · exact tenant_refuse
  split
  · exact tenant_refuse
  split
  · exact tenant_refuse
  · exact tenant_refuse
  split
  · exact tenant_refuse
  rename_i entries _ _ hcolumns
  dsimp only
  split
  · intro r hr
    simp only [Outcome.touched, List.nil_append, List.mem_flatMap, List.mem_map, List.mem_filter] at hr
    obtain ⟨pair, ⟨old, ⟨-, hhit⟩, rfl⟩, hr⟩ := hr
    refine ⟨_, rfl, ?_⟩
    have hold := selects_workspace hhit
    simp only [List.mem_cons, List.not_mem_nil, or_false] at hr
    obtain rfl | rfl := hr
    · exact hold
    · rw [patchedRow_workspace hcolumns, hold]
  · exact tenant_refuse

theorem tenant_delete : (handleDelete s db tbl req).Tenant := by
  unfold handleDelete
  split
  · exact tenant_refuse
  split
  · exact tenant_refuse
  split
  · exact tenant_refuse
  split
  · exact tenant_refuse
  dsimp only
  split
  · intro r hr
    simp only [Outcome.touched, List.nil_append, List.flatMap_nil, List.append_nil] at hr
    exact ⟨_, rfl, selects_workspace (List.mem_filter.mp hr).2⟩
  · exact tenant_refuse

/-- What a `POST` does that goes through. -/
theorem handle_inserts (h : Inserts s db req tbl workspaceId entries) :
    (handle s db req).touched = [insertedRow s tbl entries workspaceId] ∧
      (handle s db req).authorised = some workspaceId := by
  obtain ⟨tables, htables, htable⟩ := Option.bind_eq_some_iff.mp h.table
  have hworkspace := h.workspace
  rw [h.body] at hworkspace
  simp [handle, htables, htable, h.method, handlePost, hworkspace, h.rate, h.auth, h.body, asObject, h.columns, h.tenant,
    h.accepts, Outcome.touched]

theorem tenant_post (htable : s.schemaCache.bind (fun tables => tables.find? (·.name = req.table)) = some tbl)
    (hmethod : req.method = .post)
    (h : ∀ w entries, Inserts s db req tbl w entries → ∀ t, bodyWorkspace s req = some t → t = w) :
    (handlePost s db tbl req).Tenant := by
  unfold handlePost
  split
  · exact tenant_refuse
  rename_i w hworkspace
  split
  · exact tenant_refuse
  rename_i hrate
  split
  · exact tenant_refuse
  rename_i hauth
  split
  · exact tenant_refuse
  rename_i entries hentries
  split
  · exact tenant_refuse
  rename_i hcolumns
  dsimp only
  split
  · rename_i haccepts
    rw [Bool.and_eq_true] at haccepts
    have hbody : req.body = .object entries := by
      cases hvalue : req.body with
      | object es =>
        rw [hvalue] at hentries
        rw [Option.some.inj hentries]
      | _ =>
        rw [hvalue] at hentries
        cases hentries
    have hnames := h w entries ⟨htable, hmethod, hworkspace, hrate, hauth, hbody, hcolumns, haccepts.1, haccepts.2⟩
    intro r hr
    simp only [Outcome.touched, List.nil_append, List.flatMap_nil, List.append_nil, List.mem_singleton] at hr
    subst hr
    refine ⟨w, rfl, ?_⟩
    rw [insertedRow_workspace haccepts.1]
    rw [bodyWorkspace, hbody] at hnames
    cases hnamed : (Value.get (.object entries) "workspace_id").map (valueToSqlString s) with
    | none => rfl
    | some t => rw [Option.getD_some, hnames t hnamed]
  · exact tenant_refuse

end Tenancy

/-- **Every row that is touched** is of the workspace that was authorised, exactly if no `POST` goes through whose body names another workspace. -/
theorem rest_tenancy_iff (s : Server) (db : Db) (req : Request) :
    (handle s db req).Tenant ↔
      ∀ tbl w entries, Inserts s db req tbl w entries → ∀ t, bodyWorkspace s req = some t → t = w := by
  constructor
  · intro h tbl w entries hinserts t hnamed
    obtain ⟨htouched, hauthorised⟩ := handle_inserts hinserts
    obtain ⟨w', hw', hrow⟩ := h (insertedRow s tbl entries w) (by rw [htouched]; exact List.mem_singleton_self _)
    rw [hauthorised] at hw'
    rw [bodyWorkspace, hinserts.body] at hnamed
    rw [insertedRow_workspace hinserts.tenant, hnamed, Option.getD_some, SqlValue.text.injEq] at hrow
    rw [hrow, Option.some.inj hw']
  · intro h
    unfold handle
    split
    · exact tenant_refuse
    rename_i tables htables
    split
    · exact tenant_refuse
    rename_i tbl htable
    have hbind : s.schemaCache.bind (fun tables => tables.find? (·.name = req.table)) = some tbl := by
      rw [htables]
      exact htable
    split
    · exact tenant_get
    · rename_i hmethod
      exact tenant_post hbind hmethod (h tbl)
    · exact tenant_patch
    · exact tenant_delete

/-- A server that lets everybody in to one workspace, with a table of notes. -/
def sampleServer : Server where
  crates := .sample
  engine := ⟨fun _ _ => false, fun _ _ => true, fun _ t => .text t, fun _ _ => .null, fun _ => true⟩
  schemaCache := some [⟨"note", [⟨"id", "TEXT", true⟩, ⟨"workspace_id", "TEXT", false⟩], by decide⟩]
  enforceRateLimit _ := none
  enforceAuth _ w := if w = "ws_a" then none else some (.refused 403)

/-- `POST /rest/v1/note?workspace_id=ws_a` with `ws_b` in the body. -/
def foreignNote : Request :=
  ⟨.post, "note", [("workspace_id", "ws_a")], .object [("id", .string "n1"), ("workspace_id", .string "ws_b")]⟩

theorem foreign_note_inserted : ¬ (handle sampleServer (fun _ => []) foreignNote).Tenant := by
  intro h
  obtain ⟨w, hw, hrow⟩ := h _ List.mem_cons_self
  obtain rfl : "ws_a" = w := Option.some.inj hw
  exact absurd hrow (by decide)

end AutoRest

end ActantDb
