import ActantDb.Command.Engine
import ActantDb.Server.Auth
import ActantDb.Server.AutoRest

/-!
# GraphQL

A batch of requests is checked once: `enforce_auth` is asked about the first variable called `workspace_id` that any request has, and about nothing if there is none or if it is not a text. Each field that is then resolved names a workspace of its own, which no resolver checks, though a comment in the handler says that they do. What a batch reads and dispatches is authorised exactly when it is refused, or each field that has an effect names the workspace that the credential of the request is for (`authorised_iff`).
-/

namespace ActantDb

namespace GraphQl

open AutoRest (Row TableMeta SqlValue)
open Server (HeaderMap AuthState AuthCrates AuthError enforceAuth credential enforceAuth_iff_credential)

/-! ### Values -/

/-- `async_graphql::Value`. -/
inductive GqlValue where
  | null
  | number (n : Number)
  | string (s : String)
  | boolean (b : Bool)
  | binary (bytes : List UInt8)
  | enum (name : String)
  | list (items : List GqlValue)
  | object (entries : List (String × GqlValue))

/-- `as_i64`. -/
def asI64 : Number → Option Int
  | .posInt n => if n.toNat < 2 ^ 63 then some n.toNat else none
  | .negInt n => some n.toInt
  | .float _ => none

namespace GqlValue

def asStr : GqlValue → Option String
  | .string s => some s
  | _ => none

def asInt : GqlValue → Option Int
  | .number n => asI64 n
  | _ => none

def entries? : GqlValue → Option (List (String × GqlValue))
  | .object entries => some entries
  | _ => none

end GqlValue

def gqlNumberToJson (n : Number) : Value :=
  match asI64 n with
  | some _ => .number n
  | none => if n.asF64.isFinite then .number (.float n.asF64) else .null

mutual

def gqlToJson : GqlValue → Value
  | .null => .null
  | .boolean b => .bool b
  | .number n => gqlNumberToJson n
  | .string s => .string s
  | .enum name => .string name
  | .list items => .array (gqlItemsToJson items)
  | .object entries => .object (Value.collectEntries (gqlEntriesToJson entries))
  | .binary _ => .null

def gqlItemsToJson : List GqlValue → List Value
  | [] => []
  | v :: rest => gqlToJson v :: gqlItemsToJson rest

def gqlEntriesToJson : List (String × GqlValue) → List (String × Value)
  | [] => []
  | (k, v) :: rest => (k, gqlToJson v) :: gqlEntriesToJson rest

end

/-! ### The server -/

structure Request where
  query : String
  variableValues : List (String × GqlValue)

inductive Resolver where
  | runQuery (tbl : TableMeta)
  | runCommand

/-- A field that is resolved, its arguments with the variables filled in. -/
structure FieldCall where
  resolver : Resolver
  args : List (String × GqlValue)

/-- What the server takes from `async_graphql`: whether the schema of the tables can be built, which fields the execution of a request resolves, and how a value is printed. -/
structure AsyncGraphQl where
  buildSchema : List TableMeta → Except String Unit
  execute : List TableMeta → Request → AutoRest.Db → List FieldCall
  print : GqlValue → String

structure AppState where
  auth : AuthState
  schemaCache : Option (List TableMeta)
  sqlite : AutoRest.Engine
  graphQl : AsyncGraphQl
  -- `Engine::dispatch`
  dispatch : Call → AutoRest.Db → Except ActantError CommandOutcome × AutoRest.Db

inductive GqlError where
  -- of `async_graphql`: the argument is missing or no text
  | argument (name : String)
  | message (text : String)
  | storage
  | actant (e : ActantError)

def unknownColumn (column : String) (tbl : TableMeta) : GqlError :=
  .message ("unknown column '" ++ column ++ "' on table '" ++ tbl.name ++ "'")

def argument (args : List (String × GqlValue)) (name : String) : Option GqlValue :=
  (args.find? (·.1 = name)).map (·.2)

/-- `try_get` and `string`. -/
def stringArgument (args : List (String × GqlValue)) (name : String) : Except GqlError String :=
  match (argument args name).bind GqlValue.asStr with
  | some text => .ok text
  | none => .error (.argument name)

def parseOrderBy (spec : String) (tbl : TableMeta) : Except GqlError (String × Bool) :=
  let (col, dir) := AutoRest.splitDot spec
  if !tbl.hasColumn col then .error (unknownColumn col tbl)
  else
    match dir with
    | "asc" => .ok (col, true)
    | "" => .ok (col, true)
    | "desc" => .ok (col, false)
    | other => .error (.message ("invalid order direction '" ++ other ++ "'"))

section Handler

variable (X : AuthCrates) (s : AppState) (headers : HeaderMap)

def gqlValueToString : GqlValue → String
  | .string text => text
  | .boolean b => if b then "1" else "0"
  | .null => ""
  | other => s.graphQl.print other

/-- The columns of the `where` argument with the texts that are bound. -/
def whereClauses (tbl : TableMeta) (args : List (String × GqlValue)) : Except GqlError (List (String × String)) :=
  ((((argument args "where").bind GqlValue.entries?).getD []).mapM fun (key, v) =>
    if tbl.hasColumn key then .ok (key, gqlValueToString s v) else .error (unknownColumn key tbl))

/-- `WHERE workspace_id = ?` and the clauses. -/
def selects (workspaceId : String) (clauses : List (String × String)) (r : Row) : Bool :=
  r "workspace_id" = .text workspaceId && clauses.all fun clause => s.sqlite.holds (.eq clause.2) (r clause.1)

def orderRows (order : Option (String × Bool)) (rows : List Row) : List Row :=
  match order with
  | none => rows
  | some (col, asc) =>
    if asc then rows.mergeSort fun a b => s.sqlite.le (a col) (b col)
    else rows.mergeSort fun a b => s.sqlite.le (b col) (a col)

/-- `limit` and `offset`. -/
def page (args : List (String × GqlValue)) : Nat × Nat :=
  let limit := (((argument args "limit").bind GqlValue.asInt).getD 100 |> max 1 |> min 10000).toNat
  let offset := (((argument args "offset").bind GqlValue.asInt).getD 0 |> max 0).toNat
  (limit, offset)

def orderOf (tbl : TableMeta) (args : List (String × GqlValue)) : Except GqlError (Option (String × Bool)) :=
  match (argument args "order_by").bind GqlValue.asStr with
  | none => .ok none
  | some spec => (parseOrderBy spec tbl).map some

/-- The rows that the query selects. -/
def runQuery (db : AutoRest.Db) (tbl : TableMeta) (args : List (String × GqlValue)) : Except GqlError (List Row) := do
  let workspaceId ← stringArgument args "workspace_id"
  let clauses ← whereClauses s tbl args
  let order ← orderOf tbl args
  if !tbl.hasColumn "workspace_id" then .error .storage
  else
    let (limit, offset) := page args
    return ((orderRows s order ((db tbl.name).filter (selects s workspaceId clauses))).drop offset).take limit

/-- The command that the arguments make. -/
def commandOf (args : List (String × GqlValue)) : Except GqlError Call := do
  let workspaceId ← stringArgument args "workspace_id"
  let actorId ← stringArgument args "actor_id"
  let commandType ← stringArgument args "command_type"
  match argument args "input" with
  | none => .error (.argument "input")
  | some input =>
    return { workspaceId := workspaceId, actorId := actorId, commandType := commandType, input := gqlToJson input,
             idempotencyKey := (argument args "idempotency_key").bind GqlValue.asStr }

/-- What a field did: it read rows, which it returns column by column, or dispatched a command, or neither. -/
inductive FieldOutcome where
  | rows (rows : List Row) (output : List Value)
  | dispatched (call : Call) (outcome : Except ActantError CommandOutcome)
  | failed (e : GqlError)

def runField (db : AutoRest.Db) (field : FieldCall) : FieldOutcome × AutoRest.Db :=
  match field.resolver with
  | .runQuery tbl =>
    match runQuery s db tbl field.args with
    | .error e => (.failed e, db)
    | .ok rows => (.rows rows (rows.map (AutoRest.rowToJson (tbl.columns.map AutoRest.ColumnMeta.name))), db)
  | .runCommand =>
    match commandOf field.args with
    | .error e => (.failed e, db)
    | .ok call => (.dispatched call (s.dispatch call db).1, (s.dispatch call db).2)

/-- Each field with the database that it finds, and the database after all. -/
def resolve (db : AutoRest.Db) : List FieldCall → List (AutoRest.Db × FieldCall) × AutoRest.Db
  | [] => ([], db)
  | field :: rest =>
    let (resolved, db') := resolve (runField s db field).2 rest
    ((db, field) :: resolved, db')

/-- The requests are executed in turn. -/
def executions (tables : List TableMeta) (db : AutoRest.Db) :
    List Request → List (List (AutoRest.Db × FieldCall)) × AutoRest.Db
  | [] => ([], db)
  | r :: rest =>
    let (resolved, db') := resolve s db (s.graphQl.execute tables r db)
    let (others, db'') := executions tables db' rest
    (resolved :: others, db'')

/-- The workspace that the batch is checked for. -/
def checkedWorkspace (requests : List Request) : Option String :=
  (requests.findSome? fun r => argument r.variableValues "workspace_id").bind GqlValue.asStr

inductive GqlResponse where
  | schemaCacheUnavailable
  | refused (e : AuthError)
  | schemaBuildFailed (message : String)
  -- for each request what its fields did
  | executed (responses : List (List FieldOutcome))

/-- `enforce_auth`, if there is a workspace to check. -/
def enforceChecked (requests : List Request) : Except AuthError Unit :=
  match checkedWorkspace requests with
  | some ws => enforceAuth X s.auth headers .post ws
  | none => .ok ()

def graphqlHandler (db : AutoRest.Db) (requests : List Request) : GqlResponse × AutoRest.Db :=
  match s.schemaCache with
  | none => (.schemaCacheUnavailable, db)
  | some tables =>
    match enforceChecked X s headers requests with
    | .error e => (.refused e, db)
    | .ok () =>
      match s.graphQl.buildSchema tables with
      | .error message => (.schemaBuildFailed message, db)
      | .ok () =>
        let (resolved, db') := executions s tables db requests
        (.executed (resolved.map fun fields => fields.map fun field => (runField s field.1 field.2).1), db')

/-! ### Authorisation -/

/-- Every row that is read, and every command that is dispatched, is of a workspace that the headers are authorised for. -/
def FieldAuthorised : FieldOutcome → Prop
  | .rows rows _ => ∀ r ∈ rows, ∃ ws, r "workspace_id" = .text ws ∧ enforceAuth X s.auth headers .post ws = .ok ()
  | .dispatched call _ => enforceAuth X s.auth headers .post call.workspaceId = .ok ()
  | .failed _ => True

def Authorised (db : AutoRest.Db) (requests : List Request) : Prop :=
  ∀ responses, (graphqlHandler X s headers db requests).1 = .executed responses →
    ∀ response ∈ responses, ∀ field ∈ response, FieldAuthorised X s headers field

/-- The field names the workspace and has an effect: some row is selected, or the arguments make a command. -/
def Reaches (db : AutoRest.Db) (field : FieldCall) (ws : String) : Prop :=
  stringArgument field.args "workspace_id" = .ok ws ∧
    match field.resolver with
    | .runQuery tbl => ∃ r rest, runQuery s db tbl field.args = .ok (r :: rest)
    | .runCommand => ∃ call, commandOf field.args = .ok call

/-- The batch comes to be executed. -/
structure Executes (requests : List Request) (tables : List TableMeta) : Prop where
  cache : s.schemaCache = some tables
  checked : ∀ ws ∈ checkedWorkspace requests, credential X s.auth headers .post = some ws
  schema : s.graphQl.buildSchema tables = .ok ()

variable {X s headers} {db : AutoRest.Db} {field : FieldCall} {requests : List Request} {tables : List TableMeta}

theorem selects_workspace {workspaceId : String} {clauses : List (String × String)} {r : Row}
    (h : selects s workspaceId clauses r = true) : r "workspace_id" = .text workspaceId := by
  rw [selects, Bool.and_eq_true, decide_eq_true_eq] at h
  exact h.1

theorem mem_orderRows {order : Option (String × Bool)} {rows : List Row} {r : Row} (h : r ∈ orderRows s order rows) :
    r ∈ rows := by
  unfold orderRows at h
  split at h
  · exact h
  split at h
  · exact List.mem_mergeSort.mp h
  · exact List.mem_mergeSort.mp h

/-- A query reads rows of the workspace that it names. -/
theorem runQuery_workspace {tbl : TableMeta} {args : List (String × GqlValue)} {rows : List Row}
    (h : runQuery s db tbl args = .ok rows) :
    ∃ ws, stringArgument args "workspace_id" = .ok ws ∧ ∀ r ∈ rows, r "workspace_id" = .text ws := by
  obtain ⟨ws, hws, h⟩ := bind_eq_ok.mp h
  obtain ⟨clauses, -, h⟩ := bind_eq_ok.mp h
  obtain ⟨order, -, h⟩ := bind_eq_ok.mp h
  refine ⟨ws, hws, fun r hr => ?_⟩
  split at h
  · cases h
  · cases h
    exact selects_workspace (List.mem_filter.mp (mem_orderRows (List.mem_of_mem_drop (List.mem_of_mem_take hr)))).2

theorem commandOf_workspace {args : List (String × GqlValue)} {call : Call} (h : commandOf args = .ok call) :
    stringArgument args "workspace_id" = .ok call.workspaceId := by
  obtain ⟨ws, hws, h⟩ := bind_eq_ok.mp h
  obtain ⟨actor, -, h⟩ := bind_eq_ok.mp h
  obtain ⟨commandType, -, h⟩ := bind_eq_ok.mp h
  split at h
  · cases h
  · cases h
    exact hws

/-- With a secret configured, what a field does is authorised just when the field reaches no workspace but that of the credential. -/
theorem fieldAuthorised_iff (hsecret : s.auth.authSecret.isSome = true) :
    FieldAuthorised X s headers (runField s db field).1 ↔
      ∀ ws, Reaches s db field ws → credential X s.auth headers .post = some ws := by
  obtain ⟨resolver, args⟩ := field
  cases resolver with
  | runQuery tbl =>
    rw [runField]
    dsimp only
    cases hquery : runQuery s db tbl args with
    | error e =>
      refine ⟨fun _ ws hreaches => ?_, fun _ => trivial⟩
      obtain ⟨-, r, rest, hrows⟩ := hreaches
      rw [hquery] at hrows
      cases hrows
    | ok rows =>
      obtain ⟨ws, hws, hof⟩ := runQuery_workspace hquery
      constructor
      · rintro hauthorised ws' ⟨hws', r, rest, hrows⟩
        rw [hquery, Except.ok.injEq] at hrows
        subst hrows
        obtain ⟨ws'', hr, henforced⟩ := hauthorised r List.mem_cons_self
        rw [hof r List.mem_cons_self, SqlValue.text.injEq] at hr
        rw [hws, Except.ok.injEq] at hws'
        rw [← hws', hr]
        exact (enforceAuth_iff_credential hsecret).mp henforced
      · intro hreached r hr
        obtain ⟨first, rest, hrows⟩ := List.exists_cons_of_ne_nil (List.ne_nil_of_mem hr)
        have hcredential := hreached ws ⟨hws, first, rest, by rw [hquery, hrows]⟩
        exact ⟨ws, hof r hr, (enforceAuth_iff_credential hsecret).mpr hcredential⟩
  | runCommand =>
    rw [runField]
    dsimp only
    cases hcommand : commandOf args with
    | error e =>
      refine ⟨fun _ ws hreaches => ?_, fun _ => trivial⟩
      obtain ⟨-, call, hcall⟩ := hreaches
      rw [hcommand] at hcall
      cases hcall
    | ok call =>
      have hnamed := commandOf_workspace hcommand
      constructor
      · rintro hauthorised ws ⟨hws, -⟩
        rw [hnamed, Except.ok.injEq] at hws
        rw [← hws]
        exact (enforceAuth_iff_credential hsecret).mp hauthorised
      · intro hreached
        exact (enforceAuth_iff_credential hsecret).mpr (hreached call.workspaceId ⟨hnamed, call, hcommand⟩)

theorem enforceChecked_ok (hsecret : s.auth.authSecret.isSome = true) :
    enforceChecked X s headers requests = .ok () ↔
      ∀ ws ∈ checkedWorkspace requests, credential X s.auth headers .post = some ws := by
  rw [enforceChecked]
  cases checkedWorkspace requests with
  | none => simp
  | some ws =>
    dsimp only
    rw [enforceAuth_iff_credential hsecret]
    simp

/-- A batch is executed just when there is a schema and what is checked is the workspace of the credential. -/
theorem graphqlHandler_executed (hsecret : s.auth.authSecret.isSome = true) {responses : List (List FieldOutcome)} :
    (graphqlHandler X s headers db requests).1 = .executed responses ↔
      ∃ tables, Executes X s headers requests tables ∧
        responses = (executions s tables db requests).1.map fun fields =>
          fields.map fun field => (runField s field.1 field.2).1 := by
  rw [graphqlHandler]
  constructor
  · intro h
    split at h
    · cases h
    rename_i tables hcache
    split at h
    · cases h
    rename_i hchecked
    split at h
    · cases h
    rename_i hschema
    cases h
    exact ⟨tables, ⟨hcache, (enforceChecked_ok hsecret).mp hchecked, hschema⟩, rfl⟩
  · rintro ⟨tables, ⟨hcache, hchecked, hschema⟩, rfl⟩
    rw [hcache]
    dsimp only
    rw [(enforceChecked_ok hsecret).mpr hchecked]
    dsimp only
    rw [hschema]

/-- **What a batch reads and dispatches is authorised** exactly when it is not executed, or each field that reaches a workspace reaches that of the credential. -/
theorem authorised_iff (hsecret : s.auth.authSecret.isSome = true) :
    Authorised X s headers db requests ↔
      ∀ tables, Executes X s headers requests tables →
        ∀ fields ∈ (executions s tables db requests).1, ∀ field ∈ fields, ∀ ws,
          Reaches s field.1 field.2 ws → credential X s.auth headers .post = some ws := by
  constructor
  · intro h tables hexecutes fields hfields field hfield
    rw [← fieldAuthorised_iff hsecret]
    exact h _ ((graphqlHandler_executed hsecret).mpr ⟨tables, hexecutes, rfl⟩) _ (List.mem_map_of_mem hfields) _
      (List.mem_map_of_mem hfield)
  · intro h responses hresponses response hresponse outcome houtcome
    obtain ⟨tables, hexecutes, rfl⟩ := (graphqlHandler_executed hsecret).mp hresponses
    obtain ⟨fields, hfields, rfl⟩ := List.mem_map.mp hresponse
    obtain ⟨field, hfield, rfl⟩ := List.mem_map.mp houtcome
    exact (fieldAuthorised_iff hsecret).mpr (h tables hexecutes fields hfields field hfield)

end Handler

/-! ### A batch that is not checked -/

def notes : TableMeta :=
  ⟨"note", [⟨"id", "TEXT", true⟩, ⟨"workspace_id", "TEXT", false⟩, ⟨"title", "TEXT", false⟩], by decide⟩

/-- A table of notes; the one query that is sent names its workspace as a literal. -/
def sampleState : AppState where
  auth := .sample
  schemaCache := some [notes]
  sqlite := ⟨fun _ _ => false, fun _ _ => true, fun _ t => .text t, fun _ _ => .null, fun _ => true⟩
  graphQl :=
    { buildSchema := fun _ => .ok ()
      execute := fun _ r _ =>
        if r.query = "\x7b note(workspace_id: \"ws_a\") \x7d" then
          [⟨.runQuery notes, [("workspace_id", .string "ws_a")]⟩]
        else []
      print := fun _ => "" }
  dispatch _ db := (.error (.internal "not reached"), db)

def noteOfA : Row := fun column =>
  if column = "id" then .text "note_1" else if column = "workspace_id" then .text "ws_a" else .null

def sampleDb : AutoRest.Db := fun table => if table = "note" then [noteOfA] else []

def literalQuery : Request := ⟨"\x7b note(workspace_id: \"ws_a\") \x7d", []⟩

/-- With the token of `ws_a` the query is authorised. -/
theorem literalQuery_authorised : Authorised .sample sampleState Server.sampleHeaders sampleDb [literalQuery] := by
  refine (authorised_iff rfl).mpr fun tables hexecutes fields hfields field hfield ws hreaches => ?_
  have hcredential : credential .sample sampleState.auth Server.sampleHeaders .post = some "ws_a" :=
    Server.sampleHeaders_credential .post
  have htables : [notes] = tables := Option.some.inj hexecutes.cache
  subst htables
  have hresolved : (executions sampleState [notes] sampleDb [literalQuery]).1 =
      [[(sampleDb, ⟨.runQuery notes, [("workspace_id", .string "ws_a")]⟩)]] := rfl
  rw [hresolved, List.mem_singleton] at hfields
  subst hfields
  rw [List.mem_singleton] at hfield
  subst hfield
  have hnamed : Except.ok "ws_a" = Except.ok ws := hreaches.1
  rw [hcredential, Except.ok.inj hnamed]

/-- Without any credential it reads the same row. -/
theorem literalQuery_unauthorised : ¬ Authorised .sample sampleState [] sampleDb [literalQuery] := by
  intro h
  have hexecuted : (graphqlHandler .sample sampleState [] sampleDb [literalQuery]).1 =
      .executed [[.rows [noteOfA] [AutoRest.rowToJson ["id", "workspace_id", "title"] noteOfA]]] := rfl
  obtain ⟨ws, -, henforced⟩ :=
    h _ hexecuted _ List.mem_cons_self _ List.mem_cons_self noteOfA List.mem_cons_self
  have hmissing : enforceAuth .sample sampleState.auth [] .post ws = .error .missingAuthorization := rfl
  rw [hmissing] at henforced
  cases henforced

end GraphQl

end ActantDb
