import ActantDb.Core.Hash
import ActantDb.Subscribe.Predicate

/-!
# The generated REST routes

The routes `/rest/v1/<table>` run one statement on one table. Every request names a workspace, which `enforce_auth` is asked about; `SELECT`, `UPDATE` and `DELETE` are restricted to its rows. An `INSERT` takes its columns from the body, the workspace as well if the body has it, and then it is the body's workspace that is inserted and not the one of the query string that was authorised.
-/

namespace ActantDb

namespace AutoRest

/-! ### Tables -/

inductive SqlValue where
  | null
  | integer (n : Int64)
  | real (x : F64)
  | text (s : String)
  | blob (bytes : List UInt8)
deriving DecidableEq

/-- A row, by its columns. -/
abbrev Row := String → SqlValue

/-- The rows of every table. -/
abbrev Db := String → List Row

structure ColumnMeta where
  name : String
  sqlType : String
  pk : Bool

/-- A table that is exposed; where it has a workspace it is a text. -/
structure TableMeta where
  name : String
  columns : List ColumnMeta
  workspaceText : ∀ c ∈ columns, c.name = "workspace_id" → c.sqlType = "TEXT"

def TableMeta.column (tbl : TableMeta) (name : String) : Option ColumnMeta := tbl.columns.find? (·.name = name)

def TableMeta.hasColumn (tbl : TableMeta) (name : String) : Bool := tbl.columns.any (·.name = name)

/-! ### Query parameters -/

inductive FilterOp where
  | eq (v : String)
  | ne (v : String)
  | lt (v : String)
  | le (v : String)
  | gt (v : String)
  | ge (v : String)
  | like (v : String)
  | in (vs : List String)
  | isNull
  | isNotNull

structure Filter where
  column : String
  op : FilterOp
  isPk : Bool

def Filter.isPkEq (f : Filter) : Bool :=
  f.isPk && match f.op with
    | .eq _ => true
    | _ => false

structure RequestParams where
  workspaceId : String
  selectCols : List String
  filters : List Filter
  order : Option (String × Bool)
  limit : Option Nat
  offset : Option Nat

/-- `splitn(2, '.')`, with an empty second part where there is none. -/
def splitDot (s : String) : String × String :=
  (String.ofList (s.toList.takeWhile (· ≠ '.')), String.ofList (s.toList.dropWhile (· ≠ '.')).tail)

/-- `split(',')`, of which each part is trimmed and none is empty. -/
def commaList (s : List Char) : List String :=
  ((s.splitOn ',').map fun part => String.ofList (trim part)).filter (· ≠ "")

def parseOp (value : String) : Except String FilterOp :=
  let (op, rest) := splitDot value
  match op with
  | "eq" => .ok (.eq rest)
  | "neq" => .ok (.ne rest)
  | "lt" => .ok (.lt rest)
  | "lte" => .ok (.le rest)
  | "gt" => .ok (.gt rest)
  | "gte" => .ok (.ge rest)
  | "like" => .ok (.like rest)
  | "in" =>
    let inner := ((rest.toList.dropWhile (· = '(')).reverse.dropWhile (· = ')')).reverse
    let items := commaList inner
    if items.isEmpty then .error "in.() requires at least one value" else .ok (.in items)
  | "is" =>
    match rest with
    | "null" => .ok .isNull
    | "not.null" => .ok .isNotNull
    | other => .error ("unsupported is." ++ other)
  | other =>
    .error ("unsupported filter op '" ++ other ++
      "'; expected one of eq, neq, lt, gt, lte, gte, like, in, is")

def parseFilter (column value : String) (tbl : TableMeta) : Except String Filter :=
  match tbl.column column with
  | none => .error ("unknown column '" ++ column ++ "'")
  | some col => (parseOp value).map fun op => ⟨column, op, col.pk⟩

def parseOrder (spec : String) (tbl : TableMeta) : Except String (String × Bool) :=
  let (col, dir) := splitDot spec
  if !tbl.hasColumn col then .error ("unknown column '" ++ col ++ "' in order")
  else
    match dir with
    | "asc" => .ok (col, true)
    | "" => .ok (col, true)
    | "desc" => .ok (col, false)
    | other => .error ("invalid order direction '" ++ other ++ "'")

def buildSelect (select : Option String) (tbl : TableMeta) : Except String (List String) :=
  match select with
  | none | some "*" | some "" => .ok (tbl.columns.map ColumnMeta.name)
  | some list =>
    let names := commaList list.toList
    match names.find? fun n => !tbl.hasColumn n with
    | some n => .error ("unknown column '" ++ n ++ "' in select")
    | none => .ok names

/-- `str::parse::<u32>`. -/
def parseU32 (s : String) : Option Nat := (parseUsize s.toList).filter (· < 2 ^ 32)

/-- What the parameters read so far amount to. -/
structure Parsed where
  workspaceId : Option String
  select : Option String
  order : Option (String × Bool)
  limit : Option Nat
  offset : Option Nat
  filters : List Filter

def parseParam (tbl : TableMeta) (p : Parsed) (param : String × String) : Except String Parsed :=
  let (k, v) := param
  match k with
  | "workspace_id" => .ok { p with workspaceId := some v }
  | "select" => .ok { p with select := some v }
  | "order" => (parseOrder v tbl).map fun o => { p with order := some o }
  | "limit" => match parseU32 v with
    | some n => .ok { p with limit := some n }
    | none => .error "invalid limit"
  | "offset" => match parseU32 v with
    | some n => .ok { p with offset := some n }
    | none => .error "invalid offset"
  | _ => (parseFilter k v tbl).map fun f => { p with filters := p.filters ++ [f] }

/-- `RequestParams::parse`. -/
def parseParams (params : List (String × String)) (tbl : TableMeta) : Except String RequestParams := do
  let p ← params.foldlM (parseParam tbl) ⟨none, none, none, none, none, []⟩
  match p.workspaceId with
  | none | some "" => .error "workspace_id query parameter is required"
  | some workspaceId => do
    let selectCols ← buildSelect p.select tbl
    return ⟨workspaceId, selectCols, p.filters, p.order, p.limit, p.offset⟩

/-! ### The database engine and the server -/

inductive Method where
  | get
  | post
  | patch
  | delete
deriving DecidableEq

inductive Response where
  | schemaCacheUnavailable
  | tableNotExposed (name : String)
  | badRequest (message : String)
  -- what `enforce_rate_limit` and `enforce_auth` answer
  | refused (status : Nat)
  | storage
  | rows (body : Value)
  | created
  | updated (n : Nat)
  | deleted (n : Nat)

/-- What the code takes from SQLite: when a comparison holds, the order of values, what is stored of a bound text in a column that is not of texts, the defaults of columns, and whether the constraints of the schema hold of a database. -/
structure Engine where
  holds : FilterOp → SqlValue → Bool
  le : SqlValue → SqlValue → Bool
  coerce : String → String → SqlValue
  default : String → String → SqlValue
  accepts : Db → Bool

structure Server where
  crates : Crates
  engine : Engine
  schemaCache : Option (List TableMeta)
  enforceRateLimit : String → Option Response
  -- given the method and the workspace; the headers are those of the request
  enforceAuth : Method → String → Option Response

structure Request where
  method : Method
  table : String
  params : List (String × String)
  body : Value

/-- What a request did: its response, the database, the workspace that was authorised, and the rows that were read, inserted, updated and deleted. -/
structure Outcome where
  response : Response
  db : Db
  authorised : Option String
  read : List Row
  inserted : List Row
  updated : List (Row × Row)
  deleted : List Row

/-- Nothing is touched. -/
def refuse (db : Db) (authorised : Option String) (response : Response) : Outcome :=
  ⟨response, db, authorised, [], [], [], []⟩

section Handlers

variable (s : Server) (db : Db)

def asObject : Value → Option (List (String × Value))
  | .object entries => some entries
  | _ => none

def valueToSqlString : Value → String
  | .string t => t
  | .bool b => if b then "1" else "0"
  | .null => ""
  | v => v.toText s.crates

/-- What the column stores of a bound text. -/
def store (c : ColumnMeta) (t : String) : SqlValue :=
  if c.sqlType = "TEXT" then .text t else s.engine.coerce c.sqlType t

/-- `WHERE workspace_id = ?` and the filters. -/
def selects (workspaceId : String) (filters : List Filter) (r : Row) : Bool :=
  r "workspace_id" = .text workspaceId && filters.all fun f => s.engine.holds f.op (r f.column)

def sqliteValueToJson : SqlValue → Value
  | .text t => .string t
  | .integer n => .number (if n < 0 then .negInt n else .posInt n.toUInt64)
  | .real x => if x.isFinite then .number (.float x) else .null
  | .null => .null
  | .blob _ => .null

def rowToJson (cols : List String) (r : Row) : Value :=
  .object (Value.collectEntries (cols.map fun c => (c, sqliteValueToJson (r c))))

/-- `ORDER BY`. -/
def orderRows (order : Option (String × Bool)) (rows : List Row) : List Row :=
  match order with
  | none => rows
  | some (col, asc) =>
    if asc then rows.mergeSort fun a b => s.engine.le (a col) (b col)
    else rows.mergeSort fun a b => s.engine.le (b col) (a col)

/-- `ORDER BY`, `LIMIT` and `OFFSET`. -/
def arrange (p : RequestParams) (rows : List Row) : List Row :=
  match p.limit with
  | none => orderRows s p.order rows
  | some n => ((orderRows s p.order rows).drop (p.offset.getD 0)).take n

def handleGet (tbl : TableMeta) (req : Request) : Outcome :=
  match parseParams req.params tbl with
  | .error e => refuse db none (.badRequest e)
  | .ok p =>
    match s.enforceAuth .get p.workspaceId with
    | some resp => refuse db none resp
    | none =>
      -- there is no such column, or an `OFFSET` without a `LIMIT`
      if !tbl.hasColumn "workspace_id" || (p.offset.isSome && p.limit.isNone) then
        refuse db (some p.workspaceId) .storage
      else
        let rows := arrange s p ((db tbl.name).filter (selects s p.workspaceId p.filters))
        let projected := rows.map (rowToJson p.selectCols)
        let body := match projected with
          | [v] => if p.filters.any Filter.isPkEq then v else .array [v]
          | vs => .array vs
        ⟨.rows body, db, some p.workspaceId, rows, [], [], []⟩

def workspaceIdFrom (params : List (String × String)) (body : Value) : Option String :=
  match params.find? fun e => e.1 = "workspace_id" && e.2 ≠ "" with
  | some e => some e.2
  | none => (body.get "workspace_id").bind Value.asStr

/-- The row that the columns of the body and the authorised workspace make. -/
def insertedRow (tbl : TableMeta) (entries : List (String × Value)) (workspaceId : String) : Row := fun name =>
  match tbl.column name with
  | none => .null
  | some c =>
    match Value.get (.object entries) name with
    | some v => store s c (valueToSqlString s v)
    | none => if name = "workspace_id" then store s c workspaceId else s.engine.default tbl.name name

def handlePost (tbl : TableMeta) (req : Request) : Outcome :=
  match workspaceIdFrom req.params req.body with
  | none => refuse db none (.badRequest "workspace_id is required")
  | some workspaceId =>
    match s.enforceRateLimit workspaceId with
    | some resp => refuse db none resp
    | none =>
      match s.enforceAuth .post workspaceId with
      | some resp => refuse db none resp
      | none =>
        match asObject req.body with
        | none => refuse db (some workspaceId) (.badRequest "request body must be a JSON object")
        | some entries =>
          match entries.find? fun e => !tbl.hasColumn e.1 with
          | some e =>
            refuse db (some workspaceId)
              (.badRequest ("unknown column '" ++ e.1 ++ "' on table '" ++ tbl.name ++ "'"))
          | none =>
            let row := insertedRow s tbl entries workspaceId
            let db' := Function.update db tbl.name (db tbl.name ++ [row])
            if tbl.hasColumn "workspace_id" && s.engine.accepts db' then
              ⟨.created, db', some workspaceId, [], [row], [], []⟩
            else refuse db (some workspaceId) .storage

/-- The row with the columns of the body set. -/
def patchedRow (tbl : TableMeta) (entries : List (String × Value)) (r : Row) : Row := fun name =>
  match tbl.column name, Value.get (.object entries) name with
  | some c, some v => store s c (valueToSqlString s v)
  | _, _ => r name

def handlePatch (tbl : TableMeta) (req : Request) : Outcome :=
  match parseParams req.params tbl with
  | .error e => refuse db none (.badRequest e)
  | .ok p =>
    match s.enforceRateLimit p.workspaceId with
    | some resp => refuse db none resp
    | none =>
      match s.enforceAuth .patch p.workspaceId with
      | some resp => refuse db none resp
      | none =>
        match asObject req.body with
        | none => refuse db (some p.workspaceId) (.badRequest "request body must be a JSON object")
        | some [] => refuse db (some p.workspaceId) (.badRequest "PATCH body must include at least one column")
        | some entries =>
          match entries.find? fun e => e.1 = "workspace_id" || !tbl.hasColumn e.1 with
          | some e =>
            refuse db (some p.workspaceId) <| .badRequest <|
              if e.1 = "workspace_id" then "workspace_id cannot be patched"
              else "unknown column '" ++ e.1 ++ "' on table '" ++ tbl.name ++ "'"
          | none =>
            let hit := selects s p.workspaceId p.filters
            let rows := (db tbl.name).map fun r => if hit r then patchedRow s tbl entries r else r
            let db' := Function.update db tbl.name rows
            let updated := ((db tbl.name).filter hit).map fun r => (r, patchedRow s tbl entries r)
            if tbl.hasColumn "workspace_id" && s.engine.accepts db' then
              ⟨.updated updated.length, db', some p.workspaceId, [], [], updated, []⟩
            else refuse db (some p.workspaceId) .storage

def handleDelete (tbl : TableMeta) (req : Request) : Outcome :=
  match parseParams req.params tbl with
  | .error e => refuse db none (.badRequest e)
  | .ok p =>
    if p.filters.isEmpty then refuse db none (.badRequest "DELETE requires at least one filter (e.g. ?id=eq.X)")
    else
      match s.enforceRateLimit p.workspaceId with
      | some resp => refuse db none resp
      | none =>
        match s.enforceAuth .delete p.workspaceId with
        | some resp => refuse db none resp
        | none =>
          let hit := selects s p.workspaceId p.filters
          let db' := Function.update db tbl.name ((db tbl.name).filter fun r => !hit r)
          let deleted := (db tbl.name).filter hit
          if tbl.hasColumn "workspace_id" && s.engine.accepts db' then
            ⟨.deleted deleted.length, db', some p.workspaceId, [], [], [], deleted⟩
          else refuse db (some p.workspaceId) .storage

def handle (req : Request) : Outcome :=
  match s.schemaCache with
  | none => refuse db none .schemaCacheUnavailable
  | some tables =>
    match tables.find? (·.name = req.table) with
    | none => refuse db none (.tableNotExposed req.table)
    | some tbl =>
      match req.method with
      | .get => handleGet s db tbl req
      | .post => handlePost s db tbl req
      | .patch => handlePatch s db tbl req
      | .delete => handleDelete s db tbl req

end Handlers

end AutoRest

end ActantDb
