import ActantDb.Lib.EState
import ActantDb.Lib.Run
import ActantDb.Storage.MigrationScripts

/-!
# Migrations and crashes

`run_migrations` executes the statements of each script that is not recorded, one by one, and then records the script. Every statement commits on its own. A crash between two scripts, or before the first statement of one, leaves what an earlier release would have left, and a later run goes on from there. A crash after the first statement of a script and before the record of it leaves that statement done, which is executed again by every later run and fails.
-/

namespace ActantDb

namespace Migrations

abbrev Migration := String × List Statement

/-- The schema, and the names in `schema_migration` once there is that table. -/
structure Db where
  schema : Schema
  applied : Option (List String)

def Db.empty : Db := ⟨.empty, none⟩

def Db.names (db : Db) : List String := db.applied.getD []

/-! ### The runner -/

inductive Stop where
  | crashed
  | failed (message : String)
deriving DecidableEq, Repr

/-- The database, and how many statements are executed before a crash, if there is one. -/
structure Machine where
  db : Db
  left : Option Nat

abbrev Runner := EStateM Stop Machine

def execute {α : Type} (stmt : Db → Except String (α × Db)) : Runner α := fun m =>
  if m.left = some 0 then .error .crashed m
  else
    match stmt m.db with
    | .error message => .error (.failed message) m
    | .ok (a, db) => .ok a ⟨db, m.left.map (· - 1)⟩

/-- `CREATE TABLE IF NOT EXISTS schema_migration`. -/
def createMigrationTable (db : Db) : Except String (Unit × Db) := .ok ((), { db with applied := some db.names })

def selectName (name : String) (db : Db) : Except String (Bool × Db) :=
  match db.applied with
  | none => .error "no such table: schema_migration"
  | some names => .ok (names.contains name, db)

def insertName (name : String) (db : Db) : Except String (Unit × Db) :=
  match db.applied with
  | none => .error "no such table: schema_migration"
  | some names =>
    if names.contains name then .error "UNIQUE constraint failed: schema_migration.name"
    else .ok ((), { db with applied := some (names ++ [name]) })

def execStatement (stmt : Statement) (db : Db) : Except String (Unit × Db) :=
  match db.schema.exec stmt with
  | .error message => .error message
  | .ok schema => .ok ((), { db with schema })

def applySqlScript : List Statement → Runner Unit
  | [] => pure ()
  | stmt :: rest => do
    execute (execStatement stmt)
    applySqlScript rest

def applyMigrations : List Migration → Runner Unit
  | [] => pure ()
  | (name, sql) :: rest => do
    let already ← execute (selectName name)
    if already then applyMigrations rest
    else do
      applySqlScript sql
      execute (insertName name)
      applyMigrations rest

def runMigrations (list : List Migration) : Runner Unit := do
  execute createMigrationTable
  applyMigrations list

/-- What a run leaves, however it ends. -/
def after : EStateM.Result Stop Machine Unit → Db
  | .ok _ m => m.db
  | .error _ m => m.db

def isOk : EStateM.Result Stop Machine Unit → Bool
  | .ok _ _ => true
  | .error _ _ => false

/-- A run that executes `n` statements at most. -/
def crash (list : List Migration) (db : Db) (n : Nat) : Db := after (runMigrations list ⟨db, some n⟩)

/-- What the runner leaves of an empty database when it knows the first `k` migrations. -/
def released (list : List Migration) (k : Nat) : Db := after (runMigrations (list.take k) ⟨.empty, none⟩)

/-- An empty database, or one of an earlier release. -/
def Db.start (list : List Migration) : Option Nat → Db
  | none => .empty
  | some k => released list k

/-- A run returns `Ok`, and leaves of `db` what it leaves of `origin`. -/
def Recovers (list : List Migration) (origin db : Db) : Prop :=
  ∃ final, runMigrations list ⟨db, none⟩ = .ok () ⟨final, none⟩ ∧ runMigrations list ⟨origin, none⟩ = .ok () ⟨final, none⟩

/-! ### Where a crash falls -/

/-- Whether `n` statements, the first a `SELECT` for the first migration, end after the first statement of a script and before its record. -/
def interrupts (names : List String) : List Migration → Nat → Bool
  | [], _ => false
  | _ :: _, 0 => false
  | (name, sql) :: rest, n + 1 =>
    if names.contains name then interrupts names rest n
    else if n ≤ sql.length then 0 < n
    else interrupts names rest (n - sql.length - 1)

/-- The same, of a run from this database. -/
def Interrupts (list : List Migration) (db : Db) : Nat → Prop
  | 0 => False
  | n + 1 => interrupts db.names list n = true

/-! ### Statements -/

section Execute

variable {α β : Type} {stmt : Db → Except String (α × Db)} {a : α} {db db' : Db} {left : Option Nat} {n : Nat}

theorem execute_none (h : stmt db = .ok (a, db')) : execute stmt ⟨db, none⟩ = .ok a ⟨db', none⟩ := by
  simp [execute, h]

theorem execute_zero : execute stmt ⟨db, some 0⟩ = .error .crashed ⟨db, some 0⟩ := rfl

theorem execute_succ (h : stmt db = .ok (a, db')) : execute stmt ⟨db, some (n + 1)⟩ = .ok a ⟨db', some n⟩ := by
  simp [execute, h]

/-- With any number of statements left: there is the crash, or the statement is executed. -/
theorem execute_cases (h : stmt db = .ok (a, db')) :
    execute stmt ⟨db, left⟩ = .error .crashed ⟨db, left⟩ ∨ ∃ left', execute stmt ⟨db, left⟩ = .ok a ⟨db', left'⟩ := by
  by_cases hleft : left = some 0
  · exact Or.inl (if_pos hleft)
  · exact Or.inr ⟨left.map (· - 1), by simp [execute, h, hleft]⟩

theorem execute_error {message : String} (h : stmt db = .error message) :
    ∃ e, execute stmt ⟨db, left⟩ = .error e ⟨db, left⟩ := by
  by_cases hleft : left = some 0
  · exact ⟨_, if_pos hleft⟩
  · exact ⟨.failed message, by simp [execute, h, hleft]⟩

theorem execStatement_ok {stmt : Statement} {s : Schema} (h : db.schema.exec stmt = .ok s) :
    execStatement stmt db = .ok ((), { db with schema := s }) := by
  simp only [execStatement, h]

theorem selectName_eq {names : List String} (h : db.applied = some names) (name : String) :
    selectName name db = .ok (names.contains name, db) := by
  simp only [selectName, h]

theorem insertName_ok {names : List String} {name : String} (h : db.applied = some names) (hname : name ∉ names) :
    insertName name db = .ok ((), { db with applied := some (names ++ [name]) }) := by
  simp [insertName, h, hname]

end Execute

/-! ### Scripts -/

section Script

variable {db : Db} {script : List Statement} {s : Schema} {n : Nat}

theorem execAll_cons {stmt : Statement} (h : db.schema.execAll (stmt :: script) = .ok s) :
    ∃ s', db.schema.exec stmt = .ok s' ∧ s'.execAll script = .ok s := by
  simp only [Schema.execAll, List.foldlM_cons, bind, Except.bind] at h
  split at h
  · cases h
  · rename_i s' hexec
    exact ⟨s', hexec, h⟩

theorem applySqlScript_none (h : db.schema.execAll script = .ok s) :
    applySqlScript script ⟨db, none⟩ = .ok () ⟨{ db with schema := s }, none⟩ := by
  induction script generalizing db with
  | nil =>
    cases h
    rfl
  | cons stmt rest ih =>
    obtain ⟨s', hexec, hrest⟩ := execAll_cons h
    rw [applySqlScript, EStateM.bind_of_ok (execute_none (execStatement_ok hexec))]
    exact ih hrest

theorem applySqlScript_all (h : db.schema.execAll script = .ok s) (hn : script.length ≤ n) :
    applySqlScript script ⟨db, some n⟩ = .ok () ⟨{ db with schema := s }, some (n - script.length)⟩ := by
  induction script generalizing db n with
  | nil =>
    cases h
    rfl
  | cons stmt rest ih =>
    obtain ⟨s', hexec, hrest⟩ := execAll_cons h
    obtain ⟨k, rfl⟩ : ∃ k, n = k + 1 := ⟨n - 1, by simp only [List.length_cons] at hn; omega⟩
    rw [applySqlScript, EStateM.bind_of_ok (execute_succ (execStatement_ok hexec)), List.length_cons, Nat.add_sub_add_right]
    exact @ih { db with schema := s' } _ hrest (by simpa using hn)

theorem applySqlScript_part (h : db.schema.execAll script = .ok s) (hn : n < script.length) :
    ∃ s', db.schema.execAll (script.take n) = .ok s' ∧
      applySqlScript script ⟨db, some n⟩ = .error .crashed ⟨{ db with schema := s' }, some 0⟩ := by
  induction script generalizing db n with
  | nil => simp at hn
  | cons stmt rest ih =>
    cases n with
    | zero => exact ⟨db.schema, rfl, by rw [applySqlScript, EStateM.bind_of_error execute_zero]⟩
    | succ k =>
      obtain ⟨s', hexec, hrest⟩ := execAll_cons h
      obtain ⟨s'', htake, hrun⟩ := @ih { db with schema := s' } _ hrest (by simpa using hn)
      refine ⟨s'', ?_, ?_⟩
      · simpa only [Schema.execAll, List.take_succ_cons, List.foldlM_cons, hexec, bind, Except.bind] using htake
      · rw [applySqlScript, EStateM.bind_of_ok (execute_succ (execStatement_ok hexec)), hrun]

end Script

/-! ### How far a run gets -/

/-- The scripts of `list` up to one of them have been applied and recorded. -/
def ReachedEnd (list : List Migration) (db db' : Db) : Prop :=
  ∃ pre post, list = pre ++ post ∧ db'.names = db.names ++ pre.map (·.1) ∧
    db.schema.execAll (pre.flatMap (·.2)) = .ok db'.schema

/-- Those before one of them have been recorded, and of that one the first statement is done. -/
def ReachedMiddle (list : List Migration) (db db' : Db) : Prop :=
  ∃ pre name first more post, list = pre ++ (name, first :: more) :: post ∧ db'.names = db.names ++ pre.map (·.1) ∧
    first.Done db'.schema

section Reach

variable {list rest : List Migration} (pre : List Migration) {db db' db'' : Db}

theorem ReachedEnd.refl (list : List Migration) (db : Db) : ReachedEnd list db db := ⟨[], list, rfl, by simp, rfl⟩

theorem reachedEnd_append (hnames : db'.names = db.names ++ pre.map (·.1))
    (hschema : db.schema.execAll (pre.flatMap (·.2)) = .ok db'.schema) (h : ReachedEnd rest db' db'') :
    ReachedEnd (pre ++ rest) db db'' := by
  obtain ⟨pre', post, rfl, hnames', hschema'⟩ := h
  refine ⟨pre ++ pre', post, (List.append_assoc _ _ _).symm, ?_, ?_⟩
  · rw [hnames', hnames, List.map_append, List.append_assoc]
  · rw [List.flatMap_append, execAll_append, hschema]
    exact hschema'

theorem reachedMiddle_append (hnames : db'.names = db.names ++ pre.map (·.1)) (h : ReachedMiddle rest db' db'') :
    ReachedMiddle (pre ++ rest) db db'' := by
  obtain ⟨pre', name, first, more, post, rfl, hnames', hdone⟩ := h
  refine ⟨pre ++ pre', name, first, more, post, (List.append_assoc _ _ _).symm, ?_, hdone⟩
  rw [hnames', hnames, List.map_append, List.append_assoc]

end Reach

/-! ### Migrations that are recorded -/

section Skip

variable {pre rest : List Migration} {db : Db} {names : List String} {n : Nat}

theorem applyMigrations_skip_none (happlied : db.applied = some names) (hpre : ∀ migration ∈ pre, migration.1 ∈ names) :
    applyMigrations (pre ++ rest) ⟨db, none⟩ = applyMigrations rest ⟨db, none⟩ := by
  induction pre with
  | nil => rfl
  | cons migration pre ih =>
    have hname : names.contains migration.1 = true := List.contains_iff_mem.mpr (hpre _ List.mem_cons_self)
    rw [List.cons_append, applyMigrations, EStateM.bind_of_ok (execute_none (selectName_eq happlied _)), if_pos hname]
    exact ih fun migration' hmem => hpre _ (List.mem_cons_of_mem _ hmem)

theorem applyMigrations_skip_some (happlied : db.applied = some names) (hpre : ∀ migration ∈ pre, migration.1 ∈ names) :
    applyMigrations (pre ++ rest) ⟨db, some n⟩ =
      if n < pre.length then .error .crashed ⟨db, some 0⟩ else applyMigrations rest ⟨db, some (n - pre.length)⟩ := by
  induction pre generalizing n with
  | nil => rfl
  | cons migration pre ih =>
    have hname : names.contains migration.1 = true := List.contains_iff_mem.mpr (hpre _ List.mem_cons_self)
    cases n with
    | zero =>
      rw [List.cons_append, applyMigrations, EStateM.bind_of_error execute_zero, List.length_cons, if_pos (Nat.succ_pos _)]
    | succ k =>
      rw [List.cons_append, applyMigrations, EStateM.bind_of_ok (execute_succ (selectName_eq happlied _)), if_pos hname,
        ih fun migration' hmem => hpre _ (List.mem_cons_of_mem _ hmem)]
      simp only [List.length_cons, Nat.add_lt_add_iff_right, Nat.add_sub_add_right]

theorem interrupts_skip (hpre : ∀ migration ∈ pre, migration.1 ∈ names) :
    interrupts names (pre ++ rest) n = if n < pre.length then false else interrupts names rest (n - pre.length) := by
  induction pre generalizing n with
  | nil => rfl
  | cons migration pre ih =>
    have hname : names.contains migration.1 = true := List.contains_iff_mem.mpr (hpre _ List.mem_cons_self)
    cases n with
    | zero => rw [List.cons_append, interrupts, List.length_cons, if_pos (Nat.succ_pos _)]
    | succ k =>
      rw [List.cons_append, interrupts, if_pos hname, ih fun migration' hmem => hpre _ (List.mem_cons_of_mem _ hmem)]
      simp only [List.length_cons, Nat.add_lt_add_iff_right, Nat.add_sub_add_right]

end Skip

/-! ### Migrations that are not -/

section Pending

variable {rest : List Migration} {db : Db} {names recorded : List String} {s : Schema} {n : Nat}

/-- The other migrations are not recorded by the record of this one. -/
theorem fresh_append {name : String} (hfresh : ∀ migration ∈ rest, migration.1 ∉ names) (hname : name ∉ rest.map (·.1)) :
    ∀ migration ∈ rest, migration.1 ∉ names ++ [name] := by
  intro migration hmem
  rw [List.mem_append, List.mem_singleton, not_or]
  exact ⟨hfresh _ hmem, fun heq => hname (List.mem_map.mpr ⟨migration, hmem, heq⟩)⟩

theorem applyMigrations_none (happlied : db.applied = some names) (hfresh : ∀ migration ∈ rest, migration.1 ∉ names)
    (hnodup : (rest.map (·.1)).Nodup) (h : db.schema.execAll (rest.flatMap (·.2)) = .ok s) :
    applyMigrations rest ⟨db, none⟩ = .ok () ⟨⟨s, some (names ++ rest.map (·.1))⟩, none⟩ := by
  induction rest generalizing db names with
  | nil =>
    cases h
    cases db with
    | mk schema applied =>
      dsimp only at happlied
      subst happlied
      simp [applyMigrations, pure, EStateM.pure]
  | cons migration rest ih =>
    have hname : migration.1 ∉ names := hfresh _ List.mem_cons_self
    rw [List.flatMap_cons, execAll_append] at h
    cases hsql : db.schema.execAll migration.2 with
    | error message =>
      rw [hsql] at h
      cases h
    | ok s' =>
      rw [hsql] at h
      have hrest : s'.execAll (rest.flatMap (·.2)) = .ok s := h
      rw [applyMigrations, EStateM.bind_of_ok (execute_none (selectName_eq happlied _)), if_neg (by simpa using hname),
        EStateM.bind_of_ok (applySqlScript_none hsql), EStateM.bind_of_ok (execute_none (insertName_ok (by exact happlied) hname))]
      rw [List.map_cons, List.nodup_cons] at hnodup
      have hrun := @ih ⟨s', some (names ++ [migration.1])⟩ _ rfl (fresh_append (List.forall_mem_of_forall_mem_cons hfresh) hnodup.1)
        hnodup.2 hrest
      rw [List.append_assoc] at hrun
      exact hrun

section First

variable {name : String} {first : Statement} {more : List Statement} {s' : Schema}

/-- With as many statements as the first script has, at most: they end in it, after its first statement, or before that. -/
theorem applyMigrations_within (happlied : db.applied = some names) (hname : name ∉ names)
    (hsql : db.schema.execAll (first :: more) = .ok s') (hn : n ≤ (first :: more).length) :
    if 0 < n then ReachedMiddle ((name, first :: more) :: rest) db
      (after (applyMigrations ((name, first :: more) :: rest) ⟨db, some (n + 1)⟩))
    else ReachedEnd ((name, first :: more) :: rest) db
      (after (applyMigrations ((name, first :: more) :: rest) ⟨db, some (n + 1)⟩)) := by
  rw [applyMigrations, EStateM.bind_of_ok (execute_succ (selectName_eq happlied _)),
    if_neg (show ¬ names.contains name = true by simpa using hname)]
  obtain ⟨s₁, hfirst, hmore⟩ := execAll_cons hsql
  by_cases hpart : n < (first :: more).length
  · -- the crash is before the last statement of the script
    obtain ⟨s'', htake, hrun⟩ := applySqlScript_part hsql hpart
    rw [EStateM.bind_of_error hrun]
    cases n with
    | zero =>
      cases htake
      exact .refl _ _
    | succ k =>
      rw [if_pos (Nat.succ_pos k)]
      refine ⟨[], name, first, more, rest, rfl, by simp [after, Db.names], ?_⟩
      obtain ⟨s₂, hfirst', hmore'⟩ := execAll_cons (show db.schema.execAll (first :: more.take k) = .ok s'' from htake)
      exact (exec_done hfirst').execAll hmore'
  · -- it is before the record
    have hall : (first :: more).length ≤ n := not_lt.mp hpart
    have hzero : n - (first :: more).length = 0 := by omega
    have hpos : 0 < n := lt_of_lt_of_le (Nat.succ_pos _) hall
    rw [EStateM.bind_of_ok (applySqlScript_all hsql hall), hzero, EStateM.bind_of_error execute_zero, if_pos hpos]
    exact ⟨[], name, first, more, rest, rfl, by simp [after, Db.names], (exec_done hfirst).execAll hmore⟩

/-- With more than that the first script is applied and recorded. -/
theorem applyMigrations_past {sql : List Statement} (happlied : db.applied = some names) (hname : name ∉ names)
    (hsql : db.schema.execAll sql = .ok s') (hn : sql.length < n) :
    applyMigrations ((name, sql) :: rest) ⟨db, some (n + 1)⟩ =
      applyMigrations rest ⟨⟨s', some (names ++ [name])⟩, some (n - sql.length - 1)⟩ := by
  obtain ⟨k, hk⟩ : ∃ k, n - sql.length = k + 1 := ⟨n - sql.length - 1, by omega⟩
  rw [applyMigrations, EStateM.bind_of_ok (execute_succ (selectName_eq happlied _)),
    if_neg (show ¬ names.contains name = true by simpa using hname), EStateM.bind_of_ok (applySqlScript_all hsql hn.le), hk,
    Nat.add_sub_cancel, EStateM.bind_of_ok (execute_succ (insertName_ok (by exact happlied) hname))]

end First

/-- Where `n` statements get: to the end of a script, unless they are interrupted in one. -/
theorem applyMigrations_some (happlied : db.applied = some names) (hfresh : ∀ migration ∈ rest, migration.1 ∉ names)
    (hrecorded : ∀ migration ∈ rest, migration.1 ∉ recorded) (hnodup : (rest.map (·.1)).Nodup)
    (hbegin : ∀ migration ∈ rest, migration.2 ≠ []) (h : db.schema.execAll (rest.flatMap (·.2)) = .ok s) :
    if interrupts recorded rest n then ReachedMiddle rest db (after (applyMigrations rest ⟨db, some n⟩))
    else ReachedEnd rest db (after (applyMigrations rest ⟨db, some n⟩)) := by
  induction rest generalizing db names n with
  | nil => exact .refl _ _
  | cons migration rest ih =>
    cases n with
    | zero =>
      rw [applyMigrations, EStateM.bind_of_error execute_zero, interrupts, if_neg Bool.false_ne_true]
      exact .refl _ _
    | succ n =>
      obtain ⟨name, sql⟩ := migration
      have hname : name ∉ names := hfresh _ List.mem_cons_self
      have hnew : name ∉ recorded := hrecorded _ List.mem_cons_self
      obtain ⟨first, more, rfl⟩ := List.exists_cons_of_ne_nil (hbegin _ List.mem_cons_self)
      rw [List.flatMap_cons, execAll_append] at h
      cases hsql : db.schema.execAll (first :: more) with
      | error message =>
        rw [hsql] at h
        cases h
      | ok s' =>
        rw [hsql] at h
        rw [interrupts, if_neg (show ¬ recorded.contains name = true by simpa using hnew)]
        by_cases hwithin : n ≤ (first :: more).length
        · rw [if_pos hwithin]
          simpa only [decide_eq_true_eq] using applyMigrations_within happlied hname hsql hwithin
        · rw [if_neg hwithin, applyMigrations_past happlied hname hsql (not_le.mp hwithin)]
          rw [List.map_cons, List.nodup_cons] at hnodup
          have hrest := @ih ⟨s', some (names ++ [name])⟩ _ (n - (first :: more).length - 1) rfl
            (fresh_append (List.forall_mem_of_forall_mem_cons hfresh) hnodup.1)
            (List.forall_mem_of_forall_mem_cons hrecorded) hnodup.2 (List.forall_mem_of_forall_mem_cons hbegin) h
          have hnames : (Db.mk s' (some (names ++ [name]))).names = db.names ++ [((name, first :: more) : Migration)].map (·.1) := by
            simp [Db.names, happlied]
          have hschema : db.schema.execAll ([((name, first :: more) : Migration)].flatMap (·.2)) = .ok s' := by
            simpa using hsql
          split at hrest
          · rename_i hinterrupts
            rw [if_pos hinterrupts]
            exact reachedMiddle_append _ hnames hrest
          · rename_i hinterrupts
            rw [if_neg hinterrupts]
            exact reachedEnd_append _ hnames hschema hrest

end Pending

/-! ### A migration of which a part is done -/

section Stuck

variable {pre post : List Migration} {db : Db} {names : List String} {name : String} {first : Statement} {more : List Statement}
  {left : Option Nat}

/-- The first statement that is done fails again, if there is no crash before it. -/
theorem applyMigrations_stuck (happlied : db.applied = some names) (hpre : ∀ migration ∈ pre, migration.1 ∈ names)
    (hname : name ∉ names) (hdone : first.Done db.schema) (hplain : first.ifNotExists = false) :
    ∃ e left', applyMigrations (pre ++ (name, first :: more) :: post) ⟨db, left⟩ = .error e ⟨db, left'⟩ := by
  induction pre generalizing left with
  | nil =>
    rw [List.nil_append, applyMigrations]
    rcases @execute_cases _ _ _ _ _ left (selectName_eq happlied name) with h | ⟨left', h⟩
    · exact ⟨_, _, EStateM.bind_of_error h⟩
    · obtain ⟨message, hfails⟩ := exec_of_done hdone hplain
      have hstmt : execStatement first db = .error message := by rw [execStatement, hfails]
      obtain ⟨e, hexec⟩ := @execute_error _ _ _ left' _ hstmt
      rw [EStateM.bind_of_ok h, if_neg (show ¬ names.contains name = true by simpa using hname), applySqlScript]
      exact ⟨e, left', EStateM.bind_of_error (EStateM.bind_of_error hexec)⟩
  | cons migration pre ih =>
    have hrecorded : names.contains migration.1 = true := List.contains_iff_mem.mpr (hpre _ List.mem_cons_self)
    rw [List.cons_append, applyMigrations]
    rcases @execute_cases _ _ _ _ _ left (selectName_eq happlied migration.1) with h | ⟨left', h⟩
    · exact ⟨_, _, EStateM.bind_of_error h⟩
    · rw [EStateM.bind_of_ok h, if_pos hrecorded]
      exact ih (List.forall_mem_of_forall_mem_cons hpre)

end Stuck

/-! ### Runs -/

section Runs

variable {list : List Migration} {db : Db} {s : Schema} {n : Nat}

/-- The names of the first migrations are recorded, and those of the rest are not. -/
theorem split_names {pre post : List Migration} (hnodup : ((pre ++ post).map (·.1)).Nodup) (hnames : db.names = pre.map (·.1)) :
    (∀ migration ∈ pre, migration.1 ∈ db.names) ∧ (∀ migration ∈ post, migration.1 ∉ db.names) ∧ (post.map (·.1)).Nodup := by
  rw [List.map_append, List.nodup_append] at hnodup
  obtain ⟨-, hpost, hdisjoint⟩ := hnodup
  rw [hnames]
  exact ⟨fun _ hmem => List.mem_map_of_mem hmem,
    fun _ hmem hpre => hdisjoint _ hpre _ (List.mem_map_of_mem hmem) rfl, hpost⟩

theorem runMigrations_succ : runMigrations list ⟨db, some (n + 1)⟩ = applyMigrations list ⟨{ db with applied := some db.names }, some n⟩ :=
  EStateM.bind_of_ok (execute_succ rfl)

theorem runMigrations_none : runMigrations list ⟨db, none⟩ = applyMigrations list ⟨{ db with applied := some db.names }, none⟩ :=
  EStateM.bind_of_ok (execute_none rfl)

/-- A run goes on from the end of a script to the end of the last. -/
theorem runMigrations_reachedEnd (hnodup : (list.map (·.1)).Nodup) (h : Schema.empty.execAll (list.flatMap (·.2)) = .ok s)
    (hdb : ReachedEnd list .empty db) : runMigrations list ⟨db, none⟩ = .ok () ⟨⟨s, some (list.map (·.1))⟩, none⟩ := by
  obtain ⟨pre, post, rfl, hnames, hschema⟩ := hdb
  have hnames' : db.names = pre.map (·.1) := hnames
  obtain ⟨hpre, hpost, hnodup'⟩ := split_names hnodup hnames'
  rw [List.flatMap_append, execAll_append, show Schema.empty.execAll (pre.flatMap (·.2)) = .ok db.schema from hschema] at h
  rw [runMigrations_none, applyMigrations_skip_none rfl hpre,
    applyMigrations_none (show ({ db with applied := some db.names } : Db).applied = some db.names from rfl) hpost hnodup' h, hnames', List.map_append]

/-- A crash from the end of a script: at the end of one again, unless it interrupts one. -/
theorem crash_reachedEnd (hnodup : (list.map (·.1)).Nodup) (hbegin : ∀ migration ∈ list, migration.2 ≠ [])
    (h : Schema.empty.execAll (list.flatMap (·.2)) = .ok s) (hdb : ReachedEnd list .empty db) :
    (Interrupts list db n → ReachedMiddle list .empty (crash list db n)) ∧
      (¬ Interrupts list db n → ReachedEnd list .empty (crash list db n)) := by
  cases n with
  | zero => exact ⟨fun hfalse => hfalse.elim, fun _ => hdb⟩
  | succ n =>
    obtain ⟨pre, post, rfl, hnames, hschema⟩ := hdb
    have hnames' : db.names = pre.map (·.1) := hnames
    obtain ⟨hpre, hpost, hnodup'⟩ := split_names hnodup hnames'
    rw [List.flatMap_append, execAll_append, show Schema.empty.execAll (pre.flatMap (·.2)) = .ok db.schema from hschema] at h
    rw [crash, runMigrations_succ, applyMigrations_skip_some rfl hpre, Interrupts, interrupts_skip hpre]
    by_cases hskip : n < pre.length
    · rw [if_pos hskip, if_pos hskip]
      exact ⟨fun hfalse => absurd hfalse Bool.false_ne_true, fun _ => ⟨pre, post, rfl, hnames, hschema⟩⟩
    · rw [if_neg hskip, if_neg hskip]
      have hreach := applyMigrations_some (n := n - pre.length) (show ({ db with applied := some db.names } : Db).applied = some db.names from rfl) hpost hpost hnodup'
        (fun migration hmem => hbegin _ (List.mem_append_right _ hmem)) h
      constructor
      · intro hinterrupts
        rw [if_pos hinterrupts] at hreach
        exact reachedMiddle_append _ hnames hreach
      · intro hinterrupts
        rw [if_neg hinterrupts] at hreach
        exact reachedEnd_append _ hnames hschema hreach

/-- From the middle of a script every run fails, and leaves the database there. -/
theorem runMigrations_reachedMiddle {left : Option Nat} (hnodup : (list.map (·.1)).Nodup)
    (hbegin : ∀ migration ∈ list, ∃ stmt rest, migration.2 = stmt :: rest ∧ stmt.ifNotExists = false)
    (hdb : ReachedMiddle list .empty db) :
    ∃ e m, runMigrations list ⟨db, left⟩ = .error e m ∧ ReachedMiddle list .empty m.db := by
  obtain ⟨pre, name, first, more, post, rfl, hnames, hdone⟩ := hdb
  have hnames' : db.names = pre.map (·.1) := hnames
  obtain ⟨hpre, hpost, -⟩ := split_names hnodup hnames'
  have hplain : first.ifNotExists = false := by
    obtain ⟨stmt, rest, heq, hstmt⟩ := hbegin _ (List.mem_append_right _ List.mem_cons_self)
    rw [List.cons.injEq] at heq
    rw [heq.1, hstmt]
  have htable : createMigrationTable db = .ok ((), { db with applied := some db.names }) := rfl
  rcases @execute_cases _ _ _ _ _ left htable with h | ⟨left', h⟩
  · exact ⟨_, _, EStateM.bind_of_error h, pre, name, first, more, post, rfl, hnames, hdone⟩
  · have hstuck : ∃ e left'', applyMigrations (pre ++ (name, first :: more) :: post) ⟨{ db with applied := some db.names }, left'⟩ =
        .error e ⟨{ db with applied := some db.names }, left''⟩ :=
      applyMigrations_stuck rfl hpre (hpost _ List.mem_cons_self) hdone hplain
    obtain ⟨e, left'', hrun⟩ := hstuck
    exact ⟨e, _, (EStateM.bind_of_ok h).trans hrun, pre, name, first, more, post, rfl, hnames, hdone⟩

theorem not_recovers {origin : Db} (hnodup : (list.map (·.1)).Nodup)
    (hbegin : ∀ migration ∈ list, ∃ stmt rest, migration.2 = stmt :: rest ∧ stmt.ifNotExists = false)
    (hdb : ReachedMiddle list .empty db) : ¬ Recovers list origin db := by
  rintro ⟨final, hrun, -⟩
  obtain ⟨e, m, herror, -⟩ := @runMigrations_reachedMiddle _ _ none hnodup hbegin hdb
  rw [herror] at hrun
  cases hrun

/-- What earlier releases leave is at the end of a script. -/
theorem reachedEnd_start (hnodup : (list.map (·.1)).Nodup) (h : Schema.empty.execAll (list.flatMap (·.2)) = .ok s) (start : Option Nat) :
    ReachedEnd list .empty (.start list start) := by
  cases start with
  | none => exact .refl _ _
  | some k =>
    have hsplit : list.flatMap (·.2) = (list.take k).flatMap (·.2) ++ (list.drop k).flatMap (·.2) := by
      rw [← List.flatMap_append, List.take_append_drop]
    rw [hsplit, execAll_append] at h
    cases htake : Schema.empty.execAll ((list.take k).flatMap (·.2)) with
    | error message =>
      rw [htake] at h
      cases h
    | ok s' =>
      have hnodup' : ((list.take k).map (·.1)).Nodup := hnodup.sublist ((List.take_sublist k list).map _)
      have hrun := runMigrations_reachedEnd hnodup' htake (.refl _ _)
      refine ⟨list.take k, list.drop k, (List.take_append_drop k list).symm, ?_, ?_⟩
      · simp only [Db.start, released, hrun, after]
        rfl
      · simp only [Db.start, released, hrun, after]
        exact htake

/-- A later run recovers just when no crash interrupts a script. -/
theorem recovers_iff {origin : Db} (hnodup : (list.map (·.1)).Nodup)
    (hbegin : ∀ migration ∈ list, ∃ stmt rest, migration.2 = stmt :: rest ∧ stmt.ifNotExists = false)
    (h : Schema.empty.execAll (list.flatMap (·.2)) = .ok s) (horigin : ReachedEnd list .empty origin)
    (hdb : ReachedEnd list .empty db) (crashes : List Nat) :
    Recovers list origin (Lts.run (crash list) db crashes) ↔
      Lts.EveryStep (crash list) (fun db n => ¬ Interrupts list db n) db crashes := by
  have hnonempty : ∀ migration ∈ list, migration.2 ≠ [] := by
    intro migration hmem
    obtain ⟨stmt, rest, heq, -⟩ := hbegin migration hmem
    rw [heq]
    exact List.cons_ne_nil _ _
  have hstep : ∀ db n, ReachedMiddle list .empty db → True → ReachedMiddle list .empty (crash list db n) := by
    rintro db n hmiddle -
    obtain ⟨e, m, hrun, hmiddle'⟩ := @runMigrations_reachedMiddle _ _ (some n) hnodup hbegin hmiddle
    rw [crash, hrun]
    exact hmiddle'
  induction crashes generalizing db with
  | nil =>
    have hrun := runMigrations_reachedEnd hnodup h hdb
    have hrun' := runMigrations_reachedEnd hnodup h horigin
    exact iff_of_true ⟨_, hrun, hrun'⟩ trivial
  | cons n crashes ih =>
    obtain ⟨hmiddle, hend⟩ := @crash_reachedEnd _ _ _ n hnodup hnonempty h hdb
    rw [Lts.run_cons, Lts.everyStep_cons]
    by_cases hinterrupts : Interrupts list db n
    · have hstuck := Lts.run_invariant (P := fun _ _ => True) (ReachedMiddle list .empty) hstep (hmiddle hinterrupts)
        (Lts.everyStep_true crashes)
      exact iff_of_false (not_recovers hnodup hbegin hstuck) fun hclear => hclear.1 hinterrupts
    · rw [and_iff_right hinterrupts]
      exact ih (hend hinterrupts)

end Runs

/-- **The migrations survive the crashes that interrupt no script**, and no others. -/
theorem migrations_survive_iff (start : Option Nat) (crashes : List Nat) :
    Recovers migrations (.start migrations start) (Lts.run (crash migrations) (.start migrations start) crashes) ↔
      Lts.EveryStep (crash migrations) (fun db n => ¬ Interrupts migrations db n) (.start migrations start) crashes := by
  obtain ⟨s, hs⟩ := migrations_apply
  have hstart := reachedEnd_start migrations_names hs start
  exact recovers_iff migrations_names migrations_begin hs hstart hstart crashes

/-- The first table is there, and the script that creates it is not recorded. -/
theorem first_table_interrupted : ¬ Recovers migrations .empty (Lts.run (crash migrations) .empty [3]) := by
  rintro ⟨final, hrun, -⟩
  have hstuck : isOk (runMigrations migrations ⟨Lts.run (crash migrations) .empty [3], none⟩) = false := by decide +kernel
  rw [hrun] at hstuck
  cases hstuck

end Migrations

end ActantDb
