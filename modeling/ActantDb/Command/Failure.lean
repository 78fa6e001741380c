import ActantDb.Command.Engine

/-!
# Where a dispatch may fail

Two ways of running an action are compared with the domain tables it started from. It keeps them when they are the same at its end, and it tears them when the storage, failing from some statement on, ends it in an error with the tables changed. Both are built up along the action: what comes before the first change keeps, and an action tears as soon as one more statement follows a change.
-/

namespace ActantDb

open Prog

/-! ### What keeps the domain tables -/

def TableName.inDomain : TableName → Bool
  | .workspace | .actor | .commandRecord | .idempotencyRecord | .effect | .effectClaim
  | .effectResult | .worker | .workerHeartbeat => false
  | _ => true

theorem Db.Frame.sameDomain {t : Option TableName} {a b : Db} (h : Db.Frame t a b)
    (ht : t.any (·.inDomain) = false) : a.SameDomain b := by
  have hne : ∀ t', t'.inDomain = true → t ≠ some t' := by
    intro t' ht' heq
    rw [heq, Option.any_some, ht'] at ht
    cases ht
  exact ⟨(h.session (hne _ rfl)).symm, (h.message (hne _ rfl)).symm, (h.tool (hne _ rfl)).symm,
    (h.toolCall (hne _ rfl)).symm, (h.approvalRequest (hne _ rfl)).symm,
    (h.memoryCandidate (hne _ rfl)).symm, (h.memory (hne _ rfl)).symm,
    (h.agentEvent (hne _ rfl)).symm⟩

variable {E : Env} {w w' : World} {α β : Type}

def Keeps (E : Env) (p : Action α) (w : World) : Prop :=
  w.db.SameDomain (p.run (handle E) w).2.db

def KeepsOnError (E : Env) (p : Action α) (w : World) : Prop :=
  ∀ e w', p.run (handle E) w = (.error e, w') → w.db.SameDomain w'.db

theorem Keeps.onError {p : Action α} (h : Keeps E p w) : KeepsOnError E p w := by
  intro e w' hrun
  rw [Keeps, hrun] at h
  exact h

theorem keeps_done (r : Except ActantError α) : Keeps E (.done r) w := Db.SameDomain.refl _

theorem Keeps.bind {p : Action α} {f : α → Action β} (hp : Keeps E p w)
    (hf : ∀ a w', p.run (handle E) w = (.ok a, w') → w.db.SameDomain w'.db → Keeps E (f a) w') :
    Keeps E (p >>= f) w := by
  rw [Keeps, run_bind]
  rw [Keeps] at hp
  cases hrun : p.run (handle E) w with
  | mk r w' =>
    rw [hrun] at hp
    cases r with
    | error e => exact hp
    | ok a => exact hp.trans (hf a w' hrun hp)

theorem Keeps.bindOnError {p : Action α} {f : α → Action β} (hp : Keeps E p w)
    (hf : ∀ a w', p.run (handle E) w = (.ok a, w') → w.db.SameDomain w'.db →
      KeepsOnError E (f a) w') : KeepsOnError E (p >>= f) w := by
  intro e w'' h
  rw [run_bind] at h
  rw [Keeps] at hp
  cases hrun : p.run (handle E) w with
  | mk r w' =>
    rw [hrun] at hp h
    cases r with
    | error e => exact (Prod.mk.inj h).2 ▸ hp
    | ok a => exact hp.trans (hf a w' hrun hp e w'' h)

/-- What cannot fail may follow what keeps the tables only when it fails itself. -/
theorem KeepsOnError.bind_ok {p : Action α} {f : α → Action β} (hp : KeepsOnError E p w)
    (hf : ∀ a w', ∃ b w'', (f a).run (handle E) w' = (.ok b, w'')) : KeepsOnError E (p >>= f) w := by
  intro e w'' h
  rw [run_bind] at h
  cases hrun : p.run (handle E) w with
  | mk r w' =>
    rw [hrun] at h
    cases r with
    | error e => exact (Prod.mk.inj h).2 ▸ hp e w' hrun
    | ok a =>
      obtain ⟨b, v, hok⟩ := hf a w'
      have hfails : (f a).run (handle E) w' = (.error e, w'') := h
      rw [hok] at hfails
      cases hfails

theorem keeps_execute {s : Sql}
    (h : ∀ reply db', s.exec w.db = .ok (reply, db') → w.db.SameDomain db') :
    Keeps E (execute s) w := by
  rw [Keeps]
  rcases handle_sql E s w with ⟨⟨err, hanswer⟩, hsame, -⟩ | ⟨reply, db', -, hexec, hanswer, hdb⟩
  · rw [run_execute_error hanswer, hsame]
    exact Db.SameDomain.refl _
  · rw [run_execute_ok hanswer, hdb]
    exact h reply db' hexec

/-- A statement about the other tables. -/
theorem keeps_other {s : Sql} (h : s.writes.any (·.inDomain) = false) : Keeps E (execute s) w :=
  keeps_execute fun _ _ hexec => (Sql.exec_frame hexec).sameDomain h

/-- A refused statement changes nothing. -/
theorem keepsOnError_execute (s : Sql) : KeepsOnError E (execute s) w := by
  intro e w' h
  rcases handle_sql E s w with ⟨⟨err, hanswer⟩, hsame, -⟩ | ⟨reply, db', -, -, hanswer, -⟩
  · rw [run_execute_error hanswer] at h
    cases h
    rw [hsame]
    exact Db.SameDomain.refl _
  · rw [run_execute_ok hanswer] at h
    cases h

theorem keeps_now : Keeps E nowRfc3339 w := Db.SameDomain.refl _

theorem keeps_freshId (tag : String) : Keeps E (freshId tag) w := Db.SameDomain.refl _

theorem Keeps.sameDomain {p : Action α} {r : Except ActantError α} (h : Keeps E p w)
    (hrun : p.run (handle E) w = (r, w')) : w.db.SameDomain w'.db := by
  rw [Keeps, hrun] at h
  exact h

/-- A statement is answered as it means. -/
theorem exec_of_run {s : Sql} {reply : s.Reply}
    (h : (execute s).run (handle E) w = (.ok reply, w')) : s.exec w.db = .ok (reply, w'.db) := by
  rcases handle_sql E s w with ⟨⟨err, hanswer⟩, -, -⟩ | ⟨reply', db', -, hexec, hanswer, hdb⟩
  · rw [run_execute_error hanswer] at h
    cases h
  · rw [run_execute_ok hanswer] at h
    cases h
    rw [hexec, hdb]

/-- What follows a statement that the database does not accept does not matter. -/
theorem keeps_refused {s : Sql} (h : ∀ reply db', s.exec w.db ≠ .ok (reply, db'))
    (f : s.Reply → Action β) : Keeps E (execute s >>= f) w :=
  (keeps_execute fun reply db' hexec => absurd hexec (h reply db')).bind
    fun reply w' hrun _ => absurd (exec_of_run hrun) (h reply w'.db)

/-! ### What tears them -/

/-- The same environment with a storage that fails from statement `n` on. -/
def Env.failingFrom (E : Env) (n : Nat) : Env := { E with fault := fun k => n ≤ k }

theorem statements_le (p : Action α) (w : World) :
    w.statements ≤ (p.run (handle E) w).2.statements := by
  induction p generalizing w with
  | done r => exact Nat.le_refl _
  | call o next ih =>
    refine Nat.le_trans ?_ (ih _ _)
    cases o with
    | now | ulid => exact Nat.le_refl _
    | sql s =>
      simp only [handle]
      split
      · exact Nat.le_succ _
      · split <;> exact Nat.le_succ _

/-- A run without failures goes the same way when the storage fails only after it. -/
theorem run_failingFrom (hE : ∀ n, E.fault n = false) {p : Action α} {r : Except ActantError α}
    {n : Nat} (hrun : p.run (handle E) w = (r, w')) (hn : w'.statements ≤ n) :
    p.run (handle (E.failingFrom n)) w = (r, w') := by
  induction p generalizing w with
  | done r => exact hrun
  | call o next ih =>
    have hsame : handle (E.failingFrom n) o w = handle E o w := by
      cases o with
      | now | ulid => rfl
      | sql s =>
        have hlt : w.statements < n := by
          refine Nat.lt_of_lt_of_le ?_ hn
          rw [run_call] at hrun
          have hle := statements_le (E := E) (next (handle E (.sql s) w).1) (handle E (.sql s) w).2
          rw [hrun] at hle
          refine Nat.lt_of_lt_of_le ?_ hle
          simp only [handle]
          split
          · exact Nat.lt_succ_self _
          · split <;> exact Nat.lt_succ_self _
        simp only [handle, Env.failingFrom, hE, decide_eq_false (Nat.not_le.mpr hlt)]
    rw [run_call, hsame]
    exact ih _ hrun

/-- With the storage failing from some statement on, `p` fails and leaves the domain tables other than those of `db`. -/
def Tears (E : Env) (db : Db) (p : Action α) (w : World) : Prop :=
  ∃ n e w', w.statements ≤ n ∧ p.run (handle (E.failingFrom n)) w = (.error e, w') ∧
    ¬ db.SameDomain w'.db

variable {db : Db}

theorem tears_error (h : ¬ db.SameDomain w.db) (e : ActantError) :
    Tears E db (.done (.error e) : Action α) w :=
  ⟨w.statements, e, w, Nat.le_refl _, rfl, h⟩

/-- One more statement after a change. -/
theorem tears_execute (h : ¬ db.SameDomain w.db) (s : Sql) : Tears E db (execute s) w := by
  have hanswer : (handle (E.failingFrom w.statements) (.sql s) w).1 = .error .unavailable := by
    simp [handle, Env.failingFrom]
  refine ⟨w.statements, _, _, Nat.le_refl _, run_execute_error hanswer, ?_⟩
  simpa [handle, Env.failingFrom] using h

theorem Tears.bind {p : Action α} (h : Tears E db p w) (f : α → Action β) :
    Tears E db (p >>= f) w := by
  obtain ⟨n, e, w', hn, hrun, hchanged⟩ := h
  exact ⟨n, e, w', hn, run_bind_error _ hrun, hchanged⟩

theorem tears_bind_ok (hE : ∀ n, E.fault n = false) {p : Action α} {f : α → Action β} {a : α}
    (hrun : p.run (handle E) w = (.ok a, w')) (h : Tears E db (f a) w') :
    Tears E db (p >>= f) w := by
  obtain ⟨n, e, w'', hn, hfails, hchanged⟩ := h
  have hle := statements_le (E := E) p w
  rw [hrun] at hle
  refine ⟨n, e, w'', Nat.le_trans hle hn, ?_, hchanged⟩
  rw [run_bind_ok _ (run_failingFrom hE hrun hn)]
  exact hfails

/-- The world after a statement that the storage accepts. -/
def World.after (w : World) (db : Db) : World := { w with db := db, statements := w.statements + 1 }

theorem run_accepted (hE : ∀ n, E.fault n = false) {s : Sql} {reply : s.Reply} {db' : Db}
    (h : s.exec w.db = .ok (reply, db')) :
    (execute s).run (handle E) w = (.ok reply, w.after db') := by
  have hhandle : handle E (.sql s) w = (.ok reply, w.after db') := by
    simp only [handle, hE, Bool.false_eq_true, if_false, h]
    rfl
  rw [run_execute_ok (by rw [hhandle]), hhandle]

/-- A statement that is accepted and changes the domain tables, with a statement after it. -/
theorem tears_of_change (hE : ∀ n, E.fault n = false) {s : Sql} {f : s.Reply → Action β}
    (hexec : ∃ reply db', s.exec w.db = .ok (reply, db') ∧ ¬ db.SameDomain db')
    (hf : ∀ reply w', ¬ db.SameDomain w'.db → Tears E db (f reply) w') :
    Tears E db (execute s >>= f) w := by
  obtain ⟨reply, db', hexec, hchanged⟩ := hexec
  exact tears_bind_ok hE (run_accepted hE hexec) (hf reply (w.after db') hchanged)

/-- An insertion that is accepted changes its table. -/
theorem insert_changes {Row Key : Type} {key : Row → Key} [DecidableEq Key] {name : String}
    {t : Table key} {r : Row} {references : Bool} (put : Table key → Db)
    (hput : ∀ t', db.SameDomain (put t') → t' = t) (hkey : t.contains (key r) = false)
    (href : references = true) :
    ∃ (reply : Unit) (db' : Db),
      (insertRow name t r references).map (fun t' => ((), put t')) = .ok (reply, db') ∧
        ¬ db.SameDomain db' := by
  obtain ⟨t', hok, hins⟩ := insertRow_accepted hkey href
  refine ⟨(), put t', map_eq_ok.mpr ⟨t', hok, rfl⟩, fun hsame => ?_⟩
  have hrows := (Table.insert?_eq_some.mp hins).2
  rw [hput t' hsame, List.self_eq_append_right] at hrows
  cases hrows

/-- An update changes its table when it changes a row it selects. -/
theorem update_changes {Row Key : Type} {key : Row → Key} {t : Table key} {p : Row → Bool}
    {f : Row → Row} {hf : ∀ r, key (f r) = key r} (put : Table key → Db)
    (hput : ∀ t', db.SameDomain (put t') → t' = t) {r : Row} (hr : r ∈ t) (hp : p r = true)
    (hne : f r ≠ r) : ¬ db.SameDomain (put (t.update p f hf)) := by
  intro hsame
  exact hne (Table.update_eq_self.mp (hput _ hsame) r hr hp)

end ActantDb
