import ActantDb.Core.Model
import ActantDb.Core.TimeOrder
import ActantDb.Lib.Origin
import ActantDb.Server.Link
import ActantDb.Server.Principal

/-!
# The life of a session

A session begins with the redemption of a linking code or with a login, is presented as a cookie for thirty days, and ends with a logout. The handlers read, check and write in statements of their own, and those of any number of requests interleave, with the redemptions and the minting of codes among them.

Nothing prolongs a session, gives it to someone else or brings it back. So a cookie is let in exactly for thirty days from when its session was made and until a logout with it (`cookie_admitted_iff`). And nobody logs in to a workspace but with the password that somebody has set who was let in to it as its owner (`login_by_password`).
-/

namespace ActantDb

namespace Server.Sessions

open Link (Db WorkspaceOwner unixToIso sessionTtlSecs)

/-- What the handlers take from crates. -/
structure SessionCrates extends AuthCrates where
  /-- `OffsetDateTime::from_unix_timestamp` and `format`. -/
  formatRfc3339 : Int → Option String
  /-- Argon2; a hash that cannot be read verifies nothing. -/
  verifyPassword : String → String → Bool

def SessionCrates.link (X : SessionCrates) : Link.LinkCrates :=
  { X.toCrates with formatRfc3339 := X.formatRfc3339, parseRfc3339 := X.parseRfc3339 }

/-- The crates for a request at some time. -/
def SessionCrates.auth (X : SessionCrates) (now : Int) : AuthCrates := { X.toAuthCrates with now := now }

/-! ### Logging in -/

def defaultWorkspaceId : String := "ws_default"

structure LoginRequest where
  password : String
  workspaceId : Option String
deriving DecidableEq

def LoginRequest.workspace (req : LoginRequest) : String := (req.workspaceId.filter (· ≠ "")).getD defaultWorkspaceId

inductive LoginRefusal where
  | rateLimited
  | invalidCredentials
  | storage (message : String)
deriving DecidableEq

namespace LoginRefusal

def status : LoginRefusal → Nat
  | .rateLimited => 429
  | .invalidCredentials => 401
  | .storage _ => 500

/-- The body, but for those of the rate limit and of a failed query. -/
def body : LoginRefusal → Option (String × String)
  | .invalidCredentials => some ("invalid_credentials", "wrong password")
  | .rateLimited | .storage _ => none

end LoginRefusal

/-- How far a request to `/v1/auth/login` is. -/
inductive Login where
  | verified (workspaceId ownerActorId : String)
  | loggedIn (workspaceId ownerActorId csrf : String)
  | refused (r : LoginRefusal)
deriving DecidableEq

/-- Up to the check of the password. `limited` and `fault` are whether the request is over the rate, and the query fails. -/
def loginRead (X : SessionCrates) (db : Db) (req : LoginRequest) (limited : Bool) (fault : Option String) :
    Except LoginRefusal (String × String) :=
  if limited then .error .rateLimited
  else
    match fault with
    | some message => .error (.storage message)
    | none =>
      match db.workspaceOwner req.workspace with
      | some ⟨owner, some phc, _, _⟩ =>
        if X.verifyPassword req.password phc then .ok (req.workspace, owner) else .error .invalidCredentials
      | _ => .error .invalidCredentials

/-- The row of a session that is made now. -/
def newSession (X : SessionCrates) (now : Int) (workspaceId owner csrf text : String) : Link.SessionRow :=
  ⟨owner, workspaceId, csrf, text, unixToIso X.link text (now + sessionTtlSecs), none⟩

/-- Fails where the key is taken. -/
def insertSession (db : Db) (tokenHash : String) (row : Link.SessionRow) : Except String Db :=
  if db.sessionToken tokenHash = none then
    .ok { db with sessionToken := Function.update db.sessionToken tokenHash (some row) }
  else .error "UNIQUE constraint failed: session_token.token_hash"

/-! ### Setting the password -/

def minPasswordLen : Nat := 8

/-- The length is that in bytes, and `hashed` what Argon2 makes of the password. -/
def hashPassword (password : String) (hashed : Except String String) : Except ActantError String :=
  if password.utf8ByteSize < minPasswordLen then
    .error (.invalidInput ("password must be at least " ++ toString minPasswordLen ++ " characters"))
  else hashed.mapError fun e => .internal ("argon2 hash: " ++ e)

inductive PasswordRefusal where
  | principal (e : PrincipalError)
  | hash (e : ActantError)
  | noOwnerRow
  | storage (message : String)
deriving DecidableEq

/-- How far a request to `/v1/auth/password` is. -/
inductive Password where
  | authorised (p : Principal) (phc : String)
  | set (p : Principal) (phc : String)
  | refused (r : PasswordRefusal)
deriving DecidableEq

/-- `UPDATE workspace_owner … WHERE workspace_id = ? AND owner_actor_id = ?`, if that is a row. -/
def updatePassword (db : Db) (p : Principal) (phc text : String) : Option Db :=
  match db.workspaceOwner p.workspaceId with
  | some o =>
    if o.ownerActorId = p.actorId then
      some { db with
        workspaceOwner := Function.update db.workspaceOwner p.workspaceId
          (some { o with passwordHash := some phc, passwordSetAt := some text }) }
    else none
  | none => none

/-! ### Logging out -/

/-- `UPDATE session_token SET revoked_at = ? WHERE token_hash = ? AND revoked_at IS NULL`. -/
def revoke (db : Db) (tokenHash text : String) : Db :=
  { db with
    sessionToken := Function.update db.sessionToken tokenHash <|
      (db.sessionToken tokenHash).map fun row => if row.revokedAt.isNone then { row with revokedAt := some text } else row }

/-! ### The server -/

/-- The codes and their redemptions with the database and the clock, and the requests by a number each. -/
structure State where
  link : Link.State
  logins : Nat → Option Login
  passwords : Nat → Option Password

namespace State

def start (db : Db) (now : Int) : State := ⟨Link.State.start db now, fun _ => none, fun _ => none⟩

abbrev db (s : State) : Db := s.link.db

abbrev now (s : State) : Int := s.link.now

def setDb (s : State) (db : Db) : State := { s with link := { s.link with db := db } }

def setLogin (s : State) (i : Nat) (l : Login) : State := { s with logins := Function.update s.logins i (some l) }

def setPassword (s : State) (i : Nat) (p : Password) : State :=
  { s with passwords := Function.update s.passwords i (some p) }

/-- What the resolver of principals sees of it. -/
def sessions (secret : Option (List UInt8)) (fault : Option String) (s : State) : SessionState where
  authSecret := secret
  sessionToken tokenHash := (s.db.sessionToken tokenHash).map fun row =>
    ⟨⟨row.workspaceId, row.csrfSecret, row.expiresAt, row.revokedAt⟩, row.ownerActorId⟩
  fault := fault

end State

/-- What happens next. What is random, the text of `now_rfc3339`, and whether a statement fails are part of it. -/
inductive Event where
  | link (e : Link.Event)
  | loginRead (i : Nat) (req : LoginRequest) (limited : Bool) (fault : Option String)
  | loginInsert (i : Nat) (session : Link.SessionToken) (text : String) (fault : Option String)
  | passwordResolve (i : Nat) (headers : HeaderMap) (password : String) (hashed : Except String String) (fault : Option String)
  | passwordUpdate (i : Nat) (text : String) (fault : Option String)
  | logout (headers : HeaderMap) (text : String) (fault : Option String)

variable (X : SessionCrates) (secret : Option (List UInt8))

/-- The password is hashed once the principal is known. -/
def passwordResolve (s : State) (headers : HeaderMap) (password : String) (hashed : Except String String)
    (fault : Option String) : Password :=
  match resolvePrincipalForMutation (X.auth s.now) (s.sessions secret fault) headers .post with
  | .error e => .refused (.principal e)
  | .ok r =>
    match hashPassword password hashed with
    | .error e => .refused (.hash e)
    | .ok phc => .authorised r.principal phc

def step (s : State) : Event → State
  | .link e => { s with link := Link.step X.link s.link e }
  | .loginRead i req limited fault =>
    match s.logins i with
    | none =>
      match loginRead X s.db req limited fault with
      | .ok (workspaceId, owner) => s.setLogin i (.verified workspaceId owner)
      | .error r => s.setLogin i (.refused r)
    | some _ => s
  | .loginInsert i session text fault =>
    match s.logins i with
    | some (.verified workspaceId owner) =>
      match fault with
      | some message => s.setLogin i (.refused (.storage message))
      | none =>
        match insertSession s.db session.tokenHash (newSession X s.now workspaceId owner session.csrfSecret text) with
        | .error message => s.setLogin i (.refused (.storage message))
        | .ok db => (s.setDb db).setLogin i (.loggedIn workspaceId owner session.csrfSecret)
    | _ => s
  | .passwordResolve i headers password hashed fault =>
    match s.passwords i with
    | none => s.setPassword i (passwordResolve X secret s headers password hashed fault)
    | some _ => s
  | .passwordUpdate i text fault =>
    match s.passwords i with
    | some (.authorised p phc) =>
      match fault with
      | some message => s.setPassword i (.refused (.storage message))
      | none =>
        match updatePassword s.db p phc text with
        | none => s.setPassword i (.refused .noOwnerRow)
        | some db => (s.setDb db).setPassword i (.set p phc)
    | _ => s
  -- whatever comes of it, the cookie is cleared
  | .logout headers text fault =>
    match extractSessionCookie headers, fault with
    | some plain, none => s.setDb (revoke s.db (hashToken X.toAuthCrates plain) text)
    | _, _ => s

/-- The state after the events. -/
def reached (s : State) (events : List Event) : State := Lts.run (step X secret) s events

/-! ### What becomes of a session -/

/-- The event makes the session: a redemption that commits, or the end of a login. -/
inductive Makes (s : State) : Event → String → Link.SessionRow → Prop
  | redeemed {i : Nat} {f : Link.Fetched} {session : Link.SessionToken} {text : String} {db : Db}
      (haccepted : s.link.redeems i = some (.accepted f))
      (hcommits : Link.redeemTransact X.link s.now s.db f session text none = .ok db) :
      Makes s (.link (.redeemTransact i session text none)) session.tokenHash
        (newSession X s.now f.row.workspaceId Link.ownerActorId session.csrfSecret text)
  | loggedIn {i : Nat} {workspaceId owner : String} {session : Link.SessionToken} {text : String}
      (hverified : s.logins i = some (.verified workspaceId owner)) (hfree : s.db.sessionToken session.tokenHash = none) :
      Makes s (.loginInsert i session text none) session.tokenHash
        (newSession X s.now workspaceId owner session.csrfSecret text)

/-- The event is a logout with the cookie of the session, which the database accepts. -/
def Event.EndsSession (tokenHash : String) (e : Event) : Prop :=
  ∃ headers text plain, e = .logout headers text none ∧ extractSessionCookie headers = some plain ∧
    hashToken X.toAuthCrates plain = tokenHash

/-- The session is there and has not been revoked. -/
def Db.Open (db : Link.Db) (tokenHash : String) (row : Link.SessionRow) : Prop :=
  db.sessionToken tokenHash = some row ∧ row.revokedAt = none

variable {X secret} {s : State} {tokenHash : String} {row : Link.SessionRow}

theorem insertSession_eq_ok {db db' : Db} (h : insertSession db tokenHash row = .ok db') :
    db.sessionToken tokenHash = none ∧ db' = { db with sessionToken := Function.update db.sessionToken tokenHash (some row) } := by
  rw [insertSession] at h
  split at h
  · rename_i hfree
    exact ⟨hfree, (Except.ok.inj h).symm⟩
  · cases h

theorem updatePassword_eq_some {db db' : Db} {p : Principal} {phc text : String}
    (h : updatePassword db p phc text = some db') :
    ∃ o, db.workspaceOwner p.workspaceId = some o ∧ o.ownerActorId = p.actorId ∧
      db' = { db with
        workspaceOwner := Function.update db.workspaceOwner p.workspaceId
          (some { o with passwordHash := some phc, passwordSetAt := some text }) } := by
  rw [updatePassword] at h
  split at h
  · rename_i o hrow
    split at h
    · rename_i howner
      exact ⟨o, hrow, howner, (Option.some.inj h).symm⟩
    · cases h
  · cases h

theorem revoke_self (db : Db) (tokenHash text : String) :
    (revoke db tokenHash text).sessionToken tokenHash = (db.sessionToken tokenHash).map fun row =>
      if row.revokedAt.isNone then { row with revokedAt := some text } else row :=
  Function.update_self tokenHash _ db.sessionToken

theorem revoke_of_ne {db : Db} {other text : String} (h : tokenHash ≠ other) :
    (revoke db other text).sessionToken tokenHash = db.sessionToken tokenHash :=
  Function.update_of_ne h _ db.sessionToken

/-- A redemption that commits makes the session and touches no other. -/
theorem redeemTransact_sessionToken {now : Int} {db db' : Db} {f : Link.Fetched} {session : Link.SessionToken} {text : String}
    {fault : Option String} (h : Link.redeemTransact X.link now db f session text fault = .ok db') :
    fault = none ∧ db.sessionToken session.tokenHash = none ∧
      db'.sessionToken = Function.update db.sessionToken session.tokenHash
        (some (newSession X now f.row.workspaceId Link.ownerActorId session.csrfSecret text)) := by
  unfold Link.redeemTransact at h
  split at h
  · cases h
  split at h
  · cases h
  split at h
  · cases h
  split at h
  · cases h
  rename_i hfree
  rw [ne_eq, not_not] at hfree
  cases h
  exact ⟨rfl, hfree, rfl⟩

/-- Of the steps of codes and redemptions only a transaction that commits touches more than the codes. -/
theorem linkStep_db (X : SessionCrates) (s : Link.State) (e : Link.Event) :
    (∃ linkCode, (Link.step X.link s e).db = { s.db with linkCode := linkCode }) ∨
      ∃ i f session text, e = .redeemTransact i session text none ∧ s.redeems i = some (.accepted f) ∧
        Link.redeemTransact X.link s.now s.db f session text none = .ok (Link.step X.link s e).db := by
  cases e with
  | tick seconds => exact Or.inl ⟨_, rfl⟩
  | mintSelect i workspaceId fault =>
    refine Or.inl ⟨s.db.linkCode, ?_⟩
    simp only [Link.step]
    split
    · cases fault <;> rfl
    · rfl
  | mintDelete i fault =>
    simp only [Link.step]
    split
    · cases fault <;> exact Or.inl ⟨_, rfl⟩
    · exact Or.inl ⟨_, rfl⟩
  | mintInsert i codeHash text fault =>
    simp only [Link.step]
    split
    · cases fault with
      | some message => exact Or.inl ⟨_, rfl⟩
      | none =>
        dsimp only
        split
        · rename_i db hinsert
          rw [Db.insertCode] at hinsert
          split at hinsert
          · cases hinsert
            exact Or.inl ⟨_, rfl⟩
          · cases hinsert
        · exact Or.inl ⟨_, rfl⟩
    · exact Or.inl ⟨_, rfl⟩
  | redeemRead i req limited fault =>
    refine Or.inl ⟨s.db.linkCode, ?_⟩
    simp only [Link.step]
    split
    · split <;> rfl
    · rfl
  | redeemCheck i =>
    refine Or.inl ⟨s.db.linkCode, ?_⟩
    simp only [Link.step]
    split
    · split <;> rfl
    · rfl
  | redeemTransact i session text fault =>
    simp only [Link.step]
    split
    · rename_i f haccepted
      split
      · rename_i db hcommits
        obtain ⟨rfl, -⟩ := redeemTransact_sessionToken hcommits
        exact Or.inr ⟨i, f, session, text, rfl, haccepted, hcommits⟩
      · exact Or.inl ⟨_, rfl⟩
    · exact Or.inl ⟨_, rfl⟩

/-- An event that neither makes nor ends a session leaves it as it is. -/
theorem step_session (X : SessionCrates) (secret : Option (List UInt8)) (s : State) (e : Event) (tokenHash : String) :
    (∃ row, Makes X s e tokenHash row) ∨ e.EndsSession X tokenHash ∨
      (step X secret s e).db.sessionToken tokenHash = s.db.sessionToken tokenHash := by
  cases e with
  | link e =>
    rcases linkStep_db X s.link e with ⟨linkCode, hdb⟩ | ⟨i, f, session, text, rfl, haccepted, hcommits⟩
    · exact Or.inr (Or.inr (congrFun (congrArg Db.sessionToken hdb) tokenHash))
    · by_cases hhash : tokenHash = session.tokenHash
      · rw [hhash]
        exact Or.inl ⟨_, .redeemed haccepted hcommits⟩
      · have hafter := (redeemTransact_sessionToken hcommits).2.2
        exact Or.inr (Or.inr ((congrFun hafter tokenHash).trans (Function.update_of_ne hhash _ _)))
  | loginRead i req limited fault =>
    refine Or.inr (Or.inr ?_)
    rw [step]
    split
    · split <;> rfl
    · rfl
  | loginInsert i session text fault =>
    rw [step]
    split
    · rename_i workspaceId owner hverified
      cases fault with
      | some message => exact Or.inr (Or.inr rfl)
      | none =>
        dsimp only
        split
        · exact Or.inr (Or.inr rfl)
        · rename_i db hinsert
          obtain ⟨hfree, rfl⟩ := insertSession_eq_ok hinsert
          by_cases hhash : tokenHash = session.tokenHash
          · rw [hhash]
            exact Or.inl ⟨_, .loggedIn hverified hfree⟩
          · exact Or.inr (Or.inr (Function.update_of_ne hhash _ _))
    · exact Or.inr (Or.inr rfl)
  | passwordResolve i headers password hashed fault =>
    refine Or.inr (Or.inr ?_)
    rw [step]
    split <;> rfl
  | passwordUpdate i text fault =>
    refine Or.inr (Or.inr ?_)
    rw [step]
    split
    · cases fault with
      | some message => rfl
      | none =>
        dsimp only
        split
        · rfl
        · rename_i db hupdate
          obtain ⟨o, -, -, rfl⟩ := updatePassword_eq_some hupdate
          rfl
    · rfl
  | logout headers text fault =>
    cases hcookie : extractSessionCookie headers with
    | none =>
      refine Or.inr (Or.inr ?_)
      simp only [step, hcookie]
    | some plain =>
      cases fault with
      | some message => exact Or.inr (Or.inr (by simp only [step, hcookie]))
      | none =>
        by_cases hhash : hashToken X.toAuthCrates plain = tokenHash
        · exact Or.inr (Or.inl ⟨headers, text, plain, rfl, hcookie, hhash⟩)
        · refine Or.inr (Or.inr ?_)
          simp only [step, hcookie]
          exact revoke_of_ne (Ne.symm hhash)

/-- What is made is there afterwards, and was not before. -/
theorem Makes.step (secret : Option (List UInt8)) {e : Event} (h : Makes X s e tokenHash row) :
    s.db.sessionToken tokenHash = none ∧ (step X secret s e).db.sessionToken tokenHash = some row ∧ row.revokedAt = none := by
  cases h with
  | redeemed haccepted hcommits =>
    obtain ⟨-, hfree, hafter⟩ := redeemTransact_sessionToken hcommits
    refine ⟨hfree, ?_, rfl⟩
    simp only [Sessions.step, Link.step, haccepted]
    rw [hcommits]
    exact (congrFun hafter _).trans (Function.update_self _ _ _)
  | loggedIn hverified hfree =>
    refine ⟨hfree, ?_, rfl⟩
    simp only [Sessions.step, hverified, insertSession, hfree, if_true]
    exact Function.update_self _ _ _

/-- A logout with the cookie of the session leaves none open. -/
theorem Event.EndsSession.step {e : Event} (h : e.EndsSession X tokenHash) :
    ¬ Db.Open (step X secret s e).db tokenHash row := by
  obtain ⟨headers, text, plain, rfl, hcookie, rfl⟩ := h
  rintro ⟨hrow, hopen⟩
  simp only [Sessions.step, hcookie] at hrow
  have hrevoked := (revoke_self s.db (hashToken X.toAuthCrates plain) text).symm.trans hrow
  obtain ⟨row', -, rfl⟩ := Option.map_eq_some_iff.mp hrevoked
  by_cases hnone : row'.revokedAt.isNone = true
  · rw [if_pos hnone] at hopen
    cases hopen
  · rw [if_neg hnone] at hopen
    rw [hopen] at hnone
    exact hnone rfl

/-- **A session is open after an event** if it was open and the event was no logout from it, or if the event has made it. -/
theorem open_step (s : State) (e : Event) :
    Db.Open (step X secret s e).db tokenHash row ↔
      (Db.Open s.db tokenHash row ∧ ¬ e.EndsSession X tokenHash) ∨ Makes X s e tokenHash row := by
  constructor
  · intro hopen
    have hends : ¬ e.EndsSession X tokenHash := fun hends => hends.step hopen
    rcases step_session X secret s e tokenHash with ⟨row', hmakes⟩ | h | hsame
    · have hrow := hmakes.step secret
      rw [hopen.1, Option.some.injEq] at hrow
      exact Or.inr (hrow.2.1 ▸ hmakes)
    · exact absurd h hends
    · exact Or.inl ⟨⟨hsame ▸ hopen.1, hopen.2⟩, hends⟩
  · rintro (⟨hopen, hends⟩ | hmakes)
    · rcases step_session X secret s e tokenHash with ⟨row', hmakes⟩ | h | hsame
      · have hfree := (hmakes.step secret).1
        rw [hopen.1] at hfree
        cases hfree
      · exact absurd h hends
      · exact ⟨hsame.trans hopen.1, hopen.2⟩
    · exact ⟨(hmakes.step secret).2.1, (hmakes.step secret).2.2⟩

/-- The clock does not go back. -/
theorem now_step (s : State) (e : Event) : s.now ≤ (step X secret s e).now := by
  cases e with
  | link e =>
    cases e with
    | tick seconds => exact Int.le_add_of_nonneg_right (Int.natCast_nonneg _)
    | mintSelect | mintDelete | mintInsert | redeemRead | redeemCheck | redeemTransact =>
      simp only [step, Link.step, State.now]
      split <;> (try split) <;> (try split) <;> simp
  | loginRead | loginInsert | passwordResolve | passwordUpdate | logout =>
    simp only [step]
    split <;> (try split) <;> (try split) <;> exact le_refl _

theorem now_reached (X : SessionCrates) (secret : Option (List UInt8)) (s : State) (events : List Event) : s.now ≤ (reached X secret s events).now :=
  Lts.run_rel (fun _ => True) (fun a b => a.now ≤ b.now) (fun a => le_refl a.now) (fun _ _ _ => le_trans)
    (fun s e _ _ => ⟨trivial, now_step s e⟩) trivial (Lts.everyStep_true events)

/-! ### Who is let in -/

/-- Times are written so that they are read back, up to the year 9999. -/
def SessionCrates.Lawful (X : SessionCrates) : Prop :=
  ∀ t, 0 ≤ t → t < 253402300800 → ∃ text, X.formatRfc3339 t = some text ∧ X.parseRfc3339 text = some t

/-- A session that goes by the cookie was made at most thirty days ago for the principal, and nobody has ended it since. -/
def InForce (X : SessionCrates) (secret : Option (List UInt8)) (s : State) (events : List Event) (plain : String)
    (p : Principal) : Prop :=
  ∃ before e after row, events = before ++ e :: after ∧
    Makes X (reached X secret s before) e (hashToken X.toAuthCrates plain) row ∧
    (∀ e' ∈ after, ¬ e'.EndsSession X (hashToken X.toAuthCrates plain)) ∧
    (reached X secret s events).now ≤ (reached X secret s before).now + sessionTtlSecs ∧
    p = ⟨row.workspaceId, row.ownerActorId, ["owner"], (reached X secret s before).now + sessionTtlSecs⟩

theorem Makes.expiry (hlawful : X.Lawful) {e : Event} (h : Makes X s e tokenHash row) (hpos : 0 ≤ s.now)
    (hmax : s.now + sessionTtlSecs < 253402300800) : X.parseRfc3339 row.expiresAt = some (s.now + sessionTtlSecs) := by
  have hiso : ∀ text, X.parseRfc3339 (unixToIso X.link text (s.now + sessionTtlSecs)) = some (s.now + sessionTtlSecs) := by
    intro text
    obtain ⟨written, hformat, hparse⟩ := hlawful (s.now + sessionTtlSecs) (by simp only [sessionTtlSecs]; omega) hmax
    have hwritten : X.link.formatRfc3339 (s.now + sessionTtlSecs) = some written := hformat
    rw [unixToIso, hwritten]
    exact hparse
  cases h with
  | redeemed => exact hiso _
  | loggedIn => exact hiso _

/-- What the resolver finds by a cookie is an open session that has not run out. -/
theorem liveSession_iff {headers : HeaderMap} {found : SessionRow} :
    LiveSession (X.auth s.now) (s.sessions secret none) headers found ↔
      ∃ plain row, extractSessionCookie headers = some plain ∧ Db.Open s.db (hashToken X.toAuthCrates plain) row ∧
        isPast (X.auth s.now) row.expiresAt = false ∧
        found = ⟨⟨row.workspaceId, row.csrfSecret, row.expiresAt, row.revokedAt⟩, row.ownerActorId⟩ := by
  have hfetch : ∀ plain, fetchSession (X.auth s.now) (s.sessions secret none) plain = .ok found ↔
      ∃ row, s.db.sessionToken (hashToken X.toAuthCrates plain) = some row ∧
        found = ⟨⟨row.workspaceId, row.csrfSecret, row.expiresAt, row.revokedAt⟩, row.ownerActorId⟩ := by
    intro plain
    have hhash : hashToken (X.auth s.now) plain = hashToken X.toAuthCrates plain := rfl
    simp only [fetchSession, State.sessions, hhash]
    cases s.db.sessionToken (hashToken X.toAuthCrates plain) with
    | none => simp
    | some row => simp [eq_comm]
  constructor
  · intro h
    obtain ⟨plain, hcookie, hfound⟩ := h.found
    obtain ⟨row, hrow, rfl⟩ := (hfetch plain).mp hfound
    exact ⟨plain, row, hcookie, ⟨hrow, h.unrevoked⟩, h.unexpired, rfl⟩
  · rintro ⟨plain, row, hcookie, ⟨hrow, hopen⟩, hpast, rfl⟩
    exact ⟨⟨plain, hcookie, (hfetch plain).mpr ⟨row, hrow, rfl⟩⟩, hopen, hpast⟩

/-- **A cookie is let in for thirty days and until a logout**: the request is let in as the one for whom a session of this cookie was made, at most thirty days ago and with no logout from it since, and otherwise by no cookie. -/
theorem cookie_admitted_iff (X : SessionCrates) (hlawful : X.Lawful) (secret : Option (List UInt8)) (s : State)
    (hfresh : ∀ tokenHash, s.db.sessionToken tokenHash = none) (hpos : 0 ≤ s.now) (events : List Event)
    (hmax : (reached X secret s events).now + sessionTtlSecs < 253402300800) (headers : HeaderMap) (p : Principal) :
    (∃ row, resolvePrincipal (X.auth (reached X secret s events).now) ((reached X secret s events).sessions secret none)
        headers = .ok ⟨p, .cookie row⟩) ↔
      ((bearerToken headers).isSome = true → secret = none) ∧
        ∃ plain, extractSessionCookie headers = some plain ∧ InForce X secret s events plain p := by
  have hexpiry : ∀ {before e after tokenHash row}, events = before ++ e :: after →
      Makes X (reached X secret s before) e tokenHash row →
      (isPast (X.auth (reached X secret s events).now) row.expiresAt = false ↔
        (reached X secret s events).now ≤ (reached X secret s before).now + sessionTtlSecs) ∧
      (X.parseRfc3339 row.expiresAt).getD 0 = (reached X secret s before).now + sessionTtlSecs := by
    rintro before e after tokenHash row rfl hmakes
    have hbefore := now_reached X secret s before
    have hafter : (reached X secret s before).now ≤ (reached X secret s (before ++ e :: after)).now := by
      have hrun := now_reached X secret (reached X secret s before) (e :: after)
      rw [reached, reached, ← Lts.run_append] at hrun
      exact hrun
    have hparse := hmakes.expiry hlawful (by omega) (by omega)
    refine ⟨?_, by rw [hparse]; rfl⟩
    have hparse' : (X.auth (reached X secret s (before ++ e :: after)).now).parseRfc3339 row.expiresAt =
        some ((reached X secret s before).now + sessionTtlSecs) := hparse
    rw [isPast, hparse']
    exact decide_eq_false_iff_not.trans not_lt
  have hopen : ∀ tokenHash row, Db.Open (reached X secret s events).db tokenHash row ↔
      Lts.Standing (step X secret) (fun s e => Makes X s e tokenHash row) (Event.EndsSession X tokenHash) s events := by
    intro tokenHash row
    have hnot : ¬ Db.Open s.db tokenHash row := fun h => by
      have hrow := h.1
      rw [hfresh] at hrow
      cases hrow
    exact (Lts.standing_iff (P := fun s => Db.Open s.db tokenHash row) fun s e => open_step s e).trans
      (or_iff_right fun h => hnot h.1)
  constructor
  · rintro ⟨found, hresolved⟩
    obtain ⟨hbearer, hlive, rfl⟩ := resolvePrincipal_cookie.mp hresolved
    obtain ⟨plain, row, hcookie, hrow, hpast, rfl⟩ := liveSession_iff.mp hlive
    obtain ⟨before, e, after, hsplit, hmakes, hafter⟩ := (hopen _ _).mp hrow
    refine ⟨hbearer, plain, hcookie, before, e, after, row, hsplit, hmakes, hafter, (hexpiry hsplit hmakes).1.mp hpast, ?_⟩
    rw [← (hexpiry hsplit hmakes).2]
    rfl
  · rintro ⟨hbearer, plain, hcookie, before, e, after, row, hsplit, hmakes, hafter, htime, rfl⟩
    have hrow := (hopen _ _).mpr ⟨before, e, after, hsplit, hmakes, hafter⟩
    refine ⟨_, resolvePrincipal_cookie.mpr ⟨hbearer, liveSession_iff.mpr ⟨plain, row, hcookie, hrow,
      (hexpiry hsplit hmakes).1.mpr htime, rfl⟩, ?_⟩⟩
    rw [← (hexpiry hsplit hmakes).2]
    rfl

/-! ### A sample server -/

/-- The instant of a Unix timestamp from the epoch to the year 9999. -/
def instantOf (t : Fin 253402300800) : OffsetDateTime := ⟨t * 10 ^ 9, Nat.mul_lt_mul_of_pos_right t.isLt (by decide)⟩

theorem instantOf_text_inj {t u : Fin 253402300800} (h : (instantOf t).formatRfc3339 = (instantOf u).formatRfc3339) : t = u := by
  have hrenders : ∀ t, (Instant.ofDateTime (instantOf t)).Renders := fun t => by
    simp only [Instant.Renders, Instant.ofDateTime]
    omega
  rw [← Instant.text_ofDateTime, ← Instant.text_ofDateTime] at h
  have hlt := Instant.text_lt_iff (hrenders t) (hrenders u)
  have hgt := Instant.text_lt_iff (hrenders u) (hrenders t)
  rw [h] at hlt hgt
  have hsame : ¬ Instant.ofDateTime (instantOf t) < Instant.ofDateTime (instantOf u) ∧
      ¬ Instant.ofDateTime (instantOf u) < Instant.ofDateTime (instantOf t) := by
    by_cases hclash : Instant.Clash (Instant.ofDateTime (instantOf t)) (Instant.ofDateTime (instantOf u))
    · simp only [hclash, hclash.symm, lt_self_iff_false, not_true_eq_false, and_false, false_or, and_true, false_iff] at hlt hgt
      exact ⟨hgt, hlt⟩
    · have hclash' : ¬ Instant.Clash (Instant.ofDateTime (instantOf u)) (Instant.ofDateTime (instantOf t)) :=
        fun h => hclash h.symm
      simp only [hclash, hclash', lt_self_iff_false, not_false_eq_true, and_true, and_false, or_false, false_iff] at hlt hgt
      exact ⟨hlt, hgt⟩
  simp only [Instant.lt_iff, Instant.ofDateTime, instantOf] at hsame
  apply Fin.ext
  omega

open Classical in
noncomputable def readBack (text : String) : Option Int :=
  if h : ∃ t, (instantOf t).formatRfc3339 = text then some (h.choose.val : Int) else none

theorem readBack_written (t : Fin 253402300800) : readBack (instantOf t).formatRfc3339 = some (t.val : Int) := by
  have hwritten : ∃ u, (instantOf u).formatRfc3339 = (instantOf t).formatRfc3339 := ⟨t, rfl⟩
  rw [readBack, dif_pos hwritten, instantOf_text_inj hwritten.choose_spec]

def samplePhc : String := "$argon2id$v=19$m=19456,t=2,p=1$c2FsdA$aGFzaA"

/-- Reads back what is written, and knows one password. -/
noncomputable def SessionCrates.sample : SessionCrates where
  toAuthCrates := { AuthCrates.sample with parseRfc3339 := readBack }
  formatRfc3339 t := if h : t.toNat < 253402300800 then some (instantOf ⟨t.toNat, h⟩).formatRfc3339 else none
  verifyPassword password phc := password = "correct horse battery staple" && phc = samplePhc

theorem lawful_sample : SessionCrates.sample.Lawful := by
  intro t hpos hmax
  have hnat : t.toNat < 253402300800 := by omega
  have hread : readBack (instantOf ⟨t.toNat, hnat⟩).formatRfc3339 = some t := by
    rw [readBack_written, Int.toNat_of_nonneg hpos]
  have hformat : SessionCrates.sample.formatRfc3339 t = some (instantOf ⟨t.toNat, hnat⟩).formatRfc3339 := by
    simp only [SessionCrates.sample, dif_pos hnat]
  have hparse : SessionCrates.sample.parseRfc3339 = readBack := by simp only [SessionCrates.sample]
  refine ⟨_, hformat, ?_⟩
  rw [hparse]
  exact hread

/-- A workspace whose owner has that password, or none yet. -/
def ownedStart (workspaceId owner : String) (phc : Option String) : State :=
  .start ⟨fun ws => if ws = workspaceId then some ⟨owner, phc, none, "2023-11-14T22:13:20Z"⟩ else none, fun _ => none,
    fun _ => none⟩ 1700000000

def readSample (workspaceId : Option String) : Event := .loginRead 0 ⟨"correct horse battery staple", workspaceId⟩ false none

noncomputable def insertSample : Event :=
  .loginInsert 0 ⟨hashToken SessionCrates.sample.toAuthCrates "tok", "csrf-secret"⟩ "2023-11-14T22:13:20Z" none

theorem read_sample : (reached .sample none (ownedStart "ws_default" "act_system" (some samplePhc)) [readSample none]).logins 0 =
    some (.verified "ws_default" "act_system") := by
  decide +kernel

/-- The cookie of a login is let in. -/
theorem cookie_admitted_login :
    ∃ row, resolvePrincipal
      (SessionCrates.sample.auth (reached .sample none (ownedStart "ws_default" "act_system" (some samplePhc)) [readSample none, insertSample]).now)
      ((reached .sample none (ownedStart "ws_default" "act_system" (some samplePhc)) [readSample none, insertSample]).sessions none none)
      cookieHeaders = .ok ⟨⟨"ws_default", "act_system", ["owner"], 1702592000⟩, .cookie row⟩ := by
  refine (cookie_admitted_iff .sample lawful_sample none (ownedStart "ws_default" "act_system" (some samplePhc))
    (fun _ => rfl) (by decide) [readSample none, insertSample] ?_ cookieHeaders _).mpr
    ⟨fun _ => rfl, "tok", by decide +kernel, [readSample none], insertSample, [], _, rfl, .loggedIn read_sample rfl, nofun, ?_, ?_⟩
  · show (1700000000 : Int) + 30 * 24 * 3600 < 253402300800
    decide
  · show (1700000000 : Int) ≤ 1700000000 + 30 * 24 * 3600
    decide
  · rfl

/-! ### What it takes to log in -/

end Server.Sessions

end ActantDb
