import ActantDb.Server.Auth

/-!
# Who a mutation is from

`resolve_principal_for_mutation` asks for the CSRF token on the way of the cookie. A request with a bearer token is handed to `resolve_principal`, since a token is no ambient credential; but where the server has no secret the token is passed over there, and the cookie is taken without a CSRF token. That is the only way round the check (`csrfGuarded_iff`).
-/

namespace ActantDb.Server

structure Principal where
  workspaceId : String
  actorId : String
  roles : List String
  expiresAt : Int
deriving DecidableEq

/-- `principal_from_claims` -/
def principalFromClaims (c : Claims) : Principal := ⟨c.iss, c.sub, c.roles, c.exp⟩

structure SessionRow extends SessionAuthRow where
  ownerActorId : String

/-- The configuration and the table that the resolver reads. -/
structure SessionState where
  authSecret : Option (List UInt8)
  sessionToken : String → Option SessionRow
  fault : Option String

inductive PrincipalError where
  | unauthenticated
  | invalidToken
  | revoked
  | expired
  | csrfRequired
  | csrfMismatch
  | storage (message : String)
deriving DecidableEq, Repr

namespace PrincipalError

def status : PrincipalError → Nat
  | .csrfRequired | .csrfMismatch => 403
  | .storage _ => 500
  | _ => 401

/-- The body, but for that of a failed query. -/
def body : PrincipalError → List (String × String)
  | .unauthenticated => [("error", "unauthenticated")]
  | .invalidToken => [("error", "invalid_token")]
  | .revoked => [("error", "revoked")]
  | .expired => [("error", "expired")]
  | .csrfRequired =>
    [("error", "csrf_required"), ("message", "X-CSRF-Token header is required for mutating routes")]
  | .csrfMismatch => [("error", "csrf_mismatch"), ("message", "X-CSRF-Token does not match session")]
  | .storage message => [("error", "storage"), ("message", message)]

end PrincipalError

/-- What a principal was resolved from: the claims of a token, or the row of a session. -/
inductive Source where
  | bearer (claims : Claims)
  | cookie (row : SessionRow)

structure Resolved where
  principal : Principal
  source : Source

variable (X : AuthCrates) (s : SessionState) (headers : HeaderMap) (method : HttpMethod)

/-- `is_past`; an expiry that cannot be read is past. -/
def isPast (iso : String) : Bool :=
  match X.parseRfc3339 iso with
  | some t => t < X.now
  | none => true

def fetchSession (plain : String) : Except PrincipalError SessionRow :=
  match s.fault with
  | some message => .error (.storage message)
  | none =>
    match s.sessionToken (hashToken X plain) with
    | none => .error .unauthenticated
    | some row => .ok row

def sessionPrincipal (row : SessionRow) : Resolved where
  principal := ⟨row.workspaceId, row.ownerActorId, ["owner"], (X.parseRfc3339 row.expiresAt).getD 0⟩
  source := .cookie row

def resolvePrincipal : Except PrincipalError Resolved :=
  match bearerToken headers, s.authSecret with
  | some bearer, some secret =>
    match verify X bearer secret with
    | some claims => .ok ⟨principalFromClaims claims, .bearer claims⟩
    | none => .error .invalidToken
  | _, _ =>
    match extractSessionCookie headers with
    | none => .error .unauthenticated
    | some token =>
      match fetchSession X s token with
      | .error e => .error e
      | .ok row =>
        if row.revokedAt.isSome then .error .revoked
        else if isPast X row.expiresAt then .error .expired
        else .ok (sessionPrincipal X row)

def resolvePrincipalForMutation : Except PrincipalError Resolved :=
  if !method.mutates then resolvePrincipal X s headers
  else if (bearerToken headers).isSome then resolvePrincipal X s headers
  else
    match extractSessionCookie headers with
    | none => .error .unauthenticated
    | some token =>
      match csrfHeader headers with
      | none => .error .csrfRequired
      | some presented =>
        match fetchSession X s token with
        | .error e => .error e
        | .ok row =>
          if row.revokedAt.isSome then .error .revoked
          else if isPast X row.expiresAt then .error .expired
          else if !verifyCsrf row.csrfSecret presented then .error .csrfMismatch
          else .ok (sessionPrincipal X row)

/-! ### Sessions -/

/-- The session of the request's cookie, neither revoked nor expired. -/
structure LiveSession (row : SessionRow) : Prop where
  found : ∃ token, extractSessionCookie headers = some token ∧ fetchSession X s token = .ok row
  unrevoked : row.revokedAt = none
  unexpired : isPast X row.expiresAt = false

/-- The request carries a token that is accepted for the session. -/
def CsrfAccepted (row : SessionRow) : Prop :=
  ∃ presented, csrfHeader headers = some presented ∧ verifyCsrf row.csrfSecret presented = true

/-- A principal from the cookie comes with an accepted token and from a live session. -/
def CsrfGuarded : Prop :=
  ∀ p row, resolvePrincipalForMutation X s headers method = .ok ⟨p, .cookie row⟩ →
    CsrfAccepted headers row ∧ LiveSession X s headers row

/-- A bearer token that the server does not look at, beside the cookie of a live session and without its token. -/
def BearerIgnored : Prop :=
  (bearerToken headers).isSome = true ∧ s.authSecret = none
    ∧ ∃ row, LiveSession X s headers row ∧ ¬ CsrfAccepted headers row

variable {X s headers method}

/-- **The cookie's principal** is resolved of a live session, and where no token is looked at. -/
theorem resolvePrincipal_cookie {p : Principal} {row : SessionRow} :
    resolvePrincipal X s headers = .ok ⟨p, .cookie row⟩ ↔
      ((bearerToken headers).isSome = true → s.authSecret = none)
        ∧ LiveSession X s headers row ∧ p = (sessionPrincipal X row).principal := by
  unfold resolvePrincipal
  split
  · next bearer secret hbearer hsecret =>
    constructor
    · intro h
      split at h <;> simp at h
    · rintro ⟨hnone, -⟩
      have := hnone (by rw [hbearer, Option.isSome_some])
      rw [hsecret] at this
      cases this
  · next hpassed =>
    have hnone : (bearerToken headers).isSome = true → s.authSecret = none := by
      intro hsome
      obtain ⟨bearer, hbearer⟩ := Option.isSome_iff_exists.mp hsome
      exact Option.eq_none_iff_forall_ne_some.mpr fun secret hsecret => hpassed bearer secret hbearer hsecret
    rw [iff_true_intro hnone, true_and]
    cases hcookie : extractSessionCookie headers with
    | none =>
      refine ⟨fun h => (by cases h), fun h => ?_⟩
      obtain ⟨token, htoken, -⟩ := h.1.found
      rw [hcookie] at htoken
      cases htoken
    | some token =>
      dsimp only
      have hfound : ∀ r, (∃ token', extractSessionCookie headers = some token' ∧ fetchSession X s token' = .ok r) ↔
          fetchSession X s token = .ok r := by
        simp [hcookie]
      cases hfetch : fetchSession X s token with
      | error e =>
        refine ⟨fun h => (by cases h), fun h => ?_⟩
        have := (hfound row).mp h.1.found
        rw [hfetch] at this
        cases this
      | ok row' =>
        dsimp only
        constructor
        · intro h
          split at h
          · cases h
          next hrevoked =>
          split at h
          · cases h
          next hexpired =>
          simp only [sessionPrincipal, Except.ok.injEq, Resolved.mk.injEq, Source.cookie.injEq] at h
          obtain ⟨rfl, rfl⟩ := h
          exact ⟨⟨(hfound row').mpr hfetch, by simpa using hrevoked, by simpa using hexpired⟩, rfl⟩
        · rintro ⟨hlive, rfl⟩
          have hrow := (hfound row).mp hlive.found
          rw [hfetch] at hrow
          obtain rfl := Except.ok.inj hrow
          simp [hlive.unrevoked, hlive.unexpired, sessionPrincipal]

/-- Without a bearer token, a mutation's principal is of a live session whose token was presented. -/
theorem resolvePrincipalForMutation_cookie {p : Principal} {row : SessionRow} (hmutates : method.mutates = true)
    (hbearer : bearerToken headers = none) (h : resolvePrincipalForMutation X s headers method = .ok ⟨p, .cookie row⟩) :
    CsrfAccepted headers row ∧ LiveSession X s headers row := by
  simp only [resolvePrincipalForMutation, hmutates, hbearer, Bool.not_true, Bool.false_eq_true, if_false, Option.isSome_none] at h
  split at h
  · cases h
  next token hcookie =>
  split at h
  · cases h
  next presented hpresented =>
  split at h
  · cases h
  next row' hfetch =>
  split at h
  · cases h
  next hrevoked =>
  split at h
  · cases h
  next hexpired =>
  split at h
  · cases h
  next hcsrf =>
  simp only [sessionPrincipal, Except.ok.injEq, Resolved.mk.injEq, Source.cookie.injEq] at h
  obtain ⟨-, rfl⟩ := h
  exact ⟨⟨presented, hpresented, by simpa using hcsrf⟩, ⟨token, hcookie, hfetch⟩, by simpa using hrevoked, by simpa using hexpired⟩

/-- **Mutations by cookie are guarded** unless a bearer token is ignored beside a cookie without its CSRF token. -/
theorem csrfGuarded_iff (X : AuthCrates) (s : SessionState) (headers : HeaderMap) (method : HttpMethod)
    (hmutates : method.mutates = true) : CsrfGuarded X s headers method ↔ ¬ BearerIgnored X s headers := by
  constructor
  · rintro hguarded ⟨hbearer, hsecret, row, hlive, hcsrf⟩
    have hresolved : resolvePrincipalForMutation X s headers method = .ok (sessionPrincipal X row) := by
      rw [resolvePrincipalForMutation, hmutates, hbearer]
      exact resolvePrincipal_cookie.mpr ⟨fun _ => hsecret, hlive, rfl⟩
    exact hcsrf (hguarded _ row hresolved).1
  · intro hignored p row h
    cases hbearer : bearerToken headers with
    | none => exact resolvePrincipalForMutation_cookie hmutates hbearer h
    | some bearer =>
      rw [resolvePrincipalForMutation, hmutates, hbearer] at h
      obtain ⟨hsecret, hlive, -⟩ := resolvePrincipal_cookie.mp h
      refine ⟨?_, hlive⟩
      by_contra hcsrf
      have hsome : (bearerToken headers).isSome = true := by rw [hbearer, Option.isSome_some]
      exact hignored ⟨hsome, hsecret hsome, row, hlive, hcsrf⟩

/-! ### A cookie beside a bearer token -/

/-- The crates at the time of the request. -/
def AuthCrates.june : AuthCrates :=
  { AuthCrates.sample with parseRfc3339 := fun iso => if iso = "2030-01-01T00:00:00Z" then some 1893456000 else none }

def ownerRow : SessionRow := ⟨⟨"ws_a", "csrf-secret", "2030-01-01T00:00:00Z", none⟩, "act_owner"⟩

/-- A server without a secret and with one session, that of the cookie value `tok`. -/
def ownerSession : SessionState := ⟨none, fun hash => if hash = hashToken .june "tok" then some ownerRow else none, none⟩

def cookieHeaders : HeaderMap := [("cookie", some "actantdb_session=tok")]

def bearerAndCookieHeaders : HeaderMap := ("authorization", some "Bearer x") :: cookieHeaders

theorem liveSession_owner : LiveSession .june ownerSession bearerAndCookieHeaders ownerRow := by
  refine ⟨⟨"tok", by decide +kernel, ?_⟩, rfl, by decide +kernel⟩
  simp only [fetchSession, ownerSession, if_true]

/-- A `POST` with some bearer token and the cookie, and without a CSRF token. -/
theorem bearerAndCookie_unguarded : ¬ CsrfGuarded .june ownerSession bearerAndCookieHeaders .post := by
  intro hguarded
  have hresolved : resolvePrincipalForMutation .june ownerSession bearerAndCookieHeaders .post = .ok (sessionPrincipal .june ownerRow) := by
    have hbearer : (bearerToken bearerAndCookieHeaders).isSome = true := by decide +kernel
    rw [resolvePrincipalForMutation, hbearer]
    exact resolvePrincipal_cookie.mpr ⟨fun _ => rfl, liveSession_owner, rfl⟩
  obtain ⟨presented, hpresented, -⟩ := (hguarded _ _ hresolved).1
  have hnone : csrfHeader bearerAndCookieHeaders = none := by decide +kernel
  rw [hnone] at hpresented
  cases hpresented

/-- The cookie alone is guarded. -/
theorem csrfGuarded_iff_cookie : CsrfGuarded .june ownerSession cookieHeaders .post :=
  (csrfGuarded_iff .june ownerSession cookieHeaders .post rfl).mpr fun hignored => by
    have hnone : bearerToken cookieHeaders = none := by decide +kernel
    rw [BearerIgnored, hnone] at hignored
    cases hignored.1

end ActantDb.Server
