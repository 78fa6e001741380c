import ActantDb.Core.Hash

/-!
# Who a request is from

A request is authorised by a bearer token or by a session cookie, the token first: with a token that is refused the cookie is not looked at. Either is of one workspace, so a request has at most one workspace that `enforce_auth` accepts it for (`enforceAuth_iff_credential`), and then it carries a token or a session that is valid there (`carries_of_credential`).
-/

namespace ActantDb

namespace Server

/-! ### The request -/

/-- Its headers, their names in lower case; a value that is not visible ASCII has no text. -/
abbrev HeaderMap := List (String × Option String)

def containsKey (headers : HeaderMap) (name : String) : Bool := headers.any (·.1 = name)

/-- `get` and `to_str`. -/
def headerText (headers : HeaderMap) (name : String) : Option String :=
  (headers.find? (·.1 = name)).bind (·.2)

inductive HttpMethod where
  | get | head | options | post | put | patch | delete
  | extension (name : String)
deriving DecidableEq, Repr

def HttpMethod.mutates : HttpMethod → Bool
  | .get | .head | .options => false
  | _ => true

/-- `strip_prefix`. -/
def stripPrefix (pre s : String) : Option String := (s.toList.dropPrefix? pre.toList).map (String.ofList ·)

def bearerToken (headers : HeaderMap) : Option String :=
  (headerText headers "authorization").bind (stripPrefix "Bearer ")

def cookieName : String := "actantdb_session"

def extractSessionCookie (headers : HeaderMap) : Option String :=
  (headerText headers "cookie").bind fun raw =>
    (raw.toList.splitOn ';').findSome? fun piece =>
      (stripPrefix (cookieName ++ "=") (String.ofList (trim piece))).filter (· ≠ "")

def csrfHeader (headers : HeaderMap) : Option String := headerText headers "x-csrf-token"

/-! ### The server -/

structure Claims where
  sub : String
  iss : String
  roles : List String
  iat : Int
  exp : Int
deriving DecidableEq, Repr

/-- What the server takes from crates, and the time of the request in seconds. -/
structure AuthCrates extends Crates where
  /-- `base64::URL_SAFE_NO_PAD.decode`. -/
  decode : String → Option (List UInt8)
  /-- `HmacSha256`, of a key and a message. -/
  hmac : List UInt8 → List UInt8 → List UInt8
  /-- `serde_json::from_slice`. -/
  claims : List UInt8 → Option Claims
  /-- `OffsetDateTime::parse`, as a Unix timestamp. -/
  parseRfc3339 : String → Option Int
  now : Int

structure SessionAuthRow where
  workspaceId : String
  csrfSecret : String
  expiresAt : String
  revokedAt : Option String

/-- What `enforce_auth` reads of the state; `session_token` has its rows by their key, and a query of it may fail. -/
structure AuthState where
  localMode : Bool
  trustProxy : Bool
  authSecret : Option (List UInt8)
  sessionToken : String → Option SessionAuthRow
  fault : Option String

inductive AuthError where
  | reverseProxyDetected
  | bearerNotConfigured
  | bearerMismatch (iss workspaceId : String)
  | invalidToken
  | revoked
  | invalidSessionExpiry
  | expired
  | sessionMismatch (sessionWorkspace workspaceId : String)
  | csrfRequired
  | csrfMismatch
  | missingAuthorization
  | invalidSession
  | storage (message : String)
deriving DecidableEq, Repr

namespace AuthError

def status : AuthError → Nat
  | .reverseProxyDetected | .bearerMismatch .. | .sessionMismatch .. | .csrfRequired | .csrfMismatch => 403
  | .storage _ => 500
  | _ => 401

/-- The body, but for that of a failed query. -/
def body : AuthError → List (String × String)
  | .reverseProxyDetected =>
    [("error", "reverse_proxy_detected"),
      ("message", "the server is in local-mode but received a forwarded proxy header; pass --trust-proxy to honor it or bind non-loopback to enable full auth")]
  | .bearerNotConfigured => [("error", "bearer_not_configured")]
  | .bearerMismatch iss workspaceId =>
    [("error", "workspace_mismatch"), ("iss", iss), ("workspace_id", workspaceId)]
  | .invalidToken => [("error", "invalid_token")]
  | .revoked => [("error", "revoked")]
  | .invalidSessionExpiry => [("error", "invalid_session_expiry")]
  | .expired => [("error", "expired")]
  | .sessionMismatch sessionWorkspace workspaceId =>
    [("error", "workspace_mismatch"), ("session_workspace", sessionWorkspace), ("workspace_id", workspaceId)]
  | .csrfRequired =>
    [("error", "csrf_required"), ("message", "X-CSRF-Token header is required for mutating routes")]
  | .csrfMismatch => [("error", "csrf_mismatch"), ("message", "X-CSRF-Token does not match session")]
  | .missingAuthorization => [("error", "missing_authorization")]
  | .invalidSession => [("error", "invalid_session")]
  | .storage message => [("error", "storage"), ("message", message)]

end AuthError

variable (X : AuthCrates) (s : AuthState) (headers : HeaderMap) (method : HttpMethod) (workspaceId : String)

/-- `actant_auth::verify`, any error being `none`. -/
def verify (token : String) (secret : List UInt8) : Option Claims :=
  match token.toList.splitOn '.' with
  | [header, payload, signature] => do
    let sig ← X.decode (String.ofList signature)
    guard (sig = X.hmac secret (asBytes (String.ofList header ++ "." ++ String.ofList payload)))
    let claimsJson ← X.decode (String.ofList payload)
    let claims ← X.claims claimsJson
    guard (X.now ≤ claims.exp)
    return claims
  | _ => none

def hashToken (plaintext : String) : String := sha256Hex X.toCrates (asBytes plaintext)

/-- A comparison in constant time. -/
def verifyCsrf (storedSecret presented : String) : Bool := storedSecret = presented

def enforceLocalAuthBypass : Except AuthError Bool :=
  if !s.localMode || s.authSecret.isSome then .ok false
  else
    let proxied := containsKey headers "x-forwarded-for" || containsKey headers "forwarded" ||
      containsKey headers "x-real-ip"
    if proxied && !s.trustProxy then .error .reverseProxyDetected else .ok true

def enforceBearerAuth : Option (Except AuthError Unit) :=
  (bearerToken headers).map fun token =>
    match s.authSecret with
    | none => .error .bearerNotConfigured
    | some secret =>
      match verify X token secret with
      | some claims => if claims.iss = workspaceId then .ok () else .error (.bearerMismatch claims.iss workspaceId)
      | none => .error .invalidToken

def validateSessionAuth (row : SessionAuthRow) : Except AuthError Unit :=
  if row.revokedAt.isSome then .error .revoked
  else
    match X.parseRfc3339 row.expiresAt with
    | none => .error .invalidSessionExpiry
    | some exp =>
      if exp < X.now then .error .expired
      else if row.workspaceId ≠ workspaceId then .error (.sessionMismatch row.workspaceId workspaceId)
      else if method.mutates then
        match csrfHeader headers with
        | none => .error .csrfRequired
        | some presented => if verifyCsrf row.csrfSecret presented then .ok () else .error .csrfMismatch
      else .ok ()

def enforceMissingAuth : Except AuthError Unit :=
  if s.authSecret.isSome then .error .missingAuthorization else .ok ()

def fetchSessionAuth (tokenHash : String) : Except AuthError (Option SessionAuthRow) :=
  match s.fault with
  | some message => .error (.storage message)
  | none => .ok (s.sessionToken tokenHash)

def enforceAuth : Except AuthError Unit :=
  match enforceLocalAuthBypass s headers with
  | .error e => .error e
  | .ok true => .ok ()
  | .ok false =>
    match enforceBearerAuth X s headers workspaceId with
    | some result => result
    | none =>
      match extractSessionCookie headers with
      | none => enforceMissingAuth s
      | some plain =>
        match fetchSessionAuth s (hashToken X plain) with
        | .error e => .error e
        | .ok none => .error .invalidSession
        | .ok (some row) => validateSessionAuth X headers method workspaceId row

/-! ### What a request carries -/

/-- A session that is neither revoked nor expired, with the matching CSRF token where the method mutates. -/
structure Live (row : SessionAuthRow) : Prop where
  unrevoked : row.revokedAt = none
  unexpired : ∃ exp, X.parseRfc3339 row.expiresAt = some exp ∧ X.now ≤ exp
  csrf : method.mutates = true → csrfHeader headers = some row.csrfSecret

/-- A bearer token that is valid for the workspace, or the cookie of a live session of it. -/
inductive Carries (X : AuthCrates) (s : AuthState) (headers : HeaderMap) (method : HttpMethod) (workspaceId : String) : Prop
  | bearer {token : String} {secret : List UInt8} {claims : Claims} (htoken : bearerToken headers = some token)
      (hsecret : s.authSecret = some secret) (hverify : verify X token secret = some claims) (hiss : claims.iss = workspaceId)
  | session {plain : String} {row : SessionAuthRow} (hcookie : extractSessionCookie headers = some plain)
      (hrow : s.sessionToken (hashToken X plain) = some row) (hlive : Live X headers method row)
      (hworkspace : row.workspaceId = workspaceId)

instance decidableLive (row : SessionAuthRow) : Decidable (Live X headers method row) :=
  decidable_of_iff
    (row.revokedAt = none ∧ (X.parseRfc3339 row.expiresAt).any (fun exp => decide (X.now ≤ exp)) = true ∧
      (method.mutates = true → csrfHeader headers = some row.csrfSecret))
    ⟨fun h => ⟨h.1, by simpa [Option.any_eq_true] using h.2.1, h.2.2⟩,
      fun h => ⟨h.1, by simpa [Option.any_eq_true] using h.2, h.3⟩⟩

/-- The workspace that a guarded server lets the request in to. -/
def credential : Option String :=
  match bearerToken headers with
  | some token => s.authSecret.bind fun secret => (verify X token secret).map Claims.iss
  | none =>
    (extractSessionCookie headers).bind fun plain =>
      match fetchSessionAuth s (hashToken X plain) with
      | .error _ => none
      | .ok row => (row.filter fun row => decide (Live X headers method row)).map SessionAuthRow.workspaceId

variable {X s headers method workspaceId}

theorem validateSessionAuth_iff {row : SessionAuthRow} :
    validateSessionAuth X headers method workspaceId row = .ok () ↔
      Live X headers method row ∧ row.workspaceId = workspaceId := by
  rw [validateSessionAuth]
  constructor
  · intro h
    split at h
    · cases h
    rename_i hrevoked
    split at h
    · cases h
    rename_i exp hexp
    split at h
    · cases h
    rename_i hexpired
    split at h
    · cases h
    rename_i hworkspace
    refine ⟨⟨by simpa using hrevoked, ⟨exp, hexp, not_lt.mp hexpired⟩, fun hmutates => ?_⟩, not_not.mp hworkspace⟩
    rw [if_pos hmutates] at h
    split at h
    · cases h
    rename_i presented hpresented
    split at h
    · rename_i hcsrf
      rw [verifyCsrf, decide_eq_true_eq] at hcsrf
      rw [hpresented, hcsrf]
    · cases h
  · rintro ⟨⟨hunrevoked, ⟨exp, hexp, hunexpired⟩, hcsrf⟩, hworkspace⟩
    rw [hunrevoked, hexp]
    simp only [Option.isSome_none, Bool.false_eq_true, if_false, if_neg (not_lt.mpr hunexpired), hworkspace, ne_eq,
      not_true_eq_false]
    split
    · rename_i hmutates
      rw [hcsrf hmutates]
      simp [verifyCsrf]
    · rfl

/-- **With a secret configured, the request is let in to the workspace of its credential and no other.** -/
theorem enforceAuth_iff_credential (hsecret : s.authSecret.isSome = true) :
    enforceAuth X s headers method workspaceId = .ok () ↔ credential X s headers method = some workspaceId := by
  have hguarded : enforceLocalAuthBypass s headers = .ok false := by
    rw [enforceLocalAuthBypass, hsecret, Bool.or_true, if_pos rfl]
  rw [enforceAuth, hguarded, credential]
  dsimp only
  rw [enforceBearerAuth]
  cases bearerToken headers with
  | some token =>
    obtain ⟨secret, hsome⟩ := Option.isSome_iff_exists.mp hsecret
    rw [hsome, Option.map_some]
    dsimp only
    rw [Option.bind_some]
    cases verify X token secret with
    | none => simp
    | some claims =>
      rw [Option.map_some, Option.some.injEq]
      dsimp only
      split <;> simp_all
  | none =>
    rw [Option.map_none]
    dsimp only
    cases extractSessionCookie headers with
    | none => simp [enforceMissingAuth, hsecret]
    | some plain =>
      rw [Option.bind_some]
      dsimp only
      cases fetchSessionAuth s (hashToken X plain) with
      | error e => simp
      | ok found =>
        cases found with
        | none => simp
        | some row =>
          dsimp only
          rw [validateSessionAuth_iff]
          simp only [Option.map_eq_some_iff, Option.filter_eq_some_iff, Option.some.injEq, decide_eq_true_eq]
          constructor
          · rintro ⟨hlive, hworkspace⟩
            exact ⟨row, ⟨rfl, hlive⟩, hworkspace⟩
          · rintro ⟨row', ⟨rfl, hlive⟩, hworkspace⟩
            exact ⟨hlive, hworkspace⟩

/-- The credential that lets a request in is one that it carries. -/
theorem carries_of_credential (h : credential X s headers method = some workspaceId) :
    Carries X s headers method workspaceId := by
  rw [credential] at h
  cases htoken : bearerToken headers with
  | some token =>
    rw [htoken] at h
    obtain ⟨secret, hsecret, hclaims⟩ := Option.bind_eq_some_iff.mp h
    obtain ⟨claims, hverify, hiss⟩ := Option.map_eq_some_iff.mp hclaims
    exact .bearer htoken hsecret hverify hiss
  | none =>
    rw [htoken] at h
    obtain ⟨plain, hcookie, hfound⟩ := Option.bind_eq_some_iff.mp h
    rw [fetchSessionAuth] at hfound
    cases hfault : s.fault with
    | some message =>
      rw [hfault] at hfound
      cases hfound
    | none =>
      rw [hfault] at hfound
      obtain ⟨row, hrow, hworkspace⟩ := Option.map_eq_some_iff.mp hfound
      obtain ⟨hfetched, hlive⟩ := Option.filter_eq_some_iff.mp hrow
      exact .session hcookie hfetched (of_decide_eq_true hlive) hworkspace

/-! ### For sample requests -/

/-- The claims of a token of `ws_a`, and the token signed with `secret`. -/
def sampleClaims : Claims := ⟨"act_1", "ws_a", [], 1700000000, 1800000000⟩

def samplePayload : String :=
  "eyJzdWIiOiJhY3RfMSIsImlzcyI6IndzX2EiLCJyb2xlcyI6W10sImlhdCI6MTcwMDAwMDAwMCwiZXhwIjoxODAwMDAwMDAwfQ"

def sampleSigningInput : String := "eyJhbGciOiJIUzI1NiIsInR5cCI6IkpXVCJ9." ++ samplePayload

def sampleSignature : String := "QLXTcErxZe6z54Pa_sR_HLWlsDYcNW1NKPnGP7wsdJc"

def sampleMac : List UInt8 :=
  [64, 181, 211, 112, 74, 241, 101, 238, 179, 231, 131, 218, 254, 196, 127, 28, 181, 165, 176, 54, 28, 53, 109, 77, 40,
    249, 198, 63, 188, 44, 116, 151]

def sampleClaimsJson : List UInt8 :=
  asBytes "\x7b\"sub\":\"act_1\",\"iss\":\"ws_a\",\"roles\":[],\"iat\":1700000000,\"exp\":1800000000\x7d"

/-- The crates on the sample token. -/
def AuthCrates.sample : AuthCrates where
  toCrates := .sample
  decode text :=
    if text = samplePayload then some sampleClaimsJson
    else if text = sampleSignature then some sampleMac
    else none
  hmac key message := if key = asBytes "secret" ∧ message = asBytes sampleSigningInput then sampleMac else []
  claims bytes := if bytes = sampleClaimsJson then some sampleClaims else none
  parseRfc3339 _ := none
  now := 1750000000

def AuthState.sample : AuthState := ⟨false, false, some (asBytes "secret"), fun _ => none, none⟩

def sampleHeaders : HeaderMap := [("authorization", some ("Bearer " ++ sampleSigningInput ++ "." ++ sampleSignature))]

/-- The token is for `ws_a`, whatever the method. -/
theorem sampleHeaders_credential (method : HttpMethod) :
    credential .sample .sample sampleHeaders method = some "ws_a" := by
  have htoken : bearerToken sampleHeaders = some (sampleSigningInput ++ "." ++ sampleSignature) := by
    decide +kernel
  have hverify : verify .sample (sampleSigningInput ++ "." ++ sampleSignature) (asBytes "secret") =
      some sampleClaims := by
    decide +kernel
  have hsecret : AuthState.sample.authSecret = some (asBytes "secret") := rfl
  rw [credential, htoken]
  dsimp only
  rw [hsecret, Option.bind_some, hverify, Option.map_some, sampleClaims]

end Server

end ActantDb
