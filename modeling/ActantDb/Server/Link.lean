import Mathlib.Logic.Function.Basic
import ActantDb.Core.Hash
import ActantDb.Lib.Run

/-!
# Linking codes

A workspace gets its owner by the redemption of a linking code. Codes are minted in three statements that each commit on their own, and a redemption reads the row of its code, checks it, and then runs one transaction; any number of both are in flight. What holds in between is kept by the transaction alone: it inserts the owner where there is none and marks a code that is not claimed, and no statement takes either back. So a code and a workspace are each redeemed once (`claimed_once`).
-/

namespace ActantDb

namespace Server

namespace Link

/-! ### Codes -/

/-- What the code takes from crates. -/
structure LinkCrates extends Crates where
  /-- `OffsetDateTime::from_unix_timestamp` and `format`. -/
  formatRfc3339 : Int → Option String
  /-- `OffsetDateTime::parse`, as a Unix timestamp. -/
  parseRfc3339 : String → Option Int

def alphabet : List Char := "abcdefghjkmnpqrstuvwxyz23456789".toList

def codeLen : Nat := 12

def linkTtlSecs : Int := 15 * 60

def sessionTtlSecs : Int := 30 * 24 * 3600

def normalizeCode (presented : String) : List Char := (presented.toList.filter Char.isAlphanum).map Char.toLower

def hashCode (X : LinkCrates) (presented : String) : String :=
  sha256Hex X.toCrates (asBytes (String.ofList (normalizeCode presented)))

def verifyLinkCode (X : LinkCrates) (storedHash presented : String) : Bool := hashCode X presented = storedHash

def isAllowedChar (c : Char) : Bool := alphabet.contains c.toLower

def validateShape (presented : String) : Except String Unit :=
  let norm := normalizeCode presented
  if norm.length ≠ codeLen then
    .error ("linking code must be " ++ toString codeLen ++ " characters (got " ++ toString norm.length ++ ")")
  else
    match norm.find? fun c => !isAllowedChar c with
    | some c => .error ("linking code contains disallowed character '" ++ c.toString ++ "'")
    | none => .ok ()

/-! ### The tables -/

structure WorkspaceOwner where
  ownerActorId : String
  passwordHash : Option String
  passwordSetAt : Option String
  createdAt : String
deriving DecidableEq, Repr

structure LinkCodeRow where
  workspaceId : String
  expiresAt : String
  claimedAt : Option String
  claimedByActorId : Option String
  createdAt : String
deriving DecidableEq, Repr

structure SessionRow where
  ownerActorId : String
  workspaceId : String
  csrfSecret : String
  createdAt : String
  expiresAt : String
  revokedAt : Option String
deriving DecidableEq, Repr

/-- `workspace_owner`, `link_code` and `session_token`, by their keys. -/
structure Db where
  workspaceOwner : String → Option WorkspaceOwner
  linkCode : String → Option LinkCodeRow
  sessionToken : String → Option SessionRow

/-! ### Time -/

section Time

variable (X : LinkCrates) (now : Int)

/-- `text` is what `now_rfc3339` gives. -/
def unixToIso (text : String) (unix : Int) : String := (X.formatRfc3339 unix).getD text

def isPast (iso : String) : Bool :=
  match X.parseRfc3339 iso with
  | some t => t < now
  | none => true

end Time

/-! ### Minting -/

/-- `DELETE FROM link_code WHERE workspace_id = ? AND claimed_at IS NULL`. -/
def Db.deleteUnclaimed (db : Db) (workspaceId : String) : Db :=
  { db with linkCode := fun codeHash =>
      (db.linkCode codeHash).filter fun row => !(row.workspaceId = workspaceId && row.claimedAt.isNone) }

/-- Fails where the key is taken. -/
def Db.insertCode (db : Db) (codeHash : String) (row : LinkCodeRow) : Except String Db :=
  if db.linkCode codeHash = none then
    .ok { db with linkCode := Function.update db.linkCode codeHash (some row) }
  else .error "UNIQUE constraint failed: link_code.code_hash"

/-- How far a call of `mint_link_code_for` is. -/
inductive Mint where
  | selected (workspaceId : String)
  | deleted (workspaceId : String)
  | owned
  | minted (codeHash : String)
  | failed (message : String)
deriving DecidableEq, Repr

/-! ### Redeeming -/

structure LinkRequest where
  code : String
  workspaceId : Option String
deriving DecidableEq, Repr

inductive Refusal where
  | rateLimited
  | invalidCode
  | alreadyClaimed
  | expired
  | alreadyOwned
  | storage (message : String)
deriving DecidableEq, Repr

namespace Refusal

def status : Refusal → Nat
  | .rateLimited => 429
  | .invalidCode => 404
  | .alreadyClaimed | .alreadyOwned => 409
  | .expired => 410
  | .storage _ => 500

/-- The body, but for those of the rate limit and of a failed query. -/
def body : Refusal → Option (String × String)
  | .invalidCode => some ("invalid_code", "the linking code is not valid")
  | .alreadyClaimed => some ("already_claimed", "this linking code has already been used")
  | .expired => some ("expired", "this linking code has expired")
  | .alreadyOwned => some ("already_owned", "workspace ownership has already been claimed")
  | .rateLimited | .storage _ => none

end Refusal

structure SessionToken where
  tokenHash : String
  csrfSecret : String
deriving DecidableEq, Repr

/-- The row of a code as a request has read it, and when. -/
structure Fetched where
  codeHash : String
  row : LinkCodeRow
  readAt : Int
deriving DecidableEq, Repr

/-- How far a request to `/v1/auth/link` is. -/
inductive Redeem where
  | fetched (f : Fetched) (req : LinkRequest)
  | accepted (f : Fetched)
  | linked (f : Fetched) (csrf : String)
  | refused (r : Refusal)
deriving DecidableEq, Repr

def ownerActorId : String := "act_system"

section Redeem

variable (X : LinkCrates) (now : Int)

/-- Up to the row of the code. `limited` and `fault` are whether the request is over the rate, and the query fails. -/
def redeemRead (db : Db) (req : LinkRequest) (limited : Bool) (fault : Option String) : Except Refusal Fetched :=
  if limited then .error .rateLimited
  else
    match validateShape req.code with
    | .error _ => .error .invalidCode
    | .ok () =>
      match fault with
      | some message => .error (.storage message)
      | none =>
        match db.linkCode (hashCode X req.code) with
        | none => .error .invalidCode
        | some row => .ok ⟨hashCode X req.code, row, now⟩

/-- The checks of the row that was read. -/
def redeemCheck (f : Fetched) (req : LinkRequest) : Except Refusal Unit :=
  if f.row.claimedAt.isSome then .error .alreadyClaimed
  else if isPast X now f.row.expiresAt then .error .expired
  else if req.workspaceId.any fun provided => provided ≠ "" && provided ≠ f.row.workspaceId then .error .invalidCode
  else if !verifyLinkCode X f.codeHash req.code then .error .invalidCode
  else .ok ()

/-- The transaction; `fault` is any statement of it that fails otherwise, or its commit. -/
def redeemTransact (db : Db) (f : Fetched) (session : SessionToken) (text : String) (fault : Option String) : Except Refusal Db :=
  match fault with
  | some message => .error (.storage message)
  | none =>
    if db.workspaceOwner f.row.workspaceId ≠ none then .error .alreadyOwned
    else
      match (db.linkCode f.codeHash).filter fun row => row.claimedAt.isNone with
      | none => .error .alreadyClaimed
      | some row =>
        if db.sessionToken session.tokenHash ≠ none then
          .error (.storage "UNIQUE constraint failed: session_token.token_hash")
        else
          .ok {
            workspaceOwner := Function.update db.workspaceOwner f.row.workspaceId (some ⟨ownerActorId, none, none, text⟩)
            linkCode := Function.update db.linkCode f.codeHash
              (some { row with claimedAt := some text, claimedByActorId := some ownerActorId })
            sessionToken := Function.update db.sessionToken session.tokenHash
              (some ⟨ownerActorId, f.row.workspaceId, session.csrfSecret, text, unixToIso X text (now + sessionTtlSecs), none⟩) }

end Redeem

/-! ### The server -/

/-- The database, the clock, and the calls and requests by a number each. -/
structure State where
  db : Db
  now : Int
  mints : Nat → Option Mint
  redeems : Nat → Option Redeem

def State.start (db : Db) (now : Int) : State := ⟨db, now, fun _ => none, fun _ => none⟩

/-- What happens next. What is random, the text of `now_rfc3339`, and whether a statement fails are part of it. -/
inductive Event where
  | tick (seconds : Nat)
  | mintSelect (i : Nat) (workspaceId : String) (fault : Option String)
  | mintDelete (i : Nat) (fault : Option String)
  | mintInsert (i : Nat) (codeHash text : String) (fault : Option String)
  | redeemRead (i : Nat) (req : LinkRequest) (limited : Bool) (fault : Option String)
  | redeemCheck (i : Nat)
  | redeemTransact (i : Nat) (session : SessionToken) (text : String) (fault : Option String)
deriving DecidableEq, Repr

namespace State

def setMint (s : State) (i : Nat) (m : Mint) : State := { s with mints := Function.update s.mints i (some m) }

def setRedeem (s : State) (i : Nat) (r : Redeem) : State := { s with redeems := Function.update s.redeems i (some r) }

@[simp] theorem setMint_db {s : State} {i : Nat} {m : Mint} : (s.setMint i m).db = s.db := rfl

@[simp] theorem setMint_now {s : State} {i : Nat} {m : Mint} : (s.setMint i m).now = s.now := rfl

@[simp] theorem setMint_redeems {s : State} {i : Nat} {m : Mint} : (s.setMint i m).redeems = s.redeems := rfl

@[simp] theorem setRedeem_db {s : State} {i : Nat} {r : Redeem} : (s.setRedeem i r).db = s.db := rfl

@[simp] theorem setRedeem_now {s : State} {i : Nat} {r : Redeem} : (s.setRedeem i r).now = s.now := rfl

end State

def step (X : LinkCrates) (s : State) : Event → State
  | .tick seconds => { s with now := s.now + seconds }
  | .mintSelect i workspaceId fault =>
    if s.mints i = none then
      match fault with
      | some message => s.setMint i (.failed message)
      | none => s.setMint i (if s.db.workspaceOwner workspaceId = none then .selected workspaceId else .owned)
    else s
  | .mintDelete i fault =>
    match s.mints i with
    | some (.selected workspaceId) =>
      match fault with
      | some message => s.setMint i (.failed message)
      | none => { s with db := s.db.deleteUnclaimed workspaceId }.setMint i (.deleted workspaceId)
    | _ => s
  | .mintInsert i codeHash text fault =>
    match s.mints i with
    | some (.deleted workspaceId) =>
      match fault with
      | some message => s.setMint i (.failed message)
      | none =>
        match s.db.insertCode codeHash ⟨workspaceId, unixToIso X text (s.now + linkTtlSecs), none, none, text⟩ with
        | .ok db => { s with db := db }.setMint i (.minted codeHash)
        | .error message => s.setMint i (.failed message)
    | _ => s
  | .redeemRead i req limited fault =>
    if s.redeems i = none then
      match redeemRead X s.now s.db req limited fault with
      | .ok f => s.setRedeem i (.fetched f req)
      | .error r => s.setRedeem i (.refused r)
    else s
  | .redeemCheck i =>
    match s.redeems i with
    | some (.fetched f req) =>
      match redeemCheck X s.now f req with
      | .ok () => s.setRedeem i (.accepted f)
      | .error r => s.setRedeem i (.refused r)
    | _ => s
  | .redeemTransact i session text fault =>
    match s.redeems i with
    | some (.accepted f) =>
      match redeemTransact X s.now s.db f session text fault with
      | .ok db => { s with db := db }.setRedeem i (.linked f session.csrfSecret)
      | .error r => s.setRedeem i (.refused r)
    | _ => s

/-! ### What no statement takes back -/

/-- Owners stay, and so do claimed codes. -/
structure Db.Kept (db db' : Db) : Prop where
  owner : ∀ {workspaceId o}, db.workspaceOwner workspaceId = some o → db'.workspaceOwner workspaceId = some o
  claimed : ∀ {codeHash row}, db.linkCode codeHash = some row → row.claimedAt ≠ none → db'.linkCode codeHash = some row

namespace Db.Kept

variable {db db' db'' : Db}

theorem refl (db : Db) : db.Kept db := ⟨id, fun h _ => h⟩

theorem trans (h : db.Kept db') (h' : db'.Kept db'') : db.Kept db'' :=
  ⟨fun howner => h'.owner (h.owner howner), fun hrow hclaimed => h'.claimed (h.claimed hrow hclaimed) hclaimed⟩

theorem deleteUnclaimed (workspaceId : String) : db.Kept (db.deleteUnclaimed workspaceId) where
  owner h := h
  claimed {codeHash row} hrow hclaimed := by
    have hstays : (!(decide (row.workspaceId = workspaceId) && row.claimedAt.isNone)) = true := by
      cases hat : row.claimedAt with
      | none => exact absurd hat hclaimed
      | some at' => simp
    rw [Db.deleteUnclaimed]
    dsimp only
    rw [hrow, Option.filter_some, if_pos hstays]

theorem insertCode {codeHash : String} {row : LinkCodeRow} (h : db.insertCode codeHash row = .ok db') : db.Kept db' := by
  rw [Db.insertCode] at h
  split at h
  · rename_i hfree
    cases h
    refine ⟨id, fun {codeHash' row'} hrow' _ => ?_⟩
    have hne : codeHash' ≠ codeHash := by
      rintro rfl
      rw [hfree] at hrow'
      cases hrow'
    exact (Function.update_of_ne hne _ _).trans hrow'
  · cases h

end Db.Kept

/-- The code has been redeemed. -/
def Db.Claimed (db : Db) (codeHash : String) : Prop := ∃ row, db.linkCode codeHash = some row ∧ row.claimedAt ≠ none

def Db.Owned (db : Db) (workspaceId : String) : Prop := ∃ o, db.workspaceOwner workspaceId = some o

theorem Db.Kept.claims {db db' : Db} {codeHash : String} (h : db.Kept db') (hclaimed : db.Claimed codeHash) : db'.Claimed codeHash := by
  obtain ⟨row, hrow, hat⟩ := hclaimed
  exact ⟨row, h.claimed hrow hat, hat⟩

theorem Db.Kept.owns {db db' : Db} {workspaceId : String} (h : db.Kept db') (howned : db.Owned workspaceId) : db'.Owned workspaceId := by
  obtain ⟨o, ho⟩ := howned
  exact ⟨o, h.owner ho⟩

/-- A transaction that commits found the workspace without an owner and the code not claimed, and changed that. -/
theorem redeemTransact_ok {X : LinkCrates} {now : Int} {db db' : Db} {f : Fetched} {session : SessionToken} {text : String}
    {fault : Option String} (h : redeemTransact X now db f session text fault = .ok db') :
    db.Kept db' ∧ ¬ db.Owned f.row.workspaceId ∧ ¬ db.Claimed f.codeHash ∧
      db'.Owned f.row.workspaceId ∧ db'.Claimed f.codeHash := by
  unfold redeemTransact at h
  split at h
  · cases h
  split at h
  · cases h
  rename_i hfree
  rw [ne_eq, not_not] at hfree
  split at h
  · cases h
  rename_i row hfound
  rw [Option.filter_eq_some_iff] at hfound
  obtain ⟨hrow, hopen⟩ := hfound
  split at h
  · cases h
  cases h
  have hunclaimed : row.claimedAt = none := Option.isNone_iff_eq_none.mp hopen
  refine ⟨⟨fun {workspaceId o} ho => ?_, fun {codeHash row'} hrow' hclaimed => ?_⟩, ?_, ?_, ?_, ?_⟩
  · have hne : workspaceId ≠ f.row.workspaceId := by
      rintro rfl
      rw [hfree] at ho
      cases ho
    exact (Function.update_of_ne hne _ _).trans ho
  · have hne : codeHash ≠ f.codeHash := by
      rintro rfl
      rw [hrow, Option.some.injEq] at hrow'
      subst hrow'
      exact hclaimed hunclaimed
    exact (Function.update_of_ne hne _ _).trans hrow'
  · rintro ⟨o, ho⟩
    rw [hfree] at ho
    cases ho
  · rintro ⟨row', hrow', hclaimed⟩
    rw [hrow, Option.some.injEq] at hrow'
    subst hrow'
    exact hclaimed hunclaimed
  · exact ⟨_, Function.update_self _ _ _⟩
  · exact ⟨_, Function.update_self _ _ _, Option.some_ne_none _⟩

/-- Every statement keeps owners and claimed codes. -/
theorem step_kept (X : LinkCrates) (s : State) (e : Event) : s.db.Kept (step X s e).db := by
  cases e with
  | tick seconds => exact .refl _
  | mintSelect i workspaceId fault =>
    simp only [step]
    split
    · cases fault <;> exact .refl _
    · exact .refl _
  | mintDelete i fault =>
    simp only [step]
    split
    · cases fault with
      | none => exact .deleteUnclaimed _
      | some message => exact .refl _
    · exact .refl _
  | mintInsert i codeHash text fault =>
    simp only [step]
    split
    · cases fault with
      | none =>
        dsimp only
        split
        · rename_i db hinsert
          exact .insertCode hinsert
        · exact .refl _
      | some message => exact .refl _
    · exact .refl _
  | redeemRead i req limited fault =>
    simp only [step]
    split
    · split <;> exact .refl _
    · exact .refl _
  | redeemCheck i =>
    simp only [step]
    split
    · split <;> exact .refl _
    · exact .refl _
  | redeemTransact i session text fault =>
    simp only [step]
    split
    · split
      · rename_i db hcommit
        exact (redeemTransact_ok hcommit).1
      · exact .refl _
    · exact .refl _

theorem run_kept (X : LinkCrates) (s : State) (events : List Event) : s.db.Kept (Lts.run (step X) s events).db :=
  Lts.run_rel (fun _ => True) (fun a b => a.db.Kept b.db) (fun a => .refl a.db) (fun _ _ _ h h' => h.trans h')
    (fun s e _ _ => ⟨trivial, step_kept X s e⟩) trivial (Lts.everyStep_true events)

/-! ### The requests -/

/-- The row was read before the code expired. -/
def Fetched.InTime (X : LinkCrates) (f : Fetched) : Prop := ∃ t, X.parseRfc3339 f.row.expiresAt = some t ∧ f.readAt ≤ t

/-- What the checks let through was read in time. -/
theorem redeemCheck_ok {X : LinkCrates} {now : Int} {f : Fetched} {req : LinkRequest} (hread : f.readAt ≤ now)
    (h : redeemCheck X now f req = .ok ()) : f.InTime X := by
  unfold redeemCheck at h
  split at h
  · cases h
  split at h
  · cases h
  rename_i hpast
  rw [isPast] at hpast
  cases hparse : X.parseRfc3339 f.row.expiresAt with
  | none =>
    rw [hparse] at hpast
    exact absurd rfl hpast
  | some t =>
    rw [hparse] at hpast
    have hle : ¬ t < now := by simpa using hpast
    exact ⟨t, hparse, by omega⟩

theorem redeemRead_ok {X : LinkCrates} {now : Int} {db : Db} {req : LinkRequest} {limited : Bool} {fault : Option String} {f : Fetched}
    (h : redeemRead X now db req limited fault = .ok f) : f.readAt = now := by
  unfold redeemRead at h
  split at h
  · cases h
  split at h
  · cases h
  split at h
  · cases h
  split at h
  · cases h
  · cases h
    rfl

/-- What is known of a request by how far it is. -/
def Redeem.Good (X : LinkCrates) (db : Db) (now : Int) : Redeem → Prop
  | .fetched f _ => f.readAt ≤ now
  | .accepted f => f.InTime X
  | .linked f _ => f.InTime X ∧ db.Owned f.row.workspaceId ∧ db.Claimed f.codeHash
  | .refused _ => True

theorem Redeem.Good.mono {X : LinkCrates} {db db' : Db} {now now' : Int} {r : Redeem} (h : r.Good X db now) (hdb : db.Kept db')
    (hnow : now ≤ now') : r.Good X db' now' := by
  cases r with
  | fetched f req => exact le_trans h hnow
  | accepted f => exact h
  | linked f csrf => exact ⟨h.1, hdb.owns h.2.1, hdb.claims h.2.2⟩
  | refused r => trivial

structure Inv (X : LinkCrates) (s : State) : Prop where
  good : ∀ {i r}, s.redeems i = some r → r.Good X s.db s.now
  code : ∀ {i j f g c d}, s.redeems i = some (.linked f c) → s.redeems j = some (.linked g d) → f.codeHash = g.codeHash → i = j
  workspace : ∀ {i j f g c d}, s.redeems i = some (.linked f c) → s.redeems j = some (.linked g d) →
    f.row.workspaceId = g.row.workspaceId → i = j

namespace Inv

variable {X : LinkCrates} {s s' : State}

/-- A step that leaves the requests alone. -/
theorem same (h : Inv X s) (hredeems : s'.redeems = s.redeems) (hdb : s.db.Kept s'.db) (hnow : s.now ≤ s'.now) : Inv X s' where
  good hi := (h.good (hredeems ▸ hi)).mono hdb hnow
  code hi hj := h.code (hredeems ▸ hi) (hredeems ▸ hj)
  workspace hi hj := h.workspace (hredeems ▸ hi) (hredeems ▸ hj)

/-- A step of one request: where it is linked by it, its code and its workspace are those of no request that was linked before. -/
theorem setRedeem {db : Db} {i : Nat} {r : Redeem} (h : Inv X s) (hdb : s.db.Kept db) (hgood : r.Good X db s.now)
    (hnew : ∀ f c, r = .linked f c → ¬ s.db.Owned f.row.workspaceId ∧ ¬ s.db.Claimed f.codeHash) :
    Inv X ({ s with db := db }.setRedeem i r) := by
  have hcases : ∀ {j r'}, ({ s with db := db }.setRedeem i r).redeems j = some r' → j = i ∧ r' = r ∨ j ≠ i ∧ s.redeems j = some r' := by
    intro j r' hj
    have hat : Function.update s.redeems i (some r) j = some r' := hj
    by_cases hji : j = i
    · subst hji
      rw [Function.update_self, Option.some.injEq] at hat
      exact Or.inl ⟨rfl, hat.symm⟩
    · rw [Function.update_of_ne hji] at hat
      exact Or.inr ⟨hji, hat⟩
  constructor
  · intro j r' hj
    rcases hcases hj with ⟨rfl, rfl⟩ | ⟨-, hold⟩
    · exact hgood
    · exact (h.good hold).mono hdb le_rfl
  · intro j k f g c d hj hk hsame
    rcases hcases hj with ⟨rfl, hr⟩ | ⟨-, hold⟩ <;> rcases hcases hk with ⟨rfl, hr'⟩ | ⟨-, hold'⟩
    · rfl
    · exact absurd (hsame ▸ (h.good hold').2.2) (hnew f c hr.symm).2
    · exact absurd (hsame ▸ (h.good hold).2.2) (hnew g d hr'.symm).2
    · exact h.code hold hold' hsame
  · intro j k f g c d hj hk hsame
    rcases hcases hj with ⟨rfl, hr⟩ | ⟨-, hold⟩ <;> rcases hcases hk with ⟨rfl, hr'⟩ | ⟨-, hold'⟩
    · rfl
    · exact absurd (hsame ▸ (h.good hold').2.1) (hnew f c hr.symm).1
    · exact absurd (hsame ▸ (h.good hold).2.1) (hnew g d hr'.symm).1
    · exact h.workspace hold hold' hsame

/-- One that does not link it. -/
theorem setUnlinked {i : Nat} {r : Redeem} (h : Inv X s) (hgood : r.Good X s.db s.now) (hr : ∀ f c, r ≠ .linked f c) :
    Inv X (s.setRedeem i r) :=
  setRedeem h (.refl _) hgood fun f c heq => absurd heq (hr f c)

theorem step (h : Inv X s) (e : Event) : Inv X (step X s e) := by
  have hkept := step_kept X s e
  cases e with
  | tick seconds => exact h.same rfl hkept (Int.le_add_of_nonneg_right (Int.natCast_nonneg _))
  | mintSelect i workspaceId fault =>
    refine h.same ?_ hkept ?_ <;> simp only [Link.step] <;> split <;> (try split) <;> simp
  | mintDelete i fault =>
    refine h.same ?_ hkept ?_ <;> simp only [Link.step] <;> split <;> (try split) <;> simp
  | mintInsert i codeHash text fault =>
    refine h.same ?_ hkept ?_ <;> simp only [Link.step] <;> split <;> (try split) <;> (try split) <;> simp
  | redeemRead i req limited fault =>
    simp only [Link.step]
    split
    · split
      · rename_i f hread
        exact h.setUnlinked (le_of_eq (redeemRead_ok hread)) fun _ _ => by simp
      · exact h.setUnlinked trivial fun _ _ => by simp
    · exact h
  | redeemCheck i =>
    simp only [Link.step]
    split
    · rename_i f req hi
      split
      · rename_i hcheck
        exact h.setUnlinked (redeemCheck_ok (h.good hi) hcheck) fun _ _ => by simp
      · exact h.setUnlinked trivial fun _ _ => by simp
    · exact h
  | redeemTransact i session text fault =>
    simp only [Link.step]
    split
    · rename_i f hi
      split
      · rename_i db hcommit
        obtain ⟨hdb, hfree, hopen, howned, hclaimed⟩ := redeemTransact_ok hcommit
        refine h.setRedeem hdb ⟨h.good hi, howned, hclaimed⟩ fun g c heq => ?_
        cases heq
        exact ⟨hfree, hopen⟩
      · exact h.setUnlinked trivial fun _ _ => by simp
    · exact h

theorem run (h : Inv X s) (events : List Event) : Inv X (Lts.run (Link.step X) s events) :=
  Lts.run_invariant (P := fun _ _ => True) (Inv X) (fun _ e h _ => h.step e) h (Lts.everyStep_true events)

theorem start (db : Db) (now : Int) : Inv X (.start db now) where
  good hi := by cases hi
  code hi := by cases hi
  workspace hi := by cases hi

end Inv

/-- What the requests of a run have been told. -/
structure ClaimedOnce (X : LinkCrates) (s : State) : Prop where
  inTime : ∀ {i f c}, s.redeems i = some (.linked f c) → f.InTime X
  owned : ∀ {i f c}, s.redeems i = some (.linked f c) → s.db.Owned f.row.workspaceId
  code : ∀ {i j f g c d}, s.redeems i = some (.linked f c) → s.redeems j = some (.linked g d) → f.codeHash = g.codeHash → i = j
  workspace : ∀ {i j f g c d}, s.redeems i = some (.linked f c) → s.redeems j = some (.linked g d) →
    f.row.workspaceId = g.row.workspaceId → i = j

/-- **A workspace is claimed once**, whatever codes are minted and redeemed in between. -/
theorem claimed_once (X : LinkCrates) (db : Db) (now : Int) (events : List Event) :
    ClaimedOnce X (Lts.run (step X) (.start db now) events) ∧
      ∀ pre post, events = pre ++ post → ∀ workspaceId o, (Lts.run (step X) (.start db now) pre).db.workspaceOwner workspaceId = some o →
        (Lts.run (step X) (.start db now) events).db.workspaceOwner workspaceId = some o := by
  have hinv := (Inv.start (X := X) db now).run events
  refine ⟨⟨fun hi => (hinv.good hi).1, fun hi => (hinv.good hi).2.1, hinv.code, hinv.workspace⟩, ?_⟩
  rintro pre post rfl workspaceId o ho
  rw [Lts.run_append]
  exact (run_kept X _ post).owner ho

end Link

end Server

end ActantDb
