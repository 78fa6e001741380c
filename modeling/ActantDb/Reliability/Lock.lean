import ActantDb.Core.Ids
import ActantDb.Core.Time
import ActantDb.Lib.Run
import Mathlib.Logic.Function.Basic

/-!
# Locks

A lock is a row of the table `lock`. To acquire one takes two statements, a deletion of the rows of the workspace that have expired and an insertion that fails where the resource has a row; what has expired is decided by comparing texts. The text of an instant with a fraction of a second sorts before that of the whole second, so that a lease can be deleted before it has expired; then the resource is locked twice.
-/

namespace ActantDb

/-! ### Instants -/

/-- The civil date of any day counted from the epoch. -/
def civilDate (days : Int) : Int × Nat × Nat :=
  -- thirty eras of four hundred years ahead
  let date := OffsetDateTime.civil (days + 30 * 146097).toNat
  (date.1 - 12000, date.2)

/-- The RFC 3339 text of an instant in nanoseconds since the epoch; there is none outside of the years 0 to 9999. -/
def rfc3339 (nanos : Int) : Option String :=
  let seconds := nanos / 10 ^ 9
  let date := civilDate (seconds / 86400)
  let time := (seconds % 86400).toNat
  if 0 ≤ date.1 ∧ date.1 ≤ 9999 then
    some <| String.ofList <|
      OffsetDateTime.digits 4 date.1.toNat ++ '-' :: OffsetDateTime.digits 2 date.2.1 ++ '-' ::
        OffsetDateTime.digits 2 date.2.2 ++ 'T' :: OffsetDateTime.digits 2 (time / 3600) ++ ':' ::
        OffsetDateTime.digits 2 (time / 60 % 60) ++ ':' :: OffsetDateTime.digits 2 (time % 60) ++
        OffsetDateTime.subsecond (nanos % 10 ^ 9).toNat ++ ['Z']
  else none

example : rfc3339 (-1500000000) = some "1969-12-31T23:59:58.5Z" := by decide

/-! ### The table and the calls -/

structure LockRow where
  id : String
  workspaceId : WorkspaceId
  resourceKey : String
  ownerActorId : ActorId
  expiresAt : String
  createdAt : String

/-- A call of `acquire` once it has read the clock. -/
structure Acquire where
  row : LockRow
  now : String
  -- the instant of `row.expiresAt`
  expires : Int

/-- The statement that a call is at. -/
inductive Acquiring where
  | idle
  | delete (call : Acquire)
  | insert (call : Acquire)

/-- A lease that a call has returned. -/
structure LockState.Lease where
  id : String
  workspaceId : WorkspaceId
  resourceKey : String
  owner : ActorId
  expires : Int
  expiresAt : String
  released : Bool

variable {ι : Type}

structure LockState (ι : Type) where
  clock : Int
  lock : List LockRow
  calls : ι → Acquiring
  /-- What has been granted, the last lease first. -/
  leases : List LockState.Lease

inductive LockLabel (ι : Type) where
  | tick (nanos : Nat)
  | acquire (i : ι) (workspace : WorkspaceId) (owner : ActorId) (resourceKey : String) (leaseSeconds : Int) (id : String)
  -- the next statement of the call; it may fail
  | advance (i : ι) (ok : Bool)
  | release (lockId : String) (ok : Bool)

/-- The start of `acquire`, up to its first statement. Where an instant cannot be formatted the call panics. -/
def beginAcquire (now : Int) (workspace : WorkspaceId) (owner : ActorId) (resourceKey : String) (leaseSeconds : Int)
    (id : String) : Acquiring :=
  let expires := now + leaseSeconds * 10 ^ 9
  match rfc3339 expires, rfc3339 now with
  | some expiresAt, some now => .delete ⟨⟨id, workspace, resourceKey, owner, expiresAt, now⟩, now, expires⟩
  | _, _ => .idle

/-- `DELETE FROM lock WHERE workspace_id = ? AND expires_at < ?`. -/
def deleteExpired (lock : List LockRow) (workspace : WorkspaceId) (now : String) : List LockRow :=
  lock.filter fun r => ¬ (r.workspaceId = workspace ∧ r.expiresAt < now)

/-- The `INSERT` into `lock`, whose rows differ in `id` and in `(workspace_id, resource_key)`. -/
def insertLock (lock : List LockRow) (row : LockRow) : Option (List LockRow) :=
  if lock.any fun r => r.id = row.id || (r.workspaceId = row.workspaceId && r.resourceKey = row.resourceKey) then none
  else some (row :: lock)

namespace LockState

variable [DecidableEq ι]

def step (s : LockState ι) : LockLabel ι → LockState ι
  | .tick nanos => { s with clock := s.clock + nanos }
  | .acquire i workspace owner resourceKey leaseSeconds id =>
    match s.calls i with
    | .idle =>
      { s with calls := Function.update s.calls i (beginAcquire s.clock workspace owner resourceKey leaseSeconds id) }
    | _ => s
  | .advance i ok =>
    match s.calls i with
    | .idle => s
    | .delete call =>
      if ok then
        { s with
          lock := deleteExpired s.lock call.row.workspaceId call.now
          calls := Function.update s.calls i (.insert call) }
      else { s with calls := Function.update s.calls i .idle }
    | .insert call =>
      let s := { s with calls := Function.update s.calls i .idle }
      match if ok then insertLock s.lock call.row else none with
      | some lock =>
        { s with
          lock
          leases := ⟨call.row.id, call.row.workspaceId, call.row.resourceKey, call.row.ownerActorId, call.expires,
            call.row.expiresAt, false⟩ :: s.leases }
      | none => s
  | .release lockId ok =>
    if ok then
      { s with
        lock := s.lock.filter fun r => r.id ≠ lockId
        leases := s.leases.map fun l => if l.id = lockId then { l with released := true } else l }
    else s

def start (clock : Int) : LockState ι := ⟨clock, [], fun _ => .idle, []⟩

/-- The lease has not been released, and its expiry is still in the future. -/
def Live (s : LockState ι) (l : Lease) : Prop := l.released = false ∧ s.clock < l.expires

def SameLock (l m : Lease) : Prop := l.workspaceId = m.workspaceId ∧ l.resourceKey = m.resourceKey

/-- No resource has two leases in force. -/
def Exclusive (s : LockState ι) : Prop := s.leases.Pairwise fun l m => SameLock l m → ¬ (s.Live l ∧ s.Live m)

/-- The deletion takes no lease in force for one that has expired: none has a text that sorts before that of the instant the call has read. -/
def DeletesExpired (s : LockState ι) : LockLabel ι → Prop
  | .advance i true =>
    match s.calls i with
    | .delete call => ∀ l ∈ s.leases, s.Live l → l.workspaceId = call.row.workspaceId → ¬ l.expiresAt < call.now
    | _ => True
  | _ => True

/-! ### What every step keeps -/

/-- Each lease in force has its row, and no two of one lock are in force. -/
structure LockInv (s : LockState ι) : Prop where
  row : ∀ l ∈ s.leases, s.Live l → ∃ r ∈ s.lock,
    r.id = l.id ∧ r.workspaceId = l.workspaceId ∧ r.resourceKey = l.resourceKey ∧ r.expiresAt = l.expiresAt
  exclusive : s.Exclusive

section Step

omit [DecidableEq ι]

variable {s : LockState ι}

theorem insertLock_eq {lock lock' : List LockRow} {row : LockRow} (h : insertLock lock row = some lock') :
    lock' = row :: lock ∧
      ∀ r ∈ lock, ¬ (r.workspaceId = row.workspaceId ∧ r.resourceKey = row.resourceKey) := by
  rw [insertLock] at h
  split at h
  · cases h
  · rename_i hnew
    refine ⟨(Option.some.inj h).symm, fun r hr hsame => hnew ?_⟩
    rw [List.any_eq_true]
    exact ⟨r, hr, by simp [hsame]⟩

/-- With the clock further on, fewer leases are in force. -/
theorem LockInv.later {t : LockState ι} (h : LockInv s) (hclock : s.clock ≤ t.clock) (hlock : t.lock = s.lock)
    (hleases : t.leases = s.leases) : LockInv t := by
  have hlive : ∀ l, t.Live l → s.Live l := fun l hl => ⟨hl.1, lt_of_le_of_lt hclock hl.2⟩
  constructor
  · intro l hl hforce
    rw [hlock]
    exact h.row l (hleases ▸ hl) (hlive l hforce)
  · rw [Exclusive, hleases]
    exact h.exclusive.imp fun hpair hsame hboth => hpair hsame ⟨hlive _ hboth.1, hlive _ hboth.2⟩

/-- Where a row can be inserted, no lease on its lock is in force. -/
theorem LockInv.free (h : LockInv s) {row : LockRow} {lock : List LockRow} (hinsert : insertLock s.lock row = some lock)
    {l : Lease} (hl : l ∈ s.leases) (hsame : row.workspaceId = l.workspaceId ∧ row.resourceKey = l.resourceKey) :
    ¬ s.Live l := by
  intro hforce
  obtain ⟨r, hr, -, hworkspace, hkey, -⟩ := h.row l hl hforce
  exact (insertLock_eq hinsert).2 r hr ⟨hworkspace.trans hsame.1.symm, hkey.trans hsame.2.symm⟩

/-- A deletion that takes no lease in force for expired. -/
theorem LockInv.delete (h : LockInv s) {workspace : WorkspaceId} {now : String} (calls : ι → Acquiring)
    (hkept : ∀ l ∈ s.leases, s.Live l → l.workspaceId = workspace → ¬ l.expiresAt < now) :
    LockInv { s with lock := deleteExpired s.lock workspace now, calls } := by
  refine ⟨fun l hl hforce => ?_, h.exclusive⟩
  obtain ⟨r, hr, hid, hworkspace, hkey, hexpires⟩ := h.row l hl hforce
  refine ⟨r, List.mem_filter.mpr ⟨hr, ?_⟩, hid, hworkspace, hkey, hexpires⟩
  rw [decide_eq_true_eq, hworkspace, hexpires]
  exact fun hgone => hkept l hl hforce hgone.1 hgone.2

theorem LockInv.insert (h : LockInv s) {row : LockRow} {lock : List LockRow} {expires : Int} (calls : ι → Acquiring)
    (hinsert : insertLock s.lock row = some lock) :
    LockInv { s with
      lock, calls
      leases := ⟨row.id, row.workspaceId, row.resourceKey, row.ownerActorId, expires, row.expiresAt, false⟩ ::
        s.leases } := by
  constructor
  · intro l hl hforce
    rw [(insertLock_eq hinsert).1]
    obtain rfl | hold := List.mem_cons.mp hl
    · exact ⟨row, List.mem_cons_self, rfl, rfl, rfl, rfl⟩
    · obtain ⟨r, hr, hsame⟩ := h.row l hold hforce
      exact ⟨r, List.mem_cons_of_mem _ hr, hsame⟩
  · refine List.pairwise_cons.mpr ⟨fun l hl hsame hboth => ?_, h.exclusive⟩
    exact h.free hinsert hl hsame hboth.2

theorem LockInv.release (h : LockInv s) (lockId : String) :
    LockInv { s with
      lock := s.lock.filter fun r => r.id ≠ lockId
      leases := s.leases.map fun l => if l.id = lockId then { l with released := true } else l } := by
  -- a lease that is in force afterwards is another one, and was before
  have hother (l : Lease) (hforce : s.Live (if l.id = lockId then { l with released := true } else l)) :
      l.id ≠ lockId ∧ s.Live l := by
    by_cases hid : l.id = lockId
    · rw [if_pos hid] at hforce
      cases hforce.1
    · exact ⟨hid, by rwa [if_neg hid] at hforce⟩
  constructor
  · intro l hl hforce
    obtain ⟨m, hm, rfl⟩ := List.mem_map.mp hl
    obtain ⟨hid, hlive⟩ := hother m hforce
    obtain ⟨r, hr, hsame⟩ := h.row m hm hlive
    rw [if_neg hid]
    exact ⟨r, List.mem_filter.mpr ⟨hr, by simpa [hsame.1] using hid⟩, hsame⟩
  · refine List.pairwise_map.mpr (h.exclusive.imp fun {l m} hpair hsame hboth => ?_)
    obtain ⟨hl, hlive⟩ := hother l hboth.1
    obtain ⟨hm, hlive'⟩ := hother m hboth.2
    rw [if_neg hl, if_neg hm] at hsame
    exact hpair hsame ⟨hlive, hlive'⟩

end Step

section Run

variable {s : LockState ι}

/-- **One step.** -/
theorem LockInv.step (h : LockInv s) (label : LockLabel ι) (hdelete : s.DeletesExpired label) :
    LockInv (s.step label) := by
  cases label with
  | tick nanos => exact h.later (by simp [LockState.step]) rfl rfl
  | acquire i workspace owner resourceKey leaseSeconds id =>
    rw [LockState.step]
    split
    · exact h.later (le_refl _) rfl rfl
    · exact h
  | advance i ok =>
    rw [LockState.step]
    split
    · exact h
    · rename_i call hcall
      split
      · rename_i hok
        subst hok
        rw [DeletesExpired, hcall] at hdelete
        exact h.delete _ hdelete
      · exact h.later (le_refl _) rfl rfl
    · rename_i call hcall
      dsimp only
      split
      · rename_i lock hinsert
        cases ok with
        | false => cases hinsert
        | true => exact h.insert _ hinsert
      · exact h.later (le_refl _) rfl rfl
  | release lockId ok =>
    rw [LockState.step]
    split
    · exact h.release lockId
    · exact h

/-- A lease is granted where none on its lock is in force. -/
theorem LockInv.granted (h : LockInv s) {label : LockLabel ι} {new : Lease}
    (hnew : (s.step label).leases = new :: s.leases) : ∀ l ∈ s.leases, SameLock new l → ¬ s.Live l := by
  have hlength := congrArg List.length hnew
  intro l hl hsame
  cases label with
  | tick nanos => simp [LockState.step] at hlength
  | acquire i workspace owner resourceKey leaseSeconds id =>
    rw [LockState.step] at hlength
    split at hlength <;> simp at hlength
  | advance i ok =>
    rw [LockState.step] at hnew hlength
    cases hcall : s.calls i with
    | idle => simp [hcall] at hlength
    | delete call =>
      rw [hcall] at hlength
      dsimp only at hlength
      split at hlength <;> simp at hlength
    | insert call =>
      rw [hcall] at hnew hlength
      dsimp only at hnew hlength
      split at hnew
      · rename_i lock hinsert
        cases ok with
        | false => cases hinsert
        | true =>
          obtain ⟨rfl, -⟩ := List.cons.inj hnew
          exact h.free hinsert hl hsame
      · exact absurd (congrArg List.length hnew) (by simp)
  | release lockId ok =>
    rw [LockState.step] at hlength
    split at hlength <;> simp at hlength

omit [DecidableEq ι] in
theorem start_inv (clock : Int) : LockInv (start clock : LockState ι) where
  row l hl := by cases hl
  exclusive := List.Pairwise.nil

end Run

/-- **A resource is locked once**, and again only when its lease has expired or been released, as long as no deletion takes a lease in force for one that has expired. -/
theorem lock_exclusive {clock : Int} {ls : List (LockLabel ι)}
    (h : Lts.EveryStep step DeletesExpired (start clock) ls) :
    Lts.Always step Exclusive (start clock) ls ∧
      ∀ pre label post, ls = pre ++ label :: post → ∀ new,
        (Lts.run step (start clock) (pre ++ [label])).leases = new :: (Lts.run step (start clock) pre).leases →
        ∀ l ∈ (Lts.run step (start clock) pre).leases, SameLock new l → ¬ (Lts.run step (start clock) pre).Live l := by
  have hinv : Lts.Always step LockInv (start clock) ls :=
    Lts.always_of_invariant LockInv (fun s label hs hlabel => hs.step label hlabel) (start_inv clock) h
  refine ⟨fun pre post hsplit => (hinv pre post hsplit).exclusive, ?_⟩
  intro pre label post hsplit new hnew
  rw [Lts.run_append] at hnew
  exact (hinv pre (label :: post) hsplit).granted hnew

/-- Two actors, one resource, and a second request when the first lease is over, if need be by its release. -/
def handOver : List (LockLabel Bool) :=
  [.acquire true "ws" "a" "file" 1 "lk_1", .advance true true, .advance true true, .tick (2 * 10 ^ 9),
    .acquire false "ws" "b" "file" 1 "lk_2", .advance false true, .advance false true]

theorem lock_exclusive_handOver : Lts.Always step Exclusive (start 0) handOver := by
  have hdeletions : Lts.EveryStep step DeletesExpired (start 0) handOver := by
    simp only [handOver, Lts.everyStep_cons, Lts.everyStep_nil]
    refine ⟨trivial, ?_, trivial, trivial, trivial, ?_, trivial, trivial⟩
    · intro l hl
      cases hl
    · intro l hl hforce
      obtain rfl := List.mem_singleton.mp hl
      exact absurd hforce.2 (by decide)
  exact (lock_exclusive hdeletions).1

/-- The first lease expires at `00:00:01.5Z`, the second request is made half a second before. -/
def earlyRequest : List (LockLabel Bool) :=
  [.acquire true "ws" "a" "file" 1 "lk_1", .advance true true, .advance true true, .tick 500000000,
    .acquire false "ws" "b" "file" 1 "lk_2", .advance false true, .advance false true]

theorem locked_twice : ¬ Lts.Always step Exclusive (start 500000000) earlyRequest := by
  intro h
  have hpair := (List.pairwise_cons.mp (h earlyRequest [] rfl)).1 _ List.mem_cons_self ⟨rfl, rfl⟩
  exact hpair ⟨⟨rfl, by decide⟩, ⟨rfl, by decide⟩⟩

end LockState

end ActantDb
