import ActantDb.Effects.Exclusive

/-!
# Retries

An effect is to be tried as often as it may be before it counts as failed. The reaper keeps to that: it puts an effect back while there are attempts left and fails it otherwise. A worker's failure does not look at the attempts, and fails the effect at once.

So an effect fails after its last attempt alone in a run in which the workers' failures come on the last one and no reaper is late; there an expired lease before that gives the effect back with its claim released.
-/

namespace ActantDb

open Prog

variable {ι : Type}

/-! ### What is asked -/

def claimed (id : EffectId) (a : Answered ι Op Op.Res) : Bool :=
  match a with
  | ⟨_, .sql (.claimEffect id' _ _), .ok true⟩ => id' = id
  | _ => false

/-- How often the effect has been claimed in a run. -/
def claimsIn (id : EffectId) (trace : List (Answered ι Op Op.Res)) : Nat := trace.countP (claimed id)

/-- How often it had been before. -/
def Db.attemptsOf (db : Db) (id : EffectId) : Int := ((db.effect.find? id).map (·.attemptCount)).getD 0

/-- A failed effect has been claimed as often as it may be. -/
def FailsLast (before : Db) (c : QueuePool ι) : Prop :=
  ∀ e ∈ c.world.db.effect.rows, e.status = .failed → e.maxAttempts ≤ before.attemptsOf e.id + claimsIn e.id c.trace

instance (before : Db) (c : QueuePool ι) : Decidable (FailsLast before c) :=
  inferInstanceAs (Decidable (∀ e ∈ c.world.db.effect.rows, _ → _))

/-- The effect that an attempt ends of: its worker has failed it, or its lease has expired. -/
def Op.endsAttempt? : Op → Option EffectId
  | .sql (.failEffect id _ _) | .sql (.reclaimEffect id _) | .sql (.exhaustEffect id _) => some id
  | _ => none

/-- The effect is pending and nobody's. -/
structure PutBack (db : Db) (id : EffectId) : Prop where
  pending : ∀ e ∈ db.effect.rows, e.id = id → e.status = .pending ∧ e.assignedWorkerId = none
  released : ∀ c ∈ db.effectClaim.rows, c.effectId = id → c.releasedAt ≠ none

variable [DecidableEq ι]

/-- An attempt that is not the last ends with the effect put back. -/
def Retried (E : Env) (before : Db) (c : QueuePool ι) (i : ι) : Prop :=
  ∀ id, (c.next? i).bind Op.endsAttempt? = some id → ∀ e ∈ c.world.db.effect.rows, e.id = id →
    before.attemptsOf id + claimsIn id c.trace < e.maxAttempts → PutBack (Pool.step (handle E) c i).world.db id

/-- The expired claims that a call has listed last, and the effects whose attempts it has ended since. -/
structure Reaping where
  expired : List (EffectId × String × Int × Int)
  ended : List EffectId

/-- A new effect has not been tried, and an effect is failed by a reaper that has found no attempts left. -/
def retryMonitor : Monitor Op Op.Res Reaping where
  allowed l o :=
    match o with
    | .sql (.insertEffect e) => e.attemptCount = 0 ∧ e.status = .pending
    | .sql (.exhaustEffect id _) =>
      ∃ claim attempts maxAttempts, (id, claim, attempts, maxAttempts) ∈ l.expired ∧ maxAttempts ≤ attempts
    | _ => True
  next l o r :=
    match o, r with
    | .sql (.expiredClaims _), .ok rows => ⟨rows, []⟩
    | .sql (.reclaimEffect id _), .ok _ => { l with ended := id :: l.ended }
    | .sql (.exhaustEffect id _), .ok _ => { l with ended := id :: l.ended }
    | _, _ => l

def QueuePool.reaping (c : QueuePool ι) (i : ι) : Reaping := Pool.summary retryMonitor ⟨[], []⟩ i c.trace

/-- A reaper that returns has ended the attempts of all effects whose claims it listed. -/
def Reaping.Finished (l : Reaping) : Except ActantError QueueReply → Prop
  | .ok (.reaped _) => ∀ row ∈ l.expired, row.1 ∈ l.ended
  | _ => True

/-- What is asked of a step: a worker's failure finds no attempts left, and a reaper's update is not refused and finds the effect unclaimed since the reaper has listed it, or pending. -/
def RetriesFirst (E : Env) (c : QueuePool ι) (i : ι) : Prop :=
  match c.next? i with
  | some (.sql (.failEffect id _ _)) => Finds c.world.db id fun e => e.maxAttempts ≤ e.attemptCount
  | some (.sql (.reclaimEffect id _)) =>
    E.fault c.world.statements = false ∧
      (claimedSince id c.trace i = false ∨ Finds c.world.db id (·.status = .pending))
  | _ => True

/-- The effect an operation of a worker fails. -/
def Op.fails? : Op → Option EffectId
  | .sql (.failEffect id _ _) => some id
  | _ => none

theorem retriesFirst_iff {E : Env} {c : QueuePool ι} {i : ι} :
    RetriesFirst E c i ↔
      (∀ id ∈ (c.next? i).bind Op.fails?, Finds c.world.db id fun e => e.maxAttempts ≤ e.attemptCount) ∧
        ∀ id ∈ (c.next? i).bind Op.reclaims?,
          E.fault c.world.statements = false ∧
            (claimedSince id c.trace i = false ∨ Finds c.world.db id (·.status = .pending)) := by
  unfold RetriesFirst
  cases c.next? i with
  | none => simp
  | some o =>
    cases o with
    | sql s => cases s <;> simp [Op.fails?, Op.reclaims?]
    | _ => simp [Op.fails?, Op.reclaims?]

instance (E : Env) (c : QueuePool ι) (i : ι) : Decidable (RetriesFirst E c i) :=
  decidable_of_iff' _ retriesFirst_iff

/-- What a run may start from: effects that may be leased, and that have failed after their last attempt if at all. -/
structure Retryable (db : Db) : Prop where
  leasable : ∀ id, Leasable db id
  failed : ∀ e ∈ db.effect.rows, e.status = .failed → e.maxAttempts ≤ e.attemptCount

/-! ### The calls -/

omit [DecidableEq ι] in
theorem reapEach_retries {l : Reaping} (now : String) (reclaimed : Nat) {rows : List (EffectId × String × Int × Int)}
    (hrows : ∀ row ∈ rows, row ∈ l.expired) (hended : ∀ row ∈ l.expired, row ∈ rows ∨ row.1 ∈ l.ended) :
    Safe retryMonitor (fun l r => match r with
      | .ok _ => ∀ row ∈ l.expired, row.1 ∈ l.ended
      | .error _ => True) l (EffectQueue.reapEach now reclaimed rows) := by
  induction rows generalizing l reclaimed with
  | nil => exact fun row hrow => (hended row hrow).resolve_left fun h => nomatch h
  | cons row rest ih =>
    obtain ⟨effectId, claimId, attempts, maxAttempts⟩ := row
    have hmem : (effectId, claimId, attempts, maxAttempts) ∈ l.expired := hrows _ List.mem_cons_self
    have hrest : ∀ row ∈ rest, row ∈ l.expired := fun row hrow => hrows row (List.mem_cons_of_mem _ hrow)
    have hnext : ∀ row ∈ l.expired, row ∈ rest ∨ row.1 ∈ effectId :: l.ended := by
      intro row hrow
      rcases hended row hrow with hin | hin
      · rcases List.mem_cons.mp hin with rfl | hin
        · exact Or.inr List.mem_cons_self
        · exact Or.inl hin
      · exact Or.inr (List.mem_cons_of_mem _ hin)
    refine ⟨trivial, fun r => ?_⟩
    cases r with
    | error e => trivial
    | ok _ =>
      show Safe retryMonitor _ l
        (if attempts < maxAttempts then
          execute (.reclaimEffect effectId now) >>= fun _ => EffectQueue.reapEach now (reclaimed + 1) rest
        else execute (.exhaustEffect effectId now) >>= fun _ => EffectQueue.reapEach now (reclaimed + 1) rest)
      split
      · refine ⟨trivial, fun r => ?_⟩
        cases r with
        | error e => trivial
        | ok _ => exact ih (l := { l with ended := effectId :: l.ended }) _ hrest hnext
      · rename_i hlt
        refine ⟨⟨claimId, attempts, maxAttempts, hmem, not_lt.mp hlt⟩, fun r => ?_⟩
        cases r with
        | error e => trivial
        | ok _ => exact ih (l := { l with ended := effectId :: l.ended }) _ hrest hnext

omit [DecidableEq ι] in
theorem issue_retries (X : Crates) (worker : WorkerId) (call : QueueCall) :
    Safe retryMonitor Reaping.Finished ⟨[], []⟩ (call.issue X worker) := by
  cases call with
  | enqueue ws command requestedBy effectType input risk =>
    refine ⟨trivial, fun ulid => ⟨trivial, fun now => ⟨⟨rfl, rfl⟩, fun r => ?_⟩⟩⟩
    cases r <;> trivial
  | heartbeat inFlightCount =>
    refine ⟨trivial, fun now => ⟨trivial, fun r => ?_⟩⟩
    cases r with
    | error e => trivial
    | ok _ =>
      refine ⟨trivial, fun r => ?_⟩
      cases r <;> trivial
  | claimOne ws types =>
    show Safe retryMonitor _ ⟨[], []⟩ (EffectQueue.claimOne worker ws types >>= _)
    unfold EffectQueue.claimOne
    split
    · trivial
    refine ⟨trivial, fun r => ?_⟩
    cases r with
    | error e => trivial
    | ok found =>
      cases found with
      | none => trivial
      | some row =>
        obtain ⟨id, effectType, inputInline⟩ := row
        refine ⟨trivial, fun t => ⟨trivial, fun ulid => ⟨trivial, fun now => ⟨trivial, fun r => ?_⟩⟩⟩⟩
        cases r with
        | error e => trivial
        | ok claimed =>
          cases claimed with
          | false => trivial
          | true =>
            refine ⟨trivial, fun now => ⟨trivial, fun r => ?_⟩⟩
            cases r <;> trivial
  | start id =>
    refine ⟨trivial, fun r => ?_⟩
    cases r <;> trivial
  | complete id output =>
    refine ⟨trivial, fun now => ⟨trivial, fun r => ?_⟩⟩
    cases r with
    | error e => trivial
    | ok _ =>
      refine ⟨trivial, fun ulid => ⟨trivial, fun r => ?_⟩⟩
      cases r <;> trivial
  | fail id err =>
    refine ⟨trivial, fun now => ⟨trivial, fun r => ?_⟩⟩
    cases r <;> trivial
  | reapExpired =>
    refine ⟨trivial, fun now => ⟨trivial, fun r => ?_⟩⟩
    cases r with
    | error e => trivial
    | ok rows =>
      refine safe_bind ((reapEach_retries _ 0 (fun row hrow => hrow) fun row hrow => Or.inl hrow).mono fun l r h => ?_)
      cases r with
      | error e => trivial
      | ok n => exact h

/-! ### One statement -/

/-- What holds between any two statements, where `base` is what an effect had been claimed before. -/
structure RetryInv (base : EffectId → Int) (db : Db) (trace : List (Answered ι Op Op.Res)) (reaping : ι → Reaping) :
    Prop where
  counted : ∀ e ∈ db.effect, e.attemptCount = base e.id + claimsIn e.id trace
  fresh : ∀ id, db.effect.contains id = false → base id + claimsIn id trace = 0
  failed : ∀ e ∈ db.effect, e.status = .failed → e.maxAttempts ≤ e.attemptCount
  listed : ∀ i, ∀ row ∈ (reaping i).expired, db.effect.contains row.1 = true ∧
    ∀ e ∈ db.effect, e.id = row.1 → row.2.2.1 ≤ e.attemptCount ∧ e.maxAttempts = row.2.2.2

section Statement

variable {base : EffectId → Int} {db : Db} {trace : List (Answered ι Op Op.Res)} {reaping : ι → Reaping}
  {a : Answered ι Op Op.Res}

omit [DecidableEq ι] in
theorem claimsIn_append (id : EffectId) (trace : List (Answered ι Op Op.Res)) (a : Answered ι Op Op.Res) :
    claimsIn id (trace ++ [a]) = claimsIn id trace + if claimed id a then 1 else 0 := by
  rw [claimsIn, List.countP_append, List.countP_singleton, claimsIn]

omit [DecidableEq ι] in
theorem RetryInv.congr {db' : Db} {trace' : List (Answered ι Op Op.Res)} {reaping' : ι → Reaping}
    (h : RetryInv base db trace reaping) (heffect : db'.effect = db.effect)
    (htrace : ∀ id, claimsIn id trace' = claimsIn id trace)
    (hreaping : ∀ i, (reaping' i).expired = (reaping i).expired) : RetryInv base db' trace' reaping' := by
  obtain ⟨hcounted, hfresh, hfailed, hlisted⟩ := h
  constructor
  · intro e he
    rw [htrace]
    exact hcounted e (heffect ▸ he)
  · intro id hid
    rw [htrace]
    exact hfresh id (heffect ▸ hid)
  · rwa [heffect]
  · intro i row hrow
    rw [heffect]
    exact hlisted i row (hreaping i ▸ hrow)

omit [DecidableEq ι] in
/-- A statement that claims nothing is noted. -/
theorem RetryInv.note {trace' : List (Answered ι Op Op.Res)} {reaping' : ι → Reaping} (h : RetryInv base db trace reaping)
    (htrace : ∀ id, claimsIn id trace' = claimsIn id trace)
    (hreaping : ∀ i, (reaping' i).expired = (reaping i).expired) : RetryInv base db trace' reaping' :=
  h.congr rfl htrace hreaping

omit [DecidableEq ι] in
/-- An update that leaves the attempts alone, and fails an effect only after its last one. -/
theorem RetryInv.updateEffect {p : Effect → Bool} {f : Effect → Effect} {hf : ∀ e, (f e).id = e.id}
    (h : RetryInv base db trace reaping)
    (hcount : ∀ e ∈ db.effect, p e = true → (f e).attemptCount = e.attemptCount ∧ (f e).maxAttempts = e.maxAttempts)
    (hfailed : ∀ e ∈ db.effect, p e = true → (f e).status = .failed → e.maxAttempts ≤ e.attemptCount) :
    RetryInv base { db with effect := db.effect.update p f hf } trace reaping := by
  constructor
  · intro e' he'
    obtain ⟨e, he, ⟨hp, rfl⟩ | ⟨-, rfl⟩⟩ := mem_updateEffects he'
    · rw [hf, (hcount e he hp).1]
      exact h.counted e he
    · exact h.counted _ he
  · exact fun id hid => h.fresh id ((contains_updateEffects id).symm.trans hid)
  · intro e' he' hstatus
    obtain ⟨e, he, ⟨hp, rfl⟩ | ⟨-, rfl⟩⟩ := mem_updateEffects he'
    · rw [(hcount e he hp).1, (hcount e he hp).2]
      exact hfailed e he hp hstatus
    · exact h.failed _ he hstatus
  · intro i row hrow
    obtain ⟨hcontains, hsame⟩ := h.listed i row hrow
    refine ⟨(contains_updateEffects _).trans hcontains, fun e' he' hid => ?_⟩
    obtain ⟨e, he, ⟨hp, rfl⟩ | ⟨-, rfl⟩⟩ := mem_updateEffects he'
    · rw [hf] at hid
      rw [(hcount e he hp).1, (hcount e he hp).2]
      exact hsame e he hid
    · exact hsame _ he hid

omit [DecidableEq ι] in
theorem RetryInv.insertEffect (h : RetryInv base db trace reaping) {e : Effect} {t : Table Effect.id}
    (hins : db.effect.insert? e = some t) (hnew : e.attemptCount = 0 ∧ e.status = .pending) :
    RetryInv base { db with effect := t } trace reaping := by
  have hmem : ∀ e', e' ∈ t → e' ∈ db.effect ∨ e' = e := fun e' => (Table.mem_insert? hins).mp
  have hfresh : db.effect.contains e.id = false := (Table.insert?_eq_some.mp hins).1
  constructor
  · intro e' he'
    rcases hmem e' he' with hold | rfl
    · exact h.counted e' hold
    · rw [hnew.1, h.fresh _ hfresh]
  · intro id hid
    refine h.fresh id ?_
    rw [Table.contains_insert? hins, Bool.or_eq_false_iff] at hid
    exact hid.1
  · intro e' he' hstatus
    rcases hmem e' he' with hold | rfl
    · exact h.failed e' hold hstatus
    · rw [hnew.2] at hstatus
      cases hstatus
  · intro i row hrow
    obtain ⟨hcontains, hsame⟩ := h.listed i row hrow
    refine ⟨by rw [Table.contains_insert? hins, hcontains]; rfl, fun e' he' hid => ?_⟩
    rcases hmem e' he' with hold | rfl
    · exact hsame e' hold hid
    · rw [← hid, hfresh] at hcontains
      cases hcontains

omit [DecidableEq ι] in
/-- The effect is claimed once more, having been pending. -/
theorem RetryInv.claimEffect (h : RetryInv base db trace reaping) {id : EffectId} (worker : WorkerId) (now : String)
    (hany : (db.effect.rows.any fun e => e.id = id && e.status = .pending) = true)
    (hclaims : ∀ id', claimed id' a = decide (id = id')) :
    RetryInv base
      { db with
        effect := db.effect.update (fun e => e.id = id && e.status = .pending) (·.claim worker now) fun _ => rfl }
      (trace ++ [a]) reaping := by
  obtain ⟨e₀, he₀, hp₀⟩ := List.any_eq_true.mp hany
  rw [Bool.and_eq_true, decide_eq_true_eq, decide_eq_true_eq] at hp₀
  have hcontains : db.effect.contains id = true := Table.contains_iff.mpr ⟨e₀, he₀, hp₀.1⟩
  constructor
  · intro e' he'
    rw [claimsIn_append, hclaims]
    obtain ⟨e, he, ⟨hp, rfl⟩ | ⟨hp, rfl⟩⟩ := mem_updateEffects he'
    · rw [Bool.and_eq_true, decide_eq_true_eq] at hp
      have hcount := h.counted e he
      show e.attemptCount + 1 = base e.id + ((claimsIn e.id trace + if decide (id = e.id) = true then 1 else 0 : Nat) : Int)
      rw [if_pos (decide_eq_true hp.1.symm), hcount]
      omega
    · have hother : ¬ id = e'.id := by
        rintro rfl
        have hsame : e' = e₀ := Table.eq_of_key_eq he he₀ hp₀.1.symm
        rw [hsame, hp₀.2] at hp
        simp at hp
      rw [if_neg (by rw [decide_eq_true_eq]; exact hother), Nat.add_zero]
      exact h.counted e' he
  · intro id' hid'
    replace hid' : db.effect.contains id' = false := (contains_updateEffects id').symm.trans hid'
    have hother : ¬ id = id' := by
      rintro rfl
      rw [hcontains] at hid'
      cases hid'
    rw [claimsIn_append, hclaims, if_neg (by rw [decide_eq_true_eq]; exact hother), Nat.add_zero]
    exact h.fresh id' hid'
  · intro e' he' hstatus
    obtain ⟨e, he, ⟨-, rfl⟩ | ⟨-, rfl⟩⟩ := mem_updateEffects he'
    · cases hstatus
    · exact h.failed _ he hstatus
  · intro i row hrow
    obtain ⟨hknown, hsame⟩ := h.listed i row hrow
    refine ⟨(contains_updateEffects _).trans hknown, fun e' he' hid => ?_⟩
    obtain ⟨e, he, ⟨-, rfl⟩ | ⟨-, rfl⟩⟩ := mem_updateEffects he'
    · obtain ⟨hle, hmax⟩ := hsame e he hid
      exact ⟨le_trans hle (Int.le_add_one (le_refl _)), hmax⟩
    · exact hsame _ he hid

/-- The expired claims are listed, with the attempts that their effects have now. -/
theorem RetryInv.expiredClaims (h : RetryInv base db trace reaping) (i : ι) (now : String) :
    RetryInv base db trace (Function.update reaping i ⟨db.expired now, []⟩) := by
  refine ⟨h.counted, h.fresh, h.failed, fun j row hrow => ?_⟩
  by_cases hji : j = i
  · subst hji
    rw [Function.update_self] at hrow
    obtain ⟨c, -, e, he, -, -, hid, -, rfl⟩ := Db.mem_expired hrow
    refine ⟨Table.contains_iff.mpr ⟨e, he, hid⟩, fun e' he' hid' => ?_⟩
    rw [Table.eq_of_key_eq he' he (hid'.trans hid.symm)]
    exact ⟨le_refl _, rfl⟩
  · rw [Function.update_of_ne hji] at hrow
    exact h.listed j row hrow

/-- **One accepted statement** of thread `i`. -/
theorem RetryInv.exec (h : RetryInv base db trace reaping) {i : ι} {s : Sql} {reply : s.Reply} {db' : Db}
    (hexec : s.exec db = .ok (reply, db')) (hallowed : retryMonitor.allowed (reaping i) (.sql s))
    (hfail : ∀ id err now, s = .failEffect id err now → Finds db id fun e => e.maxAttempts ≤ e.attemptCount) :
    RetryInv base db' (trace ++ [⟨i, .sql s, .ok reply⟩])
      (Function.update reaping i (retryMonitor.next (reaping i) (.sql s) (.ok reply))) := by
  have hframe := Sql.exec_frame hexec
  have hnote {db' : Db} (hs : ∀ id, claimed id ⟨i, .sql s, .ok reply⟩ = false)
      (hl : (retryMonitor.next (reaping i) (.sql s) (.ok reply)).expired = (reaping i).expired)
      (h : RetryInv base db' trace reaping) : RetryInv base db' (trace ++ [⟨i, .sql s, .ok reply⟩])
        (Function.update reaping i (retryMonitor.next (reaping i) (.sql s) (.ok reply))) := by
    refine h.note (fun id => ?_) (Pool.update_same Reaping.expired hl)
    rw [claimsIn_append, hs]
    rfl
  cases s with
  | insertEffect e =>
    obtain ⟨t, hok, heq⟩ := map_eq_ok.mp hexec
    cases heq
    exact hnote (fun _ => rfl) rfl (h.insertEffect (insertRow_eq_ok.mp hok).2 hallowed)
  | claimEffect id worker now =>
    simp only [Sql.exec] at hexec
    split at hexec
    · cases hexec
    cases hexec
    by_cases hany : (db.effect.rows.any fun e => e.id = id && e.status = .pending) = true
    · have hclaimed := h.claimEffect (a := ⟨i, .sql (.claimEffect id worker now), .ok true⟩) worker now hany fun _ => rfl
      rw [hany]
      exact hclaimed.note (fun _ => rfl) (Pool.update_same Reaping.expired rfl)
    · have hnone : ∀ e ∈ db.effect, ¬ (decide (e.id = id) && decide (e.status = .pending)) = true :=
        fun e he hp => hany (List.any_eq_true.mpr ⟨e, he, hp⟩)
      apply hnote
      · intro id'
        rw [Bool.eq_false_iff.mpr hany]
        rfl
      · rfl
      · apply h.updateEffect
        · exact fun e he hp => absurd hp (hnone e he)
        · exact fun e he hp => absurd hp (hnone e he)
  | startEffect id | completeEffect id canon hash now | reclaimEffect id now =>
    cases hexec
    apply hnote (fun _ => rfl) rfl
    apply h.updateEffect
    · exact fun _ _ _ => ⟨rfl, rfl⟩
    · intro e _ _ hstatus
      cases hstatus
  | failEffect id err now =>
    cases hexec
    apply hnote (fun _ => rfl) rfl
    apply h.updateEffect
    · exact fun _ _ _ => ⟨rfl, rfl⟩
    · exact fun e he hp _ => hfail id err now rfl e he (of_decide_eq_true hp)
  | exhaustEffect id now =>
    cases hexec
    obtain ⟨claim, attempts, maxAttempts, hrow, hle⟩ := hallowed
    apply hnote (fun _ => rfl) rfl
    apply h.updateEffect
    · exact fun _ _ _ => ⟨rfl, rfl⟩
    · intro e he hp _
      obtain ⟨hattempts, hmax⟩ := (h.listed i _ hrow).2 e he (of_decide_eq_true hp)
      rw [hmax]
      exact le_trans hle hattempts
  | expiredClaims now =>
    cases hexec
    exact (h.expiredClaims i now).note (fun id => by rw [claimsIn_append]; rfl) fun _ => rfl
  | _ => exact hnote (fun _ => rfl) rfl (h.congr (hframe.effect (by simp [Sql.writes])) (fun _ => rfl) fun _ => rfl)

end Statement

/-! ### Runs -/

structure RetryPool (before : Db) (c : QueuePool ι) : Prop where
  lease : ∀ id, LeasePool id c
  safe : Pool.AllSafe retryMonitor Reaping.Finished (fun _ => ⟨[], []⟩) c
  inv : RetryInv before.attemptsOf c.world.db c.trace c.reaping

theorem retryPool_start (X : Crates) {w : World} (worker : ι → WorkerId) (calls : ι → QueueCall) (h : Retryable w.db) :
    RetryPool w.db (QueuePool.start X w worker calls) := by
  refine ⟨fun id => leasePool_start X worker calls (h.leasable id), fun i => issue_retries X (worker i) (calls i), ?_⟩
  constructor
  · intro e he
    have hfind : w.db.effect.find? e.id = some e := Table.find?_eq_some.mpr ⟨he, rfl⟩
    rw [Db.attemptsOf, hfind]
    exact (Int.add_zero _).symm
  · intro id hid
    have hfind : w.db.effect.find? id = none := by
      rw [Option.eq_none_iff_forall_ne_some]
      intro e hfind
      obtain ⟨he, hkey⟩ := Table.find?_eq_some.mp hfind
      exact Table.contains_eq_false.mp hid e he hkey
    rw [Db.attemptsOf, hfind]
    rfl
  · exact h.failed
  · exact fun i row hrow => nomatch hrow

theorem retryMonitor_refused (l : Reaping) (s : Sql) (e : SqlError) : retryMonitor.next l (.sql s) (.error e) = l := by
  cases s <;> rfl

theorem RetriesFirst.unclaimed {E : Env} {c : QueuePool ι} {i : ι} (h : RetriesFirst E c i) (id : EffectId) :
    ReclaimsUnclaimed E id c i := by
  intro hreclaims
  rw [RetriesFirst] at h
  cases hnext : c.next? i with
  | none =>
    rw [hnext] at hreclaims
    cases hreclaims
  | some o =>
    rw [hnext] at hreclaims h
    cases o with
    | sql s =>
      cases s with
      | reclaimEffect id' now =>
        cases hreclaims
        exact Or.inr h.2
      | _ => cases hreclaims
    | _ => cases hreclaims

theorem reaping_step {c : QueuePool ι} (i : ι) (o : Op) (r : o.Res) (w : World) (thread : ι → Action QueueReply) :
    QueuePool.reaping ⟨w, thread, c.trace ++ [⟨i, o, r⟩]⟩ =
      Function.update c.reaping i (retryMonitor.next (c.reaping i) o r) :=
  Pool.summary_update

theorem retryPool_step {E : Env} {before : Db} {c : QueuePool ι} {i : ι} (h : RetryPool before c)
    (hfirst : RetriesFirst E c i) : RetryPool before (Pool.step (handle E) c i) := by
  refine ⟨fun id => leasePool_step (h.lease id) (hfirst.unclaimed id), Pool.allSafe_step h.safe i, ?_⟩
  rcases Pool.step_cases (handle E) c i with ⟨r, -, hsame⟩ | ⟨o, next, hthread, hnext, hstep⟩
  · rw [hsame]
    exact h.inv
  rw [hstep, reaping_step]
  have hidle {r : o.Res} {db : Db} (hdb : db = c.world.db) (hclaims : ∀ id, claimed id ⟨i, o, r⟩ = false)
      (hl : retryMonitor.next (c.reaping i) o r = c.reaping i) :
      RetryInv before.attemptsOf db (c.trace ++ [⟨i, o, r⟩])
        (Function.update c.reaping i (retryMonitor.next (c.reaping i) o r)) := by
    rw [hdb]
    refine h.inv.note (fun id => ?_) (Pool.update_same Reaping.expired (by rw [hl]))
    rw [claimsIn_append, hclaims]
    rfl
  cases o with
  | now => exact hidle rfl (fun _ => rfl) rfl
  | ulid => exact hidle rfl (fun _ => rfl) rfl
  | sql s =>
    rcases handle_sql E s c.world with ⟨⟨err, hr⟩, hdb, -⟩ | ⟨reply, db', hfault, hexec, hr, hdb⟩
    · rw [hr]
      exact hidle hdb (fun id => by cases s <;> rfl) (retryMonitor_refused _ s err)
    · rw [hr, hdb]
      apply h.inv.exec hexec (h.safe.allowed hthread)
      rintro id err now rfl
      rw [RetriesFirst, hnext] at hfirst
      exact hfirst

theorem RetryPool.failsLast {before : Db} {c : QueuePool ι} (h : RetryPool before c) : FailsLast before c := by
  intro e he hstatus
  rw [← h.inv.counted e he]
  exact h.inv.failed e he hstatus

/-- An attempt with others left ends with the reaper putting the effect back. -/
theorem RetryPool.retried {E : Env} {before : Db} {c : QueuePool ι} {i : ι} (h : RetryPool before c)
    (hfirst : RetriesFirst E c i) : Retried E before c i := by
  intro id hends e he hid hleft
  have hcount : e.attemptCount < e.maxAttempts := by
    rw [h.inv.counted e he, hid]
    exact hleft
  have hafter := leasePool_step (h.lease id) (hfirst.unclaimed id)
  rcases Pool.step_cases (handle E) c i with ⟨r, hdone, -⟩ | ⟨o, next, hthread, hnext, hstep⟩
  · rw [Pool.next?_done hdone] at hends
    cases hends
  rw [RetriesFirst, hnext] at hfirst
  rw [hnext] at hends
  have hallowed := h.safe.allowed hthread
  cases o with
  | sql s =>
    cases s with
    | failEffect id' err now =>
      cases hends
      exact absurd (hfirst e he hid) (not_le.mpr hcount)
    | exhaustEffect id' now =>
      cases hends
      obtain ⟨claim, attempts, maxAttempts, hrow, hle⟩ := hallowed
      obtain ⟨hattempts, hmax⟩ := (h.inv.listed i _ hrow).2 e he hid
      rw [hmax] at hcount
      exact absurd (le_trans hle hattempts) (not_le.mpr hcount)
    | reclaimEffect id' now =>
      cases hends
      rcases handle_sql E (.reclaimEffect id now) c.world with ⟨-, -, hrefused⟩ | ⟨reply, db', -, hexec, -, hdb⟩
      · rw [hfirst.1] at hrefused
        obtain ⟨err, hrefused⟩ := hrefused.resolve_left Bool.false_ne_true
        cases hrefused
      cases hexec
      have hworld : (Pool.step (handle E) c i).world.db = c.world.db.updateEffect id (·.reclaim now) fun _ => rfl := by
        rw [hstep]
        exact hdb
      have hpending : ∀ e' ∈ (Pool.step (handle E) c i).world.db.effect, e'.id = id →
          e'.status = .pending ∧ e'.assignedWorkerId = none := by
        rw [hworld]
        intro e' he' hid'
        obtain ⟨e₀, he₀, ⟨-, rfl⟩ | ⟨hp, rfl⟩⟩ := mem_updateEffects he'
        · exact ⟨rfl, rfl⟩
        · exact absurd hid' (of_decide_eq_false hp)
      have hthere : ∃ e' ∈ (Pool.step (handle E) c i).world.db.effect, e'.id = id := by
        rw [hworld]
        have hmem : (if decide (e.id = id) then e.reclaim now else e) ∈
            c.world.db.effect.update (fun e => e.id = id) (·.reclaim now) (fun _ => rfl) :=
          Table.mem_update.mpr ⟨e, he, rfl⟩
        rw [if_pos (decide_eq_true hid)] at hmem
        exact ⟨_, hmem, hid⟩
      obtain ⟨e', he', hid'⟩ := hthere
      obtain ⟨-, hfree⟩ := hafter.inv.pending e' he' hid' (hpending e' he' hid').1
      exact ⟨hpending, fun c hc hcid hreleased => hfree.claim c ⟨hc, hcid, hreleased⟩⟩
    | _ => cases hends
  | _ => cases hends

/-- **An effect fails after its last attempt, and is put back after every other**, in a run in which the workers' failures come on the last attempt and no reaper is late or refused; and a reaper that returns has seen to every expired claim that it has listed. -/
theorem retries_before_failure (X : Crates) (E : Env) (w : World) (worker : ι → WorkerId) (calls : ι → QueueCall)
    (schedule : List ι) (hstart : Retryable w.db)
    (hfirst : Lts.EveryStep (Pool.step (handle E)) (RetriesFirst E) (QueuePool.start X w worker calls) schedule) :
    Lts.Always (Pool.step (handle E)) (FailsLast w.db) (QueuePool.start X w worker calls) schedule ∧
      Lts.EveryStep (Pool.step (handle E)) (Retried E w.db) (QueuePool.start X w worker calls) schedule ∧
      Lts.Always (Pool.step (handle E))
        (fun c => ∀ i n, c.thread i = .done (.ok (.reaped n)) →
          ∀ row ∈ (QueuePool.reaping c i).expired, row.1 ∈ (QueuePool.reaping c i).ended)
        (QueuePool.start X w worker calls) schedule := by
  have hpool := Lts.always_of_invariant (RetryPool w.db) (fun c i hc hstep => retryPool_step hc hstep)
    (retryPool_start X worker calls hstart) hfirst
  refine ⟨fun pre post hsplit => (hpool pre post hsplit).failsLast, ?_, fun pre post hsplit i n hdone => ?_⟩
  · rw [Lts.everyStep_iff] at hfirst ⊢
    intro pre i post hsplit
    exact (hpool pre (i :: post) hsplit).retried (hfirst pre i post hsplit)
  · have hsafe := (hpool pre post hsplit).safe i
    rw [hdone] at hsafe
    exact hsafe

/-- There are no effects yet. -/
theorem retryable_withWorkers : Retryable Db.withWorkers := by
  constructor
  · intro id
    constructor
    · intro e he
      cases he
    · intro e he
      cases he
    · intro c hc
      cases hc
    · intro c hc
      cases hc
  · intro e he
    cases he

theorem retries_before_failure_untilCompleted :
    let start := QueuePool.start Crates.sample (World.start .withWorkers) leaseLostWorker leaseLost
    Lts.Always (Pool.step (handle .slow)) (FailsLast .withWorkers) start untilCompleted ∧
      Lts.EveryStep (Pool.step (handle .slow)) (Retried .slow .withWorkers) start untilCompleted ∧
      Lts.Always (Pool.step (handle .slow))
        (fun c => ∀ i n, c.thread i = .done (.ok (.reaped n)) →
          ∀ row ∈ (QueuePool.reaping c i).expired, row.1 ∈ (QueuePool.reaping c i).ended) start untilCompleted :=
  retries_before_failure Crates.sample .slow (World.start .withWorkers) leaseLostWorker leaseLost untilCompleted
    retryable_withWorkers (by decide +kernel)

def failsOnceWorker (_ : Fin 3) : WorkerId := "wrk_a"

/-- An effect that is claimed once and then failed by its worker. -/
def failsOnce (i : Fin 3) : QueueCall :=
  match i with
  | 0 => .enqueue "ws_demo" "cmd_demo" "act_demo" "shell.run" (.object []) .medium
  | 1 => .claimOne "ws_demo" ["shell.run"]
  | 2 => .fail firstEffect "timed out"

/-- The effect has failed on the first of its three attempts. -/
theorem failsOnce_not_last :
    let finished := Lts.run (Pool.step (handle .wholeSeconds))
      (QueuePool.start Crates.sample (World.start .withWorkers) failsOnceWorker failsOnce)
      (List.replicate 3 0 ++ List.replicate 7 1 ++ List.replicate 2 2)
    World.Regular .wholeSeconds finished.world ∧
      (∀ e ∈ finished.world.db.effect.rows, e.maxAttempts = 3) ∧ ¬ FailsLast .withWorkers finished := by
  intro finished
  refine ⟨by decide +kernel, by decide +kernel, by decide +kernel⟩

end ActantDb
