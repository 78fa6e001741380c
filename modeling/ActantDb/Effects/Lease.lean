import ActantDb.Effects.Terminality

/-!
# Leases

A claim is taken in two statements, the guarded update of the effect and the insertion of the claim row, and given up in three: `reap_expired` lists the expired claims, releases each, and puts its effect back to pending. The last update does not look at the effect again. So a reaper that is late puts back an effect that another worker has claimed in the meantime, with the count of attempts it read before; then two workers hold it, and it is attempted more often than it may be.

That is the only way: as long as no reaper puts back an effect that was claimed since its `SELECT`, each effect has at most one unreleased claim and keeps to its attempts (`lease_exclusive`). Heartbeats play no part in any of this, since the lease is in the claim row and a heartbeat writes to the worker's.
-/

namespace ActantDb

open Prog

/-! ### What a call has read and done -/

/-- The effect the call has updated and not yet filed the claim for, the rows of its last `SELECT` of expired claims, and the claim it released last. -/
structure Duty where
  claiming : Option EffectId
  expired : List (EffectId × String × Int × Int)
  released : Option String

def Duty.start : Duty := ⟨none, [], none⟩

/-- A claim is filed for the effect just claimed, and what is put back was listed, with attempts left, and its claim has just been released. -/
def leaseMonitor : Monitor Op Op.Res Duty where
  allowed l o :=
    match o with
    | .sql (.insertEffect e) => e.attemptCount < e.maxAttempts
    | .sql (.insertEffectClaim c) => l.claiming = some c.effectId ∧ c.releasedAt = none
    | .sql (.releaseClaim claim _) => ∃ row ∈ l.expired, row.2.1 = claim
    | .sql (.reclaimEffect id _) =>
      ∃ claim attempts maxAttempts, (id, claim, attempts, maxAttempts) ∈ l.expired ∧
        attempts < maxAttempts ∧ l.released = some claim
    | _ => True
  next l o r :=
    match o, r with
    | .sql (.claimEffect id _ _), .ok true => { l with claiming := some id }
    | .sql (.insertEffectClaim _), _ => { l with claiming := none }
    | .sql (.expiredClaims _), .ok rows => { l with expired := rows, released := none }
    | .sql (.releaseClaim claim _), .ok _ => { l with released := some claim }
    | _, _ => l

theorem reapEach_safe {l : Duty} (now : String) (reclaimed : Nat)
    {rows : List (EffectId × String × Int × Int)} (hrows : ∀ row ∈ rows, row ∈ l.expired) :
    Safe leaseMonitor (fun _ _ => True) l (EffectQueue.reapEach now reclaimed rows) := by
  induction rows generalizing l reclaimed with
  | nil => trivial
  | cons row rest ih =>
    obtain ⟨effectId, claimId, attempts, maxAttempts⟩ := row
    have hmem : (effectId, claimId, attempts, maxAttempts) ∈ l.expired :=
      hrows _ List.mem_cons_self
    have hrest : ∀ row ∈ rest, row ∈ l.expired := fun row hrow => hrows row (List.mem_cons_of_mem _ hrow)
    refine ⟨⟨_, hmem, rfl⟩, fun r => ?_⟩
    cases r with
    | error e => trivial
    | ok _ =>
      show Safe leaseMonitor _ { l with released := some claimId }
        (if attempts < maxAttempts then
          execute (.reclaimEffect effectId now) >>= fun _ =>
            EffectQueue.reapEach now (reclaimed + 1) rest
        else execute (.exhaustEffect effectId now) >>= fun _ =>
          EffectQueue.reapEach now (reclaimed + 1) rest)
      split
      · rename_i hlt
        refine ⟨⟨claimId, attempts, maxAttempts, hmem, hlt, rfl⟩, fun r => ?_⟩
        cases r with
        | error e => trivial
        | ok _ => exact ih _ hrest
      · refine ⟨trivial, fun r => ?_⟩
        cases r with
        | error e => trivial
        | ok _ => exact ih _ hrest

theorem issue_safe (X : Crates) (worker : WorkerId) (call : QueueCall) :
    Safe leaseMonitor (fun _ _ => True) Duty.start (call.issue X worker) := by
  cases call with
  | enqueue ws command requestedBy effectType input risk =>
    refine ⟨trivial, fun ulid => ⟨trivial, fun now => ⟨?_, fun r => ?_⟩⟩⟩
    · show (0 : Int) < 3
      decide
    · cases r <;> trivial
  | heartbeat inFlightCount =>
    refine ⟨trivial, fun now => ⟨trivial, fun r => ?_⟩⟩
    cases r with
    | error e => trivial
    | ok _ =>
      refine ⟨trivial, fun r => ?_⟩
      cases r <;> trivial
  | claimOne ws types =>
    show Safe leaseMonitor _ Duty.start (EffectQueue.claimOne worker ws types >>= _)
    unfold EffectQueue.claimOne
    split
    · trivial
    refine ⟨trivial, fun r => ?_⟩
    cases r with
    | error e => trivial
    | ok found =>
      cases found with
      | none => trivial
      | some row =>
        obtain ⟨id, effectType, inputInline⟩ := row
        refine ⟨trivial, fun t => ⟨trivial, fun ulid => ⟨trivial, fun now => ⟨trivial, fun r => ?_⟩⟩⟩⟩
        cases r with
        | error e => trivial
        | ok claimed =>
          cases claimed with
          | false => trivial
          | true =>
            refine ⟨trivial, fun now => ⟨⟨rfl, rfl⟩, fun r => ?_⟩⟩
            cases r <;> trivial
  | start id =>
    refine ⟨trivial, fun r => ?_⟩
    cases r <;> trivial
  | complete id output =>
    refine ⟨trivial, fun now => ⟨trivial, fun r => ?_⟩⟩
    cases r with
    | error e => trivial
    | ok _ =>
      refine ⟨trivial, fun ulid => ⟨trivial, fun r => ?_⟩⟩
      cases r <;> trivial
  | fail id err =>
    refine ⟨trivial, fun now => ⟨trivial, fun r => ?_⟩⟩
    cases r <;> trivial
  | reapExpired =>
    refine ⟨trivial, fun now => ⟨trivial, fun r => ?_⟩⟩
    cases r with
    | error e => trivial
    | ok rows =>
      refine safe_bind ((reapEach_safe _ 0 fun row hrow => hrow).mono fun l r _ => ?_)
      cases r <;> trivial

/-! ### One effect -/

/-- An unreleased claim on the effect. -/
def Db.HasClaim (db : Db) (id : EffectId) (c : EffectClaim) : Prop :=
  c ∈ db.effectClaim ∧ c.effectId = id ∧ c.releasedAt = none

variable {ι : Type}

/-- Nobody has an unreleased claim on the effect or is about to file one. -/
structure Unclaimed (id : EffectId) (db : Db) (duty : ι → Duty) : Prop where
  claim : ∀ c, ¬ db.HasClaim id c
  claiming : ∀ i, (duty i).claiming ≠ some id

/-- What holds of one effect between any two statements; `since i` says that it was claimed after thread `i` has listed the expired claims. -/
structure LeaseInv (id : EffectId) (db : Db) (duty : ι → Duty) (since : ι → Bool) : Prop where
  within : ∀ e ∈ db.effect, e.id = id → e.attemptCount ≤ e.maxAttempts
  pending : ∀ e ∈ db.effect, e.id = id → e.status = .pending →
    e.attemptCount < e.maxAttempts ∧ Unclaimed id db duty
  one : ∀ c c', db.HasClaim id c → db.HasClaim id c' → c = c'
  alone : ∀ i, (duty i).claiming = some id →
    (∀ c, ¬ db.HasClaim id c) ∧ ∀ j, (duty j).claiming = some id → j = i
  claimed : ∀ c ∈ db.effectClaim, db.effect.contains c.effectId = true
  claiming : ∀ i, (duty i).claiming = some id → db.effect.contains id = true
  listed : ∀ i, ∀ row ∈ (duty i).expired,
    ∃ c ∈ db.effectClaim, c.id = row.2.1 ∧ c.effectId = row.1
  reaped : ∀ i, since i = false → ∀ claim attempts maxAttempts,
    (id, claim, attempts, maxAttempts) ∈ (duty i).expired →
      (∀ c, db.HasClaim id c → c.id = claim) ∧ (∀ j, (duty j).claiming ≠ some id) ∧
        ∀ e ∈ db.effect, e.id = id → e.attemptCount = attempts ∧ e.maxAttempts = maxAttempts
  released : ∀ i claim, (duty i).released = some claim →
    ∃ c ∈ db.effectClaim, c.id = claim ∧ c.releasedAt ≠ none

section Statements

variable {id : EffectId} {db : Db} {duty : ι → Duty} {since : ι → Bool}

/-- A thread may forget what it is claiming, and a claim may be taken into account. -/
theorem LeaseInv.mono {duty' : ι → Duty} {since' : ι → Bool} (h : LeaseInv id db duty since)
    (hclaiming : ∀ i, (duty' i).claiming = some id → (duty i).claiming = some id)
    (hexpired : ∀ i, (duty' i).expired = (duty i).expired)
    (hreleased : ∀ i, (duty' i).released = (duty i).released)
    (hsince : ∀ i, since' i = false → since i = false) : LeaseInv id db duty' since' where
  within := h.within
  pending e he hid hstatus := by
    obtain ⟨hlt, hnone⟩ := h.pending e he hid hstatus
    exact ⟨hlt, hnone.claim, fun i hi => hnone.claiming i (hclaiming i hi)⟩
  one := h.one
  alone i hi := by
    obtain ⟨hnone, hj⟩ := h.alone i (hclaiming i hi)
    exact ⟨hnone, fun j hj' => hj j (hclaiming j hj')⟩
  claimed := h.claimed
  claiming i hi := h.claiming i (hclaiming i hi)
  listed i row hrow := h.listed i row (hexpired i ▸ hrow)
  reaped i hi claim attempts maxAttempts hrow := by
    obtain ⟨hc, hj, he⟩ := h.reaped i (hsince i hi) claim attempts maxAttempts (hexpired i ▸ hrow)
    exact ⟨hc, fun j hj' => hj j (hclaiming j hj'), he⟩
  released i claim hi := h.released i claim (hreleased i ▸ hi)

theorem LeaseInv.congr {db' : Db} (h : LeaseInv id db duty since) (heffect : db'.effect = db.effect)
    (hclaim : db'.effectClaim = db.effectClaim) : LeaseInv id db' duty since := by
  have hhas : ∀ c, db'.HasClaim id c ↔ db.HasClaim id c := fun c => by
    rw [Db.HasClaim, hclaim, Db.HasClaim]
  obtain ⟨hwithin, hpending, hone, halone, hclaimed, hclaiming, hlisted, hreaped, hreleased⟩ := h
  constructor
  · rwa [heffect]
  · rw [heffect]
    intro e he hid hstatus
    obtain ⟨hlt, hnone⟩ := hpending e he hid hstatus
    exact ⟨hlt, fun c hc => hnone.claim c ((hhas c).mp hc), hnone.claiming⟩
  · exact fun c c' hc hc' => hone c c' ((hhas c).mp hc) ((hhas c').mp hc')
  · intro i hi
    exact ⟨fun c hc => (halone i hi).1 c ((hhas c).mp hc), (halone i hi).2⟩
  · rwa [hclaim, heffect]
  · rwa [heffect]
  · rwa [hclaim]
  · intro i hi claim attempts maxAttempts hrow
    rw [heffect]
    obtain ⟨hc, hrest⟩ := hreaped i hi claim attempts maxAttempts hrow
    exact ⟨fun c hc' => hc c ((hhas c).mp hc'), hrest⟩
  · rwa [hclaim]

section Update

variable {p : Effect → Bool} {f : Effect → Effect} {hf : ∀ e, (f e).id = e.id}

theorem mem_updateEffects {e' : Effect}
    (h : e' ∈ { db with effect := db.effect.update p f hf }.effect) :
    ∃ e ∈ db.effect, (p e = true ∧ e' = f e) ∨ (p e = false ∧ e' = e) := by
  have hmem : e' ∈ db.effect.update p f hf := h
  exact Table.mem_update_cases hmem

theorem contains_updateEffects (k : EffectId) :
    { db with effect := db.effect.update p f hf }.effect.contains k = db.effect.contains k := by
  have hcontains : (db.effect.update p f hf).contains k = db.effect.contains k :=
    Table.contains_update k
  exact hcontains

/-- An update that leaves the attempts of the effect alone, and makes it pending only when nobody has it. -/
theorem LeaseInv.updateEffect (h : LeaseInv id db duty since)
    (hcount : ∀ e ∈ db.effect, e.id = id → p e = true →
      (f e).attemptCount = e.attemptCount ∧ (f e).maxAttempts = e.maxAttempts)
    (hpending : ∀ e ∈ db.effect, e.id = id → p e = true → (f e).status = .pending →
      e.attemptCount < e.maxAttempts ∧ Unclaimed id db duty) :
    LeaseInv id { db with effect := db.effect.update p f hf } duty since where
  within e' he' hid := by
    obtain ⟨e, he, ⟨hp, rfl⟩ | ⟨-, rfl⟩⟩ := mem_updateEffects he'
    · rw [hf] at hid
      obtain ⟨hattempts, hmax⟩ := hcount e he hid hp
      rw [hattempts, hmax]
      exact h.within e he hid
    · exact h.within _ he hid
  pending e' he' hid hstatus := by
    obtain ⟨e, he, ⟨hp, rfl⟩ | ⟨-, rfl⟩⟩ := mem_updateEffects he'
    · rw [hf] at hid
      obtain ⟨hattempts, hmax⟩ := hcount e he hid hp
      obtain ⟨hlt, hnone⟩ := hpending e he hid hp hstatus
      rw [hattempts, hmax]
      exact ⟨hlt, hnone.claim, hnone.claiming⟩
    · obtain ⟨hlt, hnone⟩ := h.pending _ he hid hstatus
      exact ⟨hlt, hnone.claim, hnone.claiming⟩
  one := h.one
  alone := h.alone
  claimed c hc := (contains_updateEffects _).trans (h.claimed c hc)
  claiming i hi := (contains_updateEffects _).trans (h.claiming i hi)
  listed := h.listed
  reaped i hi claim attempts maxAttempts hrow := by
    obtain ⟨hc, hj, hsame⟩ := h.reaped i hi claim attempts maxAttempts hrow
    refine ⟨hc, hj, fun e' he' hid => ?_⟩
    obtain ⟨e, he, ⟨hp, rfl⟩ | ⟨-, rfl⟩⟩ := mem_updateEffects he'
    · rw [hf] at hid
      obtain ⟨hattempts, hmax⟩ := hcount e he hid hp
      rw [hattempts, hmax]
      exact hsame e he hid
    · exact hsame _ he hid
  released := h.released

/-- An update that makes nothing pending. -/
theorem LeaseInv.advance (h : LeaseInv id db duty since)
    (hcount : ∀ e, (f e).attemptCount = e.attemptCount ∧ (f e).maxAttempts = e.maxAttempts)
    (hstatus : ∀ e, (f e).status ≠ .pending) :
    LeaseInv id { db with effect := db.effect.update p f hf } duty since :=
  h.updateEffect (fun e _ _ _ => hcount e) (fun e _ _ _ hpending => absurd hpending (hstatus e))

/-- An update that selects no row of the effect. -/
theorem LeaseInv.updateOthers (h : LeaseInv id db duty since) (hnone : ∀ e ∈ db.effect, e.id = id → p e = false) :
    LeaseInv id { db with effect := db.effect.update p f hf } duty since := by
  have hnot : ∀ e ∈ db.effect, e.id = id → ¬ p e = true := fun e he hid => Bool.eq_false_iff.mp (hnone e he hid)
  exact h.updateEffect (fun e he hid hp => absurd hp (hnot e he hid)) fun e he hid hp => absurd hp (hnot e he hid)

end Update

/-- A new effect, with attempts left. -/
theorem LeaseInv.insertEffect (h : LeaseInv id db duty since) {e : Effect} {t : Table Effect.id}
    (hins : db.effect.insert? e = some t) (hattempts : e.attemptCount < e.maxAttempts) :
    LeaseInv id { db with effect := t } duty since := by
  have hmem : ∀ e', e' ∈ t → e' ∈ db.effect ∨ e' = e := fun e' => (Table.mem_insert? hins).mp
  have hfresh : db.effect.contains e.id = false := (Table.insert?_eq_some.mp hins).1
  have hcontains : ∀ k, db.effect.contains k = true → t.contains k = true := by
    intro k hk
    rw [Table.contains_insert? hins, hk]
    rfl
  have hnew : e.id = id → Unclaimed id db duty := by
    intro hid
    constructor
    · rintro c ⟨hc, hcid, -⟩
      have hknown := h.claimed c hc
      rw [hcid, ← hid, hfresh] at hknown
      cases hknown
    · intro i hi
      have hknown := h.claiming i hi
      rw [← hid, hfresh] at hknown
      cases hknown
  constructor
  · intro e' he' hid
    rcases hmem e' he' with hold | rfl
    · exact h.within e' hold hid
    · exact le_of_lt hattempts
  · intro e' he' hid hstatus
    rcases hmem e' he' with hold | rfl
    · obtain ⟨hlt, hfree⟩ := h.pending e' hold hid hstatus
      exact ⟨hlt, hfree.claim, hfree.claiming⟩
    · exact ⟨hattempts, (hnew hid).claim, (hnew hid).claiming⟩
  · exact h.one
  · exact h.alone
  · exact fun c hc => hcontains _ (h.claimed c hc)
  · exact fun i hi => hcontains _ (h.claiming i hi)
  · exact h.listed
  · intro i hi claim attempts maxAttempts hrow
    obtain ⟨hc, hno, hsame⟩ := h.reaped i hi claim attempts maxAttempts hrow
    refine ⟨hc, hno, fun e' he' hid => ?_⟩
    rcases hmem e' he' with hold | rfl
    · exact hsame e' hold hid
    · obtain ⟨c, hc, -, hcid⟩ := h.listed i _ hrow
      have hknown := h.claimed c hc
      rw [hcid, ← hid, hfresh] at hknown
      cases hknown
  · exact h.released

variable [DecidableEq ι]

/-- The effect is claimed, having been pending. -/
theorem LeaseInv.claimEffect (h : LeaseInv id db duty since) {i : ι} {worker : WorkerId}
    {now : String} {e : Effect} (he : e ∈ db.effect) (hid : e.id = id) (hstatus : e.status = .pending)
    {since' : ι → Bool} (hsince : ∀ j, since' j = true) :
    LeaseInv id
      { db with
        effect := db.effect.update (fun e => e.id = id && e.status = .pending)
          (·.claim worker now) fun _ => rfl }
      (Function.update duty i { duty i with claiming := some id }) since' := by
  obtain ⟨hlt, hnone⟩ := h.pending e he hid hstatus
  have honly : ∀ j, (Function.update duty i { duty i with claiming := some id } j).claiming =
      some id → j = i := by
    intro j hj
    by_contra hne
    rw [Function.update_of_ne hne] at hj
    exact hnone.claiming j hj
  constructor
  · intro e' he' hid'
    obtain ⟨e₀, he₀, ⟨hp, rfl⟩ | ⟨-, rfl⟩⟩ := mem_updateEffects he'
    · rw [Bool.and_eq_true, decide_eq_true_eq, decide_eq_true_eq] at hp
      have hlt' := (h.pending e₀ he₀ hp.1 hp.2).1
      show e₀.attemptCount + 1 ≤ e₀.maxAttempts
      omega
    · exact h.within _ he₀ hid'
  · intro e' he' hid' hstatus'
    obtain ⟨e₀, he₀, ⟨-, rfl⟩ | ⟨hp, rfl⟩⟩ := mem_updateEffects he'
    · cases hstatus'
    · rw [hid', hstatus'] at hp
      simp at hp
  · exact h.one
  · intro j hj
    rw [honly j hj]
    exact ⟨hnone.claim, honly⟩
  · exact fun c hc => (contains_updateEffects _).trans (h.claimed c hc)
  · exact fun j _ => (contains_updateEffects _).trans (Table.contains_iff.mpr ⟨e, he, hid⟩)
  · intro j row hrow
    by_cases hj : j = i
    · subst hj
      rw [Function.update_self] at hrow
      exact h.listed j row hrow
    · rw [Function.update_of_ne hj] at hrow
      exact h.listed j row hrow
  · intro j hj
    rw [hsince] at hj
    cases hj
  · intro j claim hj
    by_cases hji : j = i
    · subst hji
      rw [Function.update_self] at hj
      exact h.released j claim hj
    · rw [Function.update_of_ne hji] at hj
      exact h.released j claim hj

/-- The claim is filed by the thread that has claimed the effect. -/
theorem LeaseInv.insertClaim (h : LeaseInv id db duty since) {i : ι} {c : EffectClaim}
    {t : Table EffectClaim.id} (hins : db.effectClaim.insert? c = some t)
    (heffect : db.effect.contains c.effectId = true)
    (hclaiming : (duty i).claiming = some c.effectId) :
    LeaseInv id { db with effectClaim := t }
      (Function.update duty i { duty i with claiming := none }) since := by
  have hmem : ∀ c', c' ∈ t ↔ c' ∈ db.effectClaim ∨ c' = c := fun c' => Table.mem_insert? hins
  have hforget : ∀ j, (Function.update duty i { duty i with claiming := none } j).claiming = some id →
      j ≠ i ∧ (duty j).claiming = some id := by
    intro j hj
    by_cases hji : j = i
    · rw [hji, Function.update_self] at hj
      cases hj
    · rw [Function.update_of_ne hji] at hj
      exact ⟨hji, hj⟩
  have hkept : ∀ j, (Function.update duty i { duty i with claiming := none } j).expired =
      (duty j).expired ∧ (Function.update duty i { duty i with claiming := none } j).released =
        (duty j).released := by
    intro j
    constructor
    · exact Pool.update_same Duty.expired (by rfl) j
    · exact Pool.update_same Duty.released (by rfl) j
  -- before, the effect of `c` had no claim: the thread was about to file one
  have hnone : c.effectId = id → (∀ c', ¬ db.HasClaim id c') ∧
      ∀ j, (duty j).claiming = some id → j = i := fun hid => h.alone i (hid ▸ hclaiming)
  have hhas : ∀ c', { db with effectClaim := t }.HasClaim id c' →
      db.HasClaim id c' ∨ (c' = c ∧ c.effectId = id) := by
    rintro c' ⟨hc', hid, hreleased⟩
    rcases (hmem c').mp hc' with hold | rfl
    · exact Or.inl ⟨hold, hid, hreleased⟩
    · exact Or.inr ⟨rfl, hid⟩
  constructor
  · exact h.within
  · intro e he hid hstatus
    obtain ⟨hlt, hfree⟩ := h.pending e he hid hstatus
    refine ⟨hlt, fun c' hc' => ?_, fun j hj => hfree.claiming j (hforget j hj).2⟩
    rcases hhas c' hc' with hold | ⟨-, hc⟩
    · exact hfree.claim c' hold
    · exact hfree.claiming i (hc ▸ hclaiming)
  · intro c₁ c₂ h₁ h₂
    rcases hhas c₁ h₁ with hold₁ | ⟨rfl, hc⟩
    · rcases hhas c₂ h₂ with hold₂ | ⟨-, hc⟩
      · exact h.one c₁ c₂ hold₁ hold₂
      · exact absurd hold₁ ((hnone hc).1 c₁)
    · rcases hhas c₂ h₂ with hold₂ | ⟨rfl, -⟩
      · exact absurd hold₂ ((hnone hc).1 c₂)
      · rfl
  · intro j hj
    obtain ⟨hji, hj'⟩ := hforget j hj
    obtain ⟨hno, hother⟩ := h.alone j hj'
    refine ⟨fun c' hc' => ?_, fun k hk => hother k (hforget k hk).2⟩
    rcases hhas c' hc' with hold | ⟨-, hc⟩
    · exact hno c' hold
    · exact hji ((hnone hc).2 j hj')
  · intro c' hc'
    rcases (hmem c').mp hc' with hold | rfl
    · exact h.claimed c' hold
    · exact heffect
  · exact fun j hj => h.claiming j (hforget j hj).2
  · intro j row hrow
    rw [(hkept j).1] at hrow
    obtain ⟨c', hc', hids⟩ := h.listed j row hrow
    exact ⟨c', (hmem c').mpr (Or.inl hc'), hids⟩
  · intro j hj claim attempts maxAttempts hrow
    rw [(hkept j).1] at hrow
    obtain ⟨hc', hno, hsame⟩ := h.reaped j hj claim attempts maxAttempts hrow
    refine ⟨fun c' hhas' => ?_, fun k hk => hno k (hforget k hk).2, hsame⟩
    rcases hhas c' hhas' with hold | ⟨-, hc⟩
    · exact hc' c' hold
    · exact absurd (hc ▸ hclaiming) (hno i)
  · intro j claim hj
    rw [(hkept j).2] at hj
    obtain ⟨c', hc', hids⟩ := h.released j claim hj
    exact ⟨c', (hmem c').mpr (Or.inl hc'), hids⟩

theorem mem_releaseClaim {claim now : String} {c' : EffectClaim}
    (h : c' ∈ (db.releaseClaim claim now).effectClaim) :
    ∃ c ∈ db.effectClaim, (c.id = claim ∧ c' = { c with releasedAt := some now }) ∨ c' = c := by
  have hmem : c' ∈ db.effectClaim.update (fun c => c.id = claim)
    (fun c => { c with releasedAt := some now }) (fun _ => rfl) := h
  obtain ⟨c, hc, ⟨hp, heq⟩ | ⟨-, heq⟩⟩ := Table.mem_update_cases hmem
  · exact ⟨c, hc, Or.inl ⟨of_decide_eq_true hp, heq⟩⟩
  · exact ⟨c, hc, Or.inr heq⟩

/-- A released claim is still there, under its id. -/
theorem exists_releaseClaim {c : EffectClaim} (claim now : String)
    (hc : c ∈ db.effectClaim) : ∃ c' ∈ (db.releaseClaim claim now).effectClaim,
      c'.id = c.id ∧ c'.effectId = c.effectId ∧
        (c.id = claim ∨ c.releasedAt ≠ none → c'.releasedAt ≠ none) := by
  have hmem : (if decide (c.id = claim) then { c with releasedAt := some now } else c) ∈
      db.effectClaim.update (fun c => c.id = claim)
        (fun c => { c with releasedAt := some now }) (fun _ => rfl) :=
    Table.mem_update.mpr ⟨c, hc, rfl⟩
  refine ⟨_, hmem, ?_⟩
  split
  · exact ⟨rfl, rfl, fun _ => Option.some_ne_none _⟩
  · rename_i hne
    exact ⟨rfl, rfl, fun hor => hor.resolve_left fun heq => hne (decide_eq_true heq)⟩

/-- A claim that the thread has listed is released. -/
theorem LeaseInv.releaseClaim (h : LeaseInv id db duty since) {i : ι} {claim now : String}
    (hlisted : ∃ row ∈ (duty i).expired, row.2.1 = claim) :
    LeaseInv id (db.releaseClaim claim now)
      (Function.update duty i { duty i with released := some claim }) since := by
  have hhas : ∀ c, (db.releaseClaim claim now).HasClaim id c → db.HasClaim id c := by
    rintro c ⟨hc, hid, hreleased⟩
    obtain ⟨c₀, hc₀, ⟨-, rfl⟩ | rfl⟩ := mem_releaseClaim hc
    · cases hreleased
    · exact ⟨hc₀, hid, hreleased⟩
  have hkept : ∀ j, (Function.update duty i { duty i with released := some claim } j).claiming =
      (duty j).claiming ∧ (Function.update duty i { duty i with released := some claim } j).expired =
        (duty j).expired := by
    intro j
    constructor
    · exact Pool.update_same Duty.claiming (by rfl) j
    · exact Pool.update_same Duty.expired (by rfl) j
  constructor
  · exact h.within
  · intro e he hid hstatus
    obtain ⟨hlt, hfree⟩ := h.pending e he hid hstatus
    exact ⟨hlt, fun c hc => hfree.claim c (hhas c hc), fun j hj => hfree.claiming j ((hkept j).1 ▸ hj)⟩
  · exact fun c c' hc hc' => h.one c c' (hhas c hc) (hhas c' hc')
  · intro j hj
    obtain ⟨hno, hother⟩ := h.alone j ((hkept j).1 ▸ hj)
    exact ⟨fun c hc => hno c (hhas c hc), fun k hk => hother k ((hkept k).1 ▸ hk)⟩
  · intro c hc
    obtain ⟨c₀, hc₀, ⟨-, rfl⟩ | rfl⟩ := mem_releaseClaim hc
    · exact h.claimed c₀ hc₀
    · exact h.claimed _ hc₀
  · exact fun j hj => h.claiming j ((hkept j).1 ▸ hj)
  · intro j row hrow
    rw [(hkept j).2] at hrow
    obtain ⟨c, hc, hcid, heffect⟩ := h.listed j row hrow
    obtain ⟨c', hc', hcid', heffect', -⟩ := exists_releaseClaim claim now hc
    exact ⟨c', hc', hcid'.trans hcid, heffect'.trans heffect⟩
  · intro j hj claim' attempts maxAttempts hrow
    rw [(hkept j).2] at hrow
    obtain ⟨hc, hno, hsame⟩ := h.reaped j hj claim' attempts maxAttempts hrow
    exact ⟨fun c hc' => hc c (hhas c hc'), fun k hk => hno k ((hkept k).1 ▸ hk), hsame⟩
  · intro j claim' hj
    by_cases hji : j = i
    · subst hji
      rw [Function.update_self] at hj
      cases hj
      obtain ⟨row, hrow, rfl⟩ := hlisted
      obtain ⟨c, hc, hcid, -⟩ := h.listed j row hrow
      obtain ⟨c', hc', hcid', -, hreleased⟩ := exists_releaseClaim row.2.1 now hc
      exact ⟨c', hc', hcid'.trans hcid, hreleased (Or.inl hcid)⟩
    · rw [Function.update_of_ne hji] at hj
      obtain ⟨c, hc, hcid, hreleased⟩ := h.released j claim' hj
      obtain ⟨c', hc', hcid', -, hreleased'⟩ := exists_releaseClaim claim now hc
      exact ⟨c', hc', hcid'.trans hcid, hreleased' (Or.inr hreleased)⟩

theorem Db.mem_expired {row : EffectId × String × Int × Int} {now : String}
    (h : row ∈ db.expired now) : ∃ c ∈ db.effectClaim, ∃ e ∈ db.effect,
      c.expiresAt < now ∧ c.releasedAt = none ∧ e.id = c.effectId ∧
        (e.status = .claimed ∨ e.status = .running) ∧
          row = (c.effectId, c.id, e.attemptCount, e.maxAttempts) := by
  obtain ⟨c, hc, hrow⟩ := List.mem_filterMap.mp h
  split at hrow
  · rename_i hexpired
    split at hrow
    · rename_i e hfind
      obtain ⟨he, hid⟩ := Table.find?_eq_some.mp hfind
      split at hrow
      · rename_i hstatus
        exact ⟨c, hc, e, he, hexpired.1, hexpired.2, hid, hstatus, (Option.some.inj hrow).symm⟩
      · cases hrow
    · cases hrow
  · cases hrow

/-- The expired claims are listed. -/
theorem LeaseInv.expiredClaims (h : LeaseInv id db duty since) {i : ι} {now : String}
    {since' : ι → Bool} (hsince : ∀ j, j ≠ i → since' j = since j) :
    LeaseInv id db
      (Function.update duty i { duty i with expired := db.expired now, released := none }) since' := by
  have hclaiming : ∀ j, (Function.update duty i
      { duty i with expired := db.expired now, released := none } j).claiming = (duty j).claiming := by
    intro j
    by_cases hji : j = i
    · rw [hji, Function.update_self]
    · rw [Function.update_of_ne hji]
  constructor
  · exact h.within
  · intro e he hid hstatus
    obtain ⟨hlt, hfree⟩ := h.pending e he hid hstatus
    exact ⟨hlt, hfree.claim, fun j hj => hfree.claiming j (hclaiming j ▸ hj)⟩
  · exact h.one
  · intro j hj
    obtain ⟨hno, hother⟩ := h.alone j (hclaiming j ▸ hj)
    exact ⟨hno, fun k hk => hother k (hclaiming k ▸ hk)⟩
  · exact h.claimed
  · exact fun j hj => h.claiming j (hclaiming j ▸ hj)
  · intro j row hrow
    by_cases hji : j = i
    · subst hji
      rw [Function.update_self] at hrow
      obtain ⟨c, hc, e, -, -, -, -, -, rfl⟩ := Db.mem_expired hrow
      exact ⟨c, hc, rfl, rfl⟩
    · rw [Function.update_of_ne hji] at hrow
      exact h.listed j row hrow
  · intro j hj claim attempts maxAttempts hrow
    by_cases hji : j = i
    · subst hji
      rw [Function.update_self] at hrow
      obtain ⟨c, hc, e, he, -, hreleased, hid, -, heq⟩ := Db.mem_expired hrow
      obtain ⟨rfl, rfl, rfl, rfl⟩ : id = c.effectId ∧ claim = c.id ∧ attempts = e.attemptCount ∧
        maxAttempts = e.maxAttempts := by simpa using heq
      have hhas : db.HasClaim c.effectId c := ⟨hc, rfl, hreleased⟩
      refine ⟨fun c' hc' => congrArg EffectClaim.id (h.one c' c hc' hhas), fun k hk => ?_,
        fun e' he' hid' => ?_⟩
      · exact (h.alone k (hclaiming k ▸ hk)).1 c hhas
      · rw [Table.eq_of_key_eq he' he (hid'.trans hid.symm)]
        exact ⟨rfl, rfl⟩
    · rw [Function.update_of_ne hji] at hrow
      obtain ⟨hc, hno, hsame⟩ := h.reaped j (hsince j hji ▸ hj) claim attempts maxAttempts hrow
      exact ⟨hc, fun k hk => hno k (hclaiming k ▸ hk), hsame⟩
  · intro j claim hj
    by_cases hji : j = i
    · subst hji
      rw [Function.update_self] at hj
      cases hj
    · rw [Function.update_of_ne hji] at hj
      exact h.released j claim hj

omit [DecidableEq ι] in
/-- A late or timely reaper puts the effect back: it was not claimed since the reaper listed it, or it is pending anyway. -/
theorem LeaseInv.reclaimEffect (h : LeaseInv id db duty since) {i : ι} {id' : EffectId} {now : String}
    (hallowed : leaseMonitor.allowed (duty i) (.sql (.reclaimEffect id' now)))
    (hunclaimed : id' = id → since i = false ∨ Finds db id (·.status = .pending)) :
    LeaseInv id (db.updateEffect id' (·.reclaim now) fun _ => rfl) duty since := by
  obtain ⟨claim, attempts, maxAttempts, hrow, hlt, hreleased⟩ := hallowed
  apply h.updateEffect
  · exact fun _ _ _ _ => ⟨rfl, rfl⟩
  · intro e he hid hp _
    have hsame : id' = id := (of_decide_eq_true hp).symm.trans hid
    subst hsame
    rcases hunclaimed rfl with hsince | hpending
    · obtain ⟨hone, hno, hcount⟩ := h.reaped i hsince claim attempts maxAttempts hrow
      obtain ⟨hattempts, hmax⟩ := hcount e he hid
      refine ⟨by rw [hattempts, hmax]; exact hlt, fun c hc => ?_, hno⟩
      -- the one claim there could be is the one the reaper has released
      obtain ⟨c', hc', hcid, hgone⟩ := h.released i claim hreleased
      have heq : c = c' := Table.eq_of_key_eq hc.1 hc' ((hone c hc).trans hcid.symm)
      exact hgone (heq ▸ hc.2.2)
    · exact h.pending e he hid (hpending e he hid)

end Statements

/-! ### One call -/

/-- An answered call either claims the effect, or lists the expired claims for thread `i`, or changes nothing of what `i` has missed. -/
def noteClaim (id : EffectId) [DecidableEq ι] (i : ι) (since : Bool) (a : Answered ι Op Op.Res) : Bool :=
  match a with
  | ⟨_, .sql (.claimEffect id' _ _), .ok true⟩ => since || decide (id' = id)
  | ⟨j, .sql (.expiredClaims _), .ok _⟩ => !decide (j = i) && since
  | _ => since

variable [DecidableEq ι]

/-- The effect was claimed after thread `i` has listed the expired claims. -/
def claimedSince (id : EffectId) (trace : List (Answered ι Op Op.Res)) (i : ι) : Bool :=
  trace.foldl (noteClaim id i) false

/-- A refused statement only makes its thread forget what it was claiming. -/
theorem leaseMonitor_refused (l : Duty) (s : Sql) (e : SqlError) :
    leaseMonitor.next l (.sql s) (.error e) = l ∨
      leaseMonitor.next l (.sql s) (.error e) = { l with claiming := none } := by
  cases s <;> first | exact Or.inl rfl | exact Or.inr rfl

theorem noteClaim_refused (id : EffectId) (i j : ι) (since : Bool) (s : Sql) (e : SqlError) :
    noteClaim id j since ⟨i, .sql s, .error e⟩ = since := by
  cases s <;> rfl

section Call

variable {id : EffectId} {db : Db} {duty : ι → Duty} {since : ι → Bool}

/-- Thread `i` has not listed or released anything, and is not about to file a claim for the effect. -/
theorem LeaseInv.next (h : LeaseInv id db duty since) {i : ι} {l : Duty}
    (hclaiming : l.claiming = some id → (duty i).claiming = some id)
    (hexpired : l.expired = (duty i).expired) (hreleased : l.released = (duty i).released)
    {since' : ι → Bool} (hsince : ∀ j, since' j = since j) :
    LeaseInv id db (Function.update duty i l) since' := by
  apply h.mono
  · intro j hj
    by_cases hji : j = i
    · subst hji
      rw [Function.update_self] at hj
      exact hclaiming hj
    · rwa [Function.update_of_ne hji] at hj
  · intro j
    by_cases hji : j = i
    · rw [hji, Function.update_self, hexpired]
    · rw [Function.update_of_ne hji]
  · intro j
    by_cases hji : j = i
    · rw [hji, Function.update_self, hreleased]
    · rw [Function.update_of_ne hji]
  · exact fun j hj => (hsince j).symm.trans hj

theorem LeaseInv.idle (h : LeaseInv id db duty since) {i : ι} {since' : ι → Bool}
    (hsince : ∀ j, since' j = since j) :
    LeaseInv id db (Function.update duty i (duty i)) since' :=
  h.next (fun hi => hi) rfl rfl hsince

/-- **One accepted statement** of thread `i`. -/
theorem LeaseInv.exec (h : LeaseInv id db duty since) {i : ι} {s : Sql} {reply : s.Reply} {db' : Db}
    (hexec : s.exec db = .ok (reply, db')) (hallowed : leaseMonitor.allowed (duty i) (.sql s))
    (hreclaim : ∀ now, s = .reclaimEffect id now →
      since i = false ∨ Finds db id (·.status = .pending)) :
    LeaseInv id db' (Function.update duty i (leaseMonitor.next (duty i) (.sql s) (.ok reply)))
      (fun j => noteClaim id j (since j) ⟨i, .sql s, .ok reply⟩) := by
  have hframe := Sql.exec_frame hexec
  cases s with
  | insertEffect e =>
    obtain ⟨t, hok, heq⟩ := map_eq_ok.mp hexec
    cases heq
    exact (h.insertEffect (insertRow_eq_ok.mp hok).2 hallowed).idle fun _ => rfl
  | claimEffect id' worker now =>
    simp only [Sql.exec] at hexec
    split at hexec
    · cases hexec
    cases hexec
    by_cases hid : id' = id
    · subst hid
      by_cases hany : (db.effect.rows.any fun e => e.id = id' && e.status = .pending) = true
      · obtain ⟨e, he, hp⟩ := List.any_eq_true.mp hany
        rw [Bool.and_eq_true, decide_eq_true_eq, decide_eq_true_eq] at hp
        rw [hany]
        apply h.claimEffect he hp.1 hp.2
        intro j
        show (since j || decide (id' = id')) = true
        simp
      · have hnone : ∀ e ∈ db.effect, (decide (e.id = id') && decide (e.status = .pending)) = false := by
          intro e he
          rw [Bool.eq_false_iff]
          exact fun hp => hany (List.any_eq_true.mpr ⟨e, he, hp⟩)
        rw [Bool.eq_false_iff.mpr hany]
        exact (h.updateOthers fun e he _ => hnone e he).idle fun _ => rfl
    · have hupdated : LeaseInv id
          { db with
            effect := db.effect.update (fun e => e.id = id' && e.status = .pending)
              (·.claim worker now) fun _ => rfl } duty since := by
        apply h.updateOthers
        intro e _ he
        rw [he, decide_eq_false (Ne.symm hid), Bool.false_and]
      cases db.effect.rows.any fun e => e.id = id' && e.status = .pending with
      | false => exact hupdated.idle fun _ => rfl
      | true =>
        apply hupdated.next
        · exact fun hclaiming => absurd (Option.some.inj hclaiming) hid
        · rfl
        · rfl
        · intro j
          show (since j || decide (id' = id)) = since j
          rw [decide_eq_false hid, Bool.or_false]
  | insertEffectClaim c =>
    simp only [Sql.exec] at hexec
    split at hexec
    · cases hexec
    obtain ⟨t, hok, heq⟩ := map_eq_ok.mp hexec
    cases heq
    obtain ⟨href, hins⟩ := insertRow_eq_ok.mp hok
    rw [Db.effectClaimReferences, Bool.and_eq_true] at href
    exact h.insertClaim hins href.1 hallowed.1
  | startEffect id' | completeEffect id' canon hash now | failEffect id' err now | exhaustEffect id' now =>
    cases hexec
    apply LeaseInv.idle _ fun _ => rfl
    apply h.advance
    · exact fun _ => ⟨rfl, rfl⟩
    · intro e hpending
      cases hpending
  | reclaimEffect id' now =>
    cases hexec
    exact (h.reclaimEffect hallowed fun hid => hreclaim now (hid ▸ rfl)).idle fun _ => rfl
  | expiredClaims now =>
    cases hexec
    apply h.expiredClaims
    intro j hj
    show (!decide (i = j) && since j) = since j
    rw [decide_eq_false (Ne.symm hj), Bool.not_false, Bool.true_and]
  | releaseClaim claim now =>
    cases hexec
    exact h.releaseClaim hallowed
  | _ =>
    apply LeaseInv.idle _ fun _ => rfl
    apply h.congr
    · exact hframe.effect (by simp [Sql.writes])
    · exact hframe.effectClaim (by simp [Sql.writes])

end Call

end ActantDb
