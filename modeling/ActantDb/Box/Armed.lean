import ActantDb.Box.Schedule

/-!
# Timers and statuses

`pause` and `resume` of a box stop and start the timers of its active schedules, and `pause`, `resume` and `delete` of a schedule its own. But `exec`, `agent` and `resume` of a schedule start a timer whatever the status of the box, and so does `Box.get` for each active schedule it reads, also when `box.json` says that the box is paused or another object of the box has the schedule armed already. In a run that takes none of these steps a timer is armed exactly for the active schedules of running boxes, and one for each (`armed_iff_active`).
-/

namespace ActantDb.Boxes

/-! ### One schedule -/

variable {box : BoxId} {p p' : Timers} {s s' : RuntimeSchedule}

def Timers.Below (p : Timers) : Prop := ∀ t x, p.armed t = some x → t < p.next

/-- The timers armed for the schedule are the one it keeps. -/
def Links (p : Timers) (box : BoxId) (s : RuntimeSchedule) : Prop :=
  ∀ t, p.armed t = some (box, s.id) ↔ s.timer = some t

/-- From `p` to `p'` timers come and go for these schedules of the box only. -/
def Within (box : BoxId) (ids : List ScheduleId) (p p' : Timers) : Prop :=
  ∀ t b id, ¬ (b = box ∧ id ∈ ids) → (p'.armed t = some (b, id) ↔ p.armed t = some (b, id))

/-- What an action on a schedule and the timers keeps. -/
structure Keeps (box : BoxId) (p : Timers) (s : RuntimeSchedule) (p' : Timers) (s' : RuntimeSchedule) : Prop where
  links : Links p' box s'
  id : s'.id = s.id
  below : p'.Below
  within : Within box [s.id] p p'

theorem armed_clearInterval (h : Links p box s) (t : TimerId) (x : BoxId × ScheduleId) :
    (p.clearInterval s.timer).armed t = some x ↔ p.armed t = some x ∧ x ≠ (box, s.id) := by
  cases htimer : s.timer with
  | none =>
    refine ⟨fun hx => ⟨hx, ?_⟩, And.left⟩
    rintro rfl
    have hkept := (h t).mp hx
    rw [htimer] at hkept
    cases hkept
  | some t₀ =>
    simp only [Timers.clearInterval, Function.update_apply]
    have harmed : p.armed t₀ = some (box, s.id) := (h t₀).mpr htimer
    split
    · next heq =>
      subst heq
      refine ⟨fun hx => (by cases hx), fun hx => ?_⟩
      exact absurd (Option.some.inj (hx.1.symm.trans harmed)) hx.2
    · next hne =>
      refine ⟨fun hx => ⟨hx, ?_⟩, And.left⟩
      rintro rfl
      have hkept := (h t).mp hx
      rw [htimer] at hkept
      exact hne (Option.some.inj hkept).symm

theorem next_clearInterval (t : Option TimerId) : (p.clearInterval t).next = p.next := by
  cases t <;> rfl

theorem below_clearInterval (hlinks : Links p box s) (h : p.Below) : (p.clearInterval s.timer).Below := by
  intro t x hx
  rw [next_clearInterval]
  exact h t x ((armed_clearInterval hlinks t x).mp hx).1

theorem within_clearInterval (h : Links p box s) : Within box [s.id] p (p.clearInterval s.timer) := by
  intro t b id hout
  rw [armed_clearInterval h]
  refine and_iff_left fun heq => hout ?_
  obtain ⟨rfl, rfl⟩ := Prod.mk.inj heq
  exact ⟨rfl, List.mem_singleton_self _⟩

theorem keeps_stopTimer (hlinks : Links p box s) (h : p.Below) (status : ScheduleStatus) :
    Keeps box p s (stopTimer p { s with status := status }).1 (stopTimer p { s with status := status }).2 := by
  refine ⟨fun t => ?_, rfl, below_clearInterval hlinks h, within_clearInterval hlinks⟩
  refine iff_of_false (fun harmed => ?_) (fun htimer => by cases htimer)
  exact ((armed_clearInterval hlinks t _).mp harmed).2 rfl

theorem keeps_startTimer (hlinks : Links p box s) (h : p.Below) (status : ScheduleStatus) :
    Keeps box p s (startTimer box p { s with status := status }).1
      (startTimer box p { s with status := status }).2 := by
  have hbelow := below_clearInterval hlinks h
  have harmed : ∀ t x, ((p.clearInterval s.timer).setInterval box s.id).armed t = some x ↔
      (t = p.next ∧ x = (box, s.id)) ∨ (p.armed t = some x ∧ x ≠ (box, s.id)) := by
    intro t x
    simp only [Timers.setInterval, Function.update_apply, next_clearInterval]
    split
    · next heq =>
      rw [Option.some.injEq]
      refine ⟨fun hx => Or.inl ⟨heq, hx.symm⟩, ?_⟩
      rintro (⟨-, hx⟩ | ⟨hx, -⟩)
      · exact hx.symm
      · exact absurd (h t x hx) (heq ▸ Nat.lt_irrefl _)
    · next hne =>
      rw [armed_clearInterval hlinks]
      exact ⟨Or.inr, fun hx => hx.resolve_left fun hnew => hne hnew.1⟩
  refine ⟨fun t => ?_, rfl, fun t x hx => ?_, fun t b id hout => ?_⟩
  · refine (harmed t _).trans ⟨?_, fun htimer => Or.inl ⟨(Option.some.inj htimer).symm, rfl⟩⟩
    rintro (⟨rfl, -⟩ | ⟨-, hne⟩)
    · rfl
    · exact absurd rfl hne
  · have hnext : (startTimer box p { s with status := status }).1.next = p.next + 1 := by
      rw [startTimer, Timers.setInterval, next_clearInterval]
    rw [hnext]
    rcases (harmed t x).mp hx with ⟨rfl, -⟩ | ⟨hold, -⟩
    · exact Nat.lt_succ_self _
    · exact Nat.lt_succ_of_lt (h t x hold)
  · have hne : (b, id) ≠ (box, s.id) := by
      intro heq
      obtain ⟨rfl, rfl⟩ := Prod.mk.inj heq
      exact hout ⟨rfl, List.mem_singleton_self _⟩
    refine (harmed t _).trans ⟨?_, fun hold => Or.inr ⟨hold, hne⟩⟩
    rintro (⟨-, heq⟩ | ⟨hold, -⟩)
    · exact absurd heq hne
    · exact hold

/-- Nothing but the id and the timer of a schedule matters to its link. -/
theorem keeps_same (hlinks : Links p box s) (h : p.Below) (hid : s'.id = s.id) (htimer : s'.timer = s.timer) :
    Keeps box p s p s' := by
  refine ⟨fun t => ?_, hid, h, fun t b id _ => Iff.rfl⟩
  rw [hid, htimer]
  exact hlinks t

/-! ### All schedules of an object -/

variable {ids ids' : List ScheduleId} {l l' : List RuntimeSchedule}
  {g : Timers → RuntimeSchedule → Timers × RuntimeSchedule}

theorem Within.refl (p : Timers) : Within box ids p p := fun _ _ _ _ => Iff.rfl

theorem Within.trans {p₁ p₂ p₃ : Timers} (h : Within box ids p₁ p₂) (h' : Within box ids p₂ p₃) :
    Within box ids p₁ p₃ :=
  fun t b id hout => (h' t b id hout).trans (h t b id hout)

theorem Within.mono (h : Within box ids p p') (hsub : ids ⊆ ids') : Within box ids' p p' :=
  fun t b id hout => h t b id fun hin => hout ⟨hin.1, hsub hin.2⟩

theorem Links.of_within (h : Links p box s) (hwithin : Within box ids p p') (hs : s.id ∉ ids) :
    Links p' box s :=
  fun t => (hwithin t box s.id fun hin => hs hin.2).trans (h t)

/-- What an action on all schedules of an object and the timers keeps. -/
structure KeepsAll (box : BoxId) (p : Timers) (l : List RuntimeSchedule) (p' : Timers)
    (l' : List RuntimeSchedule) : Prop where
  links : ∀ s ∈ l', Links p' box s
  ids : l'.map (·.id) = l.map (·.id)
  below : p'.Below
  within : Within box (l.map (·.id)) p p'

def EachKeeps (box : BoxId) (g : Timers → RuntimeSchedule → Timers × RuntimeSchedule) : Prop :=
  ∀ p s, Links p box s → p.Below → Keeps box p s (g p s).1 (g p s).2

theorem keepsAll_forEach (hg : EachKeeps box g) (hnodup : (l.map (·.id)).Nodup)
    (hlinks : ∀ s ∈ l, Links p box s) (h : p.Below) :
    KeepsAll box p l (forEach g p l).1 (forEach g p l).2 := by
  induction l generalizing p with
  | nil => exact ⟨fun s hs => (by cases hs), rfl, h, Within.refl p⟩
  | cons s rest ih =>
    rw [List.map_cons, List.nodup_cons] at hnodup
    have hone := hg p s (hlinks s List.mem_cons_self) h
    have hrest : ∀ s' ∈ rest, Links (g p s).1 box s' := by
      intro s' hs'
      refine (hlinks s' (List.mem_cons_of_mem _ hs')).of_within hone.within fun hin => hnodup.1 ?_
      rw [List.mem_singleton] at hin
      exact hin ▸ List.mem_map_of_mem hs'
    have hall := ih hnodup.2 hrest hone.below
    refine ⟨fun s' hs' => ?_, ?_, hall.below, ?_⟩
    · rcases List.mem_cons.mp hs' with rfl | hs'
      · exact hone.links.of_within hall.within (hone.id ▸ hnodup.1)
      · exact hall.links s' hs'
    · exact congrArg₂ List.cons hone.id hall.ids
    · refine (hone.within.mono fun id hid => ?_).trans (hall.within.mono (List.subset_cons_self _ _))
      rw [List.mem_singleton] at hid
      exact hid ▸ List.mem_cons_self

/-- Ids that were taken from the supply are so still. -/
theorem KeepsAll.fresh (hall : KeepsAll box p l p' l') {n : Nat} (h : ∀ s ∈ l, s.id < n) : ∀ s ∈ l', s.id < n := by
  intro s hs
  have hid : s.id ∈ l.map (·.id) := hall.ids ▸ List.mem_map_of_mem hs
  obtain ⟨s', hs', heq⟩ := List.mem_map.mp hid
  exact heq ▸ h s' hs'

/-- What `g` makes of each schedule is so of all that `forEach` returns. -/
theorem forEach_forall {R Q : RuntimeSchedule → Prop} (hg : ∀ p s, R s → Q (g p s).2) (hR : ∀ s ∈ l, R s) :
    ∀ s ∈ (forEach g p l).2, Q s := by
  induction l generalizing p with
  | nil => exact fun s hs => by cases hs
  | cons s rest ih =>
    intro s' hs'
    rcases List.mem_cons.mp hs' with rfl | hs'
    · exact hg p s (hR s List.mem_cons_self)
    · exact ih (fun s' hs' => hR s' (List.mem_cons_of_mem _ hs')) s' hs'

theorem eachKeeps_stopTimer : EachKeeps box stopTimer := fun _ s hlinks h => keeps_stopTimer hlinks h s.status

theorem eachKeeps_startActive : EachKeeps box (startActive box) := by
  intro p s hlinks h
  rw [startActive]
  split
  · exact keeps_startTimer hlinks h s.status
  · exact keeps_same hlinks h rfl rfl

theorem EachKeeps.forId (hg : EachKeeps box g) (id : ScheduleId) : EachKeeps box (forId id g) := by
  intro p s hlinks h
  rw [Boxes.forId]
  split
  · exact hg p s hlinks h
  · exact keeps_same hlinks h rfl rfl

/-! ### Ids -/

section Ids

variable {α : Type} {f : α → Nat} {xs : List α} {x : α} {n : Nat}

theorem fresh_notMem (h : ∀ x ∈ xs, f x < n) : n ∉ xs.map f := by
  intro hin
  obtain ⟨x, hx, heq⟩ := List.mem_map.mp hin
  exact absurd (h x hx) (heq ▸ Nat.lt_irrefl _)

theorem nodup_map_append (h : (xs.map f).Nodup) (hx : f x ∉ xs.map f) : ((xs ++ [x]).map f).Nodup := by
  rw [List.map_append, List.nodup_append]
  refine ⟨h, List.nodup_singleton _, fun id hin id' hin' heq => hx ?_⟩
  rw [List.map_singleton, List.mem_singleton] at hin'
  exact hin' ▸ heq ▸ hin

end Ids

/-! ### One object -/

/-- Whether a schedule of the object has a timer. -/
def OnTime (status : BoxStatus) (s : RuntimeSchedule) : Prop :=
  s.timer.isSome = true ↔ status = .running ∧ s.status = .active

/-- An object whose schedules have the timers they should have. -/
structure Timed (p : Timers) (box : Box) : Prop where
  links : ∀ s ∈ box.schedules, Links p box.id s
  owned : ∀ t id, p.armed t = some (box.id, id) → id ∈ box.schedules.map (·.id)
  nodup : (box.schedules.map (·.id)).Nodup
  onTime : ∀ s ∈ box.schedules, OnTime box.status s

variable {b : Box}

theorem Timed.keepsAll (h : Timed p b) (hbelow : p.Below) (hg : EachKeeps b.id g) :
    KeepsAll b.id p b.schedules (forEach g p b.schedules).1 (forEach g p b.schedules).2 :=
  keepsAll_forEach hg h.nodup h.links hbelow

theorem Timed.owned_of_keepsAll (h : Timed p b) (hall : KeepsAll b.id p b.schedules p' l') (t : TimerId)
    (id : ScheduleId) (harmed : p'.armed t = some (b.id, id)) : id ∈ l'.map (·.id) := by
  rw [hall.ids]
  by_contra hid
  exact hid (h.owned t id ((hall.within t b.id id fun hin => hid hin.2).mp harmed))

/-- An action on the schedules of an object leaves it as it should be where it leaves each of them so. -/
theorem Timed.forEach (h : Timed p b) (hbelow : p.Below) (hg : EachKeeps b.id g) {status : BoxStatus}
    (htime : ∀ p s, s ∈ b.schedules → OnTime b.status s → OnTime status (g p s).2) :
    Timed (forEach g p b.schedules).1 { b with status := status, schedules := (forEach g p b.schedules).2 } := by
  have hall := h.keepsAll hbelow hg
  refine ⟨hall.links, h.owned_of_keepsAll hall, hall.ids ▸ h.nodup, ?_⟩
  · have htimed : ∀ s ∈ b.schedules, s ∈ b.schedules ∧ OnTime b.status s := fun s hs => ⟨hs, h.onTime s hs⟩
    exact forEach_forall (fun p s hs => htime p s hs.1 hs.2) htimed

theorem onTime_stop (s : RuntimeSchedule) {status : BoxStatus} (h : ¬ (status = .running ∧ s.status = .active))
    (p : Timers) : OnTime status (stopTimer p s).2 :=
  iff_of_false (fun htimer => by cases htimer) h

theorem onTime_startActive {s : RuntimeSchedule} {status : BoxStatus} (h : OnTime status s) (p : Timers) :
    OnTime .running (startActive box p s).2 := by
  rw [startActive]
  split
  · next hactive => exact iff_of_true rfl ⟨rfl, hactive⟩
  · next hpaused =>
    refine iff_of_false (fun htimer => ?_) fun hboth => hpaused hboth.2
    exact hpaused (h.mp htimer).2

theorem onTime_forId {s : RuntimeSchedule} {status : BoxStatus} {id : ScheduleId} (h : OnTime status s)
    (p : Timers) (hg : OnTime status (g p s).2) : OnTime status (forId id g p s).2 := by
  rw [forId]
  split
  · exact hg
  · exact h

/-- A schedule that is new to the object joins the others. -/
theorem Timed.append (h : Timed p b) (hone : Keeps b.id p s p' s') (hnew : s.id ∉ b.schedules.map (·.id))
    (htime : OnTime b.status s') : Timed p' { b with schedules := b.schedules ++ [s'] } := by
  refine ⟨fun s₁ hs₁ => ?_, fun t id harmed => ?_, ?_, fun s₁ hs₁ => ?_⟩
  · rcases List.mem_append.mp hs₁ with hs₁ | hs₁
    · refine (h.links s₁ hs₁).of_within hone.within fun hin => hnew ?_
      rw [List.mem_singleton] at hin
      exact hin ▸ List.mem_map_of_mem hs₁
    · rw [List.mem_singleton.mp hs₁]
      exact hone.links
  · rw [List.map_append, List.mem_append]
    by_cases hid : id = s.id
    · exact Or.inr (List.mem_singleton.mpr (hid.trans hone.id.symm))
    · refine Or.inl (h.owned t id ((hone.within t b.id id fun hin => hid ?_).mp harmed))
      exact List.mem_singleton.mp hin.2
  · exact nodup_map_append h.nodup (hone.id ▸ hnew)
  · rcases List.mem_append.mp hs₁ with hs₁ | hs₁
    · exact h.onTime s₁ hs₁
    · rw [List.mem_singleton.mp hs₁]
      exact htime

/-- Another box is not concerned. -/
theorem Timed.of_within {id : BoxId} (h : Timed p b) (hwithin : Within id ids p p') (hne : b.id ≠ id) :
    Timed p' b := by
  have hsame : ∀ t sid, p'.armed t = some (b.id, sid) ↔ p.armed t = some (b.id, sid) :=
    fun t sid => hwithin t b.id sid fun hin => hne hin.1
  exact ⟨fun s hs t => (hsame t s.id).trans (h.links s hs t), fun t sid harmed => h.owned t sid ((hsame t sid).mp harmed),
    h.nodup, h.onTime⟩

/-! ### The loop of `restore` -/

def Schedule.runtime (s : Schedule) : RuntimeSchedule := { s with timer := none }

theorem mapSet_of_notMem {map : List RuntimeSchedule} (h : s.id ∉ map.map (·.id)) : mapSet s map = map ++ [s] := by
  induction map with
  | nil => rfl
  | cons s' rest ih =>
    rw [List.map_cons, List.mem_cons, not_or] at h
    rw [mapSet, if_neg (Ne.symm h.1), ih h.2, List.cons_append]

theorem id_startActive : (startActive box p s).2.id = s.id := by
  rw [startActive]
  split <;> rfl

/-- Where no id occurs twice, the schedules are restored one by one. -/
theorem restore_eq (raw : List Schedule) (map : List RuntimeSchedule)
    (h : (map.map (·.id) ++ raw.map (·.id)).Nodup) :
    restore box p map raw =
      ((forEach (startActive box) p (raw.map Schedule.runtime)).1,
        map ++ (forEach (startActive box) p (raw.map Schedule.runtime)).2) := by
  induction raw generalizing p map with
  | nil => exact congrArg (Prod.mk p) (List.append_nil map).symm
  | cons s raw ih =>
    have hid : (startActive box p s.runtime).2.id = s.id := id_startActive
    have hnew : (startActive box p s.runtime).2.id ∉ map.map (·.id) := by
      rw [hid]
      intro hin
      exact (List.nodup_append.mp h).2.2 _ hin _ List.mem_cons_self rfl
    have hnodup : ((map ++ [(startActive box p s.runtime).2]).map (·.id) ++ raw.map (·.id)).Nodup := by
      rw [List.map_append, List.append_assoc, List.map_singleton, hid]
      exact h
    have hstep := ih (map ++ [(startActive box p s.runtime).2]) hnodup (p := (startActive box p s.runtime).1)
    rw [List.append_assoc] at hstep
    rw [← mapSet_of_notMem hnew] at hstep
    exact hstep

/-! ### The process -/

/-- What holds of every state of a run that takes none of the bad steps. -/
structure Linked (w : World) : Prop where
  timed : ∀ b ∈ w.boxes, Timed w.timers b
  owned : ∀ t id sid, w.timers.armed t = some (id, sid) → id ∈ w.boxes.map (·.id)
  below : w.timers.Below
  sole : (w.boxes.map (·.id)).Nodup
  boxes : ∀ b ∈ w.boxes, b.id < w.fresh ∧ ∀ s ∈ b.schedules, s.id < w.fresh
  metadata : ∀ id, w.metadata id ≠ none → id < w.fresh
  files : ∀ id l, w.scheduleFile id = some l → (l.map (·.id)).Nodup ∧ ∀ s ∈ l, s.id < w.fresh

variable {w : World} {o : Nat}

/-- Another object of the process is of another box. -/
theorem Linked.other (h : Linked w) (ho : w.boxes[o]? = some b) {b' c : Box} (hc : c ∈ w.boxes.set o b') :
    c = b' ∨ c ∈ w.boxes ∧ c.id ≠ b.id := by
  obtain ⟨k, hk⟩ := List.mem_iff_getElem?.mp hc
  rw [List.getElem?_set] at hk
  split at hk
  · split at hk
    · exact Or.inl (Option.some.inj hk).symm
    · cases hk
  · next hne =>
    refine Or.inr ⟨List.mem_of_getElem? hk, fun hid => hne ?_⟩
    have hlt : o < (w.boxes.map (·.id)).length := by
      rw [List.length_map]
      exact (List.getElem?_eq_some_iff.mp ho).1
    refine (List.getElem?_inj hlt h.sole).mp ?_
    rw [List.getElem?_map, List.getElem?_map, ho, hk, Option.map_some, Option.map_some, hid]

theorem map_id_set {boxes : List Box} {b' : Box} (ho : boxes[o]? = some b) (hid : b'.id = b.id) :
    (boxes.set o b').map (·.id) = boxes.map (·.id) := by
  refine List.ext_getElem? fun k => ?_
  rw [List.getElem?_map, List.getElem?_map, List.getElem?_set]
  split
  · next heq =>
    subst heq
    rw [ho, if_pos (List.getElem?_eq_some_iff.mp ho).1, Option.map_some, Option.map_some, hid]
  · rfl

theorem Linked.set (h : Linked w) (ho : w.boxes[o]? = some b) {b' : Box} (htimed : Timed p' b')
    (hid : b'.id = b.id) (hbelow : p'.Below) (hwithin : Within b.id ids w.timers p')
    (hfresh : ∀ s ∈ b'.schedules, s.id < w.fresh) :
    Linked { w with timers := p', boxes := w.boxes.set o b' } := by
  have hmem := List.mem_of_getElem? ho
  have hids := map_id_set ho hid
  refine ⟨fun c hc => ?_, fun t id sid harmed => ?_, hbelow, hids ▸ h.sole, fun c hc => ?_, h.metadata, h.files⟩
  · rcases h.other ho hc with rfl | ⟨hc, hne⟩
    · exact htimed
    · exact (h.timed c hc).of_within hwithin hne
  · rw [hids]
    by_cases hb : id = b.id
    · exact hb ▸ List.mem_map_of_mem hmem
    · exact h.owned t id sid ((hwithin t id sid fun hin => hb hin.1).mp harmed)
  · rcases h.other ho hc with rfl | ⟨hc, -⟩
    · exact ⟨hid ▸ (h.boxes b hmem).1, hfresh⟩
    · exact h.boxes c hc

theorem Linked.push (h : Linked w) (hnew : b.id ∉ w.boxes.map (·.id)) (htimed : Timed p' b) (hbelow : p'.Below)
    (hwithin : Within b.id ids w.timers p') (hid : b.id < w.fresh) (hfresh : ∀ s ∈ b.schedules, s.id < w.fresh) :
    Linked { w with timers := p', boxes := w.boxes ++ [b] } := by
  refine ⟨fun c hc => ?_, fun t id sid harmed => ?_, hbelow, ?_, fun c hc => ?_, h.metadata, h.files⟩
  · rcases List.mem_append.mp hc with hc | hc
    · exact (h.timed c hc).of_within hwithin fun heq => hnew (heq ▸ List.mem_map_of_mem hc)
    · exact List.mem_singleton.mp hc ▸ htimed
  · rw [List.map_append, List.mem_append]
    by_cases hb : id = b.id
    · exact Or.inr (hb ▸ List.mem_singleton_self _)
    · exact Or.inl (h.owned t id sid ((hwithin t id sid fun hin => hb hin.1).mp harmed))
  · exact nodup_map_append h.sole hnew
  · rcases List.mem_append.mp hc with hc | hc
    · exact h.boxes c hc
    · rw [List.mem_singleton.mp hc]
      exact ⟨hid, hfresh⟩

theorem Linked.supply (h : Linked w) : Linked { w with fresh := w.fresh + 1 } :=
  { h with
    boxes := fun b hb =>
      ⟨Nat.lt_succ_of_lt (h.boxes b hb).1, fun s hs => Nat.lt_succ_of_lt ((h.boxes b hb).2 s hs)⟩
    metadata := fun id hid => Nat.lt_succ_of_lt (h.metadata id hid)
    files := fun id l hl => ⟨(h.files id l hl).1, fun s hs => Nat.lt_succ_of_lt ((h.files id l hl).2 s hs)⟩ }

theorem Linked.persistMetadata (h : Linked w) (hid : b.id < w.fresh) : Linked (w.persistMetadata b) := by
  rw [World.persistMetadata]
  split
  · exact h
  · refine { h with metadata := fun id hmeta => ?_ }
    by_cases heq : id = b.id
    · exact heq ▸ hid
    · exact h.metadata id fun hnone => hmeta ((Function.update_of_ne heq _ _).trans hnone)

theorem Linked.persist (h : Linked w) (hnodup : (b.schedules.map (·.id)).Nodup)
    (hfresh : ∀ s ∈ b.schedules, s.id < w.fresh) : Linked (w.persist b) := by
  refine { h with files := fun id l hl => ?_ }
  simp only [World.persist, Function.update_apply] at hl
  split at hl
  · cases hl
    rw [List.map_map]
    refine ⟨hnodup, fun s hs => ?_⟩
    obtain ⟨s', hs', rfl⟩ := List.mem_map.mp hs
    exact hfresh s' hs'
  · exact h.files id l hl

/-! ### The operations -/

theorem Linked.create (h : Linked w) (cloud : Bool) : Linked (w.create cloud) := by
  have hnew : w.fresh ∉ w.boxes.map (·.id) := fresh_notMem fun b hb => (h.boxes b hb).1
  have htimed : Timed w.timers { id := w.fresh, cloud := cloud, status := .running, schedules := [] } :=
    ⟨fun s hs => (by cases hs), fun t id harmed => absurd (h.owned t _ id harmed) hnew, List.nodup_nil,
      fun s hs => (by cases hs)⟩
  have hwithin : Within w.fresh [] w.timers w.timers := Within.refl w.timers
  have hpush := h.supply.push hnew htimed h.below hwithin (Nat.lt_succ_self _) fun s hs => (by cases hs)
  exact hpush.persistMetadata (Nat.lt_succ_self _)

/-- What is asked of a step: a schedule is started in a running box only, and `Box.get` is called for a box that has no object yet, and no active schedule unless it is running. -/
def Fit (w : World) : Action → Prop
  | .get id => ∀ status ∈ w.metadata id, (∀ b ∈ w.boxes, b.id ≠ id) ∧
      (status = .running ∨ ∀ s ∈ (w.scheduleFile id).getD [], s.status ≠ .active)
  | .scheduleExec o => ∀ b ∈ w.boxes[o]?, b.status = .running
  | .scheduleAgent o => ∀ b ∈ w.boxes[o]?, b.status = .running
  | .scheduleResume o id => ∀ b ∈ w.boxes[o]?, id ∈ b.schedules.map (·.id) → b.status = .running
  | _ => True

instance (w : World) (a : Action) : Decidable (Fit w a) := by
  unfold Fit
  split <;> infer_instance

theorem onTime_runtime {raw : List Schedule} {status : BoxStatus}
    (hactive : status = .running ∨ ∀ s ∈ raw, s.status ≠ .active) :
    ∀ s ∈ (forEach (startActive box) p (raw.map Schedule.runtime)).2, OnTime status s := by
  refine forEach_forall (R := (· ∈ raw.map Schedule.runtime)) (fun p s hs => ?_) fun s hs => hs
  obtain ⟨s, hraw, rfl⟩ := List.mem_map.mp hs
  rw [startActive]
  split
  · next hs' =>
    have hrunning : status = .running := hactive.resolve_right fun hnone => hnone s hraw hs'
    exact iff_of_true rfl ⟨hrunning, hs'⟩
  · next hs' => exact iff_of_false (fun htimer => by cases htimer) fun hboth => hs' hboth.2

theorem Linked.get (h : Linked w) {id : BoxId} (hfit : Fit w (.get id)) : Linked (w.get id) := by
  rw [World.get]
  cases hmeta : w.metadata id with
  | none => exact h
  | some status =>
    obtain ⟨hobjects, hactive⟩ := hfit status hmeta
    have hnew : id ∉ w.boxes.map (·.id) := by
      intro hin
      obtain ⟨b, hb, hid⟩ := List.mem_map.mp hin
      exact hobjects b hb hid
    have hraw : (((w.scheduleFile id).getD []).map (·.id)).Nodup ∧
        ∀ s ∈ (w.scheduleFile id).getD [], s.id < w.fresh := by
      cases hfile : w.scheduleFile id with
      | none => exact ⟨List.nodup_nil, fun s hs => by cases hs⟩
      | some raw => exact h.files id raw hfile
    generalize (w.scheduleFile id).getD [] = raw at hraw hactive
    have hids : (raw.map Schedule.runtime).map (·.id) = raw.map (·.id) := by
      rw [List.map_map]
      rfl
    have hlinks : ∀ s ∈ raw.map Schedule.runtime, Links w.timers id s := by
      intro s hs t
      obtain ⟨s, -, rfl⟩ := List.mem_map.mp hs
      exact iff_of_false (fun harmed => hnew (h.owned t _ _ harmed)) fun htimer => by cases htimer
    have hall := keepsAll_forEach eachKeeps_startActive (hids ▸ hraw.1) hlinks h.below
    dsimp only
    rw [restore_eq raw [] hraw.1, List.nil_append]
    have hfresh : ∀ s ∈ raw.map Schedule.runtime, s.id < w.fresh := List.forall_mem_map.mpr hraw.2
    refine h.push hnew ⟨hall.links, fun t sid harmed => ?_, hall.ids ▸ hids ▸ hraw.1, onTime_runtime hactive⟩
      hall.below hall.within (h.metadata id (by simp [hmeta])) (hall.fresh hfresh)
    rw [hall.ids]
    by_contra hout
    exact hnew (h.owned t id sid ((hall.within t id sid fun hin => hout hin.2).mp harmed))

/-- An action on the schedules of object `o` that leaves each of them with the timer it should have. -/
theorem Linked.put (h : Linked w) (ho : w.boxes[o]? = some b) (hg : EachKeeps b.id g) (status : BoxStatus)
    (htime : ∀ p s, s ∈ b.schedules → OnTime b.status s → OnTime status (g p s).2) :
    Linked (w.put o { b with status := status } (forEach g w.timers b.schedules)) := by
  have hb := List.mem_of_getElem? ho
  have hall := (h.timed b hb).keepsAll h.below hg
  exact h.set ho ((h.timed b hb).forEach h.below hg htime) rfl hall.below hall.within (hall.fresh (h.boxes b hb).2)

theorem Linked.pause (h : Linked w) (o : Nat) : Linked (w.pause o) := by
  rw [World.pause]
  cases ho : w.boxes[o]? with
  | none => exact h
  | some b =>
    dsimp only
    split
    · exact h
    · refine (h.put ho eachKeeps_stopTimer .paused fun p s _ _ => ?_).persistMetadata
        (h.boxes b (List.mem_of_getElem? ho)).1
      exact onTime_stop s (fun hboth => by cases hboth.1) p

theorem Linked.resume (h : Linked w) (o : Nat) : Linked (w.resume o) := by
  rw [World.resume]
  cases ho : w.boxes[o]? with
  | none => exact h
  | some b =>
    dsimp only
    split
    · exact h
    · refine (h.put ho eachKeeps_startActive .running fun p s _ hs => ?_).persistMetadata
        (h.boxes b (List.mem_of_getElem? ho)).1
      exact onTime_startActive hs p

theorem Linked.onSchedule (h : Linked w) (id : ScheduleId)
    {g : BoxId → Timers → RuntimeSchedule → Timers × RuntimeSchedule} (hg : ∀ box, EachKeeps box (g box))
    (htime : ∀ b ∈ w.boxes[o]?, id ∈ b.schedules.map (·.id) →
      ∀ p s, OnTime b.status s → OnTime b.status (g b.id p s).2) :
    Linked (w.onSchedule o id g) := by
  rw [World.onSchedule]
  cases ho : w.boxes[o]? with
  | none => exact h
  | some b =>
    dsimp only
    split
    · next hid =>
      have hput := h.put ho ((hg b.id).forId id) b.status fun p s _ hs =>
        onTime_forId hs p (htime b ho hid p s hs)
      have hmem : { b with schedules := (forEach (forId id (g b.id)) w.timers b.schedules).2 } ∈
          (w.put o b (forEach (forId id (g b.id)) w.timers b.schedules)).boxes :=
        List.mem_set (List.getElem?_eq_some_iff.mp ho).1 _
      exact hput.persist (hput.timed _ hmem).nodup (hput.boxes _ hmem).2
    · exact h

theorem Linked.schedulePause (h : Linked w) (o : Nat) (id : ScheduleId) : Linked (w.schedulePause o id) :=
  h.onSchedule id (fun _ _ _ hlinks hbelow => keeps_stopTimer hlinks hbelow .paused)
    fun _ _ _ p s _ => onTime_stop { s with status := .paused } (fun hboth => by cases hboth.2) p

theorem Linked.scheduleResume (h : Linked w) {o : Nat} {id : ScheduleId} (hfit : Fit w (.scheduleResume o id)) :
    Linked (w.scheduleResume o id) :=
  h.onSchedule id (fun _ _ _ hlinks hbelow => keeps_startTimer hlinks hbelow .active)
    fun b hb hid _ _ _ => iff_of_true rfl ⟨hfit b hb hid, rfl⟩

theorem Linked.fire (h : Linked w) (o : Nat) (id : ScheduleId) : Linked (w.fire o id) := by
  rw [World.fire]
  cases ho : w.boxes[o]? with
  | none => exact h
  | some b =>
    have hg : EachKeeps b.id fun p s => (p, { s with runs := s.runs + 1 }) :=
      fun p s hlinks hbelow => keeps_same hlinks hbelow rfl rfl
    exact h.put ho (hg.forId id) b.status fun p s _ hs => onTime_forId hs p hs

theorem Linked.scheduleDelete (h : Linked w) (o : Nat) (id : ScheduleId) : Linked (w.scheduleDelete o id) := by
  rw [World.scheduleDelete]
  cases ho : w.boxes[o]? with
  | none => exact h
  | some b =>
    have hb := List.mem_of_getElem? ho
    have htimed := h.timed b hb
    have hg : EachKeeps b.id (forId id stopTimer) := eachKeeps_stopTimer.forId id
    have hall := htimed.keepsAll h.below hg
    -- the schedule that goes has no timer any more, and the others have theirs
    have hgone : ∀ s ∈ (forEach (forId id stopTimer) w.timers b.schedules).2, s.id = id → s.timer = none := by
      refine forEach_forall (R := fun _ => True) (fun p s _ hid => ?_) fun _ _ => trivial
      rw [forId] at hid ⊢
      split at hid
      · rw [if_pos ‹_›]
        rfl
      · exact absurd hid ‹_›
    have hothers : ∀ s ∈ (forEach (forId id stopTimer) w.timers b.schedules).2, s.id ≠ id → OnTime b.status s := by
      refine forEach_forall (R := OnTime b.status) (fun p s hs hid => ?_) htimed.onTime
      rw [forId] at hid ⊢
      split at hid
      · exact absurd ‹_› hid
      · rwa [if_neg ‹_›]
    refine h.set ho ⟨fun s hs => hall.links s (List.mem_filter.mp hs).1, fun t sid harmed => ?_, ?_,
      fun s hs => ?_⟩ rfl hall.below hall.within fun s hs => ?_
    · obtain ⟨s, hs, rfl⟩ := List.mem_map.mp (htimed.owned_of_keepsAll hall t sid harmed)
      refine List.mem_map_of_mem (List.mem_filter.mpr ⟨hs, decide_eq_true fun hid => ?_⟩)
      have htimer := (hall.links s hs t).mp harmed
      rw [hgone s hs hid] at htimer
      cases htimer
    · have hids : ((forEach (forId id stopTimer) w.timers b.schedules).2.map (·.id)).Nodup :=
        hall.ids ▸ htimed.nodup
      exact hids.sublist (List.filter_sublist.map _)
    · obtain ⟨hs, hid⟩ := List.mem_filter.mp hs
      exact hothers s hs (of_decide_eq_true hid)
    · exact hall.fresh (h.boxes b hb).2 s (List.mem_filter.mp hs).1

theorem Linked.add (h : Linked w) {o : Nat} (kind : ScheduleKind)
    (hrunning : ∀ b ∈ w.boxes[o]?, b.status = .running) : Linked (w.add o kind) := by
  rw [World.add]
  cases ho : w.boxes[o]? with
  | none => exact h
  | some b =>
    have hb := List.mem_of_getElem? ho
    have hnew : w.fresh ∉ b.schedules.map (·.id) := fresh_notMem (h.boxes b hb).2
    have hlinks : Links w.timers b.id
        { id := w.fresh, kind := kind, status := .active, runs := 0, timer := none } := fun t =>
      iff_of_false (fun harmed => hnew ((h.timed b hb).owned t _ harmed)) fun htimer => by cases htimer
    have hone := keeps_startTimer hlinks h.below .active
    have htimed := (h.timed b hb).append hone hnew (iff_of_true rfl ⟨hrunning b ho, rfl⟩)
    have hfresh : ∀ s ∈ b.schedules ++ [(startTimer b.id w.timers
        { id := w.fresh, kind := kind, status := .active, runs := 0, timer := none }).2], s.id < w.fresh + 1 := by
      intro s hs
      rcases List.mem_append.mp hs with hs | hs
      · exact Nat.lt_succ_of_lt ((h.boxes b hb).2 s hs)
      · rw [List.mem_singleton.mp hs]
        exact Nat.lt_succ_self _
    dsimp only
    rw [mapSet_of_notMem hnew]
    exact (h.supply.set ho htimed rfl hone.below hone.within hfresh).persist htimed.nodup hfresh

theorem Linked.settle (h : Linked w) (o : Nat) : Linked (w.settle o) := by
  rw [World.settle]
  cases ho : w.boxes[o]? with
  | none => exact h
  | some b =>
    have hb := List.mem_of_getElem? ho
    exact h.persist (h.timed b hb).nodup (h.boxes b hb).2

theorem Linked.exit (h : Linked w) : Linked w.exit :=
  ⟨fun b hb => (by cases hb), fun t id sid harmed => (by cases harmed), fun t x harmed => (by cases harmed),
    List.nodup_nil, fun b hb => (by cases hb), h.metadata, h.files⟩

theorem Linked.step (h : Linked w) {a : Action} (hfit : Fit w a) : Linked (step w a) := by
  cases a with
  | create cloud => exact h.create cloud
  | get id => exact h.get hfit
  | pause o => exact h.pause o
  | resume o => exact h.resume o
  | scheduleExec o => exact h.add .exec hfit
  | scheduleAgent o => exact h.add .agent hfit
  | schedulePause o id => exact h.schedulePause o id
  | scheduleResume o id => exact h.scheduleResume hfit
  | scheduleDelete o id => exact h.scheduleDelete o id
  | fire o id => exact h.fire o id
  | settle o => exact h.settle o
  | exit => exact h.exit

theorem linked_start : Linked World.start :=
  ⟨fun b hb => (by cases hb), fun t id sid harmed => (by cases harmed), fun t x harmed => (by cases harmed),
    List.nodup_nil, fun b hb => (by cases hb), fun id hid => absurd rfl hid, fun id l hl => (by cases hl)⟩

/-! ### Runs -/

/-- A schedule has a timer exactly when its box is running, whichever object of the box is asked, and it is active itself; and then it has one. No timer is left of a schedule that is gone. -/
structure Punctual (w : World) : Prop where
  armed : ∀ a ∈ w.boxes, ∀ b ∈ w.boxes, a.id = b.id → ∀ s ∈ b.schedules,
    (∃ t, w.timers.armed t = some (b.id, s.id)) ↔ a.status = .running ∧ s.status = .active
  single : ∀ t t' x, w.timers.armed t = some x → w.timers.armed t' = some x → t = t'
  owned : ∀ t id sid, w.timers.armed t = some (id, sid) → ∃ b ∈ w.boxes, b.id = id ∧ ∃ s ∈ b.schedules, s.id = sid

theorem Linked.exists_schedule (h : Linked w) {t : TimerId} {id : BoxId} {sid : ScheduleId}
    (harmed : w.timers.armed t = some (id, sid)) : ∃ b ∈ w.boxes, b.id = id ∧ ∃ s ∈ b.schedules, s.id = sid := by
  obtain ⟨b, hb, rfl⟩ := List.mem_map.mp (h.owned t id sid harmed)
  exact ⟨b, hb, rfl, List.mem_map.mp ((h.timed b hb).owned t sid harmed)⟩

theorem Linked.punctual (h : Linked w) : Punctual w := by
  refine ⟨fun a ha b hb hid s hs => ?_, fun t t' x ht ht' => ?_, fun t id sid => h.exists_schedule⟩
  · obtain rfl : a = b := List.inj_on_of_nodup_map h.sole ha hb hid
    have htimer : (∃ t, w.timers.armed t = some (a.id, s.id)) ↔ s.timer.isSome = true := by
      rw [Option.isSome_iff_exists]
      exact exists_congr ((h.timed a ha).links s hs)
    exact htimer.trans ((h.timed a ha).onTime s hs)
  · obtain ⟨b, hb, hid, s, hs, hsid⟩ := h.exists_schedule ht
    have hx : x = (b.id, s.id) := Prod.ext hid.symm hsid.symm
    subst hx
    have hlinks := (h.timed b hb).links s hs
    exact Option.some.inj (((hlinks t).mp ht).symm.trans ((hlinks t').mp ht'))

/-- **Timers and statuses agree**, in every state of a run in which a schedule is added or resumed in a running box only, and `Box.get` is called for a box that has no object in the process, and no active schedule unless it is running. -/
theorem armed_iff_active (actions : List Action) (hfit : Lts.EveryStep step Fit World.start actions) :
    Lts.Always step Punctual World.start actions := by
  intro pre post hsplit
  have halways := Lts.always_of_invariant Linked (fun w a (h : Linked w) hfit => h.step hfit) linked_start hfit
  exact (halways pre post hsplit).punctual

/-- A box with two schedules that is paused, resumed and, with one of them paused, reopened by another process. -/
def reopened : List Action :=
  [.create false, .scheduleExec 0, .scheduleAgent 0, .pause 0, .resume 0, .schedulePause 0 1, .fire 0 2, .settle 0,
    .exit, .get 0, .scheduleResume 0 1, .pause 0, .scheduleDelete 0 2, .settle 0]

theorem armed_iff_active_reopened : Lts.Always step Punctual World.start reopened :=
  armed_iff_active reopened (by decide)

theorem not_punctual {t : TimerId} (hb : b ∈ w.boxes) (hs : s ∈ b.schedules)
    (harmed : w.timers.armed t = some (b.id, s.id)) (hpaused : b.status ≠ .running) : ¬ Punctual w :=
  fun h => hpaused ((h.armed b hb b hb rfl s hs).mp ⟨t, harmed⟩).1

/-- A paused box runs the schedule that it is given, that is resumed, or that it is reopened with, and a box that is opened twice runs its schedule twice. -/
theorem paused_armed :
    ¬ Punctual (Lts.run step World.start [.create false, .pause 0, .scheduleExec 0]) ∧
      ¬ Punctual (Lts.run step World.start [.create false, .scheduleExec 0, .pause 0, .scheduleResume 0 1]) ∧
      ¬ Punctual (Lts.run step World.start [.create false, .scheduleExec 0, .pause 0, .exit, .get 0]) ∧
      ¬ Punctual (Lts.run step World.start [.create false, .scheduleExec 0, .get 0]) := by
  refine ⟨not_punctual (b := ⟨0, false, .paused, [⟨⟨1, .exec, .active, 0⟩, some 0⟩]⟩) (t := 0)
      (by decide) (List.mem_singleton_self _) (by decide) (by decide),
    not_punctual (b := ⟨0, false, .paused, [⟨⟨1, .exec, .active, 0⟩, some 1⟩]⟩) (t := 1)
      (by decide) (List.mem_singleton_self _) (by decide) (by decide),
    not_punctual (b := ⟨0, false, .paused, [⟨⟨1, .exec, .active, 0⟩, some 1⟩]⟩) (t := 1)
      (by decide) (List.mem_singleton_self _) (by decide) (by decide), fun h => ?_⟩
  have htwo := h.single 0 1 (0, 1) (by decide) (by decide)
  cases htwo

end ActantDb.Boxes
