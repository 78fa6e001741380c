import ActantDb.Lib.Stable
import ActantDb.Mcp.ReadTools

/-!
# The most recent runs

The loop of `listRuns` has one exact entry for each run of the events that it reads. A run can be listed when fewer runs than are asked for start later, going by those events. The list is right in whatever order runs of one time come exactly when each run that can be listed is complete there, and no run that begins later on starts later. The same cut makes `queryPredicate` miss matches.
-/

namespace ActantDb

namespace Mcp

namespace Tools

/-! ### What a query reads -/

section Reading

variable {ledger : Workspace} {events rest : List LedgerRow} {e : LedgerRow} {runId : String}

theorem query_eq (selects : LedgerRow → Bool) (limit : Nat) :
    query ledger selects limit =
      if limit = 0 then (history ledger).filter selects else ((history ledger).filter selects).take limit := by
  have htotal : Std.Total fun a b : LedgerRow => a.id ≤ b.id := ⟨fun a b => le_total a.id b.id⟩
  have htrans : IsTrans LedgerRow fun a b => a.id ≤ b.id := ⟨fun a b c => le_trans⟩
  have hhistory : history ledger = ledger.rows.insertionSort fun a b => a.id ≤ b.id := by
    rw [history, query, if_pos rfl, List.filter_true]
  rw [query, hhistory, Stable.filter_insertionSort]

/-- The query of the ledger, with the times left out. -/
theorem map_query {l : Ledger} (hrows : l.events.rows = ledger.rows.map LedgerRow.toActantEvent) {filter : LedgerFilter}
    {limit : Nat} (hlimit : filter.limit = some limit) :
    (query ledger (fun e => filter.selects e.toActantEvent) limit).map LedgerRow.toActantEvent = l.select filter := by
  have hsort : ∀ rows : List LedgerRow, (rows.insertionSort fun a b => a.id ≤ b.id).map LedgerRow.toActantEvent =
      (rows.map LedgerRow.toActantEvent).insertionSort fun a b => a.id ≤ b.id := fun rows =>
    List.map_insertionSort _ _ _ rows fun _ _ _ _ => Iff.rfl
  have hfilter : l.events.rows.filter filter.selects =
      (ledger.rows.filter fun e => filter.selects e.toActantEvent).map LedgerRow.toActantEvent := by
    rw [hrows, List.filter_map]
    rfl
  rw [query, Ledger.select, hlimit, hfilter, ← hsort]
  cases limit with
  | zero => rfl
  | succ n => rw [if_neg n.succ_ne_zero, List.map_take]

theorem query_all (limit : Nat) :
    query ledger (fun _ => true) limit = if limit = 0 then history ledger else (history ledger).take limit := by
  rw [query_eq, List.filter_true]

@[simp] theorem mem_runIds : runId ∈ runIds events ↔ ∃ e ∈ events, e.runId = runId := by
  rw [runIds, List.mem_dedup, List.mem_map]

theorem runId_mem (he : e ∈ events) : e.runId ∈ runIds events := mem_runIds.mpr ⟨e, he, rfl⟩

theorem eventsOf_append : eventsOf (events ++ rest) runId = eventsOf events runId ++ eventsOf rest runId :=
  List.filter_append ..

theorem eventsOf_eq_nil (h : ¬ runId ∈ runIds events) : eventsOf events runId = [] := by
  rw [eventsOf, List.filter_eq_nil_iff]
  intro e he heq
  exact h (mem_runIds.mpr ⟨e, he, of_decide_eq_true heq⟩)

theorem least_nil {κ : Type} [LinearOrder κ] : least ([] : List κ) = ⊤ := List.minimum_nil

theorem least_singleton {κ : Type} [LinearOrder κ] (key : κ) : least [key] = key := List.minimum_singleton key

theorem least_append {κ : Type} [LinearOrder κ] (keys others : List κ) :
    least (keys ++ others) = min (least keys) (least others) := List.minimum_append keys others

theorem startOf_append : startOf (events ++ rest) runId = min (startOf events runId) (startOf rest runId) := by
  rw [startOf, eventsOf_append, List.map_append, least_append, ← startOf, ← startOf]

theorem startOf_eq_top (h : ¬ runId ∈ runIds events) : startOf events runId = ⊤ := by
  rw [startOf, eventsOf_eq_nil h, List.map_nil, least_nil]

/-! ### Runs -/

variable {runs : List RunEntry} {run : RunEntry}

/-- An entry stays exact when no event of its run is added. -/
theorem exact_append_iff (h : ¬ run.runId ∈ runIds rest) : Exact (events ++ rest) run ↔ Exact events run := by
  have hevents : eventsOf (events ++ rest) run.runId = eventsOf events run.runId := by
    rw [eventsOf_append, eventsOf_eq_nil h, List.append_nil]
  have hstart : startOf (events ++ rest) run.runId = startOf events run.runId := by
    rw [startOf, hevents, startOf]
  constructor
  · intro ⟨hcount, hfirst⟩
    exact ⟨by rwa [hevents] at hcount, by rwa [hstart] at hfirst⟩
  · intro ⟨hcount, hfirst⟩
    exact ⟨by rwa [hevents], by rwa [hstart]⟩

/-- No entry is exact both before and after an event of its run. -/
theorem Exact.not_mem (h : Exact events run) (h' : Exact (events ++ rest) run) (he : e ∈ rest) : e.runId ≠ run.runId := by
  intro heq
  have hmem : e ∈ eventsOf rest run.runId := List.mem_filter.mpr ⟨he, decide_eq_true heq⟩
  have hlength := h'.count
  rw [eventsOf_append, List.length_append, ← h.count] at hlength
  have hpos := List.length_pos_of_mem hmem
  omega

/-- One exact entry for each run. -/
structure Tallied (events : List LedgerRow) (runs : List RunEntry) : Prop where
  nodup : (runs.map RunEntry.runId).Nodup
  mem_iff : ∀ runId, runId ∈ runs.map RunEntry.runId ↔ runId ∈ runIds events
  exact : ∀ run ∈ runs, Exact events run

theorem mem_runIds_concat : runId ∈ runIds (events ++ [e]) ↔ runId ∈ runIds events ∨ runId = e.runId := by
  simp only [mem_runIds, List.mem_append, List.mem_singleton]
  constructor
  · rintro ⟨other, hother | rfl, heq⟩
    · exact Or.inl ⟨other, hother, heq⟩
    · exact Or.inr heq.symm
  · rintro (⟨other, hother, heq⟩ | rfl)
    · exact ⟨other, Or.inl hother, heq⟩
    · exact ⟨e, Or.inr rfl, rfl⟩

theorem startOf_concat_self : startOf (events ++ [e]) e.runId = min (startOf events e.runId) (units e.createdAt) := by
  have hlast : startOf [e] e.runId = units e.createdAt := by simp [startOf, eventsOf, least_singleton]
  rw [startOf_append, hlast]

theorem length_eventsOf_concat_self : (eventsOf (events ++ [e]) e.runId).length = (eventsOf events e.runId).length + 1 := by
  simp [eventsOf]

theorem Exact.addEvent (h : Exact events run) (heq : run.runId = e.runId) : Exact (events ++ [e]) (run.addEvent e) := by
  refine ⟨?_, ?_⟩
  · show run.eventCount + 1 = (eventsOf (events ++ [e]) run.runId).length
    rw [heq, length_eventsOf_concat_self, h.count, heq]
  · show startOf (events ++ [e]) run.runId = units (if units e.createdAt < units run.startedAt then e.createdAt else run.startedAt)
    rw [heq, startOf_concat_self, ← heq, h.start, ← WithTop.coe_min]
    split
    · rename_i hlt
      rw [min_eq_right hlt.le]
    · rename_i hlt
      rw [min_eq_left (not_lt.mp hlt)]

/-- The first event of a run. -/
theorem exact_first (h : ¬ e.runId ∈ runIds events) : Exact (events ++ [e]) ⟨e.runId, e.createdAt, 1⟩ := by
  refine ⟨?_, ?_⟩
  · show 1 = (eventsOf (events ++ [e]) e.runId).length
    rw [length_eventsOf_concat_self, eventsOf_eq_nil h, List.length_nil]
  · show startOf (events ++ [e]) e.runId = units e.createdAt
    rw [startOf_concat_self, startOf_eq_top h, min_eq_right le_top]

/-- An entry of another run stays exact. -/
theorem Exact.concat (h : Exact events run) (hne : run.runId ≠ e.runId) : Exact (events ++ [e]) run := by
  apply (exact_append_iff _).mpr h
  intro hmem
  obtain ⟨other, hother, heq⟩ := mem_runIds.mp hmem
  rw [List.mem_singleton.mp hother] at heq
  exact hne heq.symm

theorem Tallied.countEvent (h : Tallied events runs) (e : LedgerRow) : Tallied (events ++ [e]) (countEvent runs e) := by
  unfold Tools.countEvent
  split
  · rename_i hany
    obtain ⟨known, hknown, hsame⟩ := List.any_eq_true.mp hany
    have hkeys : (runs.map fun cur => if cur.runId = e.runId then cur.addEvent e else cur).map RunEntry.runId =
        runs.map RunEntry.runId := by
      rw [List.map_map]
      apply List.map_congr_left
      intro cur _
      rw [Function.comp_apply]
      split <;> rfl
    refine ⟨by rw [hkeys]; exact h.nodup, fun runId => ?_, fun run hrun => ?_⟩
    · rw [hkeys, h.mem_iff, mem_runIds_concat, or_iff_left_of_imp]
      rintro rfl
      exact (h.mem_iff _).mp (List.mem_map.mpr ⟨known, hknown, of_decide_eq_true hsame⟩)
    · obtain ⟨cur, hcur, rfl⟩ := List.mem_map.mp hrun
      split
      · rename_i heq
        exact (h.exact cur hcur).addEvent heq
      · rename_i hne
        exact (h.exact cur hcur).concat hne
  · rename_i hany
    have hnew : ∀ run ∈ runs, run.runId ≠ e.runId := fun run hrun heq =>
      hany (List.any_eq_true.mpr ⟨run, hrun, decide_eq_true heq⟩)
    have hnone : ¬ e.runId ∈ runs.map RunEntry.runId := by
      intro hmem
      obtain ⟨run, hrun, heq⟩ := List.mem_map.mp hmem
      exact hnew run hrun heq
    refine ⟨?_, fun runId => ?_, fun run hrun => ?_⟩
    · rw [List.map_append, List.map_singleton]
      refine List.nodup_append.mpr ⟨h.nodup, List.nodup_singleton _, fun a ha b hb heq => hnone ?_⟩
      have hb : b = e.runId := List.mem_singleton.mp hb
      rwa [← hb, ← heq]
    · rw [List.map_append, List.mem_append, h.mem_iff, mem_runIds_concat, List.map_singleton, List.mem_singleton]
    · rcases List.mem_append.mp hrun with hrun | hrun
      · exact (h.exact run hrun).concat (hnew run hrun)
      · rw [List.mem_singleton.mp hrun]
        exact exact_first fun hmem => hnone ((h.mem_iff _).mpr hmem)

/-- **The loop counts every run.** -/
theorem tallied_byRun (events : List LedgerRow) : Tallied events (byRun events) := by
  induction events using List.reverseRecOn with
  | nil => exact ⟨List.nodup_nil, fun runId => by simp [byRun], fun run hrun => absurd hrun List.not_mem_nil⟩
  | append_singleton events e ih =>
    rw [byRun, List.foldl_append]
    exact ih.countEvent e

theorem Tallied.perm_runIds (h : Tallied events runs) : (runIds events).Perm (runs.map RunEntry.runId) :=
  (List.perm_ext_iff_of_nodup (List.nodup_dedup _) h.nodup).mpr fun runId => (h.mem_iff runId).symm

theorem Tallied.length_runIds (h : Tallied events runs) : (runIds events).length = runs.length := by
  rw [h.perm_runIds.length_eq, List.length_map]

theorem Tallied.listable_iff (h : Tallied events runs) (hrun : run ∈ runs) {limit : Nat} :
    Listable events limit run.runId ↔ Ranking.ahead (fun run => units run.startedAt) runs run < limit := by
  have hahead : Ranking.ahead (startOf events) (runs.map RunEntry.runId) run.runId =
      Ranking.ahead (fun run => units run.startedAt) runs run := by
    apply Ranking.ahead_map RunEntry.runId
    intro other hother
    rw [(h.exact run hrun).start, (h.exact other hother).start, WithTop.coe_lt_coe]
  rw [Listable, Ranking.ahead_perm h.perm_runIds, hahead]

variable {read : List LedgerRow} {limit : Nat} {sort : List RunEntry → List RunEntry}

/-- What is listed of the events that are read is right when they cover what matters. -/
theorem RunsCovered.mostRecent (h : RunsCovered read rest limit) (hsorts : Sorts sort) :
    MostRecent (read ++ rest) limit ((sort (byRun read)).take limit) := by
  have htally := tallied_byRun read
  have hranked := hsorts (byRun read)
  have hlength : (sort (byRun read)).length = (runIds read).length := by
    rw [hranked.perm.length_eq, htally.length_runIds]
  have hlisted : ∀ run ∈ (sort (byRun read)).take limit, Exact read run ∧ Listable read limit run.runId := by
    intro run hrun
    have hmem := hranked.mem_iff.mp (List.mem_of_mem_take hrun)
    exact ⟨htally.exact run hmem, (htally.listable_iff hmem).mpr (hranked.ahead_lt hrun)⟩
  have hread : ∀ run ∈ (sort (byRun read)).take limit, run.runId ∈ runIds read := by
    intro run hrun
    exact (htally.mem_iff _).mp (List.mem_map_of_mem (hranked.mem_iff.mp (List.mem_of_mem_take hrun)))
  refine ⟨?_, fun run hrun => ?_, List.length_take_le _ _, fun runId hrunId hout => ?_⟩
  · have hnodup := (hranked.perm.map RunEntry.runId).nodup_iff.mpr htally.nodup
    exact hnodup.sublist ((List.take_sublist limit _).map _)
  · apply (exact_append_iff _).mpr (hlisted run hrun).1
    intro hmem
    obtain ⟨e, he, heq⟩ := mem_runIds.mp hmem
    exact (h.covered _ (hread run hrun) (hlisted run hrun).2 e he).1 heq
  · rw [List.length_take, hlength]
    by_cases hknown : runId ∈ runIds read
    · obtain ⟨entry, hentry, rfl⟩ := List.mem_map.mp ((htally.mem_iff runId).mpr hknown)
      have hleft : ¬ entry ∈ (sort (byRun read)).take limit := fun hmem => hout (List.mem_map_of_mem hmem)
      refine ⟨?_, fun run hrun => ?_⟩
      · have hmore : limit < (runIds read).length := by
          by_contra hfew
          rw [List.take_of_length_le (by omega)] at hleft
          exact hleft (hranked.mem_iff.mpr hentry)
        omega
      · rw [startOf_append]
        apply (min_le_left _ _).trans
        rw [(htally.exact entry hentry).start, WithTop.coe_le_coe]
        exact hranked.le_of_not_mem_take hentry hleft hrun
    · obtain ⟨e, he, rfl⟩ := mem_runIds.mp hrunId
      have hrest : e ∈ rest := (List.mem_append.mp he).resolve_left fun hmem => hknown (runId_mem hmem)
      refine ⟨?_, fun run hrun => ?_⟩
      · have henough := h.enough.resolve_left (List.ne_nil_of_mem hrest)
        omega
      · rw [startOf_append, ← (hlisted run hrun).1.start]
        exact (min_le_right _ _).trans ((h.covered _ (hread run hrun) (hlisted run hrun).2 e hrest).2 hknown)

/-- If it is right in whatever order the runs come, nothing that matters is cut off. -/
theorem runsCovered_of_mostRecent
    (h : ∀ sort, Sorts sort → MostRecent (read ++ rest) limit ((sort (byRun read)).take limit)) :
    RunsCovered read rest limit := by
  have htally := tallied_byRun read
  have hinsertion := Ranking.ranked_insertionSort fun run : RunEntry => units run.startedAt
  have hunread : ∀ {sort}, Sorts sort → ∀ runId, ¬ runId ∈ runIds read →
      ¬ runId ∈ ((sort (byRun read)).take limit).map RunEntry.runId := by
    intro sort hsorts runId hnot hmem
    obtain ⟨run, hrun, rfl⟩ := List.mem_map.mp hmem
    exact hnot ((htally.mem_iff _).mp (List.mem_map_of_mem ((hsorts _).mem_iff.mp (List.mem_of_mem_take hrun))))
  refine ⟨?_, fun runId hrunId hlistable e he => ?_⟩
  · by_contra hshort
    obtain ⟨hrest, hfew⟩ := not_or.mp hshort
    obtain ⟨e, he⟩ := List.exists_mem_of_ne_nil _ hrest
    have hrecent := h _ hinsertion
    have hlength := List.length_take_le' limit ((byRun read).insertionSort fun a b => units b.startedAt ≤ units a.startedAt)
    rw [List.length_insertionSort, ← htally.length_runIds] at hlength
    by_cases hknown : e.runId ∈ runIds read
    · -- its run is listed, with too few events
      obtain ⟨run, hrun, heq⟩ := List.mem_map.mp ((htally.mem_iff _).mpr hknown)
      refine (htally.exact run hrun).not_mem (hrecent.exact run ?_) he heq.symm
      rw [List.take_of_length_le]
      · exact (hinsertion _).mem_iff.mpr hrun
      · rw [List.length_insertionSort, ← htally.length_runIds]
        omega
    · have hfull := (hrecent.recent _ (runId_mem (List.mem_append_right _ he)) (hunread hinsertion _ hknown)).1
      omega
  · obtain ⟨run, hrun, rfl⟩ := List.mem_map.mp ((htally.mem_iff runId).mpr hrunId)
    obtain ⟨sorted, hranked, htaken⟩ := Ranking.exists_ranked hrun ((htally.listable_iff hrun).mp hlistable)
    obtain ⟨sort, hsorts, hsort⟩ : ∃ sort, Sorts sort ∧ sort (byRun read) = sorted := by
      refine ⟨fun runs => if runs = byRun read then sorted else
        runs.insertionSort fun a b => units b.startedAt ≤ units a.startedAt, fun runs => ?_, if_pos rfl⟩
      dsimp only
      split
      · rename_i heq
        rw [heq]
        exact hranked
      · exact hinsertion runs
    have hrecent := h sort hsorts
    have hunread := hunread hsorts e.runId
    rw [hsort] at hrecent hunread
    refine ⟨(htally.exact run hrun).not_mem (hrecent.exact run htaken) he, fun hnot => ?_⟩
    have hle := (hrecent.recent _ (runId_mem (List.mem_append_right _ he)) (hunread hnot)).2 run htaken
    rwa [startOf_append, startOf_eq_top hnot, min_eq_right le_top, ← (htally.exact run hrun).start] at hle

/-- **The runs are the most recent ones** exactly when the events that are read cover what matters. -/
theorem listRuns_iff (ledger : Workspace) (limit : Option F64) :
    (∀ sort, Sorts sort → MostRecent (history ledger) (clampLimit limit) (listRuns sort ledger limit)) ↔
      RunsCovered ((history ledger).take (clampLimit limit * 50)) ((history ledger).drop (clampLimit limit * 50))
        (clampLimit limit) := by
  simp only [listRuns, query_all]
  generalize clampLimit limit = limit
  by_cases hlimit : limit = 0
  · subst hlimit
    refine iff_of_true (fun sort _ => ?_) ⟨Or.inr (Nat.zero_le _), fun _ _ hlistable => absurd hlistable (Nat.not_lt_zero _)⟩
    rw [List.take_zero]
    exact ⟨List.nodup_nil, fun run hrun => absurd hrun List.not_mem_nil, le_refl _,
      fun _ _ _ => ⟨rfl, fun run hrun => absurd hrun List.not_mem_nil⟩⟩
  · rw [if_neg (by omega)]
    nth_rewrite 1 [← List.take_append_drop (limit * 50) (history ledger)]
    exact ⟨runsCovered_of_mostRecent, fun h sort hsorts => h.mostRecent hsorts⟩

/-! ### Matches -/

variable {evaluate : LedgerRow → Bool} {found : List LedgerRow}

/-- The loop looks at its limit only when it has found something. -/
theorem collect_eq (h : found.length < max limit 1) :
    collect evaluate limit found events = found ++ (events.filter evaluate).take (max limit 1 - found.length) := by
  induction events generalizing found with
  | nil => rw [collect, List.filter_nil, List.take_nil, List.append_nil]
  | cons e rest ih =>
    rw [collect]
    by_cases he : evaluate e = true
    · obtain ⟨n, hn⟩ := Nat.exists_eq_succ_of_ne_zero (Nat.sub_ne_zero_of_lt h)
      rw [if_pos he, List.filter_cons_of_pos he, hn, List.take_succ_cons, List.length_append, List.length_singleton]
      split
      · rename_i hfull
        have hzero : n = 0 := by omega
        rw [hzero, List.take_zero]
      · rename_i hmore
        have hlength : (found ++ [e]).length = found.length + 1 := List.length_append
        rw [ih (by omega), hlength, List.append_assoc, List.singleton_append]
        have hrest : max limit 1 - (found.length + 1) = n := by omega
        rw [hrest]
    · rw [if_neg he, List.filter_cons_of_neg he, ih h]

/-- **The matches are the first ones** exactly when the events that are read have enough of them, or all. -/
theorem queryPredicate_iff (ledger : Workspace) (topic : String) (evaluate : LedgerRow → Bool) (limit : Option F64) :
    queryPredicate ledger topic evaluate limit =
        (((history ledger).filter (ofTopic topic)).filter evaluate).take (clampLimit limit) ↔
      MatchesCovered (((history ledger).filter (ofTopic topic)).take (clampLimit limit * 10))
        (((history ledger).filter (ofTopic topic)).drop (clampLimit limit * 10)) evaluate (clampLimit limit) := by
  rw [queryPredicate, query_eq]
  generalize clampLimit limit = limit
  generalize (history ledger).filter (ofTopic topic) = events
  rw [collect_eq (Nat.lt_of_lt_of_le Nat.zero_lt_one (le_max_right _ _)), List.nil_append, List.length_nil, Nat.sub_zero,
    MatchesCovered]
  by_cases hlimit : limit = 0
  · subst hlimit
    rw [if_pos (Nat.zero_mul 10), List.take_zero, List.take_eq_nil_iff, or_iff_right (by omega), List.filter_eq_nil_iff,
      Nat.zero_mul, List.drop_zero, or_iff_left (fun h => absurd h.1 (Nat.lt_irrefl 0))]
    simp
  · rw [if_neg (by omega), max_eq_left (by omega), and_iff_right (by omega)]
    nth_rewrite 2 [← List.take_append_drop (limit * 10) events]
    generalize events.take (limit * 10) = read
    generalize events.drop (limit * 10) = rest
    have hnone : rest.filter evaluate = [] ↔ ∀ e ∈ rest, evaluate e = false := by
      rw [List.filter_eq_nil_iff]
      simp
    have hself : ∀ more : List LedgerRow,
        (read.filter evaluate).take limit = (read.filter evaluate).take limit ++ more ↔ more = [] := fun more => List.self_eq_append_right
    rw [List.filter_append, List.take_append, hself, List.take_eq_nil_iff, hnone, ← List.countP_eq_length_filter,
      Nat.sub_eq_zero_iff_le, or_comm]

end Reading

end Tools

end Mcp

end ActantDb
