import ActantDb.Mcp.RecentRuns

/-!
# The summary of a workspace

Both `getWorkspaceSummary` and `listPendingApprovals` throw at a payload that is `null`, but the list reads no payload of a decision in that way and is never cut off. The two agree with each other and with the ledger exactly when the summary reads all events and throws at none.
-/

namespace ActantDb

namespace Mcp

namespace Tools

section Reading

variable {ledger : Workspace} {events : List LedgerRow}

/-! ### Loops that can throw -/

/-- A loop whose body throws at some items only ends when it meets none of them. -/
theorem foldlM_eq_ok {σ α : Type} {f : σ → α → Except Thrown σ} {g : σ → α → σ} {readable : α → Prop}
    (h : ∀ s a s', f s a = .ok s' ↔ readable a ∧ s' = g s a) (l : List α) (s s' : σ) :
    l.foldlM f s = .ok s' ↔ (∀ a ∈ l, readable a) ∧ s' = l.foldl g s := by
  induction l generalizing s with
  | nil =>
    rw [List.foldlM_nil, List.foldl_nil]
    simp [pure, Except.pure, eq_comm]
  | cons a l ih =>
    rw [List.foldlM_cons, bind_eq_ok, List.foldl_cons, List.forall_mem_cons]
    constructor
    · rintro ⟨t, ht, hrest⟩
      obtain ⟨ha, rfl⟩ := (h s a t).mp ht
      obtain ⟨hl, hs'⟩ := (ih _).mp hrest
      exact ⟨⟨ha, hl⟩, hs'⟩
    · rintro ⟨⟨ha, hl⟩, hs'⟩
      exact ⟨g s a, (h s a _).mpr ⟨ha, rfl⟩, (ih _).mpr ⟨hl, hs'⟩⟩

theorem mapM_eq_ok {α β : Type} {f : α → Except Thrown β} {g : α → β} {readable : α → Prop}
    (h : ∀ a b, f a = .ok b ↔ readable a ∧ b = g a) (l : List α) (l' : List β) :
    l.mapM f = .ok l' ↔ (∀ a ∈ l, readable a) ∧ l' = l.map g := by
  induction l generalizing l' with
  | nil =>
    rw [List.mapM_nil, List.map_nil]
    simp [pure, Except.pure, eq_comm]
  | cons a l ih =>
    rw [List.mapM_cons, bind_eq_ok, List.map_cons, List.forall_mem_cons]
    constructor
    · rintro ⟨b, hb, hrest⟩
      obtain ⟨ha, rfl⟩ := (h a b).mp hb
      obtain ⟨rest, hmap, hrest⟩ := bind_eq_ok.mp hrest
      obtain ⟨hl, rfl⟩ := (ih rest).mp hmap
      cases hrest
      exact ⟨⟨ha, hl⟩, rfl⟩
    · rintro ⟨⟨ha, hl⟩, rfl⟩
      refine ⟨g a, (h a _).mpr ⟨ha, rfl⟩, ?_⟩
      exact bind_eq_ok.mpr ⟨l.map g, (ih _).mpr ⟨hl, rfl⟩, rfl⟩

theorem read_eq_ok {v w : JsValue} {key : String} : v.read key = .ok w ↔ Replay.isNull v = false ∧ w = v.get key := by
  cases v <;> simp [JsValue.read, Replay.isNull, eq_comm]

/-! ### The summary -/

/-- The event can be read if it is of the kind. -/
def Readable (kind : EventKind) (e : LedgerRow) : Prop := e.kind = kind → Replay.isNull e.payload = false

def Seen.next (seen : Seen) (e : LedgerRow) : Seen :=
  if e.kind = .approvalDecision then
    ((seen.addSession e.runId).addDecided (e.payload.get "tool_call_id")).addActor (e.payload.get "approver")
  else seen.addSession e.runId

theorem addEvent_eq_ok (seen : Seen) (e : LedgerRow) (seen' : Seen) :
    seen.addEvent e = .ok seen' ↔ Readable .approvalDecision e ∧ seen' = seen.next e := by
  unfold Seen.addEvent Seen.next Readable
  by_cases hkind : e.kind = .approvalDecision
  · rw [if_pos hkind, if_pos hkind, forall_prop_of_true hkind]
    constructor
    · intro h
      obtain ⟨toolCallId, hid, h⟩ := bind_eq_ok.mp h
      obtain ⟨approver, happrover, h⟩ := bind_eq_ok.mp h
      obtain ⟨hnull, rfl⟩ := read_eq_ok.mp hid
      obtain ⟨-, rfl⟩ := read_eq_ok.mp happrover
      cases h
      exact ⟨hnull, rfl⟩
    · rintro ⟨hnull, rfl⟩
      refine bind_eq_ok.mpr ⟨_, read_eq_ok.mpr ⟨hnull, rfl⟩, ?_⟩
      exact bind_eq_ok.mpr ⟨_, read_eq_ok.mpr ⟨hnull, rfl⟩, rfl⟩
  · rw [if_neg hkind, if_neg hkind, forall_prop_of_false hkind, true_and]
    exact ⟨fun h => by cases h; rfl, fun h => by rw [h]; rfl⟩

/-- The tool calls that are decided, as the list of the approvals has them. -/
def decidedIn (events : List LedgerRow) : List JsValue :=
  ((events.filter fun e => e.kind = .approvalDecision).map fun e => e.payload.get "tool_call_id").filter JsValue.truthy

/-- What the first loop has seen. -/
structure HasSeen (events : List LedgerRow) (seen : Seen) : Prop where
  nodup : seen.sessions.Nodup
  mem_iff : ∀ runId, runId ∈ seen.sessions ↔ runId ∈ runIds events
  decided : seen.decided = decidedIn events

@[simp] theorem addSession_decided (seen : Seen) (runId : String) : (seen.addSession runId).decided = seen.decided := by
  unfold Seen.addSession
  split <;> rfl

@[simp] theorem addActor_decided (seen : Seen) (v : JsValue) : (seen.addActor v).decided = seen.decided := by
  unfold Seen.addActor
  split <;> rfl

theorem addDecided_decided (seen : Seen) (v : JsValue) :
    (seen.addDecided v).decided = seen.decided ++ [v].filter JsValue.truthy := by
  unfold Seen.addDecided
  split
  · rename_i htruthy
    rw [List.filter_singleton, htruthy]
    rfl
  · rename_i hfalse
    rw [List.filter_singleton, Bool.eq_false_of_not_eq_true hfalse]
    simp

theorem next_sessions (seen : Seen) (e : LedgerRow) : (seen.next e).sessions = (seen.addSession e.runId).sessions := by
  unfold Seen.next
  split
  · unfold Seen.addActor Seen.addDecided
    split <;> split <;> rfl
  · rfl

theorem HasSeen.next {seen : Seen} (h : HasSeen events seen) (e : LedgerRow) : HasSeen (events ++ [e]) (seen.next e) := by
  refine ⟨?_, fun runId => ?_, ?_⟩
  · rw [next_sessions, Seen.addSession]
    split
    · exact h.nodup
    · rename_i hnew
      exact List.nodup_append.mpr ⟨h.nodup, List.nodup_singleton _, fun a ha b hb heq =>
        hnew (by rwa [← List.mem_singleton.mp hb, ← heq])⟩
  · rw [next_sessions, mem_runIds_concat, ← h.mem_iff, Seen.addSession]
    split
    · rename_i hknown
      rw [or_iff_left_of_imp]
      rintro rfl
      exact hknown
    · rw [List.mem_append, List.mem_singleton]
  · rw [decidedIn, List.filter_append, List.map_append, List.filter_append, ← decidedIn, ← h.decided, Seen.next]
    split
    · rename_i hkind
      have hone : ([e].filter fun e => e.kind = .approvalDecision) = [e] := List.filter_eq_self.mpr (by simpa using hkind)
      rw [addActor_decided, addDecided_decided, addSession_decided, hone, List.map_singleton]
    · rename_i hkind
      rw [addSession_decided, List.filter_cons_of_neg (by rwa [decide_eq_true_eq])]
      simp

/-- **The first loop sees every session and every decision.** -/
theorem hasSeen_foldl (events : List LedgerRow) : HasSeen events (events.foldl Seen.next .empty) := by
  induction events using List.reverseRecOn with
  | nil => exact ⟨List.nodup_nil, fun runId => by simp [Seen.empty], rfl⟩
  | append_singleton events e ih =>
    rw [List.foldl_append]
    exact ih.next e

theorem HasSeen.length_sessions {seen : Seen} (h : HasSeen events seen) : seen.sessions.length = (runIds events).length :=
  ((List.perm_ext_iff_of_nodup h.nodup (List.nodup_dedup _)).mpr h.mem_iff).length_eq

/-- The event asks for an approval that is not decided. -/
def isPending (decided : List JsValue) (e : LedgerRow) : Bool :=
  e.kind = .approvalRequired && ((e.payload.get "tool_call_id").truthy && !has decided (e.payload.get "tool_call_id"))

theorem addPending_eq_ok (decided : List JsValue) (pending : Nat) (e : LedgerRow) (pending' : Nat) :
    addPending decided pending e = .ok pending' ↔
      Readable .approvalRequired e ∧ pending' = if isPending decided e then pending + 1 else pending := by
  unfold addPending isPending Readable
  by_cases hkind : e.kind = .approvalRequired
  · rw [if_pos hkind, forall_prop_of_true hkind, decide_eq_true hkind, Bool.true_and]
    constructor
    · intro h
      obtain ⟨toolCallId, hid, h⟩ := bind_eq_ok.mp h
      obtain ⟨hnull, rfl⟩ := read_eq_ok.mp hid
      cases h
      exact ⟨hnull, rfl⟩
    · rintro ⟨hnull, rfl⟩
      exact bind_eq_ok.mpr ⟨_, read_eq_ok.mpr ⟨hnull, rfl⟩, rfl⟩
  · rw [if_neg hkind, forall_prop_of_false hkind, true_and, decide_eq_false hkind, Bool.false_and]
    exact ⟨fun h => by cases h; rfl, fun h => by rw [h]; rfl⟩

theorem foldl_pending (decided : List JsValue) (events : List LedgerRow) (pending : Nat) :
    events.foldl (fun pending e => if isPending decided e then pending + 1 else pending) pending =
      pending + events.countP (isPending decided) := by
  induction events generalizing pending with
  | nil => rfl
  | cons e events ih =>
    rw [List.foldl_cons, ih, List.countP_cons]
    split <;> omega

/-- The summary counts in the events that it reads. -/
theorem getWorkspaceSummary_eq_ok {summary : Summary} :
    getWorkspaceSummary ledger = .ok summary ↔
      (∀ e ∈ query ledger (fun _ => true) (maxLimit * 10), Readable .approvalDecision e ∧ Readable .approvalRequired e) ∧
        summary = ⟨(runIds (query ledger (fun _ => true) (maxLimit * 10))).length,
          (query ledger (fun _ => true) (maxLimit * 10)).length,
          ((query ledger (fun _ => true) (maxLimit * 10)).foldl Seen.next .empty).actors.length,
          (query ledger (fun _ => true) (maxLimit * 10)).countP
            (isPending (decidedIn (query ledger (fun _ => true) (maxLimit * 10))))⟩ := by
  unfold getWorkspaceSummary
  generalize query ledger (fun _ => true) (maxLimit * 10) = all
  have hseen := hasSeen_foldl all
  have hfirst := foldlM_eq_ok addEvent_eq_ok all .empty
  have hsecond := fun decided => foldlM_eq_ok (addPending_eq_ok decided) all 0
  constructor
  · intro h
    obtain ⟨seen, hloop, h⟩ := bind_eq_ok.mp h
    obtain ⟨hdecisions, rfl⟩ := (hfirst seen).mp hloop
    obtain ⟨pending, hloop, h⟩ := bind_eq_ok.mp h
    obtain ⟨hrequests, rfl⟩ := (hsecond _ pending).mp hloop
    cases h
    refine ⟨fun e he => ⟨hdecisions e he, hrequests e he⟩, ?_⟩
    rw [hseen.length_sessions, foldl_pending, hseen.decided, Nat.zero_add]
  · rintro ⟨hreadable, rfl⟩
    refine bind_eq_ok.mpr ⟨_, (hfirst _).mpr ⟨fun e he => (hreadable e he).1, rfl⟩, ?_⟩
    refine bind_eq_ok.mpr ⟨_, (hsecond _ _).mpr ⟨fun e he => (hreadable e he).2, rfl⟩, ?_⟩
    rw [← hseen.length_sessions, foldl_pending, hseen.decided, Nat.zero_add]
    rfl

/-- The entry of an approval. -/
def pendingOf (e : LedgerRow) : PendingApproval :=
  ⟨(e.payload.get "tool_call_id").orElse (.string ""), e.runId, (e.payload.get "tool").orElse (.string ""),
    (e.payload.get "reason").orElse (.string ""), e.createdAt⟩

theorem readPending_eq_ok (e : LedgerRow) (p : PendingApproval) :
    readPending e = .ok p ↔ Replay.isNull e.payload = false ∧ p = pendingOf e := by
  constructor
  · intro h
    obtain ⟨toolCallId, hid, h⟩ := bind_eq_ok.mp h
    obtain ⟨tool, htool, h⟩ := bind_eq_ok.mp h
    obtain ⟨reason, hreason, h⟩ := bind_eq_ok.mp h
    obtain ⟨hnull, rfl⟩ := read_eq_ok.mp hid
    obtain ⟨-, rfl⟩ := read_eq_ok.mp htool
    obtain ⟨-, rfl⟩ := read_eq_ok.mp hreason
    cases h
    exact ⟨hnull, rfl⟩
  · rintro ⟨hnull, rfl⟩
    refine bind_eq_ok.mpr ⟨_, read_eq_ok.mpr ⟨hnull, rfl⟩, ?_⟩
    refine bind_eq_ok.mpr ⟨_, read_eq_ok.mpr ⟨hnull, rfl⟩, ?_⟩
    exact bind_eq_ok.mpr ⟨_, read_eq_ok.mpr ⟨hnull, rfl⟩, rfl⟩

/-- A tool call id that is missing is no id, and neither is the empty one that stands for it. -/
theorem orElse_pending (decided : List JsValue) (v : JsValue) :
    ((v.orElse (.string "")).truthy && !has decided (v.orElse (.string ""))) = (v.truthy && !has decided v) := by
  cases v <;> rfl

/-- The list has every approval that is asked for and not decided. -/
theorem listPendingApprovals_eq_ok {pending : List PendingApproval} :
    listPendingApprovals ledger = .ok pending ↔
      (∀ e ∈ history ledger, Readable .approvalRequired e) ∧
        pending = ((history ledger).filter (isPending (decidedIn (history ledger)))).map pendingOf := by
  have hlisted : (((history ledger).filter fun e => e.kind = .approvalRequired).map pendingOf).filter
      (fun p => p.toolCallId.truthy && !has (decidedIn (history ledger)) p.toolCallId) =
      ((history ledger).filter (isPending (decidedIn (history ledger)))).map pendingOf := by
    rw [List.filter_map, List.filter_filter]
    congr 1
    apply List.filter_congr
    intro e _
    rw [Function.comp_apply, pendingOf, orElse_pending, isPending, Bool.and_comm]
  have hreadable : (∀ e ∈ (history ledger).filter fun e => e.kind = .approvalRequired, Replay.isNull e.payload = false) ↔
      ∀ e ∈ history ledger, Readable .approvalRequired e := by
    simp only [List.mem_filter, decide_eq_true_eq, and_imp]
    rfl
  unfold listPendingApprovals
  rw [query_eq, query_eq, if_pos rfl, if_pos rfl, ← hreadable, ← hlisted]
  constructor
  · intro h
    obtain ⟨all, hloop, h⟩ := bind_eq_ok.mp h
    obtain ⟨hread, rfl⟩ := (mapM_eq_ok readPending_eq_ok _ all).mp hloop
    cases h
    exact ⟨hread, rfl⟩
  · rintro ⟨hread, rfl⟩
    exact bind_eq_ok.mpr ⟨_, (mapM_eq_ok readPending_eq_ok _ _).mpr ⟨hread, rfl⟩, rfl⟩

/-- **The summary agrees with the ledger and with the list** exactly when all events are read and can be. -/
theorem summaryAgrees_iff (ledger : Workspace) : SummaryAgrees ledger ↔ SummaryCovered (history ledger) := by
  have hall : query ledger (fun _ => true) (maxLimit * 10) = (history ledger).take (maxLimit * 10) := by
    rw [query_all, if_neg (by decide)]
  constructor
  · rintro ⟨summary, pending, hsummary, hpending, -, hcount, -⟩
    obtain ⟨hread, rfl⟩ := getWorkspaceSummary_eq_ok.mp hsummary
    obtain ⟨hrequests, -⟩ := listPendingApprovals_eq_ok.mp hpending
    rw [hall] at hread hcount
    have hfew : (history ledger).length ≤ maxLimit * 10 := by
      rw [← hcount]
      exact List.length_take_le _ _
    rw [List.take_of_length_le hfew] at hread
    refine ⟨hfew, fun e he hkind => ?_⟩
    rcases hkind with hkind | hkind
    · exact hrequests e he hkind
    · exact (hread e he).1 hkind
  · intro ⟨hfew, hreadable⟩
    rw [List.take_of_length_le hfew] at hall
    have hdecisions : ∀ e ∈ history ledger, Readable .approvalDecision e := fun e he hkind => hreadable e he (Or.inr hkind)
    have hrequests : ∀ e ∈ history ledger, Readable .approvalRequired e := fun e he hkind => hreadable e he (Or.inl hkind)
    refine ⟨_, _, getWorkspaceSummary_eq_ok.mpr ⟨?_, rfl⟩, listPendingApprovals_eq_ok.mpr ⟨hrequests, rfl⟩, ?_, ?_, ?_⟩
    · rw [hall]
      exact fun e he => ⟨hdecisions e he, hrequests e he⟩
    · rw [hall]
    · rw [hall]
    · rw [hall, List.length_map, List.countP_eq_length_filter]

/-- **The tools agree with the ledger** exactly when what they read covers what they are asked for. -/
theorem toolsAgree_iff (ledger : Workspace) (limit : Option F64) (topic : String) (evaluate : LedgerRow → Bool) :
    Agree ledger limit topic evaluate ↔
      RunsCovered ((history ledger).take (clampLimit limit * 50)) ((history ledger).drop (clampLimit limit * 50))
        (clampLimit limit) ∧
      MatchesCovered (((history ledger).filter (ofTopic topic)).take (clampLimit limit * 10))
        (((history ledger).filter (ofTopic topic)).drop (clampLimit limit * 10)) evaluate (clampLimit limit) ∧
      SummaryCovered (history ledger) := by
  rw [← listRuns_iff, ← queryPredicate_iff, ← summaryAgrees_iff]
  exact ⟨fun h => ⟨h.runs, h.found, h.summary⟩, fun ⟨hruns, hfound, hsummary⟩ => ⟨hruns, hfound, hsummary⟩⟩

end Reading

/-- One run of fifty-one events. -/
def longRun : Workspace where
  rows := (List.range 51).map fun i => ⟨⟨String.ofList (List.replicate i 'x'), .modelCall, "run", .null, "", ""⟩, "noon"⟩
  keysNodup := by
    rw [List.map_map]
    apply List.nodup_range.map
    intro i j h
    have hlength := congrArg List.length (String.ofList_injective h)
    rwa [List.length_replicate, List.length_replicate] at hlength

/-- It is the one run that is listed, with fifty events. -/
theorem longRun_not_counted : ¬ Agree longRun (some ⟨0x3ff0000000000000⟩) "*" fun _ => true := by
  intro h
  have hlimit : clampLimit (some ⟨0x3ff0000000000000⟩) = 1 := by decide +kernel
  have hcovered := (listRuns_iff _ _).mp h.runs
  rw [hlimit, Nat.one_mul] at hcovered
  have hhistory : (history longRun).Perm longRun.rows := by
    rw [history, query, if_pos rfl, List.filter_true]
    exact List.perm_insertionSort _ _
  have hlength : (history longRun).length = 51 := hhistory.length_eq
  have hrun : ∀ e ∈ history longRun, e.runId = "run" := by
    intro e he
    obtain ⟨i, -, rfl⟩ := List.mem_map.mp (hhistory.mem_iff.mp he)
    rfl
  have hread : ∀ runId ∈ runIds ((history longRun).take 50), runId = "run" := by
    intro runId hrunId
    obtain ⟨e, he, rfl⟩ := mem_runIds.mp hrunId
    exact hrun e (List.mem_of_mem_take he)
  have hlistable : Listable ((history longRun).take 50) 1 "run" := by
    rw [Listable, Ranking.ahead_eq_zero fun other hother => by rw [hread other hother]]
    exact Nat.one_pos
  obtain ⟨first, hfirst⟩ : ∃ e, e ∈ (history longRun).take 50 := List.exists_mem_of_length_pos (by simp [hlength])
  obtain ⟨last, hlast⟩ : ∃ e, e ∈ (history longRun).drop 50 := List.exists_mem_of_length_pos (by simp [hlength])
  have hknown : "run" ∈ runIds ((history longRun).take 50) :=
    mem_runIds.mpr ⟨first, hfirst, hrun first (List.mem_of_mem_take hfirst)⟩
  -- the last event is not counted
  exact (hcovered.covered "run" hknown hlistable last hlast).1 (hrun last (List.mem_of_mem_drop hlast))

end Tools

end Mcp

end ActantDb
