import Mathlib.Data.List.DropRight
import ActantDb.Replay.Faithful

/-!
# Excluded memories

`without_memory` filters one manifest, the last before the checkpoint. A later one is passed on, with a tag at most, so an item that it includes stays included.
-/

namespace ActantDb

namespace Replay

open JsValue

variable {X : JsLibrary} {opts : RunFromEventOptions} {excluded : List String} {events : List ActantEvent}
  {e r : ActantEvent} {E : LedgerEnv} {process : Nat} {l : Ledger} {run : ReplayRun}

/-- The manifest includes an item whose id is excluded. -/
def includesExcluded (excluded : List String) (manifest : JsValue) : Bool :=
  match manifest.get "included" with
  | .array items => items.any fun i => isExcluded excluded (i.get "id")
  | _ => false

/-- Where the last manifest up to the checkpoint stands; the start of the stream if there is none. -/
def manifestStart (before : List ActantEvent) : Nat :=
  (before.rdropWhile fun e => e.kind ≠ .contextBuild).length - 1

/-- From the last manifest before the checkpoint on, no context build includes an excluded item. -/
def MemoryRemoved (l : Ledger) (opts : RunFromEventOptions) (run : ReplayRun) : Prop :=
  ∀ e ∈ run.events.drop (manifestStart (beforeCheckpoint l opts run.originalRun)),
    e.kind = .contextBuild → includesExcluded (opts.withoutMemory.getD []) e.payload = false

/-! ### The rebuilt manifest -/

theorem mapM_read {items ids : List JsValue} {key : String} (h : items.mapM (·.read key) = .ok ids) :
    ids = items.map (·.get key) := by
  induction items generalizing ids with
  | nil =>
    rw [List.mapM_nil] at h
    cases h
    rfl
  | cons v rest ih =>
    rw [List.mapM_cons] at h
    obtain ⟨w, hw, h⟩ := bind_eq_ok.mp h
    obtain ⟨ws, hws, h⟩ := bind_eq_ok.mp h
    cases h
    have hnull := isNull_of_read hw
    rw [read_of_isNull hnull] at hw
    cases hw
    rw [ih hws, List.map_cons]

theorem contextManifestWithoutExcluded_ok {manifest rebuilt : JsValue}
    (h : contextManifestWithoutExcluded X excluded manifest = .ok rebuilt) :
    includesExcluded excluded rebuilt = false := by
  rw [contextManifestWithoutExcluded] at h
  obtain ⟨found, -, h⟩ := bind_eq_ok.mp h
  obtain ⟨included, -, h⟩ := bind_eq_ok.mp h
  obtain ⟨ids, hids, h⟩ := bind_eq_ok.mp h
  obtain ⟨newlyBlocked, -, h⟩ := bind_eq_ok.mp h
  obtain ⟨manifestHash, -, h⟩ := bind_eq_ok.mp h
  obtain ⟨blocked, -, h⟩ := bind_eq_ok.mp h
  cases h
  show (List.map _ _).any _ = false
  rw [mapM_read hids, List.any_eq_false]
  intro item hitem
  obtain ⟨⟨i, found⟩, hpair, rfl⟩ := List.mem_map.mp hitem
  obtain ⟨hzip, hclear⟩ := List.mem_filter.mp hpair
  have hpairs : included.zip (included.map (·.get "id")) = included.map fun v => (v, v.get "id") := by
    simpa using List.zip_map' (f := id) (g := fun v : JsValue => v.get "id") (l := included)
  rw [hpairs] at hzip
  obtain ⟨v, -, heq⟩ := List.mem_map.mp hzip
  cases heq
  simpa using hclear

theorem lastContextManifestEvent_eq_some {before : List ActantEvent} {m : ActantEvent}
    (h : lastContextManifestEvent before = some m) :
    m.kind = .contextBuild ∧ ∃ pre post, before = pre ++ m :: post ∧ ∀ e ∈ post, e.kind ≠ .contextBuild := by
  obtain ⟨hkind, newer, older, hsplit, hnewer⟩ := List.find?_eq_some_iff_append.mp h
  refine ⟨of_decide_eq_true hkind, older.reverse, newer.reverse, ?_, fun e he => ?_⟩
  · rw [← List.reverse_reverse before, hsplit]
    simp
  · simpa using hnewer e (List.mem_reverse.mp he)

theorem lastContextManifestEvent_eq_none {before : List ActantEvent}
    (h : lastContextManifestEvent before = none) : ∀ e ∈ before, e.kind ≠ .contextBuild := by
  intro e he
  simpa using List.find?_eq_none.mp h e (List.mem_reverse.mpr he)

theorem manifestStart_append {pre post : List ActantEvent} {m : ActantEvent} (hm : m.kind = .contextBuild)
    (hpost : ∀ e ∈ post, e.kind ≠ .contextBuild) : manifestStart (pre ++ m :: post) = pre.length := by
  have hdrop : (pre ++ m :: post).rdropWhile (fun e => e.kind ≠ .contextBuild) = pre ++ [m] := by
    rw [List.rdropWhile, List.reverse_append, List.reverse_cons, List.append_assoc,
      List.dropWhile_append_of_pos fun e he => decide_eq_true (hpost e (List.mem_reverse.mp he))]
    simp [hm]
  rw [manifestStart, hdrop]
  simp

theorem replaceFirst_append {pre post : List ActantEvent} {m : ActantEvent} {f : ActantEvent → ActantEvent}
    (h : ∀ e ∈ pre, e.id ≠ m.id) : replaceFirst m.id f (pre ++ m :: post) = pre ++ f m :: post := by
  induction pre with
  | nil => rw [List.nil_append, replaceFirst, if_pos rfl, List.nil_append]
  | cons e rest ih =>
    rw [List.cons_append, replaceFirst, if_neg (h e List.mem_cons_self),
      ih fun x hx => h x (List.mem_cons_of_mem _ hx), List.cons_append]

theorem nodup_ids (l : Ledger) (opts : RunFromEventOptions) (runId : String) :
    ((beforeCheckpoint l opts runId).map (·.id)).Nodup := by
  have hrun : ((recordedRun l runId).map (·.id)).Nodup := by
    have hperm := (List.perm_insertionSort (fun a b : ActantEvent => a.id ≤ b.id)
      (l.events.rows.filter (LedgerFilter.selects { runId := some runId }))).map (·.id)
    exact hperm.nodup_iff.mpr (l.events.keysNodup.sublist (List.filter_sublist.map _))
  exact hrun.sublist (List.filter_sublist.map _)

/-- What the front holds from the last manifest on is free of excluded items. -/
theorem front_removed {front : List ActantEvent} (l : Ledger) (opts : RunFromEventOptions) (runId : String)
    (h : rebuildReplayManifest X excluded (beforeCheckpoint l opts runId)
      (beforeCheckpoint l opts runId) = .ok front) :
    manifestStart (beforeCheckpoint l opts runId) ≤ front.length ∧
      ∀ e ∈ front.drop (manifestStart (beforeCheckpoint l opts runId)), e.kind = .contextBuild →
        includesExcluded excluded e.payload = false := by
  have hids := nodup_ids l opts runId
  generalize beforeCheckpoint l opts runId = before at h hids
  have hstart : manifestStart before ≤ before.length := by
    have hsub := (List.rdropWhile_prefix (fun e : ActantEvent => e.kind ≠ .contextBuild) (l := before)).length_le
    rw [manifestStart]
    omega
  refine ⟨(rebuild_fronts h).length_eq ▸ hstart, ?_⟩
  rw [rebuildReplayManifest] at h
  split at h
  · rename_i hempty
    subst hempty
    intro e _ _
    rw [includesExcluded]
    split
    · exact List.any_eq_false.mpr fun _ _ => by simp [isExcluded]
    · rfl
  · cases hlast : lastContextManifestEvent before with
    | none =>
      rw [hlast] at h
      cases h
      intro e he hkind
      exact absurd hkind (lastContextManifestEvent_eq_none hlast e (List.mem_of_mem_drop he))
    | some m =>
      rw [hlast] at h
      obtain ⟨rebuilt, hrebuilt, h⟩ := bind_eq_ok.mp h
      obtain ⟨hash, -, h⟩ := bind_eq_ok.mp h
      cases h
      obtain ⟨hm, pre, post, rfl, hpost⟩ := lastContextManifestEvent_eq_some hlast
      have hpre : ∀ e ∈ pre, e.id ≠ m.id := by
        intro e he heq
        rw [List.map_append, List.map_cons, List.nodup_append] at hids
        exact hids.2.2 e.id (List.mem_map_of_mem he) m.id List.mem_cons_self heq
      rw [replaceFirst_append hpre, manifestStart_append hm hpost, List.drop_left]
      intro e he hkind
      rcases List.mem_cons.mp he with rfl | he
      · exact contextManifestWithoutExcluded_ok hrebuilt
      · exact absurd hkind (hpost e he)

/-! ### The manifests after the checkpoint -/

theorem get_setEntry_of_ne {key other : String} {v : JsValue} (hne : key ≠ other)
    (entries : List (String × JsValue)) :
    (JsValue.object (setEntry key v entries)).get other = (JsValue.object entries).get other := by
  induction entries with
  | nil => rw [setEntry, get_cons, if_neg hne]
  | cons e rest ih =>
    rw [setEntry]
    split
    · rename_i hkey
      rw [get_cons, get_cons, if_neg hne, if_neg (hkey ▸ hne)]
    · rw [get_cons, get_cons, ih]

/-- A key that is no index is read from the copied entries as from the value. -/
theorem get_spread {key : String} (hkey : ∀ i : Nat, toString i ≠ key) (v : JsValue) :
    (JsValue.object v.spread).get key = v.get key := by
  cases v with
  | object entries => rfl
  | array items =>
    refine get_of_notMem fun hmem => ?_
    simp only [spread, List.map_map, List.mem_map] at hmem
    obtain ⟨⟨v, i⟩, -, hi⟩ := hmem
    exact hkey i hi
  | string s =>
    refine get_of_notMem fun hmem => ?_
    simp only [spread, List.map_map, List.mem_map] at hmem
    obtain ⟨⟨c, i⟩, -, hi⟩ := hmem
    exact hkey i hi
  | _ => rfl

theorem toString_ne_included (i : Nat) : toString i ≠ "included" := by
  intro h
  have hmem : 'n' ∈ (toString i).toList := by
    rw [h]
    simp
  have hdigit := Nat.isDigit_of_mem_toDigits (b := 10) (n := i) (by decide) (by decide)
    (by simpa [Nat.toString_eq_repr, Nat.repr] using hmem)
  revert hdigit
  decide

theorem includesExcluded_withEntry (manifest tag : JsValue) :
    includesExcluded excluded (withEntry manifest "_replay" tag) = includesExcluded excluded manifest := by
  rw [includesExcluded, includesExcluded, withEntry, get_setEntry_of_ne (by decide),
    get_spread toString_ne_included]

theorem handles_context (hkind : e.kind = .contextBuild) (h : Handles X opts excluded e r) :
    r.kind = .contextBuild ∧
      includesExcluded excluded r.payload = includesExcluded excluded e.payload := by
  have hother := handles_other (by simp [hkind]) (by simp [hkind]) (by simp [hkind]) h
  obtain ⟨id, rfl⟩ | ⟨hrehashed, htag⟩ := hother
  · exact ⟨hkind, rfl⟩
  · obtain ⟨tag, htag⟩ := htag (by simp [hkind])
    exact ⟨hrehashed.1.trans hkind, by rw [htag, includesExcluded_withEntry]⟩

/-- A context build recorded after the checkpoint is in the stream with the items it had. -/
theorem later_manifest_kept (h : runFromEvent E process l opts = .ok run)
    (he : e ∈ recordedRun l run.originalRun) (hlt : opts.eventId < e.id) (hkind : e.kind = .contextBuild) :
    ∃ r ∈ run.events.drop (manifestStart (beforeCheckpoint l opts run.originalRun)),
      r.kind = .contextBuild ∧
        includesExcluded (opts.withoutMemory.getD []) r.payload =
          includesExcluded (opts.withoutMemory.getD []) e.payload := by
  obtain ⟨front, rs, hfront, hevents, hrs⟩ := runFromEvent_ok h
  obtain ⟨hlength, -⟩ := front_removed l opts run.originalRun hfront
  obtain ⟨r, hr, hhandles⟩ := exists_of_forall₂ hrs (List.mem_filter.mpr ⟨he, decide_eq_true hlt⟩)
  refine ⟨r, ?_, handles_context hkind hhandles⟩
  rw [hevents, List.drop_append_of_le_length hlength]
  exact List.mem_append_right _ hr

/-- **`without_memory` removes** the items exactly when no context build recorded after the checkpoint includes one of them. -/
theorem memoryRemoved_iff (E : LedgerEnv) (process : Nat) (l : Ledger) (opts : RunFromEventOptions)
    (run : ReplayRun) (h : runFromEvent E process l opts = .ok run) :
    MemoryRemoved l opts run ↔
      ∀ e ∈ recordedRun l run.originalRun, opts.eventId < e.id → e.kind = .contextBuild →
        includesExcluded (opts.withoutMemory.getD []) e.payload = false := by
  constructor
  · intro hall e he hlt hkind
    obtain ⟨r, hr, hrkind, hsame⟩ := later_manifest_kept h he hlt hkind
    rw [← hsame]
    exact hall r hr hrkind
  · intro hall r hr hkind
    obtain ⟨front, rs, hfront, hevents, hrs⟩ := runFromEvent_ok h
    obtain ⟨hlength, hremoved⟩ := front_removed l opts run.originalRun hfront
    rw [hevents, List.drop_append_of_le_length hlength] at hr
    rcases List.mem_append.mp hr with hr | hr
    · exact hremoved r hr hkind
    · obtain ⟨e, he, hhandles⟩ := exists_of_forall₂ (List.Forall₂.flip hrs) hr
      obtain ⟨hmem, hlt⟩ := List.mem_filter.mp he
      have hekind : e.kind = .contextBuild := (handles_kind hhandles).symm.trans hkind
      rw [(handles_context hekind hhandles).2]
      exact hall e hmem (of_decide_eq_true hlt) hekind

/-- A manifest with one item. -/
def manifestOf (id : String) : JsValue := .object [("included", .array [.object [("id", .string id)]])]

/-- A run with a manifest before and one after the event "b". -/
def twoBuilds (later : String) : Ledger :=
  recordedLedger
    [hashedEvent "a" .contextBuild (manifestOf "mem_1"), hashedEvent "b" .userMessageReceived (.object []),
      hashedEvent "c" .contextBuild (manifestOf later)]
    (by simp [hashedEvent])

def withoutFirst : RunFromEventOptions := { eventId := "b", withoutMemory := some ["mem_1"] }

theorem mem_twoBuilds {later : String} :
    e ∈ recordedRun (twoBuilds later) "run" ↔
      e = hashedEvent "a" .contextBuild (manifestOf "mem_1") ∨
        e = hashedEvent "b" .userMessageReceived (.object []) ∨
          e = hashedEvent "c" .contextBuild (manifestOf later) := by
  rw [mem_recordedRun, twoBuilds, recordedLedger]
  constructor
  · rintro ⟨he, -⟩
    simpa using he
  · intro he
    refine ⟨by simpa using he, Or.inr ?_⟩
    rcases he with rfl | rfl | rfl <;> rfl

theorem anchor_twoBuilds {later : String} :
    (twoBuilds later).get? withoutFirst.eventId =
      some (hashedEvent "b" .userMessageReceived (.object [])) := rfl

theorem memoryRemoved_other :
    ∃ run, runFromEvent LedgerEnv.sample 0 (twoBuilds "mem_2") withoutFirst = .ok run ∧
      MemoryRemoved (twoBuilds "mem_2") withoutFirst run := by
  obtain ⟨run, hrun⟩ : ∃ run, runFromEvent LedgerEnv.sample 0 (twoBuilds "mem_2") withoutFirst = .ok run :=
    ⟨_, rfl⟩
  refine ⟨run, hrun, (memoryRemoved_iff LedgerEnv.sample 0 _ _ run hrun).mpr ?_⟩
  rw [originalRun_of_runFromEvent hrun anchor_twoBuilds]
  intro e he hlt _
  rcases mem_twoBuilds.mp he with rfl | rfl | rfl
  · exact absurd hlt (by decide)
  · exact absurd hlt (by decide)
  · decide

/-- The second manifest still includes the memory. -/
theorem memory_survives :
    ∃ run, runFromEvent LedgerEnv.sample 0 (twoBuilds "mem_1") withoutFirst = .ok run ∧
      ¬ MemoryRemoved (twoBuilds "mem_1") withoutFirst run := by
  obtain ⟨run, hrun⟩ : ∃ run, runFromEvent LedgerEnv.sample 0 (twoBuilds "mem_1") withoutFirst = .ok run :=
    ⟨_, rfl⟩
  refine ⟨run, hrun, fun h => ?_⟩
  have horiginal : run.originalRun = "run" := originalRun_of_runFromEvent hrun anchor_twoBuilds
  obtain ⟨r, hr, hkind, hsame⟩ := later_manifest_kept hrun
    (e := hashedEvent "c" .contextBuild (manifestOf "mem_1"))
    (by rw [horiginal]; exact mem_twoBuilds.mpr (Or.inr (Or.inr rfl))) (by decide) rfl
  have hclear := h r hr hkind
  rw [hsame] at hclear
  revert hclear
  decide

end Replay

end ActantDb
