import ActantDb.Sync.Destination

/-!
# The keys of a destination

An event is kept under `<workspace>/<date>/<id>.json` and the cursor under `<workspace>/_cursor.txt`, the workspace and the id with every other character replaced by an underscore. Two events have the same key where what is kept of their workspaces, dates and ids is the same; an allowed name is kept as it is. The date is the first ten bytes of the creation time as they are.
-/

namespace ActantDb

/-- The characters that `sanitize` keeps. -/
def keptChar (c : Char) : Bool := c.isAlphanum || c ∈ ['_', '-', '.']

def FilePath.text (p : FilePath) : List Char := p.parent.toList ++ p.name.toList

/-- The parts of a key between its slashes. -/
def FilePath.segments (p : FilePath) : List (List Char) := p.text.splitOn '/'

/-- A segment that names a file or a directory, wherever it is followed. -/
structure SafeSegment (s : List Char) : Prop where
  nonempty : s ≠ []
  kept : ∀ c ∈ s, keptChar c = true
  notHere : s ≠ ['.']
  notUp : s ≠ ['.', '.']

/-- Where the segments lead from a directory. -/
def follow (directory : List (List Char)) : List (List Char) → List (List Char)
  | [] => directory
  | s :: rest =>
    if s = [] ∨ s = ['.'] then follow directory rest
    else if s = ['.', '.'] then follow directory.dropLast rest
    else follow (directory ++ [s]) rest

/-- The segments are safe, and lead below the directory of the workspace. -/
structure FilePath.Below (ws : WorkspaceId) (key : FilePath) : Prop where
  safe : ∀ s ∈ key.segments, SafeSegment s
  below : ∀ root, ∃ rest, rest ≠ [] ∧ follow root key.segments = root ++ (sanitize ws).toList :: rest

/-- A name that is kept as it is. -/
def AllowedName (raw : String) : Prop := ∀ c ∈ raw.toList, keptChar c = true

instance (raw : String) : Decidable (AllowedName raw) :=
  decidable_of_iff (raw.toList.all keptChar = true) List.all_eq_true

/-- A name that is no path of its own. -/
structure Named (ws : WorkspaceId) : Prop where
  nonempty : ws ≠ ""
  notHere : ws ≠ "."
  notUp : ws ≠ ".."

/-- The first ten bytes, if they are characters, are kept. -/
def Dated (createdAt : String) : Prop := ∀ s ∈ getBytes 10 createdAt.toList, ∀ c ∈ s, keptChar c = true

/-! ### Text -/

section Text

variable {a a' x x' : List Char} {raw raw' : String}

theorem kept_ne_slash {c : Char} (h : keptChar c = true) : c ≠ '/' := by
  rintro rfl
  exact absurd h (by decide)

/-- What comes before the first slash, and after it. -/
theorem first_slash_inj (ha : '/' ∉ a) (ha' : '/' ∉ a') : a ++ '/' :: x = a' ++ '/' :: x' ↔ a = a' ∧ x = x' := by
  refine ⟨fun h => ?_, fun ⟨h, h'⟩ => by rw [h, h']⟩
  induction a generalizing a' with
  | nil =>
    cases a' with
    | nil => exact ⟨rfl, List.tail_eq_of_cons_eq h⟩
    | cons c a' => exact absurd (List.head_eq_of_cons_eq h ▸ List.mem_cons_self) ha'
  | cons c a ih =>
    cases a' with
    | nil => exact absurd ((List.head_eq_of_cons_eq h).symm ▸ List.mem_cons_self) ha
    | cons c' a' =>
      rw [List.mem_cons, not_or] at ha ha'
      obtain ⟨hrest, hx⟩ := ih ha.2 ha'.2 (List.tail_eq_of_cons_eq h)
      rw [List.head_eq_of_cons_eq h, hrest]
      exact ⟨rfl, hx⟩

/-- What comes after the last slash, and before it. -/
theorem last_slash_inj (hx : '/' ∉ x) (hx' : '/' ∉ x') : a ++ '/' :: x = a' ++ '/' :: x' ↔ a = a' ∧ x = x' := by
  rw [← List.reverse_inj, List.reverse_append, List.reverse_append, List.reverse_cons, List.reverse_cons,
    List.append_assoc, List.append_assoc, List.singleton_append, List.singleton_append,
    first_slash_inj (by rwa [List.mem_reverse]) (by rwa [List.mem_reverse]), List.reverse_inj, List.reverse_inj, and_comm]

theorem toList_sanitize (raw : String) :
    (sanitize raw).toList = raw.toList.map fun c => if keptChar c then c else '_' := by
  rw [sanitize, String.toList_ofList]
  rfl

/-- What is kept of a name is allowed. -/
theorem sanitize_kept (raw : String) : AllowedName (sanitize raw) := by
  intro c hc
  rw [toList_sanitize] at hc
  obtain ⟨d, -, rfl⟩ := List.mem_map.mp hc
  split
  · assumption
  · decide

theorem slash_notMem (h : ∀ c ∈ a, keptChar c = true) : '/' ∉ a := fun hmem => kept_ne_slash (h _ hmem) rfl

/-- An allowed name is kept as it is. -/
theorem sanitize_eq (h : AllowedName raw) : sanitize raw = raw := by
  have hmap : (raw.toList.map fun c => if keptChar c then c else '_') = raw.toList := by
    conv_rhs => rw [← List.map_id raw.toList]
    exact List.map_congr_left fun c hc => if_pos (h c hc)
  rw [← String.toList_inj, toList_sanitize, hmap]

/-- Only a text of points is made into one. -/
theorem sanitize_points {points : String} (hpoints : points.toList.all (· = '.') = true) (h : sanitize raw = points) :
    raw = points := by
  have hall : AllowedName raw := by
    intro c hc
    by_contra hnot
    have hmem : '_' ∈ (sanitize raw).toList := by
      rw [toList_sanitize]
      exact List.mem_map.mpr ⟨c, hc, if_neg hnot⟩
    rw [h] at hmem
    exact absurd (List.all_eq_true.mp hpoints _ hmem) (by decide)
  rw [← sanitize_eq hall, h]

end Text

/-! ### Keys -/

section Keys

variable {ws ws' : WorkspaceId} {e e' : AgentEvent} {root : List (List Char)} {segments : List (List Char)}

theorem text_keyFor (ws : WorkspaceId) (e : AgentEvent) :
    (keyFor ws e).text = (sanitize ws).toList ++ '/' :: ((partition e.createdAt).toList ++
      '/' :: ((sanitize e.id).toList ++ ".json".toList)) := by
  simp [keyFor, FilePath.text]

theorem text_cursorKey (ws : WorkspaceId) : (cursorKey ws).text = (sanitize ws).toList ++ '/' :: "_cursor.txt".toList := by
  simp [cursorKey, FilePath.text]

theorem name_kept (e : AgentEvent) : ∀ c ∈ (sanitize e.id).toList ++ ".json".toList, keptChar c = true := by
  intro c hc
  rcases List.mem_append.mp hc with hc | hc
  · exact sanitize_kept _ c hc
  · have hjson : ".json".toList.all keptChar = true := by decide
    exact List.all_eq_true.mp hjson c hc

/-- Two keys are the same where what is kept of the three is. -/
theorem text_keyFor_inj :
    (keyFor ws e).text = (keyFor ws' e').text ↔
      sanitize ws = sanitize ws' ∧ partition e.createdAt = partition e'.createdAt ∧ sanitize e.id = sanitize e'.id := by
  rw [text_keyFor, text_keyFor, first_slash_inj (slash_notMem (sanitize_kept ws)) (slash_notMem (sanitize_kept ws')),
    last_slash_inj (slash_notMem (name_kept e)) (slash_notMem (name_kept e')), List.append_left_inj, String.toList_inj,
    String.toList_inj, String.toList_inj]

theorem text_cursorKey_inj : (cursorKey ws).text = (cursorKey ws').text ↔ sanitize ws = sanitize ws' := by
  rw [text_cursorKey, text_cursorKey, List.append_left_inj, String.toList_inj]

theorem keyFor_ne_cursorKey : (keyFor ws e).text ≠ (cursorKey ws').text := by
  intro h
  rw [text_keyFor, text_cursorKey, first_slash_inj (slash_notMem (sanitize_kept ws)) (slash_notMem (sanitize_kept ws'))] at h
  have hslash : '/' ∈ "_cursor.txt".toList := h.2 ▸ List.mem_append_right _ List.mem_cons_self
  exact absurd hslash (by decide)

theorem safe_workspace (h : Named ws) : SafeSegment (sanitize ws).toList := by
  have hne {points : String} (hpoints : points.toList.all (· = '.') = true) (hws : ws ≠ points) :
      (sanitize ws).toList ≠ points.toList :=
    fun h => hws (sanitize_points hpoints (String.toList_inj.mp h))
  exact ⟨hne (by decide) h.nonempty, sanitize_kept ws, hne (by decide) h.notHere,
    hne (by decide) h.notUp⟩

theorem length_getBytes : ∀ (n : Nat) (cs s : List Char), getBytes n cs = some s → s.length ≤ n ∧ n ≤ 4 * s.length := by
  intro n cs
  induction n, cs using getBytes.induct with
  | case1 cs =>
    intro s h
    rw [getBytes] at h
    cases h
    exact ⟨le_refl _, le_refl _⟩
  | case2 n =>
    intro s h
    rw [getBytes] at h
    cases h
  | case3 n c rest hsize ih =>
    intro s h
    rw [getBytes, if_pos hsize, Option.map_eq_some_iff] at h
    obtain ⟨s', hs', rfl⟩ := h
    obtain ⟨hle, hge⟩ := ih s' hs'
    have hpos := c.utf8Size_pos
    have hfour := c.utf8Size_le_four
    rw [List.length_cons]
    omega
  | case4 n c rest hsize =>
    intro s h
    rw [getBytes, if_neg hsize] at h
    cases h

/-- The date is safe where its characters are. -/
theorem safe_partition {createdAt : String} (h : Dated createdAt) :
    SafeSegment (partition createdAt).toList := by
  rw [partition]
  cases hbytes : getBytes 10 createdAt.toList with
  | none =>
    have hkept : "0000-00-00".toList.all keptChar = true := by decide
    exact ⟨by decide, List.all_eq_true.mp hkept, by decide, by decide⟩
  | some s =>
    have hlong : 3 ≤ s.length := by
      have := (length_getBytes _ _ _ hbytes).2
      omega
    rw [Option.map_some, Option.getD_some, String.toList_ofList]
    refine ⟨?_, h s hbytes, ?_, ?_⟩ <;> rintro rfl <;> exact absurd hlong (by decide)

theorem safe_name (e : AgentEvent) : SafeSegment ((sanitize e.id).toList ++ ".json".toList) := by
  have hlong : 5 ≤ ((sanitize e.id).toList ++ ".json".toList).length := by
    rw [List.length_append]
    exact Nat.le_add_left _ _
  refine ⟨?_, name_kept e, ?_, ?_⟩ <;> intro h <;> rw [h] at hlong <;> exact absurd hlong (by decide)

theorem safe_cursor : SafeSegment "_cursor.txt".toList := by
  have hkept : "_cursor.txt".toList.all keptChar = true := by decide
  exact ⟨by decide, List.all_eq_true.mp hkept, by decide, by decide⟩

/-- A safe key is cut at its slashes. -/
theorem segments_eq {key : FilePath} (hkey : key.text = ['/'].intercalate segments) (hne : segments ≠ [])
    (h : ∀ s ∈ segments, SafeSegment s) : key.segments = segments := by
  rw [FilePath.segments, hkey]
  exact List.splitOn_intercalate _ (fun s hs => slash_notMem (h s hs).kept) hne

/-- Safe segments lead down. -/
theorem follow_safe (h : ∀ s ∈ segments, SafeSegment s) : follow root segments = root ++ segments := by
  induction segments generalizing root with
  | nil => rw [follow, List.append_nil]
  | cons s rest ih =>
    have hs := h s List.mem_cons_self
    rw [follow, if_neg (not_or.mpr ⟨hs.nonempty, hs.notHere⟩), if_neg hs.notUp,
      ih fun x hx => h x (List.mem_cons_of_mem _ hx), List.append_assoc]
    rfl

theorem below_of_safe {key : FilePath} (hkey : key.text = ['/'].intercalate ((sanitize ws).toList :: segments))
    (hne : segments ≠ []) (h : ∀ s ∈ (sanitize ws).toList :: segments, SafeSegment s) : key.Below ws := by
  have hsegments := segments_eq hkey (List.cons_ne_nil _ _) h
  refine ⟨?_, fun root => ⟨segments, hne, ?_⟩⟩ <;> rw [hsegments]
  · exact h
  · exact follow_safe h

theorem below_keyFor (hws : Named ws) (hdate : Dated e.createdAt) : (keyFor ws e).Below ws := by
  have hkey : (keyFor ws e).text = ['/'].intercalate
      [(sanitize ws).toList, (partition e.createdAt).toList, (sanitize e.id).toList ++ ".json".toList] := by
    rw [text_keyFor]
    simp [List.intercalate]
  refine below_of_safe hkey (List.cons_ne_nil _ _) ?_
  rintro s (_ | ⟨_, _ | ⟨_, _ | ⟨_, hs⟩⟩⟩)
  · exact safe_workspace hws
  · exact safe_partition hdate
  · exact safe_name e
  · cases hs

theorem below_cursorKey (hws : Named ws) : (cursorKey ws).Below ws := by
  have hkey : (cursorKey ws).text = ['/'].intercalate [(sanitize ws).toList, "_cursor.txt".toList] := by
    rw [text_cursorKey]
    simp [List.intercalate]
  refine below_of_safe hkey (List.cons_ne_nil _ _) ?_
  rintro s (_ | ⟨_, _ | ⟨_, hs⟩⟩)
  · exact safe_workspace hws
  · exact safe_cursor
  · cases hs

/-- A key of a workspace that is named is not absolute. -/
theorem text_join (d : FilesystemDestination) (hws : Named ws) {key : FilePath} {rest : List Char}
    (hparent : key.parent.toList = (sanitize ws).toList ++ rest) :
    (d.join key).text = d.root.toList ++ '/' :: key.text := by
  obtain ⟨c, cs, hcs⟩ := List.exists_cons_of_ne_nil (safe_workspace hws).nonempty
  have hc : keptChar c = true := (safe_workspace hws).kept c (hcs ▸ List.mem_cons_self)
  have hrelative : ¬ key.parent.toList.head? = some '/' := by
    rw [hparent, hcs, List.cons_append, List.head?_cons, Option.some.injEq]
    exact kept_ne_slash hc
  rw [FilesystemDestination.join, if_neg hrelative]
  simp [FilePath.text]

/-- **The keys of a destination**: apart where the names are, and below the workspace that they belong to. -/
theorem keys_apart_below (d : FilesystemDestination) (ws ws' : WorkspaceId) (e e' : AgentEvent) :
    ((keyFor ws e).text = (keyFor ws' e').text ↔
        sanitize ws = sanitize ws' ∧ partition e.createdAt = partition e'.createdAt ∧ sanitize e.id = sanitize e'.id) ∧
      (AllowedName ws → AllowedName ws' → AllowedName e.id → AllowedName e'.id → (ws, e.id) ≠ (ws', e'.id) →
        (keyFor ws e).text ≠ (keyFor ws' e').text) ∧
      (AllowedName ws → AllowedName ws' → ws ≠ ws' → (cursorKey ws).text ≠ (cursorKey ws').text) ∧
      (keyFor ws e).text ≠ (cursorKey ws').text ∧
      (Named ws → Dated e.createdAt →
        (keyFor ws e).Below ws ∧ (d.eventPath ws e).text = d.root.toList ++ '/' :: (keyFor ws e).text) ∧
      (Named ws → (cursorKey ws).Below ws ∧ (d.cursorPath ws).text = d.root.toList ++ '/' :: (cursorKey ws).text) := by
  refine ⟨text_keyFor_inj, fun hws hws' hid hid' hne heq => ?_, fun hws hws' hne heq => ?_, keyFor_ne_cursorKey,
    fun hws hdate => ⟨below_keyFor hws hdate, ?_⟩, fun hws => ⟨below_cursorKey hws, ?_⟩⟩
  · rw [text_keyFor_inj, sanitize_eq hws, sanitize_eq hws', sanitize_eq hid, sanitize_eq hid'] at heq
    exact hne (Prod.ext heq.1 heq.2.2)
  · rw [text_cursorKey_inj, sanitize_eq hws, sanitize_eq hws'] at heq
    exact hne heq
  · have hparent : (keyFor ws e).parent.toList =
        (sanitize ws).toList ++ ("/" ++ partition e.createdAt ++ "/").toList := by simp [keyFor]
    exact text_join d hws hparent
  · have hparent : (cursorKey ws).parent.toList = (sanitize ws).toList ++ "/".toList := by simp [cursorKey]
    exact text_join d hws hparent

theorem keys_apart_below_sample :
    (keyFor "ws_demo" (.sample "e1" "2026-05-19T00:00:00Z")).text ≠
        (keyFor "ws_demo" (.sample "e2" "2026-05-19T00:00:00Z")).text ∧
      (cursorKey "ws_demo").text ≠ (cursorKey "ws_other").text ∧
      (keyFor "ws_demo" (.sample "e1" "2026-05-19T00:00:00Z")).Below "ws_demo" ∧
      (cursorKey "ws_demo").Below "ws_demo" := by
  have hnamed : Named "ws_demo" := ⟨by decide, by decide, by decide⟩
  have hdated : Dated "2026-05-19T00:00:00Z" := by
    have hbytes : getBytes 10 "2026-05-19T00:00:00Z".toList = some "2026-05-19".toList := by decide +kernel
    intro s hs
    rw [hbytes] at hs
    cases hs
    have hkept : "2026-05-19".toList.all keptChar = true := by decide
    exact List.all_eq_true.mp hkept
  obtain ⟨-, hevents, -, -, hbelow, hcursor⟩ := keys_apart_below .sample "ws_demo" "ws_demo"
    (.sample "e1" "2026-05-19T00:00:00Z") (.sample "e2" "2026-05-19T00:00:00Z")
  obtain ⟨-, -, hcursors, -⟩ := keys_apart_below .sample "ws_demo" "ws_other"
    (.sample "e1" "2026-05-19T00:00:00Z") (.sample "e2" "2026-05-19T00:00:00Z")
  have hevent1 : AllowedName "e1" := by decide +kernel
  have hevent2 : AllowedName "e2" := by decide +kernel
  have hdemo : AllowedName "ws_demo" := by decide +kernel
  have hother : AllowedName "ws_other" := by decide +kernel
  exact ⟨hevents hdemo hdemo hevent1 hevent2 (by decide), hcursors hdemo hother (by decide), (hbelow hnamed hdated).1,
    (hcursor hnamed).1⟩

/-- A slash is made an underscore. -/
theorem slash_not_apart :
    ("a/b", "e1") ≠ ("a_b", "e1") ∧
      (keyFor "a/b" (.sample "e1" "2026-05-19T00:00:00Z")).text = (keyFor "a_b" (.sample "e1" "2026-05-19T00:00:00Z")).text := by
  refine ⟨by decide, ?_⟩
  have hsame : sanitize "a/b" = sanitize "a_b" := by decide
  rw [text_keyFor, text_keyFor, hsame]

end Keys

end ActantDb
