import ActantDb.Lib.Table
import ActantDb.Memory.Polarity

/-!
# Memory conflicts

`detect_conflicts` goes over the pairs of active memories of a workspace, each pair once, and inserts a row for every pair whose words overlap enough and whose texts are opposed, unless the same two ids are there already. So after a call there is a row for an unordered pair if there was one or the program takes the two for a conflict, in whichever order they are listed, and a second call finds all its rows there.
-/

namespace ActantDb.MemoryStore

open Embedders (Unicode)

/-- A row of `memory`, as far as conflicts depend on it. -/
structure MemoryRow where
  id : String
  workspaceId : String
  text : List Char
  revokedAt : Option String
  deletedAt : Option String
  createdAt : String
  deriving DecidableEq

structure ConflictRow where
  id : String
  workspaceId : String
  memoryAId : String
  memoryBId : String
  conflictType : String
  detectedAt : String
  deriving DecidableEq

/-- How the rows of a query are put in order; rows with one `created_at` are in any. -/
structure NewestFirst where
  sort : List MemoryRow → List MemoryRow
  perm : ∀ rows, (sort rows).Perm rows
  sorted : ∀ rows, (sort rows).Pairwise fun a b => b.createdAt ≤ a.createdAt

/-- What a call reads besides the tables: the ids and the times of the rows that it may insert. -/
structure ConflictEnv where
  unicode : Unicode
  order : NewestFirst
  newId : Nat → String
  now : Nat → String

/-- The table of conflicts, how many ids have been made, and how many rows inserted. -/
structure Detection where
  conflicts : List ConflictRow
  made : Nat
  inserted : Nat

section Program

variable (E : ConflictEnv) (memories : Table (fun m : MemoryRow => m.id)) (workspace : String) (threshold : F64)

def active : List MemoryRow :=
  memories.rows.filter fun m => m.workspaceId = workspace && m.revokedAt.isNone && m.deletedAt.isNone

def listActive : List MemoryRow := E.order.sort (active memories workspace)

/-- Each index with the greater ones. -/
def eachPair : List MemoryRow → List (MemoryRow × MemoryRow)
  | [] => []
  | a :: rest => rest.map (a, ·) ++ eachPair rest

/-- `x < y`. -/
def below (x y : F64) : Bool := x.partialCmp y = some .lt

/-- `INSERT OR IGNORE`, where the id is the key, and so are the two memories. -/
def insertOrIgnore (row : ConflictRow) (d : Detection) : Detection :=
  if d.conflicts.any fun r => r.id = row.id || (r.memoryAId = row.memoryAId && r.memoryBId = row.memoryBId) then
    { d with made := d.made + 1 }
  else ⟨d.conflicts ++ [row], d.made + 1, d.inserted + 1⟩

def detectPair (d : Detection) (pair : MemoryRow × MemoryRow) : Detection :=
  if below (jaccard E.unicode pair.1.text pair.2.text) threshold then d
  else if opposingPolarity E.unicode pair.1.text pair.2.text then
    insertOrIgnore ⟨E.newId d.made, workspace, pair.1.id, pair.2.id, "polarity", E.now d.made⟩ d
  else d

/-- The tables after the call, where the id made last was this one, and how many rows it inserted. -/
def detectConflicts (conflicts : List ConflictRow) (made : Nat) : Detection :=
  (eachPair (listActive E memories workspace)).foldl (detectPair E workspace threshold) ⟨conflicts, made, 0⟩

end Program

/-! ### One pair -/

/-- There is a row for the two, in whichever order. -/
def Recorded (conflicts : List ConflictRow) (a b : String) : Prop :=
  ∃ r ∈ conflicts, (r.memoryAId = a ∧ r.memoryBId = b) ∨ (r.memoryAId = b ∧ r.memoryBId = a)

/-- The program takes the two for a conflict. -/
def Taken (unicode : Unicode) (threshold : F64) (a b : List Char) : Prop :=
  below (jaccard unicode a b) threshold = false ∧ opposingPolarity unicode a b = true

/-- The ids that are still to be made are new. -/
structure Fresh (E : ConflictEnv) (conflicts : List ConflictRow) (made : Nat) : Prop where
  injective : E.newId.Injective
  unused : ∀ n ≥ made, ∀ r ∈ conflicts, r.id ≠ E.newId n

section Pairs

variable {E : ConflictEnv} {workspace : String} {threshold : F64} {d : Detection} {pair : MemoryRow × MemoryRow}
  {ps : List (MemoryRow × MemoryRow)} {rows : List MemoryRow} {a b : MemoryRow} {x y : String} {conflicts : List ConflictRow}

theorem Taken.comm {unicode : Unicode} {s t : List Char} (h : Taken unicode threshold s t) : Taken unicode threshold t s :=
  ⟨jaccard_comm ▸ h.1, opposingPolarity_comm ▸ h.2⟩

theorem Recorded.comm (h : Recorded conflicts x y) : Recorded conflicts y x := by
  obtain ⟨r, hr, hids⟩ := h
  exact ⟨r, hr, hids.symm⟩

/-- What a pair does: nothing, unless it is taken for a conflict and its two ids are not there. -/
theorem detectPair_cases (workspace : String) (threshold : F64) (pair : MemoryRow × MemoryRow)
    (hfresh : Fresh E d.conflicts d.made) :
    (detectPair E workspace threshold d pair).conflicts = d.conflicts ∧
      (detectPair E workspace threshold d pair).inserted = d.inserted ∧
      (Taken E.unicode threshold pair.1.text pair.2.text →
        ∃ r ∈ d.conflicts, r.memoryAId = pair.1.id ∧ r.memoryBId = pair.2.id) ∨
    ∃ row : ConflictRow, row.id = E.newId d.made ∧ row.memoryAId = pair.1.id ∧ row.memoryBId = pair.2.id ∧
      Taken E.unicode threshold pair.1.text pair.2.text ∧
      (¬ ∃ r ∈ d.conflicts, r.memoryAId = pair.1.id ∧ r.memoryBId = pair.2.id) ∧
      (detectPair E workspace threshold d pair).conflicts = d.conflicts ++ [row] ∧
      (detectPair E workspace threshold d pair).made = d.made + 1 := by
  rw [detectPair]
  split
  next hbelow => exact Or.inl ⟨rfl, rfl, fun h => by rw [h.1] at hbelow; cases hbelow⟩
  next hnot =>
    split
    next hopposed =>
      rw [insertOrIgnore]
      split
      next hthere =>
        refine Or.inl ⟨rfl, rfl, fun _ => ?_⟩
        obtain ⟨r, hr, hkey⟩ := List.any_eq_true.mp hthere
        have hid := hfresh.unused _ (Nat.le_refl _) r hr
        exact ⟨r, hr, by simpa [hid] using hkey⟩
      next hnew =>
        refine Or.inr ⟨_, rfl, rfl, rfl, ⟨Bool.eq_false_iff.mpr hnot, hopposed⟩, ?_, rfl, rfl⟩
        rintro ⟨r, hr, hids⟩
        exact hnew (List.any_eq_true.mpr ⟨r, hr, by simp [hids.1, hids.2]⟩)
    next hopposed => exact Or.inl ⟨rfl, rfl, fun h => absurd h.2 hopposed⟩

theorem made_le : d.made ≤ (detectPair E workspace threshold d pair).made := by
  rw [detectPair]
  split
  · exact Nat.le_refl _
  split
  · rw [insertOrIgnore]
    split <;> exact Nat.le_succ _
  · exact Nat.le_refl _

theorem Fresh.next (hfresh : Fresh E d.conflicts d.made) :
    Fresh E (detectPair E workspace threshold d pair).conflicts (detectPair E workspace threshold d pair).made := by
  refine ⟨hfresh.injective, fun n hn r hr => ?_⟩
  have hle := Nat.le_trans made_le hn
  rcases detectPair_cases workspace threshold _ hfresh with ⟨hsame, -, -⟩ | ⟨row, hid, -, -, -, -, hadded, hmade⟩
  · rw [hsame] at hr
    exact hfresh.unused n hle r hr
  · rw [hadded, List.mem_append, List.mem_singleton] at hr
    rcases hr with hr | rfl
    · exact hfresh.unused n hle r hr
    · rw [hid]
      intro heq
      have := hfresh.injective heq
      omega

theorem Fresh.after (hfresh : Fresh E d.conflicts d.made) (ps : List (MemoryRow × MemoryRow)) :
    Fresh E (ps.foldl (detectPair E workspace threshold) d).conflicts (ps.foldl (detectPair E workspace threshold) d).made := by
  induction ps generalizing d with
  | nil => exact hfresh
  | cons p ps ih => exact ih hfresh.next

/-- A row is added for the pair, or none is needed. -/
theorem recorded_detectPair (hfresh : Fresh E d.conflicts d.made) :
    Recorded (detectPair E workspace threshold d pair).conflicts x y ↔
      Recorded d.conflicts x y ∨
        Taken E.unicode threshold pair.1.text pair.2.text ∧
          ((pair.1.id = x ∧ pair.2.id = y) ∨ (pair.1.id = y ∧ pair.2.id = x)) := by
  rcases detectPair_cases workspace threshold _ hfresh with ⟨hsame, -, hthere⟩ | ⟨row, -, hfirst, hsecond, htaken, -, hadded, -⟩
  · rw [hsame]
    refine ⟨Or.inl, ?_⟩
    rintro (h | ⟨htaken, hids⟩)
    · exact h
    · obtain ⟨r, hr, hra, hrb⟩ := hthere htaken
      rw [← hra, ← hrb] at hids
      exact ⟨r, hr, hids⟩
  · rw [hadded]
    constructor
    · rintro ⟨r, hr, hids⟩
      rw [List.mem_append, List.mem_singleton] at hr
      rcases hr with hr | rfl
      · exact Or.inl ⟨r, hr, hids⟩
      · rw [hfirst, hsecond] at hids
        exact Or.inr ⟨htaken, hids⟩
    · rintro (⟨r, hr, hids⟩ | ⟨-, hids⟩)
      · exact ⟨r, List.mem_append_left _ hr, hids⟩
      · rw [← hfirst, ← hsecond] at hids
        exact ⟨row, List.mem_append_right _ List.mem_cons_self, hids⟩

/-- Over all the pairs. -/
theorem recorded_foldl (hfresh : Fresh E d.conflicts d.made) :
    Recorded (ps.foldl (detectPair E workspace threshold) d).conflicts x y ↔
      Recorded d.conflicts x y ∨ ∃ p ∈ ps, Taken E.unicode threshold p.1.text p.2.text ∧
        ((p.1.id = x ∧ p.2.id = y) ∨ (p.1.id = y ∧ p.2.id = x)) := by
  induction ps generalizing d with
  | nil => simp
  | cons p ps ih => rw [List.foldl_cons, ih hfresh.next, recorded_detectPair hfresh, or_assoc, List.exists_mem_cons_iff]

/-- The rows stay, in the order of their two ids. -/
theorem mem_foldl (ps : List (MemoryRow × MemoryRow)) {r : ConflictRow} (hfresh : Fresh E d.conflicts d.made)
    (hr : r ∈ d.conflicts) :
    r ∈ (ps.foldl (detectPair E workspace threshold) d).conflicts := by
  induction ps generalizing d with
  | nil => exact hr
  | cons p ps ih =>
    refine ih hfresh.next ?_
    rcases detectPair_cases workspace threshold _ hfresh with ⟨hsame, -, -⟩ | ⟨row, -, -, -, -, -, hadded, -⟩
    · rw [hsame]
      exact hr
    · rw [hadded]
      exact List.mem_append_left _ hr

theorem ordered_foldl (hfresh : Fresh E d.conflicts d.made) {p : MemoryRow × MemoryRow} (hp : p ∈ ps)
    (htaken : Taken E.unicode threshold p.1.text p.2.text) :
    ∃ r ∈ (ps.foldl (detectPair E workspace threshold) d).conflicts, r.memoryAId = p.1.id ∧ r.memoryBId = p.2.id := by
  induction ps generalizing d with
  | nil => cases hp
  | cons q ps ih =>
    rcases List.mem_cons.mp hp with rfl | hp
    · rcases detectPair_cases workspace threshold p hfresh with
        ⟨hsame, -, hthere⟩ | ⟨row, -, hfirst, hsecond, -, -, hadded, -⟩
      · obtain ⟨r, hr, hids⟩ := hthere htaken
        exact ⟨r, mem_foldl ps hfresh.next (hsame ▸ hr), hids⟩
      · refine ⟨row, mem_foldl ps hfresh.next ?_, hfirst, hsecond⟩
        rw [hadded]
        exact List.mem_append_right _ List.mem_cons_self
    · exact ih hfresh.next hp

/-- Where all the rows are there, none is added. -/
theorem foldl_idle (hfresh : Fresh E d.conflicts d.made)
    (hall : ∀ p ∈ ps, Taken E.unicode threshold p.1.text p.2.text →
      ∃ r ∈ d.conflicts, r.memoryAId = p.1.id ∧ r.memoryBId = p.2.id) :
    (ps.foldl (detectPair E workspace threshold) d).conflicts = d.conflicts ∧
      (ps.foldl (detectPair E workspace threshold) d).inserted = d.inserted := by
  induction ps generalizing d with
  | nil => exact ⟨rfl, rfl⟩
  | cons p ps ih =>
    rcases detectPair_cases workspace threshold p hfresh with
      ⟨hsame, hcount, -⟩ | ⟨row, -, -, -, htaken, hnone, -, -⟩
    · obtain ⟨hconflicts, hinserted⟩ := ih hfresh.next fun q hq ht => by
        rw [hsame]
        exact hall q (List.mem_cons_of_mem _ hq) ht
      exact ⟨hconflicts.trans hsame, hinserted.trans hcount⟩
    · exact absurd (hall p List.mem_cons_self htaken) hnone

/-- Two rows that are not the same are a pair, in one order. -/
theorem mem_eachPair (ha : a ∈ rows) (hb : b ∈ rows) (hne : a ≠ b) : (a, b) ∈ eachPair rows ∨ (b, a) ∈ eachPair rows := by
  induction rows with
  | nil => cases ha
  | cons c rows ih =>
    rw [eachPair]
    rcases List.mem_cons.mp ha with rfl | ha'
    · have hb' := (List.mem_cons.mp hb).resolve_left hne.symm
      exact Or.inl (List.mem_append_left _ (List.mem_map.mpr ⟨b, hb', rfl⟩))
    rcases List.mem_cons.mp hb with rfl | hb'
    · exact Or.inr (List.mem_append_left _ (List.mem_map.mpr ⟨a, ha', rfl⟩))
    · exact (ih ha' hb').imp (List.mem_append_right _) (List.mem_append_right _)

theorem of_mem_eachPair {p : MemoryRow × MemoryRow} (hp : p ∈ eachPair rows) : p.1 ∈ rows ∧ p.2 ∈ rows := by
  induction rows with
  | nil => cases hp
  | cons c rows ih =>
    rw [eachPair, List.mem_append] at hp
    rcases hp with hp | hp
    · obtain ⟨b, hb, rfl⟩ := List.mem_map.mp hp
      exact ⟨List.mem_cons_self, List.mem_cons_of_mem _ hb⟩
    · exact (ih hp).imp (List.mem_cons_of_mem _) (List.mem_cons_of_mem _)

theorem ne_of_mem_eachPair {p : MemoryRow × MemoryRow} (hrows : rows.Nodup) (hp : p ∈ eachPair rows) : p.1 ≠ p.2 := by
  induction rows with
  | nil => cases hp
  | cons c rows ih =>
    rw [List.nodup_cons] at hrows
    rw [eachPair, List.mem_append] at hp
    rcases hp with hp | hp
    · obtain ⟨b, hb, rfl⟩ := List.mem_map.mp hp
      intro heq
      exact hrows.1 (show c ∈ rows from (show c = b from heq) ▸ hb)
    · exact ih hrows.2 hp

end Pairs

/-! ### The overlap -/

theorem isNaN_ofNat {n : Nat} (h : n ≤ 2047 * 2 ^ 52) : F64.isNaN ⟨UInt64.ofNat n⟩ = false := by
  rw [F64.isNaN, F64.magnitude, UInt64.toNat_ofNat']
  exact decide_eq_false (by omega)

theorem isNaN_ofRatio (num den : Nat) : (F64.ofRatio false num den).isNaN = false := by
  unfold F64.ofRatio
  extract_lets sign u scaled unit n d up q bits
  have hsign : sign = 0 := rfl
  rw [hsign, Nat.zero_add, Nat.zero_add]
  split
  next hq => exact isNaN_ofNat (by omega)
  next => exact isNaN_ofNat (Nat.min_le_right _ _)

theorem isNaN_jaccard (unicode : Unicode) (a b : List Char) : (jaccard unicode a b).isNaN = false := by
  rw [jaccard]
  dsimp only
  split
  · exact isNaN_ofRatio 1 1
  split <;> exact isNaN_ofRatio _ _

/-- Below or at least: of a threshold that is no number, neither. -/
theorem below_iff (x threshold : F64) (hx : x.isNaN = false) (ht : threshold.isNaN = false) :
    below x threshold = false ↔ threshold.le x = true := by
  rw [below, F64.partialCmp, F64.le, hx, ht]
  simp [compare_lt_iff_lt]

/-! ### All pairs -/

section Exact

variable (E : ConflictEnv) (memories : Table (fun m : MemoryRow => m.id)) (workspace : String) (threshold : F64)
  (conflicts : List ConflictRow) (made : Nat)

/-- What a pair of texts must be for a conflict. -/
def Conflict (unicode : Unicode) (threshold : F64) (a b : List Char) : Prop :=
  threshold.le (jaccard unicode a b) = true ∧ Contradict unicode a b

/-- After a call there are rows for the pairs that had one and for those in conflict, and for no others, and another call changes nothing. -/
def Exact : Prop :=
  let after := detectConflicts E memories workspace threshold conflicts made
  (∀ x y, Recorded after.conflicts x y ↔ Recorded conflicts x y ∨
    ∃ a ∈ active memories workspace, ∃ b ∈ active memories workspace, a ≠ b ∧ a.id = x ∧ b.id = y ∧
      Conflict E.unicode threshold a.text b.text) ∧
  (detectConflicts E memories workspace threshold after.conflicts after.made).conflicts = after.conflicts ∧
  (detectConflicts E memories workspace threshold after.conflicts after.made).inserted = 0

/-- The program's verdict on two texts is the right one: with a threshold that is a number, when their words overlap enough, they are well judged. -/
def Judged (unicode : Unicode) (a b : List Char) : Prop :=
  if threshold.isNaN then opposingPolarity unicode a b = false
  else threshold.le (jaccard unicode a b) = true → WellJudged (unicode.toLowercase a) (unicode.toLowercase b)

variable {E memories workspace threshold conflicts made} {a b : MemoryRow}

theorem conflict_comm {unicode : Unicode} {s t : List Char} :
    Conflict unicode threshold s t ↔ Conflict unicode threshold t s := by
  rw [Conflict, Conflict, jaccard_comm, contradict_comm]

theorem judged_iff {unicode : Unicode} {s t : List Char} :
    Judged threshold unicode s t ↔ (Taken unicode threshold s t ↔ Conflict unicode threshold s t) := by
  rw [Judged, Taken, Conflict]
  split
  next hnan =>
    have hbelow : below (jaccard unicode s t) threshold = false := by
      rw [below, F64.partialCmp, hnan, Bool.or_true, if_pos rfl]
      rfl
    have hle : threshold.le (jaccard unicode s t) = false := by
      rw [F64.le, hnan]
      rfl
    simp [hbelow, hle]
  next hnumber =>
    rw [below_iff _ _ (isNaN_jaccard unicode s t) (Bool.eq_false_iff.mpr hnumber), wellJudged_iff, and_congr_right_iff]

theorem Judged.comm {unicode : Unicode} {s t : List Char} (h : Judged threshold unicode s t) : Judged threshold unicode t s := by
  rw [judged_iff] at h ⊢
  exact ⟨fun ht => conflict_comm.mp (h.mp ht.comm), fun hc => (h.mpr (conflict_comm.mp hc)).comm⟩

theorem nodup_active : (listActive E memories workspace).Nodup :=
  (E.order.perm _).nodup_iff.mpr ((List.Nodup.of_map _ memories.keysNodup).filter _)

theorem mem_listActive : a ∈ listActive E memories workspace ↔ a ∈ active memories workspace := (E.order.perm _).mem_iff

theorem eq_of_id_eq (ha : a ∈ active memories workspace) (hb : b ∈ active memories workspace) (h : a.id = b.id) : a = b :=
  Table.eq_of_key_eq (t := memories) (List.mem_of_mem_filter ha) (List.mem_of_mem_filter hb) h

/-- What is recorded after a call. -/
theorem recorded_detectConflicts (memories : Table (fun m : MemoryRow => m.id)) (workspace : String) (threshold : F64)
    (hfresh : Fresh E conflicts made) {x y : String} :
    Recorded (detectConflicts E memories workspace threshold conflicts made).conflicts x y ↔ Recorded conflicts x y ∨
      ∃ a ∈ active memories workspace, ∃ b ∈ active memories workspace, a ≠ b ∧ a.id = x ∧ b.id = y ∧
        Taken E.unicode threshold a.text b.text := by
  rw [detectConflicts, recorded_foldl hfresh]
  refine or_congr_right ⟨?_, ?_⟩
  · rintro ⟨p, hp, htaken, hids⟩
    obtain ⟨hfirst, hsecond⟩ := of_mem_eachPair hp
    have hne := ne_of_mem_eachPair nodup_active hp
    rcases hids with ⟨rfl, rfl⟩ | ⟨rfl, rfl⟩
    · exact ⟨p.1, mem_listActive.mp hfirst, p.2, mem_listActive.mp hsecond, hne, rfl, rfl, htaken⟩
    · exact ⟨p.2, mem_listActive.mp hsecond, p.1, mem_listActive.mp hfirst, hne.symm, rfl, rfl, htaken.comm⟩
  · rintro ⟨a, ha, b, hb, hne, rfl, rfl, htaken⟩
    rcases mem_eachPair (mem_listActive.mpr ha) (mem_listActive.mpr hb) hne with hp | hp
    · exact ⟨_, hp, htaken, Or.inl ⟨rfl, rfl⟩⟩
    · exact ⟨_, hp, htaken.comm, Or.inr ⟨rfl, rfl⟩⟩

/-- A second call adds nothing. -/
theorem detectConflicts_again (hfresh : Fresh E conflicts made) :
    let after := detectConflicts E memories workspace threshold conflicts made
    (detectConflicts E memories workspace threshold after.conflicts after.made).conflicts = after.conflicts ∧
      (detectConflicts E memories workspace threshold after.conflicts after.made).inserted = 0 := by
  have hafter : Fresh E (detectConflicts E memories workspace threshold conflicts made).conflicts
      (detectConflicts E memories workspace threshold conflicts made).made :=
    Fresh.after (d := ⟨conflicts, made, 0⟩) hfresh _
  exact foldl_idle hafter fun p hp htaken => ordered_foldl (d := ⟨conflicts, made, 0⟩) hfresh hp htaken

/-! ### Samples -/

/-- Letters and digits of ASCII, rows sorted by a stable sort, numbered ids. -/
def ConflictEnv.sample : ConflictEnv where
  unicode := ⟨Char.isAlphanum, List.map Char.toLower⟩
  order := {
    sort rows := rows.mergeSort fun a b => b.createdAt ≤ a.createdAt
    perm rows := List.mergeSort_perm rows _
    sorted rows := by
      have hsorted := @List.pairwise_mergeSort MemoryRow (fun a b => decide (b.createdAt ≤ a.createdAt))
        (fun a b c hab hbc => decide_eq_true (le_trans (of_decide_eq_true hbc) (of_decide_eq_true hab)))
        (fun a b => by simpa using le_total b.createdAt a.createdAt) rows
      exact hsorted.imp fun h => of_decide_eq_true h }
  newId n := String.ofList (List.replicate n 'm')
  now _ := "2026-05-17T00:00:00Z"

theorem fresh_sample : Fresh .sample [] 0 := by
  refine ⟨fun m n h => ?_, fun _ _ _ hr => nomatch hr⟩
  have hlength := congrArg List.length (String.ofList_injective h)
  rwa [List.length_replicate, List.length_replicate] at hlength

/-- The memory `id`, which is active. -/
def MemoryRow.sample (id text : String) : MemoryRow := ⟨id, "w", text.toList, none, none, "2026-05-17"⟩

/-- Two memories of one workspace. -/
def twoMemories (s t : String) : Table (fun m : MemoryRow => m.id) where
  rows := [.sample "a" s, .sample "b" t]
  keysNodup := by
    show ["a", "b"].Nodup
    decide

theorem mem_twoMemories {s t : String} {m : MemoryRow} (h : m ∈ active (twoMemories s t) "w") :
    m = .sample "a" s ∨ m = .sample "b" t := by
  simpa [twoMemories] using List.mem_of_mem_filter h

/-- **Conflict detection is exact** if and only if every two active memories without a row are judged rightly. -/
theorem detectConflicts_exact_iff (hfresh : Fresh E conflicts made) :
    Exact E memories workspace threshold conflicts made ↔
      ∀ a ∈ active memories workspace, ∀ b ∈ active memories workspace, a ≠ b → ¬ Recorded conflicts a.id b.id →
        Judged threshold E.unicode a.text b.text := by
  constructor
  · rintro ⟨hexact, -⟩ a ha b hb hne hnew
    have hrow := (recorded_detectConflicts memories workspace threshold hfresh).symm.trans
      (hexact a.id b.id)
    rw [or_iff_right hnew, or_iff_right hnew] at hrow
    refine judged_iff.mpr ⟨fun h => ?_, fun h => ?_⟩
    · obtain ⟨a', ha', b', hb', -, hida, hidb, hconflict⟩ := hrow.mp ⟨a, ha, b, hb, hne, rfl, rfl, h⟩
      rwa [eq_of_id_eq ha' ha hida, eq_of_id_eq hb' hb hidb] at hconflict
    · obtain ⟨a', ha', b', hb', -, hida, hidb, htaken⟩ := hrow.mpr ⟨a, ha, b, hb, hne, rfl, rfl, h⟩
      rwa [eq_of_id_eq ha' ha hida, eq_of_id_eq hb' hb hidb] at htaken
  · intro hjudged
    refine ⟨fun x y => ?_, detectConflicts_again hfresh⟩
    rw [recorded_detectConflicts memories workspace threshold hfresh]
    by_cases hold : Recorded conflicts x y
    · exact iff_of_true (Or.inl hold) (Or.inl hold)
    rw [or_iff_right hold, or_iff_right hold]
    constructor
    · rintro ⟨a, ha, b, hb, hne, rfl, rfl, htaken⟩
      exact ⟨a, ha, b, hb, hne, rfl, rfl, (judged_iff.mp (hjudged a ha b hb hne hold)).mp htaken⟩
    · rintro ⟨a, ha, b, hb, hne, rfl, rfl, hconflict⟩
      exact ⟨a, ha, b, hb, hne, rfl, rfl, (judged_iff.mp (hjudged a ha b hb hne hold)).mpr hconflict⟩

/-- One memory says `always`, the other `never`. -/
theorem detectConflicts_exact_iff_always :
    Exact .sample (twoMemories "it always runs" "it never runs") "w" ⟨0⟩ [] 0 := by
  refine (detectConflicts_exact_iff fresh_sample).mpr fun a ha b hb hne _ => ?_
  have hjudged : Judged ⟨0⟩ ConflictEnv.sample.unicode "it always runs".toList "it never runs".toList := by
    rw [Judged, if_neg (by decide)]
    exact fun _ => Or.inr (Or.inr (Or.inl (by decide)))
  rcases mem_twoMemories ha with rfl | rfl <;> rcases mem_twoMemories hb with rfl | rfl
  · exact absurd rfl hne
  · exact hjudged
  · exact hjudged.comm
  · exact absurd rfl hne

/-- A memory that says `must not` is no conflict for one that says `must`. -/
theorem must_not_missed : ¬ Exact .sample (twoMemories "it must run" "it must not run") "w" ⟨0⟩ [] 0 := by
  rintro ⟨hexact, -⟩
  have hrow := (recorded_detectConflicts _ _ _ fresh_sample).symm.trans (hexact "a" "b")
  have hconflict : Conflict ConflictEnv.sample.unicode ⟨0⟩ "it must run".toList "it must not run".toList :=
    ⟨by decide +kernel, ("must not".toList, "must".toList), by decide, by decide⟩
  rcases hrow.mpr (Or.inr ⟨.sample "a" "it must run", by decide, .sample "b" "it must not run", by decide, by decide, rfl, rfl,
    hconflict⟩) with ⟨_, hr, -⟩ | ⟨a, ha, b, hb, hne, hida, hidb, htaken⟩
  · cases hr
  · have hkept : opposingPolarity ConflictEnv.sample.unicode "it must run".toList "it must not run".toList = false := by decide
    have hopposed : opposingPolarity ConflictEnv.sample.unicode "it must run".toList "it must not run".toList = true := by
      rcases mem_twoMemories ha with rfl | rfl <;> rcases mem_twoMemories hb with rfl | rfl
      · exact absurd rfl hne
      · exact htaken.2
      · exact htaken.comm.2
      · exact absurd rfl hne
    rw [hkept] at hopposed
    cases hopposed

end Exact

end ActantDb.MemoryStore
