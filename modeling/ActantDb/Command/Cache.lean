import Mathlib
import ActantDb.Lib.Lru

/-!
# The semantic cache

`ActantCache` keeps its values in a hash map and the order of their use in a queue. Neither is changed but under a lock, so that a run is a list of calls.
-/

namespace ActantDb

structure CacheInner where
  values : Std.HashMap String String
  lru : List String

namespace CacheInner

def touch (inner : CacheInner) (key : String) : CacheInner :=
  { inner with lru := (inner.lru.filter fun existing => existing ≠ key) ++ [key] }

/-- The loop of `evict_until_room`, which takes an entry of the queue at each round. -/
def evictLoop (maxEntries : Nat) (values : Std.HashMap String String) : List String → CacheInner
  | [] => if maxEntries ≤ values.size then ⟨∅, []⟩ else ⟨values, []⟩
  | key :: rest =>
    if maxEntries ≤ values.size then evictLoop maxEntries (values.erase key) rest else ⟨values, key :: rest⟩

def evictUntilRoom (inner : CacheInner) (maxEntries : Nat) : CacheInner :=
  evictLoop maxEntries inner.values inner.lru

/-- The keys of the queue with their values. -/
def entries (inner : CacheInner) : Lru.Entries String String :=
  inner.lru.filterMap fun key => inner.values[key]?.map fun value => (key, value)

end CacheInner

structure ActantCache where
  inner : CacheInner
  maxEntries : Nat

namespace ActantCache

/-- A cache without room for an entry is refused, by a panic. -/
def withMaxEntries (maxEntries : Nat) : Option ActantCache :=
  if 0 < maxEntries then some ⟨⟨∅, []⟩, maxEntries⟩ else none

def get (cache : ActantCache) (key : String) : Option String × ActantCache :=
  match cache.inner.values[key]? with
  | none => (none, cache)
  | some value => (some value, { cache with inner := cache.inner.touch key })

def put (cache : ActantCache) (key value : String) : ActantCache :=
  let inner :=
    if cache.inner.values.contains key then cache.inner else cache.inner.evictUntilRoom cache.maxEntries
  { cache with inner := CacheInner.touch { inner with values := inner.values.insert key value } key }

/-! ### Runs of calls -/

def step (cache : ActantCache) : Lru.Op String String → ActantCache
  | .get key => (cache.get key).2
  | .put key value => cache.put key value

def reply (cache : ActantCache) : Lru.Op String String → Option String
  | .get key => (cache.get key).1
  | .put _ _ => none

def run (cache : ActantCache) (calls : List (Lru.Op String String)) : ActantCache := calls.foldl step cache

/-- The queue and the map are in step, and there is room for them. -/
structure Coherent (cache : ActantCache) : Prop where
  nodup : cache.inner.lru.Nodup
  mem : ∀ key, key ∈ cache.inner.lru ↔ key ∈ cache.inner.values
  size : cache.inner.values.size ≤ cache.maxEntries
  room : 0 < cache.maxEntries

section Entries

variable {inner : CacheInner} {values : Std.HashMap String String} {lru : List String} {key value : String}

theorem keys_entries (h : ∀ key ∈ inner.lru, key ∈ inner.values) : Lru.keys inner.entries = inner.lru := by
  obtain ⟨values, lru⟩ := inner
  rw [Lru.keys, CacheInner.entries]
  induction lru with
  | nil => rfl
  | cons key rest ih =>
    obtain ⟨value, hvalue⟩ := Option.isSome_iff_exists.mp (Std.HashMap.mem_iff_isSome_getElem?.mp (h key List.mem_cons_self))
    have hrest := ih fun k hk => h k (List.mem_cons_of_mem _ hk)
    rw [List.filterMap_cons_some (by rw [hvalue]; rfl), List.map_cons, hrest]

theorem lookup_entries (h : ∀ key, key ∈ inner.lru ↔ key ∈ inner.values) :
    Lru.lookup inner.entries key = inner.values[key]? := by
  cases hl : Lru.lookup inner.entries key with
  | none =>
    rw [Lru.lookup_eq_none, keys_entries fun k => (h k).mp, h, Std.HashMap.mem_iff_isSome_getElem?] at hl
    exact (Option.not_isSome_iff_eq_none.mp hl).symm
  | some value =>
    obtain ⟨e, hfind, rfl⟩ := Option.map_eq_some_iff.mp hl
    have hkey : e.1 = key := by simpa using List.find?_some hfind
    have hmem := List.mem_of_find?_eq_some hfind
    obtain ⟨k, -, hk⟩ := List.mem_filterMap.mp hmem
    obtain ⟨v, hv, rfl⟩ := Option.map_eq_some_iff.mp hk
    rw [← hkey, hv]

/-- A key that is moved to the end of the queue, with its value. -/
theorem entries_touch {values' : Std.HashMap String String} (hvalue : values'[key]? = some value)
    (hrest : ∀ k, k ≠ key → values'[k]? = values[k]?) :
    (CacheInner.touch ⟨values', lru⟩ key).entries = Lru.use (CacheInner.entries ⟨values, lru⟩) key value := by
  rw [CacheInner.touch, CacheInner.entries, Lru.use, List.filterMap_append]
  congr 1
  · rw [CacheInner.entries, List.filterMap_filter, List.filter_filterMap]
    congr 1
    funext k
    by_cases hk : k = key
    · subst hk
      cases values[k]? <;> simp [Option.filter]
    · rw [hrest k hk]
      cases values[k]? <;> simp [Option.filter, hk]
  · simp [hvalue]

end Entries

section Coherent

variable {cache : ActantCache} {key value : String}

theorem Coherent.perm (h : cache.Coherent) : cache.inner.lru.Perm cache.inner.values.keys := by
  have hkeys : cache.inner.values.keys.Nodup := Std.HashMap.nodup_keys
  rw [List.perm_ext_iff_of_nodup h.nodup hkeys]
  intro key
  rw [h.mem, Std.HashMap.mem_keys]

theorem Coherent.length (h : cache.Coherent) : cache.inner.lru.length = cache.inner.values.size := by
  rw [h.perm.length_eq, Std.HashMap.length_keys]

theorem Coherent.keys (h : cache.Coherent) : Lru.keys cache.inner.entries = cache.inner.lru :=
  keys_entries fun key => (h.mem key).mp

theorem Coherent.lookup (h : cache.Coherent) : Lru.lookup cache.inner.entries key = cache.inner.values[key]? :=
  lookup_entries h.mem

/-- A full cache drops the key at the front of its queue, any other drops nothing. -/
theorem evict_cases (h : cache.Coherent) :
    (cache.inner.values.size < cache.maxEntries ∧ cache.inner.evictUntilRoom cache.maxEntries = cache.inner) ∨
      ∃ key rest, cache.inner.lru = key :: rest ∧ cache.inner.values.size = cache.maxEntries ∧
        cache.inner.evictUntilRoom cache.maxEntries = ⟨cache.inner.values.erase key, rest⟩ := by
  have hlength := h.length
  have hroom := h.room
  have hsize := h.size
  rw [CacheInner.evictUntilRoom]
  cases hlru : cache.inner.lru with
  | nil =>
    rw [hlru, List.length_nil] at hlength
    left
    refine ⟨by omega, ?_⟩
    rw [CacheInner.evictLoop, if_neg (by omega), ← hlru]
  | cons key rest =>
    by_cases hfull : cache.maxEntries ≤ cache.inner.values.size
    · right
      refine ⟨key, rest, rfl, by omega, ?_⟩
      have hkey : key ∈ cache.inner.values := (h.mem key).mp (hlru ▸ List.mem_cons_self)
      have herase : ¬ cache.maxEntries ≤ (cache.inner.values.erase key).size := by
        rw [Std.HashMap.size_erase, if_pos hkey]
        omega
      rw [CacheInner.evictLoop, if_pos hfull]
      cases rest <;> rw [CacheInner.evictLoop, if_neg herase]
    · left
      refine ⟨by omega, ?_⟩
      rw [CacheInner.evictLoop, if_neg hfull, ← hlru]

/-- Eviction makes room for a key that is not held. -/
theorem entries_evict (h : cache.Coherent) :
    (cache.inner.evictUntilRoom cache.maxEntries).entries = Lru.makeRoom cache.maxEntries cache.inner.entries := by
  have hlength : cache.inner.entries.length = cache.inner.values.size := by
    rw [← Lru.length_keys, h.keys, h.length]
  rw [Lru.makeRoom, hlength]
  obtain ⟨hroom, hsame⟩ | ⟨key, rest, hlru, hfull, hevict⟩ := evict_cases h
  · rw [if_pos hroom, hsame]
  · have hnodup := h.nodup
    rw [hlru, List.nodup_cons] at hnodup
    obtain ⟨value, hvalue⟩ := Option.isSome_iff_exists.mp
      (Std.HashMap.mem_iff_isSome_getElem?.mp ((h.mem key).mp (hlru ▸ List.mem_cons_self)))
    rw [if_neg (by omega), hevict, CacheInner.entries, CacheInner.entries, hlru,
      List.filterMap_cons_some (by rw [hvalue]; rfl), List.tail_cons]
    refine List.filterMap_congr fun k hk => ?_
    have hne : key ≠ k := fun heq => hnodup.1 (heq ▸ hk)
    rw [Std.HashMap.getElem?_erase, if_neg (by simpa using hne)]

theorem touch_nodup {inner : CacheInner} (h : inner.lru.Nodup) : (inner.touch key).lru.Nodup := by
  rw [CacheInner.touch, List.nodup_append]
  refine ⟨h.filter _, List.nodup_singleton key, ?_⟩
  intro a ha b hb
  rw [List.mem_singleton] at hb
  simpa [hb] using (List.mem_filter.mp ha).2

theorem mem_touch {inner : CacheInner} {k : String} : k ∈ (inner.touch key).lru ↔ k = key ∨ k ∈ inner.lru := by
  rw [CacheInner.touch, List.mem_append, List.mem_filter, List.mem_singleton]
  by_cases hk : k = key <;> simp [hk]

/-- What a new key finds: the queue and the map are in step, and there is room. -/
theorem evict_coherent (h : cache.Coherent) :
    let inner := cache.inner.evictUntilRoom cache.maxEntries
    inner.lru.Nodup ∧ (∀ k, k ∈ inner.lru ↔ k ∈ inner.values) ∧ inner.values.size < cache.maxEntries := by
  obtain ⟨hroom, hsame⟩ | ⟨key, rest, hlru, hfull, hevict⟩ := evict_cases h
  · rw [hsame]
    exact ⟨h.nodup, h.mem, hroom⟩
  · have hnodup := h.nodup
    have hpos := h.room
    rw [hlru, List.nodup_cons] at hnodup
    rw [hevict]
    refine ⟨hnodup.2, fun k => ?_, ?_⟩
    · have hmem := h.mem k
      rw [hlru, List.mem_cons] at hmem
      rw [Std.HashMap.mem_erase, ← hmem, beq_eq_false_iff_ne]
      constructor
      · exact fun hk => ⟨fun heq => hnodup.1 (heq ▸ hk), .inr hk⟩
      · exact fun ⟨hne, hk⟩ => hk.resolve_left (Ne.symm hne)
    · rw [Std.HashMap.size_erase, if_pos ((h.mem key).mp (hlru ▸ List.mem_cons_self))]
      show cache.inner.values.size - 1 < cache.maxEntries
      omega

/-- The calls keep the queue and the map in step. -/
theorem Coherent.step (h : cache.Coherent) (call : Lru.Op String String) : (cache.step call).Coherent := by
  cases call with
  | get key =>
    rw [ActantCache.step, get]
    cases hvalue : cache.inner.values[key]? with
    | none => exact h
    | some value =>
      have hkey : key ∈ cache.inner.values := Std.HashMap.mem_iff_isSome_getElem?.mpr (by rw [hvalue]; rfl)
      refine ⟨touch_nodup h.nodup, fun k => ?_, h.size, h.room⟩
      show k ∈ (cache.inner.touch key).lru ↔ k ∈ cache.inner.values
      rw [mem_touch, ← h.mem]
      exact ⟨fun hk => hk.elim (fun heq => heq ▸ (h.mem key).mpr hkey) id, .inr⟩
  | put key value =>
    rw [ActantCache.step, put]
    by_cases hkey : cache.inner.values.contains key
    · rw [if_pos hkey]
      refine ⟨touch_nodup h.nodup, fun k => ?_, ?_, h.room⟩
      · rw [mem_touch, h.mem, CacheInner.touch, Std.HashMap.mem_insert, beq_iff_eq, eq_comm]
      · show (cache.inner.values.insert key value).size ≤ cache.maxEntries
        rw [Std.HashMap.size_insert, if_pos (Std.HashMap.contains_iff_mem.mp hkey)]
        exact h.size
    · obtain ⟨hnodup, hmem, hroom⟩ := evict_coherent h
      rw [if_neg hkey]
      refine ⟨touch_nodup hnodup, fun k => ?_, ?_, h.room⟩
      · rw [mem_touch, hmem, CacheInner.touch, Std.HashMap.mem_insert, beq_iff_eq, eq_comm]
      · exact le_trans Std.HashMap.size_insert_le hroom

/-- **One call** does what it does of a bounded map, and is answered as there. -/
theorem Coherent.refines (h : cache.Coherent) (call : Lru.Op String String) :
    (cache.step call).inner.entries = Lru.step cache.maxEntries cache.inner.entries call ∧
      cache.reply call = Lru.reply cache.inner.entries call := by
  cases call with
  | get key =>
    rw [ActantCache.step, reply, Lru.step, Lru.reply, h.lookup, get]
    cases hvalue : cache.inner.values[key]? with
    | none => exact ⟨rfl, rfl⟩
    | some value => exact ⟨entries_touch hvalue fun _ _ => rfl, rfl⟩
  | put key value =>
    refine ⟨?_, rfl⟩
    have hheld : (Lru.lookup cache.inner.entries key).isSome = cache.inner.values.contains key := by
      rw [h.lookup, Std.HashMap.isSome_getElem?_eq_contains]
    have hself (values : Std.HashMap String String) : (values.insert key value)[key]? = some value :=
      Std.HashMap.getElem?_insert_self
    have hrest (values : Std.HashMap String String) (k : String) (hk : k ≠ key) :
        (values.insert key value)[k]? = values[k]? := by
      rw [Std.HashMap.getElem?_insert, if_neg (by simpa using Ne.symm hk)]
    rw [ActantCache.step, put, Lru.step, hheld]
    by_cases hkey : cache.inner.values.contains key
    · rw [if_pos hkey, if_pos hkey]
      exact entries_touch (hself _) (hrest _)
    · rw [if_neg hkey, if_neg hkey, ← entries_evict h]
      exact entries_touch (hself _) (hrest _)

theorem step_maxEntries (call : Lru.Op String String) : (cache.step call).maxEntries = cache.maxEntries := by
  cases call with
  | get key =>
    rw [ActantCache.step, get]
    cases cache.inner.values[key]? <;> rfl
  | put key value => rfl

end Coherent

/-! ### The cache is a bounded map that drops what was used longest ago -/

/-- What is true of a cache after the calls. -/
structure Bounded (maxEntries : Nat) (calls : List (Lru.Op String String)) (cache : ActantCache) : Prop where
  nodup : cache.inner.lru.Nodup
  perm : cache.inner.lru.Perm cache.inner.values.keys
  size : cache.inner.values.size ≤ maxEntries
  /-- The keys used last, in the order of their last use. -/
  recent : cache.inner.lru =
    (Lru.uses maxEntries calls).dedup.drop ((Lru.uses maxEntries calls).dedup.length - maxEntries)
  get : ∀ key, (cache.get key).1 = if key ∈ cache.inner.lru then Lru.lastPut key calls else none
  refines : cache.inner.entries = Lru.run maxEntries calls
  reply : ∀ call, cache.reply call = Lru.reply (Lru.run maxEntries calls) call
  /-- What the next call evicts. -/
  evicts : ∀ call, ∀ key ∈ cache.inner.lru, key ∉ (cache.step call).inner.lru →
    cache.inner.lru.head? = some key ∧ cache.inner.values.size = maxEntries ∧
      ∃ new value, call = .put new value ∧ new ∉ cache.inner.lru ∧ (cache.step call).inner.lru = cache.inner.lru.tail ++ [new]

theorem run_coherent {cache : ActantCache} (h : cache.Coherent) (calls : List (Lru.Op String String)) :
    (cache.run calls).Coherent ∧ (cache.run calls).maxEntries = cache.maxEntries := by
  induction calls generalizing cache with
  | nil => exact ⟨h, rfl⟩
  | cons call calls ih =>
    obtain ⟨hcoherent, hmax⟩ := ih (h.step call)
    exact ⟨hcoherent, hmax.trans (step_maxEntries call)⟩

theorem run_entries {cache : ActantCache} (h : cache.Coherent) (calls : List (Lru.Op String String)) :
    (cache.run calls).inner.entries = calls.foldl (Lru.step cache.maxEntries) cache.inner.entries := by
  induction calls generalizing cache with
  | nil => rfl
  | cons call calls ih =>
    have hrest := ih (h.step call)
    rwa [step_maxEntries, (h.refines call).1] at hrest

/-- What a call takes from the queue. -/
theorem step_evicts {cache : ActantCache} (h : cache.Coherent) {call : Lru.Op String String} {key : String}
    (hkey : key ∈ cache.inner.lru) (hout : key ∉ (cache.step call).inner.lru) :
    cache.inner.lru.head? = some key ∧ cache.inner.values.size = cache.maxEntries ∧
      ∃ new value, call = .put new value ∧ new ∉ cache.inner.lru ∧
        (cache.step call).inner.lru = cache.inner.lru.tail ++ [new] := by
  cases call with
  | get k =>
    rw [ActantCache.step, ActantCache.get] at hout
    cases hvalue : cache.inner.values[k]? with
    | none => exact absurd hkey (by rwa [hvalue] at hout)
    | some value =>
      rw [hvalue] at hout
      exact absurd (mem_touch.mpr (.inr hkey)) hout
  | put new value =>
    rw [ActantCache.step, put] at hout ⊢
    by_cases hnew : cache.inner.values.contains new
    · rw [if_pos hnew] at hout
      exact absurd (mem_touch.mpr (.inr hkey)) hout
    rw [if_neg hnew] at hout ⊢
    obtain ⟨-, hsame⟩ | ⟨first, rest, hlru, hfull, hevict⟩ := evict_cases h
    · rw [hsame] at hout
      exact absurd (mem_touch.mpr (.inr hkey)) hout
    · rw [hevict] at hout ⊢
      have hnotin : new ∉ cache.inner.lru := fun hin => hnew (Std.HashMap.contains_iff_mem.mpr ((h.mem new).mp hin))
      have hstays : rest.filter (fun existing => existing ≠ new) = rest := by
        rw [List.filter_eq_self]
        intro k hk
        simpa using fun heq : k = new => hnotin (by rw [hlru, ← heq]; exact List.mem_cons_of_mem _ hk)
      have hfirst : key = first := by
        rw [hlru, List.mem_cons] at hkey
        exact hkey.resolve_right fun hrest => hout (mem_touch.mpr (.inr hrest))
      refine ⟨by rw [hlru, hfirst]; rfl, hfull, new, value, rfl, hnotin, ?_⟩
      rw [hlru, List.tail_cons]
      exact congrArg (· ++ [new]) hstays

/-- **The cache is a bounded map** that drops what was used longest ago, whatever is called; only one without room is refused. -/
theorem cache_bounded (maxEntries : Nat) (calls : List (Lru.Op String String)) :
    match withMaxEntries maxEntries with
    | none => maxEntries = 0
    | some cache => Bounded maxEntries calls (cache.run calls) := by
  rw [withMaxEntries]
  by_cases hroom : 0 < maxEntries
  · rw [if_pos hroom]
    have hstart : Coherent ⟨⟨∅, []⟩, maxEntries⟩ := ⟨List.nodup_nil, by simp, by simp, hroom⟩
    obtain ⟨hcoherent, hmax⟩ := run_coherent hstart calls
    have hentries : _ = Lru.run maxEntries calls := run_entries hstart calls
    have hkeys := hcoherent.keys
    constructor
    · exact hcoherent.nodup
    · exact hcoherent.perm
    · exact le_of_le_of_eq hcoherent.size hmax
    · rw [← hkeys, hentries, Lru.run_keys hroom]
    · intro key
      have hget := (hcoherent.refines (.get key)).2
      rw [hentries] at hget
      rw [← hkeys, hentries, ← Lru.run_lookup hroom]
      exact hget
    · exact hentries
    · intro call
      rw [← hentries]
      exact (hcoherent.refines call).2
    · intro call key hkey hout
      have hevicts := step_evicts hcoherent hkey hout
      rwa [hmax] at hevicts
  · rw [if_neg hroom]
    exact Nat.eq_zero_of_not_pos hroom

end ActantCache

end ActantDb
