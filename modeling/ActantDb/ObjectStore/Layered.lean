import Mathlib.Logic.Function.Basic
import ActantDb.ObjectStore.Blob

/-!
# The layered store

`put` always goes to the default store, and what it returns is the reference of that store. The other operations go by the scheme of their argument to the store that is registered for it, and to the default store only where there is none. So the layered store keeps what is written to it just when the default store does, and no other store is registered for the scheme of the default store's references: of two memory stores, say, one as the default and one registered for `mem`.
-/

namespace ActantDb

namespace ObjectStore

/-! ### Stores -/

/-- A store with states in `σ`. `uri` is the reference it returns for a key and a body, and `denotes` is which object an argument is to. -/
structure BlobStore (σ ν : Type) where
  put : σ → String → Bytes → Except BlobError (BlobRef × σ)
  get : σ → String → Except BlobError Bytes
  delete : σ → String → Except BlobError σ
  exists? : σ → String → Except BlobError Bool
  uri : String → Bytes → String
  denotes : String → ν
  fresh : σ
  uri_put : ∀ {s key body ref s'}, put s key body = .ok (ref, s') → ref.uri = uri key body
  get_fresh : ∀ keyOrUri body, get fresh keyOrUri ≠ .ok body

namespace BlobStore

variable {σ ν : Type} (B : BlobStore σ ν)

def step (s : σ) : Op → σ
  | .put key body =>
    match B.put s key body with
    | .ok (_, s') => s'
    | .error _ => s
  | .delete keyOrUri =>
    match B.delete s keyOrUri with
    | .ok s' => s'
    | .error _ => s
  | .get _ | .exists? _ => s

/-- The reference is there, with this body. -/
structure Holds (s : σ) (uri : String) (body : Bytes) : Prop where
  read : B.get s uri = .ok body
  found : B.exists? s uri = .ok true

structure Absent (s : σ) (uri : String) : Prop where
  missing : ∃ text, B.get s uri = .error (.notFound text)
  notFound : B.exists? s uri = .ok false

/-- The reference is put again. -/
def Puts (uri : String) : Op → Prop
  | .put key body => B.uri key body = uri
  | _ => False

/-- The reference is put again, or what it denotes is deleted. -/
def Touches (uri : String) : Op → Prop
  | .delete keyOrUri => B.denotes keyOrUri = B.denotes uri
  | op => B.Puts uri op

end BlobStore

/-- The arguments other than keys to put are among those of `P`. -/
def Op.Within (P : String → Prop) : Op → Prop
  | .put _ _ => True
  | .get keyOrUri | .delete keyOrUri | .exists? keyOrUri => P keyOrUri

instance (P : String → Prop) [DecidablePred P] : DecidablePred (Op.Within P)
  | .put _ _ => instDecidableTrue
  | .get keyOrUri | .delete keyOrUri | .exists? keyOrUri => inferInstanceAs (Decidable (P keyOrUri))

/-- As far as the arguments in `P` go: a reference that is returned holds what was put until it is put again or deleted, and is absent from then on. -/
structure BlobStore.Keeps {σ ν : Type} (B : BlobStore σ ν) (P : String → Prop) : Prop where
  holds : ∀ {s key body ref s'}, B.put s key body = .ok (ref, s') → P ref.uri →
    ∀ ops : List Op, (∀ op ∈ ops, op.Within P ∧ ¬ B.Touches ref.uri op) → B.Holds (Lts.run B.step s' ops) ref.uri body
  absent : ∀ {s key body ref s'}, B.put s key body = .ok (ref, s') → P ref.uri →
    ∀ ops : List Op, (∀ op ∈ ops, op.Within P) → ∃ s'', B.delete (Lts.run B.step s' ops) ref.uri = .ok s'' ∧
      ∀ ops' : List Op, (∀ op ∈ ops', op.Within P ∧ ¬ B.Puts ref.uri op) → B.Absent (Lts.run B.step s'' ops') ref.uri

/-! ### The memory store -/

namespace MemoryStore

variable (X : BlobCrates) (id : String)

def uriFor (key : String) : String := "mem://" ++ (id ++ "/" ++ key)

def keyFrom (keyOrUri : String) : Except BlobError String :=
  match stripPrefix "mem://" keyOrUri with
  | none => .ok keyOrUri
  | some rest =>
    match stripPrefix (id ++ "/") rest with
    | some k => .ok k
    | none =>
      .error (.invalidKey ("URI " ++ X.debug keyOrUri ++ " belongs to a different MemoryStore (this one is " ++ X.debug id ++ ")"))

/-- The store of this id, with a map from keys to bodies. -/
def store : BlobStore (String → Option Bytes) (Except BlobError String) where
  put s key body := .ok (⟨uriFor id key, body.length, X.sha256Hex body⟩, Function.update s key (some body))
  get s keyOrUri := do
    let key ← keyFrom X id keyOrUri
    match s key with
    | some body => .ok body
    | none => .error (.notFound key)
  delete s keyOrUri := do
    let key ← keyFrom X id keyOrUri
    return Function.update s key none
  exists? s keyOrUri := do
    let key ← keyFrom X id keyOrUri
    return (s key).isSome
  uri key _ := uriFor id key
  denotes := keyFrom X id
  fresh _ := none
  uri_put h := by
    cases h
    rfl
  get_fresh keyOrUri body h := by
    cases hkey : keyFrom X id keyOrUri <;> rw [hkey] at h <;> cases h

variable {X id}

theorem keyFrom_uriFor (key : String) : keyFrom X id (uriFor id key) = .ok key := by
  rw [keyFrom, uriFor, stripPrefix_append]
  dsimp only
  rw [stripPrefix_append]

/-- Only `put` and `delete` of a key change what is under it. -/
theorem step_other {key : String} {s : String → Option Bytes} {op : Op}
    (h : ¬ (store X id).Touches (uriFor id key) op) : (store X id).step s op key = s key := by
  cases op with
  | put key' body =>
    have hne : key ≠ key' := by
      rintro rfl
      exact h rfl
    exact Function.update_of_ne hne _ _
  | get keyOrUri => rfl
  | exists? keyOrUri => rfl
  | delete keyOrUri =>
    have hother : keyFrom X id keyOrUri ≠ .ok key := fun heq => h (heq.trans (keyFrom_uriFor key).symm)
    simp only [BlobStore.step, store]
    cases hkey : keyFrom X id keyOrUri with
    | error e => rfl
    | ok key' =>
      have hne : key ≠ key' := by
        rintro rfl
        exact hother hkey
      exact Function.update_of_ne hne _ _

theorem get_uriFor {key : String} {s : String → Option Bytes} :
    (store X id).get s (uriFor id key) = match s key with
      | some body => .ok body
      | none => .error (.notFound key) := by
  simp only [store, keyFrom_uriFor, bind, Except.bind]

theorem exists_uriFor {key : String} {s : String → Option Bytes} :
    (store X id).exists? s (uriFor id key) = .ok (s key).isSome := by
  simp only [store, keyFrom_uriFor, bind, Except.bind]
  rfl

/-- What is under a key stays through operations that do not touch it. -/
theorem run_other {key : String} {s : String → Option Bytes} {ops : List Op}
    (h : ∀ op ∈ ops, ¬ (store X id).Touches (uriFor id key) op) : Lts.run (store X id).step s ops key = s key := by
  induction ops generalizing s with
  | nil => rfl
  | cons op ops ih =>
    rw [Lts.run_cons, ih fun op' hop' => h op' (List.mem_cons_of_mem _ hop'), step_other (h op List.mem_cons_self)]

/-- What is not there comes back by `put` only. -/
theorem run_missing {key : String} {s : String → Option Bytes} {ops : List Op} (hs : s key = none)
    (h : ∀ op ∈ ops, ¬ (store X id).Puts (uriFor id key) op) : Lts.run (store X id).step s ops key = none := by
  induction ops generalizing s with
  | nil => exact hs
  | cons op ops ih =>
    refine ih ?_ fun op' hop' => h op' (List.mem_cons_of_mem _ hop')
    have hputs := h op List.mem_cons_self
    by_cases htouches : (store X id).Touches (uriFor id key) op
    · cases op with
      | delete keyOrUri =>
        have hkey : keyFrom X id keyOrUri = .ok key := htouches.trans (keyFrom_uriFor key)
        simp only [BlobStore.step, store, hkey, bind, Except.bind, pure, Except.pure]
        exact Function.update_self _ _ _
      | put key' body => exact absurd htouches hputs
      | get keyOrUri => exact hs
      | exists? keyOrUri => exact hs
    · rw [step_other htouches, hs]

/-- The memory store keeps what is put. -/
theorem keeps (P : String → Prop) : (store X id).Keeps P where
  holds {s key body ref s'} hput _ ops hops := by
    cases hput
    have hkey : Lts.run (store X id).step (Function.update s key (some body)) ops key = some body := by
      rw [run_other fun op hop => (hops op hop).2, Function.update_self]
    exact ⟨by rw [get_uriFor, hkey], by rw [exists_uriFor, hkey]; rfl⟩
  absent {s key body ref s'} hput _ ops _ := by
    cases hput
    refine ⟨Function.update (Lts.run (store X id).step (Function.update s key (some body)) ops) key none, ?_, ?_⟩
    · simp only [store, keyFrom_uriFor, bind, Except.bind]
      rfl
    · intro ops' hops'
      have hkey := run_missing (Function.update_self key none
        (Lts.run (store X id).step (Function.update s key (some body)) ops)) fun op hop => (hops' op hop).2
      exact ⟨⟨key, by rw [get_uriFor, hkey]⟩, by rw [exists_uriFor, hkey]; rfl⟩

end MemoryStore

/-! ### The layered store -/

/-- What comes before the first `://`. -/
def beforeMarker : List Char → Option (List Char)
  | [] => none
  | c :: cs => if "://".toList <+: c :: cs then some [] else (beforeMarker cs).map (c :: ·)

/-- `urlParses` is whether `Url::parse` succeeds. -/
def parseScheme (urlParses : String → Bool) (s : String) : Option String :=
  match beforeMarker s.toList with
  | none => none
  | some scheme =>
    if scheme = [] then none
    else if urlParses s || urlParses (String.ofList scheme ++ "://x") then some (String.ofList scheme)
    else none

structure Layered (ι : Type) where
  default : ι
  byScheme : String → Option ι
  urlParses : String → Bool

namespace Layered

variable {ι : Type} [DecidableEq ι] {σ : ι → Type} (L : Layered ι)
  (stores : (i : ι) → BlobStore (σ i) (Except BlobError String))

def route (keyOrUri : String) : ι :=
  match parseScheme L.urlParses keyOrUri with
  | none => L.default
  | some scheme => (L.byScheme scheme).getD L.default

/-- The layered store, over the states of the stores that it is made of. -/
def store : BlobStore ((i : ι) → σ i) (ι × Except BlobError String) where
  put st key body := do
    let (ref, s) ← (stores L.default).put (st L.default) key body
    return (ref, Function.update st L.default s)
  get st keyOrUri := (stores (L.route keyOrUri)).get (st (L.route keyOrUri)) keyOrUri
  delete st keyOrUri := do
    let s ← (stores (L.route keyOrUri)).delete (st (L.route keyOrUri)) keyOrUri
    return Function.update st (L.route keyOrUri) s
  exists? st keyOrUri := (stores (L.route keyOrUri)).exists? (st (L.route keyOrUri)) keyOrUri
  uri := (stores L.default).uri
  denotes keyOrUri := (L.route keyOrUri, (stores (L.route keyOrUri)).denotes keyOrUri)
  fresh i := (stores i).fresh
  uri_put := by
    intro st key body ref st' h
    cases hput : (stores L.default).put (st L.default) key body with
    | error e =>
      simp only [hput, bind, Except.bind] at h
      cases h
    | ok r =>
      simp only [hput, bind, Except.bind] at h
      cases h
      exact (stores L.default).uri_put hput
  get_fresh keyOrUri body := (stores (L.route keyOrUri)).get_fresh keyOrUri body

/-- The references of the default store are routed to it. -/
def Routed : Prop :=
  ∀ s key body ref s', (stores L.default).put s key body = .ok (ref, s') → L.route ref.uri = L.default

variable {L stores} {st : (i : ι) → σ i} {uri : String} {body : Bytes} {ops : List Op}

theorem put_eq_ok {key : String} {ref : BlobRef} {st' : (i : ι) → σ i} :
    (L.store stores).put st key body = .ok (ref, st') ↔
      ∃ s, (stores L.default).put (st L.default) key body = .ok (ref, s) ∧ st' = Function.update st L.default s := by
  simp only [store, bind, Except.bind, pure, Except.pure]
  cases hput : (stores L.default).put (st L.default) key body with
  | error e => simp
  | ok r =>
    simp only [Except.ok.injEq, Prod.mk.injEq]
    constructor
    · rintro ⟨rfl, rfl⟩
      exact ⟨r.2, rfl, rfl⟩
    · rintro ⟨s, rfl, rfl⟩
      exact ⟨rfl, rfl⟩

variable (L stores st uri) in
theorem get_def : (L.store stores).get st uri = (stores (L.route uri)).get (st (L.route uri)) uri := rfl

variable (L stores st uri) in
theorem exists_def : (L.store stores).exists? st uri = (stores (L.route uri)).exists? (st (L.route uri)) uri := rfl

variable (L stores uri) in
theorem denotes_def : (L.store stores).denotes uri = (L.route uri, (stores (L.route uri)).denotes uri) := rfl

variable (L stores st uri) in
theorem delete_def : (L.store stores).delete st uri = (do
    let s ← (stores (L.route uri)).delete (st (L.route uri)) uri
    return Function.update st (L.route uri) s) := rfl

/-- A reference that is routed to the default store is answered by it. -/
theorem holds_routed (h : L.route uri = L.default) :
    (L.store stores).Holds st uri body ↔ (stores L.default).Holds (st L.default) uri body := by
  have hget := get_def L stores st uri
  have hexists := exists_def L stores st uri
  rw [h] at hget hexists
  constructor
  · rintro ⟨hread, hfound⟩
    exact ⟨hget ▸ hread, hexists ▸ hfound⟩
  · rintro ⟨hread, hfound⟩
    exact ⟨hget.trans hread, hexists.trans hfound⟩

theorem absent_routed (h : L.route uri = L.default) :
    (L.store stores).Absent st uri ↔ (stores L.default).Absent (st L.default) uri := by
  have hget := get_def L stores st uri
  have hexists := exists_def L stores st uri
  rw [h] at hget hexists
  constructor
  · rintro ⟨⟨text, hmissing⟩, hfound⟩
    exact ⟨⟨text, hget ▸ hmissing⟩, hexists ▸ hfound⟩
  · rintro ⟨⟨text, hmissing⟩, hfound⟩
    exact ⟨⟨text, hget.trans hmissing⟩, hexists.trans hfound⟩

theorem delete_routed (h : L.route uri = L.default) {st' : (i : ι) → σ i} :
    (L.store stores).delete st uri = .ok st' ↔
      ∃ s, (stores L.default).delete (st L.default) uri = .ok s ∧ st' = Function.update st L.default s := by
  have hdelete := delete_def L stores st uri
  rw [h] at hdelete
  rw [hdelete]
  cases (stores L.default).delete (st L.default) uri with
  | error e => simp [bind, Except.bind]
  | ok s =>
    simp only [bind, Except.bind, pure, Except.pure, Except.ok.injEq]
    constructor
    · rintro rfl
      exact ⟨s, rfl, rfl⟩
    · rintro ⟨s, rfl, rfl⟩
      rfl

theorem touches_routed (h : L.route uri = L.default) {op : Op} (hop : op.Within fun x => L.route x = L.default) :
    (L.store stores).Touches uri op ↔ (stores L.default).Touches uri op := by
  cases op with
  | put key body => rfl
  | get keyOrUri => rfl
  | exists? keyOrUri => rfl
  | delete keyOrUri =>
    have huri := denotes_def L stores uri
    have hkey := denotes_def L stores keyOrUri
    have hroute : L.route keyOrUri = L.default := hop
    rw [h] at huri
    rw [hroute] at hkey
    rw [BlobStore.Touches, BlobStore.Touches, huri, hkey, Prod.mk.injEq, and_iff_right rfl]

/-- An operation that is routed to the default store is an operation of it. -/
theorem step_routed {op : Op} (hop : op.Within fun x => L.route x = L.default) :
    (L.store stores).step st op = Function.update st L.default ((stores L.default).step (st L.default) op) := by
  cases op with
  | put key body =>
    simp only [BlobStore.step, store, bind, Except.bind, pure, Except.pure]
    cases (stores L.default).put (st L.default) key body with
    | error e => exact (Function.update_eq_self _ _).symm
    | ok r => rfl
  | get keyOrUri => exact (Function.update_eq_self _ _).symm
  | exists? keyOrUri => exact (Function.update_eq_self _ _).symm
  | delete keyOrUri =>
    have hroute : L.route keyOrUri = L.default := hop
    have hdelete := delete_def L stores st keyOrUri
    rw [hroute] at hdelete
    simp only [BlobStore.step, hdelete, bind, Except.bind, pure, Except.pure]
    cases (stores L.default).delete (st L.default) keyOrUri with
    | error e => exact (Function.update_eq_self _ _).symm
    | ok s => rfl

/-- Another one leaves the default store alone. -/
theorem step_elsewhere {op : Op} (hop : ¬ op.Within fun x => L.route x = L.default) :
    (L.store stores).step st op L.default = st L.default := by
  cases op with
  | put key body => exact absurd trivial hop
  | get keyOrUri => rfl
  | exists? keyOrUri => rfl
  | delete keyOrUri =>
    have hroute : L.default ≠ L.route keyOrUri := fun h => hop h.symm
    simp only [BlobStore.step, delete_def, bind, Except.bind, pure, Except.pure]
    cases (stores (L.route keyOrUri)).delete (st (L.route keyOrUri)) keyOrUri with
    | error e => rfl
    | ok s => exact Function.update_of_ne hroute _ _

theorem run_routed {s : σ L.default} (hops : ∀ op ∈ ops, op.Within fun x => L.route x = L.default) :
    Lts.run (L.store stores).step (Function.update st L.default s) ops =
      Function.update st L.default (Lts.run (stores L.default).step s ops) := by
  induction ops generalizing s with
  | nil => rfl
  | cons op ops ih =>
    rw [Lts.run_cons, step_routed (hops op List.mem_cons_self), Function.update_self, Function.update_idem,
      ih fun op' hop' => hops op' (List.mem_cons_of_mem _ hop'), Lts.run_cons]

/-- What the default store goes through is the operations that are routed to it. -/
theorem run_default : Lts.run (L.store stores).step st ops L.default =
    Lts.run (stores L.default).step (st L.default) (ops.filter fun op => op.Within fun x => L.route x = L.default) := by
  induction ops generalizing st with
  | nil => rfl
  | cons op ops ih =>
    rw [Lts.run_cons, ih]
    by_cases hop : op.Within fun x => L.route x = L.default
    · rw [List.filter_cons_of_pos (by simpa using hop), step_routed hop, Function.update_self, Lts.run_cons]
    · rw [List.filter_cons_of_neg (by simpa using hop), step_elsewhere hop]

theorem mem_routed {op : Op} (hop : op ∈ ops.filter fun op => op.Within fun x => L.route x = L.default) :
    op ∈ ops ∧ op.Within fun x => L.route x = L.default := by
  simpa using hop

/-- A put of the default store, with the other stores fresh. -/
theorem put_default {s s' : σ L.default} {key : String} {ref : BlobRef} (hput : (stores L.default).put s key body = .ok (ref, s')) :
    (L.store stores).put (Function.update (L.store stores).fresh L.default s) key body =
      .ok (ref, Function.update (L.store stores).fresh L.default s') := by
  rw [put_eq_ok, Function.update_self]
  exact ⟨s', hput, (Function.update_idem _ _ _).symm⟩

/-- A reference is routed to the default store where it is found right after it is put. -/
theorem routed_of_keeps (hkeeps : (L.store stores).Keeps fun _ => True) : L.Routed stores := by
  intro s key body ref s' hput
  by_contra hroute
  have hread := (hkeeps.holds (put_default hput) trivial [] fun op hop => absurd hop List.not_mem_nil).read
  rw [Lts.run_nil, get_def, Function.update_of_ne hroute] at hread
  exact (stores (L.route ref.uri)).get_fresh _ _ hread

/-- What the layered store keeps on the routes of the default store, the default store keeps by itself. -/
theorem default_keeps (hkeeps : (L.store stores).Keeps fun _ => True) :
    (stores L.default).Keeps fun x => L.route x = L.default where
  holds {s key body ref s'} hput hroute ops hops := by
    have hholds := hkeeps.holds (put_default hput) trivial ops fun op hop =>
      ⟨by cases op <;> trivial, (touches_routed hroute (hops op hop).1).not.mpr (hops op hop).2⟩
    rw [holds_routed hroute, run_routed fun op hop => (hops op hop).1, Function.update_self] at hholds
    exact hholds
  absent {s key body ref s'} hput hroute ops hops := by
    obtain ⟨st'', hdelete, habsent⟩ := hkeeps.absent (put_default hput) trivial ops fun op _ => by cases op <;> trivial
    rw [delete_routed hroute, run_routed hops, Function.update_self] at hdelete
    obtain ⟨s'', hdelete, rfl⟩ := hdelete
    refine ⟨s'', hdelete, fun ops' hops' => ?_⟩
    have hmissing := habsent ops' fun op hop => ⟨by cases op <;> trivial, (hops' op hop).2⟩
    rw [absent_routed hroute, run_routed fun op hop => (hops' op hop).1, Function.update_self] at hmissing
    exact hmissing

theorem keeps_of_routed (hrouted : L.Routed stores) (hkeeps : (stores L.default).Keeps fun x => L.route x = L.default) :
    (L.store stores).Keeps fun _ => True where
  holds {st key body ref st'} hputs _ ops hops := by
    obtain ⟨s, hput, rfl⟩ := put_eq_ok.mp hputs
    have hroute := hrouted _ _ _ _ _ hput
    rw [holds_routed hroute, run_default, Function.update_self]
    refine hkeeps.holds hput hroute _ fun op hop => ?_
    obtain ⟨hmem, hwithin⟩ := mem_routed hop
    exact ⟨hwithin, (touches_routed hroute hwithin).not.mp (hops op hmem).2⟩
  absent {st key body ref st'} hputs _ ops _ := by
    obtain ⟨s, hput, rfl⟩ := put_eq_ok.mp hputs
    have hroute := hrouted _ _ _ _ _ hput
    obtain ⟨s'', hdelete, habsent⟩ := hkeeps.absent hput hroute (ops.filter fun op => op.Within fun x => L.route x = L.default)
      fun op hop => (mem_routed hop).2
    refine ⟨Function.update (Lts.run (L.store stores).step (Function.update st L.default s) ops) L.default s'', ?_, ?_⟩
    · rw [delete_routed hroute, run_default, Function.update_self]
      exact ⟨s'', hdelete, rfl⟩
    · intro ops' hops'
      rw [absent_routed hroute, run_default, Function.update_self]
      refine habsent _ fun op hop => ?_
      obtain ⟨hmem, hwithin⟩ := mem_routed hop
      exact ⟨hwithin, (hops' op hmem).2⟩

/-- **The layered store keeps what is put just when its default store does, and gets back the references of it.** -/
theorem keeps_layered_iff {ι : Type} [DecidableEq ι] {σ : ι → Type} (L : Layered ι)
    (stores : (i : ι) → BlobStore (σ i) (Except BlobError String)) : ((L.store stores).Keeps fun _ => True) ↔
      L.Routed stores ∧ (stores L.default).Keeps fun x => L.route x = L.default := by
  constructor
  · intro hkeeps
    exact ⟨routed_of_keeps hkeeps, default_keeps hkeeps⟩
  · rintro ⟨hrouted, hkeeps⟩
    exact keeps_of_routed hrouted hkeeps

/-! ### Memory stores only -/

theorem parseScheme_uriFor {urlParses : String → Bool} (hmem : urlParses "mem://x" = true) (id key : String) :
    parseScheme urlParses (MemoryStore.uriFor id key) = some "mem" := by
  have hlist : (MemoryStore.uriFor id key).toList = 'm' :: 'e' :: 'm' :: ':' :: '/' :: '/' :: (id ++ "/" ++ key).toList := by
    rw [MemoryStore.uriFor, String.toList_append]
    rfl
  have hbefore : beforeMarker (MemoryStore.uriFor id key).toList = some ['m', 'e', 'm'] := by
    rw [hlist]
    simp [beforeMarker, List.cons_prefix_cons]
  have hparses : (urlParses (MemoryStore.uriFor id key) || urlParses (String.ofList ['m', 'e', 'm'] ++ "://x")) = true := by
    rw [show String.ofList ['m', 'e', 'm'] ++ "://x" = "mem://x" from rfl, hmem, Bool.or_true]
  rw [parseScheme, hbefore]
  dsimp only
  rw [if_neg (List.cons_ne_nil _ _), if_pos hparses]

/-- Over memory stores: no store is registered for `mem`, or the default store itself is. -/
theorem memory_keeps_iff {ι : Type} [DecidableEq ι] {X : BlobCrates} {ids : ι → String} {L : Layered ι} (hmem : L.urlParses "mem://x" = true) :
    ((L.store fun i => MemoryStore.store X (ids i)).Keeps fun _ => True) ↔ (L.byScheme "mem").getD L.default = L.default := by
  have hroute : ∀ key, L.route (MemoryStore.uriFor (ids L.default) key) = (L.byScheme "mem").getD L.default := by
    intro key
    rw [route, parseScheme_uriFor hmem]
  constructor
  · intro hkeeps
    have hrouted := routed_of_keeps hkeeps (fun _ => none) "" [] _ _ rfl
    rw [← hroute ""]
    exact hrouted
  · intro hdefault
    refine keeps_of_routed (fun s key body ref s' hput => ?_) (MemoryStore.keeps _)
    cases hput
    rw [hroute, hdefault]

/-- The memory store `default`, with the memory store `aux` registered for `mem`. -/
def twoMemories : Layered Bool := ⟨true, fun scheme => if scheme = "mem" then some false else none, fun _ => true⟩

/-- What `default` is given, `aux` is asked for. -/
theorem twoMemories_loses :
    ¬ (twoMemories.store fun i => MemoryStore.store sampleCrates (if i then "default" else "aux")).Keeps fun _ => True := by
  intro hkeeps
  have hread := (@BlobStore.Keeps.holds _ _ _ _ hkeeps (fun _ _ => none) "notes" [1] _ _ rfl trivial []
    fun op hop => absurd hop List.not_mem_nil).read
  revert hread
  decide +kernel

end Layered

end ObjectStore

end ActantDb
