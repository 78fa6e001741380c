import ActantDb.Flow.Gating
import Mathlib.Data.Finset.Card
import Mathlib.Data.Finset.Dedup

/-!
# When a topological order is one

The loop lists the keys it can, and the number of these is all that is compared with the workflow: an edge to a key that is no node makes room for a node that is not listed, and so does a key that two nodes share. Whether the order is right is then a question of how many keys can be listed.
-/

namespace ActantDb

namespace Flow

namespace Workflow

variable (w : Workflow)

def keys : List String := w.nodes.map Node.key

/-- A key that the loop counts edges for. -/
def Known (key : String) : Prop := key ∈ w.keys ∨ key ∈ w.edges.map Edge.«to»

def EdgeTo (a b : String) : Prop := (a, b) ∈ w.pairs

open Classical in
/-- The keys that no cycle and no unknown key leads to. -/
noncomputable def listable : Finset String :=
  (w.keys ++ w.edges.map Edge.«to»).toFinset.filter (Kahn.Listable w.pairs w.Known)

/-- The first key stands before the second. -/
def Before (order : List String) (a b : String) : Prop := [a, b].Sublist order

/-- The order, its error and the runner built from it are as they should be. -/
structure Sorts : Prop where
  ordered : ∀ order, w.topologicalOrder = .ok order →
    order.Perm w.keys ∧ ∀ e ∈ w.edges, Before order e.«from» e.«to»
  cyclic : (∃ key, Relation.TransGen w.EdgeTo key key) → ∃ message, w.topologicalOrder = .error message
  runs : ∀ id r, Runner.new w id = .ok r → ∀ calls now, (Lts.run Runner.apply r calls).nextAction now ≠ none

/-- No two nodes share a key, and every edge ends at a node. -/
def Closed : Prop := w.keys.Nodup ∧ ∀ e ∈ w.edges, e.«to» ∈ w.keys

variable {w} {order : List String}

theorem reached_initial : Kahn.Reached w.pairs w.Known w.initial := by
  refine ⟨List.nodup_nil, by simp [initial], fun m hm => ?_, fun m hknown hzero => ?_⟩
  · rw [initial, List.mem_reverse, List.mem_insertionSort, List.mem_filter, List.mem_dedup,
      List.mem_append] at hm
    exact hm.1
  · right
    rw [initial, List.mem_reverse, List.mem_insertionSort, List.mem_filter, List.mem_dedup,
      List.mem_append, decide_eq_true_eq]
    exact ⟨hknown, hzero⟩

theorem known_target : ∀ e ∈ w.pairs, w.Known e.2 := by
  intro e he
  obtain ⟨edge, hedge, rfl⟩ := List.mem_map.mp he
  exact Or.inr (List.mem_map_of_mem hedge)

theorem reached_listing : Kahn.Inv w.pairs w.listing ∧ Kahn.Reached w.pairs w.Known w.listing :=
  ⟨w.inv_initial.drain _, reached_initial.drain known_target _ w.inv_initial⟩

theorem mem_listing {key : String} : key ∈ w.listing.out ↔ Kahn.Listable w.pairs w.Known key :=
  reached_listing.2.mem_out_iff reached_listing.1 w.ready_listing

theorem card_listable : w.listable.card = w.listing.out.length := by
  rw [← List.toFinset_card_of_nodup reached_listing.2.nodup]
  congr 1
  ext key
  simp only [listable, Finset.mem_filter, List.mem_toFinset, mem_listing, List.mem_append]
  refine ⟨And.right, fun h => ⟨?_, h⟩⟩
  cases h with
  | intro _ hknown _ => exact hknown

/-- The definition is accepted when as many keys can be listed as there are nodes. -/
theorem topologicalOrder_eq_ok :
    w.topologicalOrder = .ok order ↔ w.listable.card = w.nodes.length ∧ order = w.listing.out := by
  rw [topologicalOrder, card_listable]
  by_cases h : w.listing.out.length = w.nodes.length
  · rw [if_neg (not_not.mpr h)]
    simp [h, eq_comm]
  · rw [if_pos h]
    simp [h]

theorem exists_error (h : w.listable.card ≠ w.nodes.length) : ∃ message, w.topologicalOrder = .error message := by
  rw [card_listable] at h
  exact ⟨_, if_pos h⟩

theorem perm_listing (hcard : w.listable.card = w.nodes.length) (hclosed : w.Closed) :
    w.listing.out.Perm w.keys := by
  have hsubset : w.listing.out ⊆ w.keys := by
    intro key hkey
    cases mem_listing.mp hkey with
    | intro _ hknown _ =>
      rcases hknown with hnode | htarget
      · exact hnode
      · obtain ⟨e, he, rfl⟩ := List.mem_map.mp htarget
        exact hclosed.2 e he
  have hlength : w.keys.length ≤ w.listing.out.length := by
    rw [← card_listable, hcard, keys, List.length_map]
  exact (List.subperm_of_subset reached_listing.2.nodup hsubset).perm_of_length_le hlength

/-- An edge to a listed key comes from an earlier one. -/
theorem before_listing {e : Edge} (he : e ∈ w.edges) (hlisted : e.«to» ∈ w.listing.out) :
    Before w.listing.out e.«from» e.«to» := by
  obtain ⟨pre, post, hsplit⟩ := List.append_of_mem hlisted
  have hpair : (e.«from», e.«to») ∈ w.pairs := List.mem_map_of_mem he
  have hfrom := reached_listing.1.order pre _ post hsplit _ hpair rfl
  rw [Before, hsplit]
  exact (List.singleton_sublist.mpr hfrom).append (List.singleton_sublist.mpr List.mem_cons_self)

theorem Closed.ordered (h : w.Closed) (horder : w.topologicalOrder = .ok order) :
    order.Perm w.keys ∧ ∀ e ∈ w.edges, Before order e.«from» e.«to» := by
  obtain ⟨hcard, rfl⟩ := topologicalOrder_eq_ok.mp horder
  have hperm := perm_listing hcard h
  exact ⟨hperm, fun e he => before_listing he (hperm.mem_iff.mpr (h.2 e he))⟩

theorem closed_of_ordered (hperm : order.Perm w.keys) (horder : w.topologicalOrder = .ok order)
    (hbefore : ∀ e ∈ w.edges, Before order e.«from» e.«to») : w.Closed := by
  obtain ⟨-, rfl⟩ := topologicalOrder_eq_ok.mp horder
  refine ⟨hperm.nodup_iff.mp reached_listing.2.nodup, fun e he => ?_⟩
  exact hperm.mem_iff.mp ((hbefore e he).subset (by simp))

/-- A cycle goes through no key that can be listed, and in a closed workflow it goes through nodes only. -/
theorem Closed.cyclic (h : w.Closed) {key : String} (hcycle : Relation.TransGen w.EdgeTo key key) :
    ∃ message, w.topologicalOrder = .error message := by
  refine exists_error fun hcard => ?_
  have hperm := perm_listing hcard h
  have hkey : key ∈ w.keys := by
    obtain ⟨b, -, hedge⟩ := Relation.TransGen.tail'_iff.mp hcycle
    obtain ⟨e, he, heq⟩ := List.mem_map.mp hedge
    obtain ⟨-, rfl⟩ := Prod.mk.inj heq
    exact h.2 e he
  exact (mem_listing.mp (hperm.mem_iff.mpr hkey)).acyclic hcycle

end Workflow

namespace Runner

open Workflow

/-- Every key of the order has a step and a node. -/
def Complete (r : Runner) : Prop := ∀ key ∈ r.order, r.statusOf key ≠ none ∧ r.workflow.node key ≠ none

theorem complete_new {w : Workflow} {id : String} {r : Runner} (hnew : new w id = .ok r)
    (hsubset : ∀ order, w.topologicalOrder = .ok order → order ⊆ w.keys) : r.Complete := by
  rw [new] at hnew
  cases horder : w.topologicalOrder with
  | error e =>
    rw [horder] at hnew
    cases hnew
  | ok order =>
    rw [horder] at hnew
    cases hnew
    intro key hkey
    have hmem : key ∈ w.nodes.map Node.key := hsubset order horder hkey
    have hsteps : (if key ∈ w.nodes.map Node.key then some (pendingStep key) else none) ≠ none := by
      rw [if_pos hmem]
      exact Option.some_ne_none _
    refine ⟨fun hnone => hsteps (Option.map_eq_none_iff.mp hnone), ?_⟩
    obtain ⟨n, hn, hnkey⟩ := List.mem_map.mp hmem
    rw [Ne, Workflow.node, List.find?_eq_none]
    intro hnone
    exact hnone n hn (by simpa using hnkey)

theorem Complete.apply {r : Runner} (h : r.Complete) (c : Call) : (r.apply c).Complete := by
  have htouched : ∀ {key}, Touches r key (r.apply c) → (r.apply c).Complete := by
    intro key htouches k hk
    rw [htouches.order] at hk
    rw [Ne, htouches.known, htouches.workflow]
    exact h k hk
  cases apply_effect r c with
  | idle hidle =>
    intro k hk
    rw [hidle.order] at hk
    rw [hidle.statusOf, hidle.workflow]
    exact h k hk
  | issue key hissue => exact htouched hissue.touches
  | complete hsets _ => exact htouched hsets.touches
  | fail hsets _ => exact htouched hsets.touches
  | approve hsets _ => exact htouched hsets.touches
  | deny hsets _ => exact htouched hsets.touches

theorem firstOpen_ne_none {steps : String → Option StepRun} {order : List String}
    (h : ∀ key ∈ order, steps key ≠ none) : firstOpen steps order ≠ none := by
  induction order with
  | nil => simp [firstOpen]
  | cons key order ih =>
    obtain ⟨s, hs⟩ := Option.ne_none_iff_exists'.mp (h key List.mem_cons_self)
    rw [firstOpen, hs]
    dsimp only
    split
    · simp
    · exact ih fun k hk => h k (List.mem_cons_of_mem _ hk)

theorem Complete.nextAction {r : Runner} (h : r.Complete) (now : String) : r.nextAction now ≠ none := by
  intro hpanic
  have hgoes : r.run.status ≠ .failed := by
    intro hfailed
    rw [Runner.nextAction, if_pos hfailed] at hpanic
    cases hpanic
  have hopen : firstOpen r.run.steps r.order ≠ none :=
    firstOpen_ne_none fun key hkey hnone => (h key hkey).1 (by rw [statusOf, hnone]; rfl)
  obtain ⟨found, hfound⟩ := Option.ne_none_iff_exists'.mp hopen
  cases found with
  | none =>
    rw [Runner.nextAction, if_neg hgoes, hfound] at hpanic
    cases hpanic
  | some key =>
    obtain ⟨pre, post, horder, -, -⟩ := firstOpen_spec hfound
    have hkey : key ∈ r.order := by
      rw [horder]
      exact List.mem_append_right _ List.mem_cons_self
    exact (h key hkey).2 ((idle_of_panic hpanic).stuck hgoes key (current_eq_some.mpr hfound))

theorem Complete.run {start : Runner} (h : start.Complete) (calls : List Call) :
    (Lts.run Runner.apply start calls).Complete :=
  Lts.run_invariant Complete (fun _ c hcomplete _ => hcomplete.apply c) h (Lts.everyStep_true calls)

end Runner

/-- **The order is a topological one, cycles are refused and no runner panics** exactly when a definition that is accepted, having as many keys that can be listed as it has nodes, shares no key between two nodes and has no edge to a key that is no node. -/
theorem sorts_iff (w : Workflow) : w.Sorts ↔ (w.listable.card = w.nodes.length → w.Closed) := by
  constructor
  · intro h hcard
    have horder := Workflow.topologicalOrder_eq_ok.mpr ⟨hcard, rfl⟩
    obtain ⟨hperm, hbefore⟩ := h.ordered _ horder
    exact Workflow.closed_of_ordered hperm horder hbefore
  · intro h
    refine ⟨fun order horder => ?_, fun hcyclic => ?_, fun id r hnew calls now => ?_⟩
    · exact (h (Workflow.topologicalOrder_eq_ok.mp horder).1).ordered horder
    · by_cases hcard : w.listable.card = w.nodes.length
      · obtain ⟨key, hcycle⟩ := hcyclic
        exact (h hcard).cyclic hcycle
      · exact Workflow.exists_error hcard
    · have hcomplete : r.Complete := Runner.complete_new hnew fun order horder =>
        ((h (Workflow.topologicalOrder_eq_ok.mp horder).1).ordered horder).1.subset
      exact (hcomplete.run calls).nextAction now

/-- Two nodes, one of which is its own successor, and an edge from the other to a key that is no node. -/
def misnamed : Workflow where
  name := "release"
  nodes := [⟨"a", .agentTask, none⟩, ⟨"c", .agentTask, none⟩]
  edges := [⟨"a", "b"⟩, ⟨"c", "c"⟩]

/-- The order is `a`, `b`: the cycle is not noticed, and once `a` is done the runner panics. -/
theorem misnamed_accepted : misnamed.topologicalOrder = .ok ["a", "b"] ∧ ¬ misnamed.Sorts ∧
    ∃ r, Runner.new misnamed "run" = .ok r ∧
      (Lts.run Runner.apply r [.nextAction "1"]).nextAction "2" = none := by
  have horder : misnamed.topologicalOrder = .ok ["a", "b"] := by decide +kernel
  refine ⟨horder, fun h => ?_, ?_⟩
  · have hedge : ("c", "c") ∈ misnamed.pairs := by decide
    obtain ⟨message, herror⟩ := h.cyclic ⟨"c", .single hedge⟩
    rw [horder] at herror
    cases herror
  · rw [Runner.new, horder]
    exact ⟨_, rfl, rfl⟩

end Flow

end ActantDb
