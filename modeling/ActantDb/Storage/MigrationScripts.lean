import Mathlib.Logic.Function.Basic
import Mathlib.Data.List.Sublists

/-!
# Migration scripts

A script is a list of statements that each create a table or an index or add a column. None is taken back by a later one, so a statement whose object is there stays done (`Done.exec`): it fails where it is executed again (`exec_of_done`), unless it says `IF NOT EXISTS`.

Of a table only the names of its columns are kept: no statement of a script looks at their types or constraints.
-/

namespace ActantDb

namespace Migrations

structure Index where
  table : String
  columns : List String
deriving DecidableEq, Repr

structure Schema where
  tables : String → Option (List String)
  indexes : String → Option Index

def Schema.empty : Schema := ⟨fun _ => none, fun _ => none⟩

inductive Statement where
  | createTable (name : String) (columns : List String)
  | createIndex (ifNotExists : Bool) (name table : String) (columns : List String)
  | addColumn (table column : String)
deriving DecidableEq, Repr

/-- What SQLite makes of a statement. -/
def Schema.exec (s : Schema) : Statement → Except String Schema
  | .createTable name columns =>
    if (s.tables name).isSome then .error ("table " ++ name ++ " already exists")
    else if (s.indexes name).isSome then .error ("there is already an index named " ++ name)
    else .ok { s with tables := Function.update s.tables name (some columns) }
  | .createIndex ifNotExists name table columns =>
    match s.tables table with
    | none => .error ("no such table: main." ++ table)
    | some present =>
      if (s.tables name).isSome then .error ("there is already a table named " ++ name)
      else if (s.indexes name).isSome then
        if ifNotExists then .ok s else .error ("index " ++ name ++ " already exists")
      else
        match columns.find? fun column => !present.contains column with
        | some column => .error ("table " ++ table ++ " has no column named " ++ column)
        | none => .ok { s with indexes := Function.update s.indexes name (some ⟨table, columns⟩) }
  | .addColumn table column =>
    match s.tables table with
    | none => .error ("no such table: " ++ table)
    | some present =>
      if present.contains column then .error ("duplicate column name: " ++ column)
      else .ok { s with tables := Function.update s.tables table (some (present ++ [column])) }

/-- Statement after statement. -/
def Schema.execAll (s : Schema) (script : List Statement) : Except String Schema := script.foldlM Schema.exec s

/-- What the statement makes is there. -/
def Statement.Done (s : Schema) : Statement → Prop
  | .createTable name _ => (s.tables name).isSome
  | .createIndex _ name _ _ => (s.indexes name).isSome
  | .addColumn table column => ∃ present, s.tables table = some present ∧ column ∈ present

def Statement.ifNotExists : Statement → Bool
  | .createIndex ifNotExists _ _ _ => ifNotExists
  | .createTable _ _ | .addColumn _ _ => false

section Exec

variable {s s' : Schema} {stmt : Statement}

/-- A statement that is not of this index leaves it. -/
theorem exec_indexes (h : s.exec stmt = .ok s') {name : String} (hname : (s.indexes name).isSome) : (s'.indexes name).isSome := by
  cases stmt with
  | createTable name' columns =>
    simp only [Schema.exec] at h
    split at h
    · cases h
    split at h
    · cases h
    cases h
    exact hname
  | createIndex ifNotExists name' table columns =>
    simp only [Schema.exec] at h
    split at h
    · cases h
    split at h
    · cases h
    split at h
    · split at h
      · cases h
        exact hname
      · cases h
    split at h
    · cases h
    cases h
    by_cases heq : name = name'
    · subst heq
      simp
    · simpa [Function.update_of_ne heq] using hname
  | addColumn table column =>
    simp only [Schema.exec] at h
    split at h
    · cases h
    split at h
    · cases h
    cases h
    exact hname

/-- A table stays, with its columns. -/
theorem exec_tables (h : s.exec stmt = .ok s') {name : String} {present : List String} (hname : s.tables name = some present) :
    ∃ present', s'.tables name = some present' ∧ present ⊆ present' := by
  cases stmt with
  | createTable name' columns =>
    simp only [Schema.exec] at h
    split at h
    · cases h
    rename_i hfree
    split at h
    · cases h
    cases h
    have hne : name ≠ name' := by
      rintro rfl
      simp [hname] at hfree
    exact ⟨present, (Function.update_of_ne hne _ _).trans hname, List.Subset.refl _⟩
  | createIndex ifNotExists name' table columns =>
    simp only [Schema.exec] at h
    split at h
    · cases h
    split at h
    · cases h
    split at h
    · split at h
      · cases h
        exact ⟨present, hname, List.Subset.refl _⟩
      · cases h
    split at h
    · cases h
    cases h
    exact ⟨present, hname, List.Subset.refl _⟩
  | addColumn table column =>
    simp only [Schema.exec] at h
    split at h
    · cases h
    rename_i present' htable
    split at h
    · cases h
    cases h
    by_cases heq : name = table
    · subst heq
      rw [hname, Option.some.injEq] at htable
      subst htable
      exact ⟨present ++ [column], Function.update_self _ _ _, List.subset_append_left _ _⟩
    · exact ⟨present, (Function.update_of_ne heq _ _).trans hname, List.Subset.refl _⟩

/-- What is done stays done. -/
theorem Statement.Done.exec {stmt' : Statement} (hdone : stmt'.Done s) (h : s.exec stmt = .ok s') : stmt'.Done s' := by
  cases stmt' with
  | createTable name columns =>
    obtain ⟨present, hname⟩ := Option.isSome_iff_exists.mp hdone
    obtain ⟨present', hname', -⟩ := exec_tables h hname
    exact Option.isSome_iff_exists.mpr ⟨present', hname'⟩
  | createIndex ifNotExists name table columns => exact exec_indexes h hdone
  | addColumn table column =>
    obtain ⟨present, htable, hcolumn⟩ := hdone
    obtain ⟨present', htable', hsubset⟩ := exec_tables h htable
    exact ⟨present', htable', hsubset hcolumn⟩

theorem exec_done (h : s.exec stmt = .ok s') : stmt.Done s' := by
  cases stmt with
  | createTable name columns =>
    simp only [Schema.exec] at h
    split at h
    · cases h
    split at h
    · cases h
    cases h
    simp [Statement.Done]
  | createIndex ifNotExists name table columns =>
    simp only [Schema.exec] at h
    split at h
    · cases h
    split at h
    · cases h
    split at h
    · rename_i hthere
      split at h
      · cases h
        exact hthere
      · cases h
    split at h
    · cases h
    cases h
    simp [Statement.Done]
  | addColumn table column =>
    simp only [Schema.exec] at h
    split at h
    · cases h
    rename_i present htable
    split at h
    · cases h
    cases h
    exact ⟨present ++ [column], Function.update_self _ _ _, List.mem_append_right _ List.mem_cons_self⟩

/-- **A statement that is done fails**, but for one that says `IF NOT EXISTS`. -/
theorem exec_of_done (hdone : stmt.Done s) (hplain : stmt.ifNotExists = false) : ∃ message, s.exec stmt = .error message := by
  cases stmt with
  | createTable name columns => exact ⟨_, if_pos hdone⟩
  | createIndex ifNotExists name table columns =>
    have hplain' : ifNotExists = false := hplain
    have hthere : (s.indexes name).isSome = true := hdone
    simp only [Schema.exec]
    cases s.tables table with
    | none => exact ⟨_, rfl⟩
    | some present =>
      by_cases htable : (s.tables name).isSome
      · exact ⟨_, if_pos htable⟩
      · exact ⟨"index " ++ name ++ " already exists", by simp [htable, hthere, hplain']⟩
  | addColumn table column =>
    obtain ⟨present, htable, hcolumn⟩ := hdone
    simp only [Schema.exec, htable]
    exact ⟨_, if_pos (List.contains_iff_mem.mpr hcolumn)⟩

end Exec

section ExecAll

variable {s s' : Schema} {script pre post : List Statement}

theorem execAll_append : s.execAll (pre ++ post) = (do let s' ← s.execAll pre; s'.execAll post) := by
  simp only [Schema.execAll, List.foldlM_append]

theorem Statement.Done.execAll {stmt : Statement} (hdone : stmt.Done s) (h : s.execAll script = .ok s') : stmt.Done s' := by
  induction script generalizing s with
  | nil =>
    cases h
    exact hdone
  | cons stmt' rest ih =>
    cases hexec : s.exec stmt' with
    | error message =>
      simp only [Schema.execAll, List.foldlM_cons, hexec, bind, Except.bind] at h
      cases h
    | ok s'' =>
      simp only [Schema.execAll, List.foldlM_cons, hexec, bind, Except.bind] at h
      exact ih (hdone.exec hexec) h

end ExecAll

/-! ### The scripts -/

/-- `0001_initial`. -/
def initial : List Statement := [
  .createTable "workspace" ["id", "name", "created_at", "archived_at"],
  .createTable "actor" ["id", "workspace_id", "kind", "display_name", "created_at", "disabled_at"],
  .createTable "actor_identity" ["id", "actor_id", "provider", "subject", "secret_ref", "created_at",
    "revoked_at"],
  .createTable "policy" ["id", "workspace_id", "name", "version", "body_ref", "body_hash", "created_at",
    "activated_at", "retired_at"],
  .createTable "authority_scope" ["id", "workspace_id", "actor_id", "permission", "resource_pattern",
    "sensitivity_ceiling", "allowed_actions", "granted_by_actor_id", "expires_at", "revoked_at", "created_at"],
  .createIndex false "idx_authority_actor" "authority_scope" ["actor_id"],
  .createIndex false "idx_authority_perm" "authority_scope" ["workspace_id", "permission"],
  .createTable "session" ["id", "workspace_id", "title", "initiator_actor_id", "agent_actor_id", "status",
    "created_at", "closed_at"],
  .createTable "message" ["id", "session_id", "workspace_id", "author_actor_id", "role", "body_ref",
    "body_text", "body_hash", "parent_message_id", "created_at"],
  .createIndex false "idx_message_session" "message" ["session_id", "created_at"],
  .createTable "agent_event" ["id", "workspace_id", "actor_id", "session_id", "parent_event_id", "event_type",
    "causality_kind", "sensitivity", "authority_scope_id", "payload_ref", "payload_inline", "payload_hash",
    "model_call_id", "tool_call_id", "workflow_run_id", "memory_id", "artifact_id", "command_id", "effect_id",
    "event_hash", "created_at"],
  .createIndex false "idx_event_workspace_time" "agent_event" ["workspace_id", "created_at"],
  .createIndex false "idx_event_session_time" "agent_event" ["session_id", "created_at"],
  .createIndex false "idx_event_parent" "agent_event" ["parent_event_id"],
  .createIndex false "idx_event_type" "agent_event" ["workspace_id", "event_type"],
  .createTable "command_record" ["id", "workspace_id", "actor_id", "session_id", "command_type", "input_ref",
    "input_inline", "input_hash", "policy_id", "status", "error", "created_at", "committed_at"],
  .createIndex false "idx_command_workspace_time" "command_record" ["workspace_id", "created_at"],
  .createTable "model_provider" ["id", "workspace_id", "name", "base_url", "secret_ref", "created_at",
    "disabled_at"],
  .createTable "model_route" ["id", "workspace_id", "name", "provider_id", "model_name", "visibility_required",
    "cost_per_input_1k", "cost_per_output_1k", "created_at", "retired_at"],
  .createTable "context_build" ["id", "workspace_id", "session_id", "model_call_id", "policy_id", "purpose",
    "token_budget", "final_prompt_ref", "final_prompt_hash", "redaction_summary", "blocked_item_count",
    "included_item_count", "created_at"],
  .createTable "context_item" ["id", "context_build_id", "source_type", "source_id", "included",
    "blocked_reason", "sensitivity", "token_count", "rank_score", "reason_included", "visibility",
    "content_hash"],
  .createIndex false "idx_ctx_item_build" "context_item" ["context_build_id"],
  .createTable "model_call" ["id", "workspace_id", "session_id", "actor_id", "route_id", "context_build_id",
    "purpose", "status", "request_ref", "response_ref", "request_hash", "response_hash", "input_tokens",
    "output_tokens", "cost_usd", "latency_ms", "error", "created_at", "completed_at"],
  .createTable "tool" ["id", "workspace_id", "name", "kind", "required_permission", "default_risk_level",
    "created_at", "retired_at"],
  .createTable "tool_schema_version" ["id", "tool_id", "version", "input_schema_ref", "output_schema_ref",
    "created_at"],
  .createTable "tool_call" ["id", "workspace_id", "session_id", "requested_by_actor_id", "tool_id",
    "schema_version", "arguments_ref", "arguments_inline", "arguments_hash", "status", "risk_level",
    "approval_request_id", "effect_id", "result_ref", "result_hash", "error", "created_at", "completed_at"],
  .createTable "effect" ["id", "workspace_id", "command_id", "requested_by_actor_id", "effect_type", "status",
    "required_permission", "risk_level", "idempotency_key", "input_ref", "input_inline", "input_hash",
    "assigned_worker_id", "attempt_count", "max_attempts", "next_attempt_at", "started_at", "finished_at",
    "result_ref", "result_hash", "error", "created_at"],
  .createIndex false "idx_effect_pending" "effect" ["workspace_id", "status", "next_attempt_at"],
  .createTable "effect_result" ["id", "effect_id", "attempt_number", "succeeded", "output_ref", "output_hash",
    "error", "started_at", "finished_at"],
  .createTable "worker" ["id", "workspace_id", "actor_id", "name", "host", "version", "status",
    "last_heartbeat_at", "created_at", "disabled_at"],
  .createTable "worker_capability" ["id", "worker_id", "effect_type"],
  .createTable "worker_heartbeat" ["id", "worker_id", "at", "in_flight_count", "cpu_pct", "mem_mb"],
  .createTable "effect_claim" ["id", "effect_id", "worker_id", "claimed_at", "expires_at", "released_at"],
  .createTable "approval_request" ["id", "workspace_id", "effect_id", "tool_call_id", "requested_by_actor_id",
    "risk_level", "required_permission", "summary", "redacted_input_ref", "policy_snapshot_ref", "status",
    "created_at", "expires_at", "approved_by_actor_id", "approved_at", "denied_reason", "scope_granted"],
  .createTable "memory_candidate" ["id", "workspace_id", "proposed_by_actor_id", "source_event_ids", "text",
    "category", "confidence", "sensitivity", "status", "review_reason", "created_at"],
  .createTable "memory" ["id", "workspace_id", "text", "category", "sensitivity", "confidence", "scope",
    "source_candidate_id", "source_event_ids", "embedding_ref_id", "usage_count", "last_used_at", "expires_at",
    "revoked_at", "deleted_at", "created_at"],
  .createIndex false "idx_memory_active" "memory" ["workspace_id", "revoked_at", "deleted_at"],
  .createTable "memory_use" ["id", "memory_id", "context_build_id", "model_call_id", "used_at", "outcome",
    "user_feedback"],
  .createTable "workflow" ["id", "workspace_id", "name", "owner_actor_id", "version", "status", "policy_id",
    "definition_ref", "definition_hash", "created_at"],
  .createTable "workflow_node" ["id", "workflow_id", "node_key", "node_type", "config_ref",
    "required_permissions", "retry_policy", "timeout_policy"],
  .createTable "workflow_edge" ["id", "workflow_id", "from_node_id", "to_node_id", "condition_ref",
    "order_index"],
  .createTable "workflow_run" ["id", "workflow_id", "workspace_id", "trigger_event_id", "status",
    "current_node_ids", "summary", "started_at", "finished_at"],
  .createTable "workflow_step_run" ["id", "workflow_run_id", "node_id", "status", "attempt_number", "effect_id",
    "approval_request_id", "started_at", "finished_at", "output_ref", "output_hash", "error"],
  .createTable "trigger" ["id", "workspace_id", "workflow_id", "kind", "config_ref", "enabled", "created_at"],
  .createTable "agent_task" ["id", "workspace_id", "workflow_run_id", "assigned_to_actor_id", "title",
    "description_ref", "status", "priority", "due_at", "created_at", "updated_at"],
  .createTable "artifact" ["id", "workspace_id", "kind", "uri", "content_hash", "bytes", "sensitivity",
    "created_by_actor_id", "created_at", "deleted_at"],
  .createTable "replay_checkpoint" ["id", "workspace_id", "event_id", "session_id", "workflow_run_id",
    "context_build_id", "state_snapshot_ref", "model_route_snapshot_ref", "permission_snapshot_ref",
    "memory_snapshot_ref", "created_at"],
  .createTable "replay_run" ["id", "workspace_id", "checkpoint_id", "mode", "overrides_ref",
    "requested_by_actor_id", "status", "started_at", "finished_at", "summary_ref", "error"],
  .createTable "replay_diff" ["id", "replay_run_id", "original_event_id", "replay_event_id", "kind",
    "diff_summary", "detail_ref"],
  .createTable "audit_event" ["id", "agent_event_id", "workspace_id", "actor_id", "event_type", "sensitivity",
    "decision", "decision_reason", "created_at"],
  .createIndex false "idx_audit_ws_time" "audit_event" ["workspace_id", "created_at"],
  .createTable "embedding_ref" ["id", "workspace_id", "object_type", "object_id", "embedding_model",
    "vector_store", "vector_id", "sensitivity", "created_at", "expires_at", "deleted_at"],
  .createIndex false "idx_embedding_object" "embedding_ref" ["object_type", "object_id"],
  .createTable "secret_ref" ["id", "workspace_id", "provider", "handle", "scope", "description", "created_at",
    "last_used_at", "revoked_at"]]

/-- `0002_extended_primitives`. -/
def extendedPrimitives : List Statement := [
  .createTable "intent" ["id", "workspace_id", "actor_id", "session_id", "workflow_run_id", "goal",
    "proposed_action_class", "resource_targets", "expected_benefit", "expected_risk", "policy_hint",
    "created_from_context_build_id", "status", "created_at", "closed_at"],
  .createIndex false "idx_intent_session" "intent" ["session_id", "status"],
  .createIndex false "idx_intent_actor" "intent" ["actor_id", "status"],
  .createTable "observation" ["id", "workspace_id", "source_effect_id", "evidence_type", "summary",
    "raw_artifact_ref", "confidence", "sensitivity", "capsule_id", "created_by_worker_id",
    "verification_status", "created_at"],
  .createIndex false "idx_observation_source" "observation" ["source_effect_id"],
  .createTable "capsule" ["id", "workspace_id", "name", "created_by_actor_id", "sensitivity", "visibility",
    "sync_policy", "retention_policy", "redaction_policy", "cloud_model_allowed", "memory_allowed",
    "upgrades_to_sensitivity", "created_at", "retired_at"],
  .createTable "capsule_membership" ["id", "capsule_id", "object_type", "object_id", "created_at"],
  .createIndex false "idx_capsule_membership_object" "capsule_membership" ["object_type", "object_id"],
  .createTable "delegation" ["id", "workspace_id", "parent_actor_id", "child_actor_id", "goal",
    "allowed_context_refs", "authority_scope_ids", "budget_id", "deadline", "return_channel", "status",
    "started_at", "ended_at"],
  .createIndex false "idx_delegation_child" "delegation" ["child_actor_id", "status"],
  .createTable "budget" ["id", "workspace_id", "actor_id", "session_id", "workflow_run_id", "delegation_id",
    "budget_type", "limit_value", "used_value", "reset_policy", "enforcement_action", "last_reset_at",
    "created_at"],
  .createIndex false "idx_budget_actor" "budget" ["actor_id", "budget_type"],
  .createTable "regret_event" ["id", "workspace_id", "bad_outcome_type", "causal_event_ids",
    "suspected_failure_mode", "suggested_corrective_action", "severity", "status", "created_by_actor_id",
    "resolved_by_actor_id", "created_at", "resolved_at"],
  .createTable "eval_case" ["id", "workspace_id", "name", "source_replay_run_id", "source_regret_id",
    "checkpoint_id", "expected_behavior", "forbidden_behavior", "success_criteria", "policy_constraints",
    "enabled", "created_at", "last_run_at", "last_pass"],
  .createTable "eval_run" ["id", "eval_case_id", "replay_run_id", "started_at", "finished_at", "passed",
    "failure_detail_ref"],
  .createTable "memory_conflict" ["id", "workspace_id", "memory_a_id", "memory_b_id", "conflict_type",
    "resolution_policy", "last_resolved_at", "detected_at"],
  .createTable "intervention" ["id", "workspace_id", "actor_id", "target_session_id", "target_workflow_run_id",
    "target_event_id", "intervention_type", "patch_ref", "reason", "created_at"],
  .createIndex false "idx_intervention_session" "intervention" ["target_session_id"],
  .createTable "trust_profile" ["id", "workspace_id", "actor_id", "capability_area", "score", "confidence",
    "sample_size", "last_updated", "evidence_ref"],
  .createTable "compensation_plan" ["id", "workspace_id", "effect_id", "undo_capability",
    "compensation_effect_type", "pre_state_artifact_ref", "created_at", "consumed_at"],
  .createIndex false "idx_compensation_effect" "compensation_plan" ["effect_id"],
  .createTable "model_route_decision" ["id", "workspace_id", "model_call_id", "purpose", "candidate_route_ids",
    "selected_route_id", "selection_reason", "privacy_constraints", "cost_estimate_usd", "latency_estimate_ms",
    "fallbacks", "created_at"],
  .createTable "context_debt" ["id", "context_build_id", "score", "age_factor", "confidence_factor",
    "sensitivity_factor", "summarization_factor", "provenance_factor", "review_factor", "notes", "created_at"],
  .createTable "drift_signal" ["id", "workspace_id", "session_id", "workflow_run_id", "actor_id", "score",
    "components", "triggered_intervention_id", "created_at"],
  .addColumn "effect_claim" "input_hash",
  .addColumn "effect_claim" "permission_scope_ref",
  .addColumn "effect_claim" "sandbox_policy_ref",
  .addColumn "effect_claim" "max_attempts",
  .addColumn "agent_event" "causal_parent_ids",
  .addColumn "session" "phase",
  .addColumn "tool" "undo_capability",
  .addColumn "tool" "risk_classifier_ref",
  .addColumn "memory" "allowed_contexts",
  .addColumn "memory" "forbidden_contexts",
  .addColumn "memory" "last_verified_at",
  .addColumn "context_item" "capsule_id",
  .addColumn "artifact" "capsule_id",
  .addColumn "memory" "capsule_id",
  .addColumn "memory_candidate" "capsule_id",
  .addColumn "workspace" "drift_threshold"]

/-- `0003_ai_native_and_reliability`. -/
def aiNativeAndReliability : List Statement := [
  .createTable "indexed_object" ["id", "workspace_id", "object_type", "object_id", "source_event_ids",
    "canonical_text_ref", "summary", "sensitivity", "visibility_policy", "sync_policy", "capsule_id",
    "created_at", "updated_at"],
  .createIndex false "idx_indexed_object_ws_type" "indexed_object" ["workspace_id", "object_type"],
  .createTable "index_chunk" ["id", "indexed_object_id", "chunk_index", "chunk_type", "text_ref", "token_count",
    "source_hash", "sensitivity", "metadata"],
  .createIndex false "idx_chunk_obj" "index_chunk" ["indexed_object_id"],
  .createTable "sparse_ref" ["id", "chunk_id", "encoder", "model_version", "sparse_store", "sparse_id",
    "created_at"],
  .createTable "multivector_ref" ["id", "chunk_id", "encoder", "vector_count", "dimension", "vector_store",
    "vector_id", "created_at"],
  .createTable "embedding_space" ["id", "provider", "family", "compatible_models", "dimension",
    "distance_metric"],
  .addColumn "embedding_ref" "chunk_id",
  .addColumn "embedding_ref" "provider",
  .addColumn "embedding_ref" "model",
  .addColumn "embedding_ref" "model_version",
  .addColumn "embedding_ref" "embedding_space_id",
  .addColumn "embedding_ref" "dimension",
  .addColumn "embedding_ref" "distance_metric",
  .addColumn "embedding_ref" "input_type",
  .addColumn "embedding_ref" "chunker_version",
  .addColumn "embedding_ref" "redaction_version",
  .addColumn "embedding_ref" "source_hash",
  .createTable "entity" ["id", "workspace_id", "type", "canonical_name", "aliases", "sensitivity",
    "source_events", "capsule_id", "created_at"],
  .createIndex false "idx_entity_ws_type" "entity" ["workspace_id", "type"],
  .createTable "entity_relation" ["id", "workspace_id", "source_entity", "relation_type", "target_entity",
    "confidence", "evidence_events"],
  .createIndex false "idx_entity_rel_src" "entity_relation" ["source_entity"],
  .createIndex false "idx_entity_rel_tgt" "entity_relation" ["target_entity"],
  .createTable "retrieval_trace" ["id", "workspace_id", "query", "query_actor_id", "session_id",
    "retrieval_mode", "policy_id", "selected_count", "blocked_count", "created_at"],
  .createIndex false "idx_retrieval_trace_ws" "retrieval_trace" ["workspace_id", "created_at"],
  .createTable "retrieval_candidate" ["id", "retrieval_trace_id", "source_type", "source_id", "dense_score",
    "sparse_score", "graph_score", "rerank_score", "final_score", "included", "blocked_reason",
    "reason_selected"],
  .createIndex false "idx_rcand_trace" "retrieval_candidate" ["retrieval_trace_id"],
  .createTable "prompt_template" ["id", "workspace_id", "name", "description", "created_at"],
  .createTable "prompt_version" ["id", "prompt_template_id", "version", "body_ref", "schema_ref",
    "eval_case_id", "created_at"],
  .createTable "model_registry" ["id", "workspace_id", "provider", "name", "context_window", "tool_support",
    "json_reliability", "vision_support", "audio_support", "embedding_support", "rerank_support",
    "cost_per_input_1k", "cost_per_output_1k", "latency_p50_ms", "privacy_class", "locality", "capabilities",
    "created_at", "retired_at"],
  .createTable "cache_entry" ["id", "workspace_id", "cache_type", "key_hash", "value_ref", "sensitivity",
    "policy_id", "expires_at", "created_at"],
  .createTable "mcp_server" ["id", "workspace_id", "name", "transport", "uri", "auth_ref", "capabilities",
    "registered_at", "retired_at"],
  .createTable "mcp_resource" ["id", "workspace_id", "server_id", "uri", "name", "mime_type", "sensitivity",
    "capsule_id", "last_read_at"],
  .createTable "mcp_prompt" ["id", "workspace_id", "server_id", "name", "schema_ref", "version"],
  .createTable "a2a_card" ["id", "workspace_id", "peer_name", "endpoint", "capabilities", "auth_ref",
    "trust_ref", "discovered_at", "retired_at"],
  .createTable "a2a_interaction" ["id", "workspace_id", "peer_card_id", "direction", "task_id", "intent_id",
    "delegation_id", "state", "payload_ref", "signature", "created_at", "finished_at"],
  .createTable "ap2_mandate" ["id", "workspace_id", "granted_by_actor_id", "holder_actor_id", "purpose",
    "spend_limit_usd", "spend_used_usd", "cryptographic_proof_ref", "expires_at", "revoked_at", "created_at"],
  .createTable "ap2_intent" ["id", "workspace_id", "mandate_id", "purpose", "amount_usd", "payee",
    "signed_payload", "status", "created_at", "decided_at"],
  .createTable "ap2_transaction" ["id", "intent_id", "processor", "external_ref", "amount_usd", "status",
    "created_at"],
  .addColumn "agent_event" "otel_trace_id",
  .addColumn "agent_event" "otel_span_id",
  .createTable "rate_limit_policy" ["id", "workspace_id", "name", "scope_type", "scope_pattern", "algorithm",
    "limit_value", "refill_rate", "window_seconds", "burst_size", "priority_weight", "fairness_key",
    "created_at"],
  .createTable "rate_limit_state" ["id", "policy_id", "scope_key", "tokens_available", "window_start",
    "used_count", "reset_at", "updated_at"],
  .createTable "effect_queue_entry" ["id", "effect_id", "queue_name", "priority", "fairness_key",
    "available_at", "deadline_at", "attempts", "status", "created_at"],
  .createIndex false "idx_eq_queue_status" "effect_queue_entry" ["queue_name", "status", "available_at"],
  .createTable "retry_policy" ["id", "workspace_id", "name", "max_attempts", "backoff_type", "initial_delay_ms",
    "max_delay_ms", "jitter", "retry_on", "do_not_retry_on"],
  .createTable "circuit_state" ["id", "workspace_id", "dependency_key", "state", "failure_count",
    "success_count", "opened_at", "half_open_at", "reason", "updated_at"],
  .createTable "dead_letter_item" ["id", "workspace_id", "original_effect_id", "workflow_run_id",
    "failure_type", "failure_summary", "attempts", "last_error", "created_at"],
  .createTable "lock" ["id", "workspace_id", "resource_key", "owner_actor_id", "lease_id", "expires_at",
    "created_at"],
  .createTable "ingress_event" ["id", "workspace_id", "source", "event_type", "payload_ref", "signature_valid",
    "dedupe_key", "received_at"],
  .createIndex false "idx_ingress_ws_recv" "ingress_event" ["workspace_id", "received_at"],
  .createTable "idempotency_record" ["workspace_id", "idempotency_key", "actor_id", "command_type",
    "input_hash", "result_ref", "created_at"]]

/-- `0004_auth`. -/
def auth : List Statement := [
  .createTable "workspace_owner" ["workspace_id", "owner_actor_id", "password_hash", "password_set_at",
    "created_at"],
  .createTable "link_code" ["code_hash", "workspace_id", "expires_at", "claimed_at", "claimed_by_actor_id",
    "created_at"],
  .createIndex false "idx_link_code_expires" "link_code" ["expires_at"],
  .createIndex false "idx_link_code_workspace" "link_code" ["workspace_id"],
  .createTable "session_token" ["token_hash", "owner_actor_id", "workspace_id", "csrf_secret", "created_at",
    "expires_at", "revoked_at"],
  .createIndex false "idx_session_token_workspace" "session_token" ["workspace_id"],
  .createIndex false "idx_session_token_expires" "session_token" ["expires_at"]]

/-- `0006_pubsub`. -/
def pubsub : List Statement := [
  .createTable "pubsub_message" ["id", "workspace_id", "topic", "payload", "created_at"],
  .createIndex false "idx_pubsub_ws_topic_id" "pubsub_message" ["workspace_id", "topic", "id"],
  .createIndex false "idx_pubsub_ws_id" "pubsub_message" ["workspace_id", "id"]]

/-- `0007_replication`. -/
def replication : List Statement := [
  .addColumn "agent_event" "device_id",
  .addColumn "agent_event" "hlc_physical_ms",
  .addColumn "agent_event" "hlc_logical",
  .createIndex true "idx_agent_event_hlc" "agent_event" ["hlc_physical_ms", "hlc_logical"],
  .createIndex true "idx_agent_event_device" "agent_event" ["device_id"]]

def migrations : List (String × List Statement) := [
  ("0001_initial", initial),
  ("0002_extended_primitives", extendedPrimitives),
  ("0003_ai_native_and_reliability", aiNativeAndReliability),
  ("0004_auth", auth),
  ("0006_pubsub", pubsub),
  ("0007_replication", replication)]

theorem migrations_names : (migrations.map (·.1)).Nodup := by decide

/-- No script begins with a statement that says `IF NOT EXISTS`. -/
theorem migrations_begin : ∀ migration ∈ migrations, ∃ stmt rest, migration.2 = stmt :: rest ∧ stmt.ifNotExists = false := by
  simp only [migrations, List.forall_mem_cons, initial, extendedPrimitives, aiNativeAndReliability, auth, pubsub, replication]
  refine ⟨⟨_, _, rfl, rfl⟩, ⟨_, _, rfl, rfl⟩, ⟨_, _, rfl, rfl⟩, ⟨_, _, rfl, rfl⟩, ⟨_, _, rfl, rfl⟩, ⟨_, _, rfl, rfl⟩, ?_⟩
  intro migration hmem
  cases hmem

/-- The scripts apply to an empty database. -/
theorem migrations_apply : ∃ s, Schema.empty.execAll (migrations.flatMap (·.2)) = .ok s := by
  have hok : (Schema.empty.execAll (migrations.flatMap (·.2))).isOk = true := by decide +kernel
  cases hrun : Schema.empty.execAll (migrations.flatMap (·.2)) with
  | ok s => exact ⟨s, rfl⟩
  | error message =>
    rw [hrun] at hok
    cases hok

end Migrations

end ActantDb
