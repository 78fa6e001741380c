import Mathlib.Data.List.Basic
import Mathlib.Data.List.Forall2
import Mathlib.Data.List.Induction
import ActantDb.Core.Model

/-!
# One call of an MCP server

The client writes `initialize` to the server's stdin and reads its stdout until it finds a response, then does the same with `tools/call`. Requests of the server and notifications come on the same stream, and all are read as responses: whatever has the number it waits for as its `id` is one, and a line with an `id` that is no such number ends the call.
-/

namespace ActantDb.McpStdio

/-! ### The code -/

/-- What `serde_json` makes of a line, its message about a value that is not a frame, the debug text of a line, and the version of the crate. -/
structure Library where
  fromStr : String → Except String Value
  mismatch : Value → String
  debug : String → String
  formatF64 : F64 → String
  version : String

structure JsonRpcRequest where
  jsonrpc : String
  id : Nat
  method : String
  params : Value

/-- The code is one that an `i64` holds. -/
structure JsonRpcError where
  code : Number
  message : String
  data : Option Value

structure JsonRpcResponse where
  jsonrpc : Option String
  id : Option Nat
  result : Option Value
  error : Option JsonRpcError

/-- As a `u64`. -/
def asU64 : Value → Option Nat
  | .number (.posInt n) => some n.toNat
  | _ => none

/-- As an `i64`. -/
def asI64 : Value → Option Number
  | .number (.posInt n) => if n.toNat < 2 ^ 63 then some (.posInt n) else none
  | .number (.negInt n) => some (.negInt n)
  | _ => none

/-- A field of type `Option`: it may be missing or `null`, but not anything else. -/
def optional {α : Type} (v : Value) (key : String) (read : Value → Option α) : Option (Option α) :=
  match v.get key with
  | none | some .null => some none
  | some w => (read w).map some

def JsonRpcError.ofValue (v : Value) : Option JsonRpcError := do
  let code ← (v.get "code").bind asI64
  let message ← (v.get "message").bind Value.asStr
  let data ← optional v "data" some
  return ⟨code, message, data⟩

def JsonRpcResponse.ofValue (v : Value) : Option JsonRpcResponse := do
  let jsonrpc ← optional v "jsonrpc" Value.asStr
  let id ← optional v "id" asU64
  let result ← optional v "result" some
  let error ← optional v "error" JsonRpcError.ofValue
  return ⟨jsonrpc, id, result, error⟩

variable (L : Library)

/-- `serde_json::from_str::<JsonRpcResponse>`. -/
def decodeFrame (line : String) : Except String JsonRpcResponse := do
  let v ← L.fromStr line
  match JsonRpcResponse.ofValue v with
  | some frame => return frame
  | none => throw (L.mismatch v)

def errorOf (e : JsonRpcError) : ActantError :=
  .internal ("mcp error " ++ String.ofList (Value.print L.formatF64 (.number e.code)) ++ ": " ++ e.message)

/-- What the server has still written is the list of its lines. -/
def readResponse (wantId : Nat) : List String → Except ActantError Value × List String
  | [] => (.error (.internal "mcp child closed stdout before responding"), [])
  | line :: lines =>
    if (trim line.toList).isEmpty then readResponse wantId lines
    else
      match decodeFrame L line with
      | .error e => (.error (.internal ("decode mcp frame " ++ L.debug line ++ ": " ++ e)), lines)
      | .ok frame =>
        if frame.id ≠ some wantId then readResponse wantId lines
        else
          match frame.error with
          | some e => (.error (errorOf L e), lines)
          | none => (.ok (frame.result.getD .null), lines)

def initializeRequest : JsonRpcRequest where
  jsonrpc := "2.0"
  id := 1
  method := "initialize"
  params := .object [("protocolVersion", .string "2024-11-05"), ("capabilities", .object []),
    ("clientInfo", .object [("name", .string "actant-workers"), ("version", .string L.version)])]

def toolsCallRequest (tool : String) (arguments : Value) : JsonRpcRequest where
  jsonrpc := "2.0"
  id := 2
  method := "tools/call"
  params := .object [("name", .string tool), ("arguments", arguments)]

/-- The requests that are sent and what comes back, where the child is there and its pipes do not fail. -/
def callInner (tool : String) (arguments : Value) (lines : List String) : List JsonRpcRequest × Except ActantError Value :=
  match readResponse L 1 lines with
  | (.error e, _) => ([initializeRequest L], .error e)
  | (.ok _, rest) => ([initializeRequest L, toolsCallRequest tool arguments], (readResponse L 2 rest).1)

/-! ### Messages -/

/-- What a server writes. An `id` that it chooses itself is a string or a number. -/
inductive Message where
  | notification
  | request (id : Value)
  | result (id : UInt64) (value : Value)
  | error (id : UInt64) (code : Number) (message : String)

/-- The members of the message by which it is told from others. -/
def Message.Members (v : Value) : Message → Prop
  | .notification => v.get "id" = none ∧ v.get "result" = none ∧ v.get "error" = none
  | .request id => v.get "id" = some id ∧ ((∃ s, id = .string s) ∨ ∃ n, id = .number n) ∧ v.get "result" = none ∧
      v.get "error" = none
  | .result id value => v.get "id" = some (.number (.posInt id)) ∧ v.get "result" = some value ∧ v.get "error" = none
  | .error id code message => v.get "id" = some (.number (.posInt id)) ∧ v.get "result" = none ∧
      ∃ e, v.get "error" = some e ∧ e.get "code" = some (.number code) ∧ e.get "message" = some (.string message)

/-- The line is this message, or it is blank. -/
def Spells (line : String) : Option Message → Prop
  | none => (trim line.toList).isEmpty = true
  | some m => (trim line.toList).isEmpty = false ∧
      ∃ v, L.fromStr line = .ok v ∧ v.get "jsonrpc" = some (.string "2.0") ∧ m.Members v

/-- The number that the message has for the client. -/
def Message.id : Message → Option Nat
  | .notification => none
  | .request id => asU64 id
  | .result id _ => some id.toNat
  | .error id _ _ => some id.toNat

/-- The client has types for what is in the message. -/
def Message.Readable : Message → Prop
  | .notification => True
  | .request id => (asU64 id).isSome = true
  | .result _ _ => True
  | .error _ code _ => (asI64 (.number code)).isSome = true

/-- What the client makes of it if it takes it for the response. -/
def Message.outcome : Message → Except ActantError Value
  | .notification | .request _ => .ok .null
  | .result _ value => .ok value
  | .error _ code message => .error (errorOf L ⟨code, message, none⟩)

/-- A response to the request with this number. -/
def Message.Answers (m : Message) (n : UInt64) : Prop := (∃ value, m = .result n value) ∨ ∃ code message, m = .error n code message

def Message.isError : Message → Bool
  | .error .. => true
  | _ => false

/-! ### What a line is taken for -/

section Frames

variable {L} {v w : Value} {m : Message} {line : String} {lines : List String} {wantId : Nat} {key : String}

theorem optional_missing {α : Type} {read : Value → Option α} (h : v.get key = none) : optional v key read = some none := by
  rw [optional, h]

theorem optional_found {α : Type} {read : Value → Option α} (h : v.get key = some w) (hw : w ≠ .null) :
    optional v key read = (read w).map some := by
  rw [optional, h]
  cases w
  · exact absurd rfl hw
  all_goals rfl

theorem optional_string {s : String} (h : v.get key = some (.string s)) : optional v key Value.asStr = some (some s) :=
  optional_found h Value.noConfusion

/-- A message that can be read is a frame with its number, and is taken for its outcome. -/
theorem ofValue_readable (hversion : v.get "jsonrpc" = some (.string "2.0")) (hmembers : m.Members v) (hreadable : m.Readable) :
    ∃ frame, JsonRpcResponse.ofValue v = some frame ∧ frame.id = m.id ∧
      (match frame.error with
        | some e => .error (errorOf L e)
        | none => .ok (frame.result.getD .null)) = m.outcome L := by
  have hjsonrpc := optional_string hversion
  cases m with
  | notification =>
    obtain ⟨hid, hresult, herror⟩ := hmembers
    refine ⟨⟨some "2.0", none, none, none⟩, ?_, rfl, rfl⟩
    rw [JsonRpcResponse.ofValue, hjsonrpc, optional_missing hid, optional_missing hresult, optional_missing herror]
    rfl
  | request id =>
    obtain ⟨hid, -, hresult, herror⟩ := hmembers
    obtain ⟨n, hn⟩ := Option.isSome_iff_exists.mp hreadable
    have hnumber : id ≠ .null := by
      rintro rfl
      cases hn
    refine ⟨⟨some "2.0", some n, none, none⟩, ?_, hn.symm, rfl⟩
    rw [JsonRpcResponse.ofValue, hjsonrpc, optional_found hid hnumber, hn, optional_missing hresult, optional_missing herror]
    rfl
  | result id value =>
    obtain ⟨hid, hresult, herror⟩ := hmembers
    by_cases hnull : value = .null
    · refine ⟨⟨some "2.0", some id.toNat, none, none⟩, ?_, rfl, ?_⟩
      · have hnone : optional v "result" some = some none := by
          rw [optional, hresult, hnull]
        rw [JsonRpcResponse.ofValue, hjsonrpc, optional_found hid Value.noConfusion, hnone, optional_missing herror]
        rfl
      · rw [hnull]
        rfl
    · refine ⟨⟨some "2.0", some id.toNat, some value, none⟩, ?_, rfl, rfl⟩
      rw [JsonRpcResponse.ofValue, hjsonrpc, optional_found hid Value.noConfusion, optional_found hresult hnull,
        optional_missing herror]
      rfl
  | error id code message =>
    obtain ⟨hid, hresult, e, herror, hcode, hmessage⟩ := hmembers
    obtain ⟨i, hi⟩ := Option.isSome_iff_exists.mp hreadable
    have hsame : i = code := by
      cases code with
      | posInt n =>
        rw [asI64] at hi
        split at hi
        · exact (Option.some.inj hi).symm
        · cases hi
      | negInt n => exact (Option.some.inj hi).symm
      | float x => cases hi
    obtain ⟨data, hdata⟩ : ∃ data, optional e "data" some = some data := by
      rw [optional]
      split
      · exact ⟨none, rfl⟩
      · exact ⟨none, rfl⟩
      · exact ⟨_, rfl⟩
    have hobject : e ≠ .null := by
      rintro rfl
      cases hcode
    have hread : JsonRpcError.ofValue e = some ⟨code, message, data⟩ := by
      rw [JsonRpcError.ofValue, hcode, hmessage, Option.bind_some, hi, hsame, Option.bind_some, hdata]
      rfl
    refine ⟨⟨some "2.0", some id.toNat, none, some ⟨code, message, data⟩⟩, ?_, rfl, rfl⟩
    rw [JsonRpcResponse.ofValue, hjsonrpc, optional_found hid Value.noConfusion, optional_missing hresult,
      optional_found herror hobject, hread]
    rfl

/-- Any other is no frame. -/
theorem ofValue_unreadable (hmembers : m.Members v) (hreadable : ¬ m.Readable) : JsonRpcResponse.ofValue v = none := by
  cases m with
  | notification => exact absurd trivial hreadable
  | request id =>
    obtain ⟨hid, hkind, -, -⟩ := hmembers
    have hnone : asU64 id = none := Option.not_isSome_iff_eq_none.mp hreadable
    have hnumber : id ≠ .null := by
      rintro rfl
      obtain ⟨s, hs⟩ | ⟨n, hn⟩ := hkind
      · cases hs
      · cases hn
    rw [JsonRpcResponse.ofValue, optional_found hid hnumber, hnone]
    cases optional v "jsonrpc" Value.asStr <;> rfl
  | result id value => exact absurd trivial hreadable
  | error id code message =>
    obtain ⟨hid, hresult, e, herror, hcode, -⟩ := hmembers
    have hnone : asI64 (.number code) = none := Option.not_isSome_iff_eq_none.mp hreadable
    have hobject : e ≠ .null := by
      rintro rfl
      cases hcode
    have hread : JsonRpcError.ofValue e = none := by
      rw [JsonRpcError.ofValue, hcode, Option.bind_some, hnone]
      rfl
    rw [JsonRpcResponse.ofValue, optional_found hid Value.noConfusion, optional_missing hresult,
      optional_found herror hobject, hread]
    cases optional v "jsonrpc" Value.asStr <;> rfl

theorem read_blank (h : Spells L line none) : readResponse L wantId (line :: lines) = readResponse L wantId lines := by
  have hblank : (trim line.toList).isEmpty = true := h
  rw [readResponse, if_pos hblank]

/-- The line that ends the call. -/
def decodeError (line : String) (e : String) : ActantError := .internal ("decode mcp frame " ++ L.debug line ++ ": " ++ e)

/-- A line that is parsed is the frame that its value is, if it is one. -/
theorem decodeFrame_eq (h : L.fromStr line = .ok v) :
    decodeFrame L line = match JsonRpcResponse.ofValue v with
      | some frame => .ok frame
      | none => .error (L.mismatch v) := by
  rw [decodeFrame, h]
  rfl

theorem read_readable (h : Spells L line (some m)) (hreadable : m.Readable) :
    readResponse L wantId (line :: lines) =
      if m.id = some wantId then (m.outcome L, lines) else readResponse L wantId lines := by
  obtain ⟨hblank, v, hparse, hversion, hmembers⟩ := h
  obtain ⟨frame, hframe, hid, houtcome⟩ := ofValue_readable (L := L) hversion hmembers hreadable
  have hdecode : decodeFrame L line = .ok frame := by rw [decodeFrame_eq hparse, hframe]
  rw [readResponse, if_neg (Bool.eq_false_iff.mp hblank), hdecode, ← hid]
  dsimp only
  by_cases hwant : frame.id = some wantId
  · rw [if_neg (not_not_intro hwant), if_pos hwant, ← houtcome]
    cases frame.error <;> rfl
  · rw [if_pos hwant, if_neg hwant]

theorem read_unreadable (wantId : Nat) (lines : List String) (h : Spells L line (some m)) (hreadable : ¬ m.Readable) :
    ∃ e, readResponse L wantId (line :: lines) = (.error (decodeError (L := L) line e), lines) := by
  obtain ⟨hblank, v, hparse, -, hmembers⟩ := h
  have hdecode : decodeFrame L line = .error (L.mismatch v) := by
    rw [decodeFrame_eq hparse, ofValue_unreadable hmembers hreadable]
  refine ⟨L.mismatch v, ?_⟩
  rw [readResponse, if_neg (Bool.eq_false_iff.mp hblank), hdecode]
  rfl

end Frames

/-! ### The whole call -/

/-- The client has found its first response among these, and sent `tools/call`. -/
def asked (before : List (Option Message)) : Bool := before.any fun o => o.bind Message.id = some 1

/-- The message ends the call after these: its types are wrong, it is an error while the client waits for its first response, or it has the number of the second. -/
def Stops (before : List (Option Message)) (m : Message) : Prop :=
  ¬ m.Readable ∨ if asked before then m.id = some 2 else m.id = some 1 ∧ m.isError = true

/-- No message ends the call. -/
def Undisturbed (before : List (Option Message)) : Prop :=
  ∀ pre m post, before = pre ++ some m :: post → ¬ Stops pre m

/-- The first message that ends the call. -/
def FirstStop (before : List (Option Message)) (m : Message) : Prop :=
  ∃ pre post, before = pre ++ some m :: post ∧ Stops pre m ∧ Undisturbed pre

section Call

variable {L} {before pre : List (Option Message)} {m : Message} {line : String} {lines rest : List String}

/-- How the call goes on once the first response has been found, or before it. -/
def goOn (L : Library) (found : Bool) (lines : List String) : Except ActantError Value :=
  if found then (readResponse L 2 lines).1
  else
    match readResponse L 1 lines with
    | (.error e, _) => .error e
    | (.ok _, rest) => (readResponse L 2 rest).1

theorem callInner_eq (tool : String) (arguments : Value) (lines : List String) :
    (callInner L tool arguments lines).2 = goOn L false lines := by
  rw [callInner, goOn, if_neg Bool.false_ne_true]
  split <;> rfl

theorem goOn_blank (found : Bool) (h : Spells L line none) : goOn L found (line :: lines) = goOn L found lines := by
  rw [goOn, goOn, read_blank h, read_blank h]

theorem outcome_ok (h : m.isError = false) : ∃ value, m.outcome L = .ok value := by
  cases m with
  | error id code message => cases h
  | result id value => exact ⟨value, rfl⟩
  | notification => exact ⟨_, rfl⟩
  | request id => exact ⟨_, rfl⟩

theorem outcome_error (h : m.isError = true) : ∃ e, m.outcome L = .error e := by
  cases m with
  | error id code message => exact ⟨_, rfl⟩
  | result id value => cases h
  | notification => cases h
  | request id => cases h

/-- A message that does not end the call is passed over, or is the first response. -/
theorem goOn_passes (h : Spells L line (some m)) (hstops : ¬ Stops pre m) :
    goOn L (asked pre) (line :: lines) = goOn L (asked (pre ++ [some m])) lines := by
  obtain ⟨hreadable, hpasses⟩ := not_or.mp hstops
  have hreadable := not_not.mp hreadable
  have hasked : asked (pre ++ [some m]) = (asked pre || decide (m.id = some 1)) := by
    rw [asked, List.any_append, List.any_cons, List.any_nil, Bool.or_false]
    rfl
  rw [hasked, goOn, goOn, read_readable h hreadable, read_readable h hreadable]
  cases hfound : asked pre with
  | true =>
    rw [hfound, if_pos rfl] at hpasses
    rw [Bool.true_or, if_pos rfl, if_pos rfl, if_neg hpasses]
  | false =>
    rw [hfound, if_neg Bool.false_ne_true] at hpasses
    rw [if_neg Bool.false_ne_true, Bool.false_or]
    by_cases hfirst : m.id = some 1
    · have herror : m.isError = false := Bool.eq_false_iff.mpr fun herror => hpasses ⟨hfirst, herror⟩
      obtain ⟨value, hvalue⟩ := outcome_ok herror
      rw [if_pos hfirst, decide_eq_true hfirst, if_pos rfl, hvalue]
    · rw [if_neg hfirst, decide_eq_false hfirst, if_neg Bool.false_ne_true]

/-- One that does is taken for the response, or cannot be read. -/
theorem goOn_stops (lines : List String) (h : Spells L line (some m)) (hstops : Stops pre m) :
    (m.Readable → goOn L (asked pre) (line :: lines) = m.outcome L) ∧
      (¬ m.Readable → ∃ e, goOn L (asked pre) (line :: lines) = .error (decodeError (L := L) line e)) := by
  constructor
  · intro hreadable
    have hends := hstops.resolve_left (not_not_intro hreadable)
    rw [goOn, read_readable h hreadable, read_readable h hreadable]
    cases hfound : asked pre with
    | true =>
      rw [hfound, if_pos rfl] at hends
      rw [if_pos rfl, if_pos hends]
    | false =>
      rw [hfound, if_neg Bool.false_ne_true] at hends
      obtain ⟨e, he⟩ := outcome_error hends.2
      rw [if_neg Bool.false_ne_true, if_pos hends.1, he]
  · intro hreadable
    cases hfound : asked pre with
    | true =>
      obtain ⟨e, he⟩ := read_unreadable 2 lines h hreadable
      exact ⟨e, by rw [goOn, if_pos rfl, he]⟩
    | false =>
      obtain ⟨e, he⟩ := read_unreadable 1 lines h hreadable
      exact ⟨e, by rw [goOn, if_neg Bool.false_ne_true, he]⟩

/-- What does not disturb the call is passed over. -/
theorem goOn_undisturbed (pre : List (Option Message)) (hlines : List.Forall₂ (Spells L) lines before)
    (h : Undisturbed (pre ++ before)) :
    goOn L (asked pre) (lines ++ rest) = goOn L (asked (pre ++ before)) rest := by
  induction hlines generalizing pre with
  | nil => rw [List.append_nil, List.nil_append]
  | @cons line o lines before hline hlines ih =>
    have hassoc : pre ++ o :: before = (pre ++ [o]) ++ before := by rw [List.append_assoc, List.singleton_append]
    have hrest := ih (pre ++ [o]) (hassoc ▸ h)
    rw [hassoc, ← hrest, List.cons_append]
    cases o with
    | none =>
      have hsame : asked (pre ++ [none]) = asked pre := by
        rw [asked, List.any_append]
        exact Bool.or_false _
      rw [goOn_blank _ hline, hsame]
    | some m => exact goOn_passes hline (h pre m before rfl)

/-- There is a first message that ends the call, or there is none. -/
theorem undisturbed_or_firstStop (before : List (Option Message)) : Undisturbed before ∨ ∃ m, FirstStop before m := by
  induction before using List.reverseRecOn with
  | nil => exact .inl fun pre m post h => absurd h.symm (List.append_ne_nil_of_right_ne_nil _ (List.cons_ne_nil _ _))
  | append_singleton before o ih =>
    obtain hquiet | ⟨m, pre, post, hsplit, hstops, hfirst⟩ := ih
    · by_cases hlast : ∃ m, o = some m ∧ Stops before m
      · obtain ⟨m, rfl, hstops⟩ := hlast
        exact .inr ⟨m, before, [], rfl, hstops, hquiet⟩
      · refine .inl fun pre m post hsplit hstops => ?_
        rcases List.eq_nil_or_concat post with rfl | ⟨post', x, rfl⟩
        · obtain ⟨rfl, ho⟩ := List.append_inj' hsplit rfl
          exact hlast ⟨m, (List.cons.inj ho).1, hstops⟩
        · rw [List.concat_eq_append, ← List.cons_append, ← List.append_assoc] at hsplit
          exact hquiet pre m post' (List.append_inj' hsplit rfl).1 hstops
    · exact .inr ⟨m, pre, post ++ [o], by rw [hsplit, List.append_assoc, List.cons_append], hstops, hfirst⟩

/-- The two errors are told apart by their second words. -/
theorem decodeError_ne (line e : String) (m : Message) : (.error (decodeError (L := L) line e)) ≠ m.outcome L := by
  intro h
  cases m with
  | error id code message =>
    have htext := congrArg String.toList (ActantError.internal.inj (Except.error.inj h))
    simp only [String.toList_append, List.append_assoc] at htext
    cases htext
  | result id value => cases h
  | notification => cases h
  | request id => cases h

/-- The first message that ends the call decides what comes back. -/
theorem goOn_firstStop (rest : List String) (hlines : List.Forall₂ (Spells L) lines before) (h : FirstStop before m) :
    (m.Readable → goOn L false (lines ++ rest) = m.outcome L) ∧
      (¬ m.Readable → ∃ line e, goOn L false (lines ++ rest) = .error (decodeError (L := L) line e)) := by
  obtain ⟨pre, post, rfl, hstops, hquiet⟩ := h
  have hfirst := List.forall₂_take_append lines pre _ hlines
  obtain ⟨stop, later, hstop, -, hdrop⟩ := List.forall₂_cons_right_iff.mp (List.forall₂_drop_append lines pre _ hlines)
  have hgoes : goOn L false (lines ++ rest) = goOn L (asked pre) (stop :: (later ++ rest)) := by
    rw [← List.take_append_drop pre.length lines, List.append_assoc, hdrop]
    exact goOn_undisturbed [] hfirst hquiet
  obtain ⟨htaken, hfails⟩ := goOn_stops (later ++ rest) hstop hstops
  rw [hgoes]
  exact ⟨htaken, fun hreadable => ⟨stop, hfails hreadable⟩⟩

/-- What comes back where nothing ends the call before the response to `tools/call`. -/
theorem goOn_reply (rest : List String) {reply : Message} (hlines : List.Forall₂ (Spells L) lines before)
    (hasked : asked before = true) (hquiet : Undisturbed before) (hline : Spells L line (some reply)) (hreply : reply.Answers 2) :
    (reply.Readable → goOn L false (lines ++ line :: rest) = reply.outcome L) ∧
      (¬ reply.Readable → ∃ e, goOn L false (lines ++ line :: rest) = .error (decodeError (L := L) line e)) := by
  have hid : reply.id = some 2 := by
    obtain ⟨value, rfl⟩ | ⟨code, message, rfl⟩ := hreply
    · rfl
    · rfl
  have hstops : Stops before reply := by
    refine .inr ?_
    rw [if_pos hasked]
    exact hid
  have hgoes : goOn L false (lines ++ line :: rest) = goOn L (asked before) (line :: rest) :=
    goOn_undisturbed [] hlines hquiet
  rw [hgoes]
  exact goOn_stops rest hline hstops

/-- **What comes back is the response to `tools/call`** exactly if it can be read and no message before it ends the call, or if the first that does is taken for a response that is the same. -/
theorem callInner_iff (L : Library) (tool : String) (arguments : Value) (lines after : List String) {line : String}
    {before : List (Option Message)} {reply : Message} (hlines : List.Forall₂ (Spells L) lines before)
    (hasked : asked before = true) (hline : Spells L line (some reply)) (hreply : reply.Answers 2) :
    (callInner L tool arguments (lines ++ line :: after)).2 = reply.outcome L ↔
      (Undisturbed before ∧ reply.Readable) ∨ ∃ m, FirstStop before m ∧ m.Readable ∧ m.outcome L = reply.outcome L := by
  rw [callInner_eq]
  constructor
  · intro h
    obtain hquiet | ⟨m, hfirst⟩ := undisturbed_or_firstStop before
    · refine .inl ⟨hquiet, ?_⟩
      by_contra hreadable
      obtain ⟨e, he⟩ := (goOn_reply after hlines hasked hquiet hline hreply).2 hreadable
      exact decodeError_ne line e reply (he.symm.trans h)
    · obtain ⟨htaken, hfails⟩ := goOn_firstStop (line :: after) hlines hfirst
      by_cases hreadable : m.Readable
      · exact .inr ⟨m, hfirst, hreadable, (htaken hreadable).symm.trans h⟩
      · obtain ⟨stop, e, he⟩ := hfails hreadable
        exact absurd (he.symm.trans h) (decodeError_ne stop e reply)
  · rintro (⟨hquiet, hreadable⟩ | ⟨m, hfirst, hreadable, hsame⟩)
    · exact (goOn_reply after hlines hasked hquiet hline hreply).1 hreadable
    · exact ((goOn_firstStop (line :: after) hlines hfirst).1 hreadable).trans hsame

end Call

/-! ### A server that pings -/

def pingLine : String := "\x7b\"jsonrpc\":\"2.0\",\"id\":\"ping-1\",\"method\":\"ping\"\x7d"
def readyLine : String := "\x7b\"jsonrpc\":\"2.0\",\"id\":1,\"result\":\x7b\x7d\x7d"
def doneLine : String := "\x7b\"jsonrpc\":\"2.0\",\"id\":2,\"result\":\"done\"\x7d"

def pingValue : Value := .object [("id", .string "ping-1"), ("jsonrpc", .string "2.0"), ("method", .string "ping")]
def readyValue : Value := .object [("id", .number (.posInt 1)), ("jsonrpc", .string "2.0"), ("result", .object [])]
def doneValue : Value := .object [("id", .number (.posInt 2)), ("jsonrpc", .string "2.0"), ("result", .string "done")]

/-- It parses the three lines. -/
def Library.sample : Library where
  fromStr line :=
    if line = pingLine then .ok pingValue
    else if line = readyLine then .ok readyValue
    else if line = doneLine then .ok doneValue
    else .error "expected value at line 1 column 1"
  mismatch _ := "invalid type: string \"ping-1\", expected u64 at line 1 column 30"
  debug line := line
  formatF64 _ := "0.5"
  version := "0.1.0"

theorem spells_ping : Spells .sample pingLine (some (.request (.string "ping-1"))) :=
  ⟨by decide, pingValue, by simp [Library.sample], rfl, rfl, .inl ⟨_, rfl⟩, rfl, rfl⟩

theorem spells_ready : Spells .sample readyLine (some (.result 1 (.object []))) :=
  have hping : readyLine ≠ pingLine := by decide
  ⟨by decide, readyValue, by simp [Library.sample, hping], rfl, rfl, rfl, rfl⟩

theorem spells_done : Spells .sample doneLine (some (.result 2 (.string "done"))) :=
  have hping : doneLine ≠ pingLine := by decide
  have hready : doneLine ≠ readyLine := by decide
  ⟨by decide, doneValue, by simp [Library.sample, hping, hready], rfl, rfl, rfl, rfl⟩

/-- The ping ends the call: its id is a string. -/
theorem ping_ends_call :
    List.Forall₂ (Spells .sample) [pingLine, readyLine, doneLine]
        [some (.request (.string "ping-1")), some (.result 1 (.object [])), some (.result 2 (.string "done"))] ∧
      (callInner .sample "build" .null [pingLine, readyLine, doneLine]).2 ≠ .ok (.string "done") := by
  refine ⟨.cons spells_ping (.cons spells_ready (.cons spells_done .nil)), fun h => ?_⟩
  obtain ⟨e, he⟩ := read_unreadable 1 [readyLine, doneLine] spells_ping Bool.false_ne_true
  rw [callInner, he] at h
  cases h

theorem callInner_iff_quiet : (callInner .sample "build" .null [readyLine, doneLine]).2 = .ok (.string "done") := by
  refine (callInner_iff .sample "build" .null [readyLine] [] (.cons spells_ready .nil) rfl spells_done
    (.inl ⟨_, rfl⟩)).mpr (.inl ⟨?_, trivial⟩)
  intro pre m post hsplit hstops
  cases pre with
  | nil =>
    obtain rfl := Option.some.inj (List.cons.inj hsplit).1
    obtain hreadable | ⟨-, herror⟩ := hstops
    · exact hreadable trivial
    · cases herror
  | cons o pre => exact absurd (List.cons.inj hsplit).2.symm (List.append_ne_nil_of_right_ne_nil _ (List.cons_ne_nil _ _))

end ActantDb.McpStdio
