import ActantDb.Ledger.HashedRuns

/-!
# The chain assertion of the test helpers

`expectChainIntact` looks at no more than the length of the two hashes of each event. It accepts what `append` writes, since a digest has 64 characters, and throws at a hash of any other length; but a payload, a hash or an order that has been altered goes through as long as every hash keeps its length. So the assertion tells intact lists from others only where the others have a hash of another length.
-/

namespace ActantDb

open HashChain Lts

/-! ### The assertion -/

/-- `s.length`. -/
def utf16Length (s : String) : Nat := (s.toList.flatMap codeUnits).length

def invalidHash (e : ActantEvent) (field hash : String) : Thrown :=
  ⟨"AssertionError", "event " ++ e.id ++ " has invalid " ++ field ++ " \"" ++ hash ++ "\" (expected 64-hex-char)"⟩

/-- The `typeof` of the source is that of the field's type. -/
def expectHash (e : ActantEvent) (field hash : String) : Except Thrown Unit :=
  if utf16Length hash ≠ 64 then .error (invalidHash e field hash) else .ok ()

def expectChainIntact : List ActantEvent → Except Thrown Unit
  | [] => .ok ()
  | e :: rest => do
    expectHash e "chain_hash" e.chainHash
    expectHash e "payload_hash" e.payloadHash
    expectChainIntact rest

/-! ### What it is to assert -/

/-- Each event's payload is the one its payload hash is of, and each chain hash is linked from the one before. -/
def Intact (X : JsLibrary) (events : List ActantEvent) : Prop :=
  (∀ e ∈ events, sha256OfJSON X e.payload = .ok e.payloadHash) ∧ Chained X events

/-- Both hashes are as long as a digest. -/
def Sized (e : ActantEvent) : Prop := utf16Length e.chainHash = 64 ∧ utf16Length e.payloadHash = 64

section Assertion

variable {X : JsLibrary} {events : List ActantEvent} {e : ActantEvent}

theorem expectHash_ok (e : ActantEvent) (field : String) {hash : String} :
    expectHash e field hash = .ok () ↔ utf16Length hash = 64 := by
  rw [expectHash]
  split
  next h => exact iff_of_false nofun h
  next h => exact iff_of_true rfl (not_not.mp h)

theorem expectChainIntact_ok : expectChainIntact events = .ok () ↔ ∀ e ∈ events, Sized e := by
  induction events with
  | nil => exact iff_of_true rfl nofun
  | cons e events ih =>
    rw [List.forall_mem_cons, ← ih, Sized, ← expectHash_ok e "chain_hash",
      ← expectHash_ok e "payload_hash"]
    rw [expectChainIntact]
    cases expectHash e "chain_hash" e.chainHash with
    | error t => exact iff_of_false nofun fun h => (nomatch h.1.1)
    | ok u =>
      cases expectHash e "payload_hash" e.payloadHash with
      | error t => exact iff_of_false nofun fun h => (nomatch h.1.2)
      | ok v => exact ⟨fun h => ⟨⟨rfl, rfl⟩, h⟩, fun h => h.2⟩

theorem Intact.sized (hX : ∀ text, utf16Length (X.sha256 text) = 64) (h : Intact X events) : ∀ e ∈ events, Sized e := by
  intro e he
  constructor
  · obtain ⟨k, hk⟩ := List.getElem?_of_mem he
    obtain ⟨prev, -, hlink⟩ := Linked.predecessor h.2 hk
    rw [hlink]
    exact hX _
  · obtain ⟨text, htext⟩ : ∃ text, e.payloadHash = X.sha256 text := by
      have hpayload := h.1 e he
      rw [sha256OfJSON] at hpayload
      cases hcanonical : canonicalText X e.payload with
      | error t =>
        rw [hcanonical] at hpayload
        cases hpayload
      | ok text =>
        rw [hcanonical] at hpayload
        exact ⟨text, (Except.ok.inj hpayload).symm⟩
    rw [htext]
    exact hX _

end Assertion

/-- **The assertion is right about a list** if and only if the list is intact or has a hash of another length than a digest: any other list that is not intact is accepted. -/
theorem expectChainIntact_iff (X : JsLibrary) (hX : ∀ text, utf16Length (X.sha256 text) = 64) (events : List ActantEvent) :
    (expectChainIntact events = .ok () ↔ Intact X events) ↔ Intact X events ∨ ∃ e ∈ events, ¬ Sized e := by
  rw [expectChainIntact_ok]
  constructor
  · intro h
    by_cases hall : ∀ e ∈ events, Sized e
    · exact Or.inl (h.mp hall)
    · exact Or.inr (by simpa using hall)
  · rintro (hintact | ⟨e, he, hsize⟩)
    · exact iff_of_true (hintact.sized hX) hintact
    · exact iff_of_false (fun hall => hsize (hall e he)) fun hintact => hsize (hintact.sized hX e he)

/-! ### What is written is accepted -/

section Written

variable {E : LedgerEnv} {process : Nat}

theorem sized_stored (hX : ∀ text, utf16Length (E.library.sha256 text) = 64) (l : Ledger) (id : String) (input : AppendInput)
    (payload : JsValue) : Sized (stored E l id input payload) :=
  ⟨hX _, hX _⟩

theorem sized_call (hX : ∀ text, utf16Length (E.library.sha256 text) = 64) (l : Ledger) (c : LedgerCall)
    (h : ∀ e ∈ l.events.rows, Sized e) : ∀ e ∈ (l.call E process c).events.rows, Sized e := by
  cases c with
  | ulid => exact h
  | append input =>
    show ∀ e ∈ (l.append E process input).2.events.rows, Sized e
    rcases append_cases E process l input with ⟨-, hevents⟩ | ⟨payload, -, -, -, -, hrows⟩
    · rw [hevents]
      exact h
    · rw [hrows]
      intro e he
      rcases List.mem_append.mp he with he | he
      · exact h e he
      · rw [List.mem_singleton.mp he]
        exact sized_stored hX _ _ _ _

theorem mem_rows_of_select {l : Ledger} {filter : LedgerFilter} {e : ActantEvent} (h : e ∈ l.select filter) : e ∈ l.events.rows := by
  have hfound : ∀ e ∈ (l.events.rows.filter filter.selects).insertionSort (fun a b => a.id ≤ b.id), e ∈ l.events.rows :=
    fun e he => List.mem_of_mem_filter ((List.mem_insertionSort _).mp he)
  rw [Ledger.select] at h
  split at h
  · exact hfound e h
  · exact hfound e h
  · exact hfound e (List.mem_of_mem_take h)

/-- Whatever the clock does and whatever fails, what the ledger lists passes. -/
theorem expectChainIntact_written (hX : ∀ text, utf16Length (E.library.sha256 text) = 64) (calls : List LedgerCall)
    (filter : LedgerFilter) :
    expectChainIntact ((run (Ledger.call E process) Ledger.empty calls).select filter) = .ok () := by
  have hrows : ∀ l : Ledger, (∀ e ∈ l.events.rows, Sized e) →
      ∀ e ∈ (run (Ledger.call E process) l calls).events.rows, Sized e := by
    induction calls with
    | nil => exact fun l h => h
    | cons c calls ih => exact fun l h => ih _ (sized_call hX l c h)
  exact expectChainIntact_ok.mpr fun e he => hrows Ledger.empty nofun e (mem_rows_of_select he)

end Written

/-! ### Samples -/

theorem length_bigEndian (width x : Nat) : (Sha256.bigEndian width x).length = width := by
  induction width with
  | zero => rfl
  | succ width ih => rw [Sha256.bigEndian, List.length_cons, ih]

theorem length_digest (message : List UInt8) : (Sha256.digest message).length = 32 := by
  rw [Sha256.digest, List.length_map, List.length_flatMap]
  simp [Sha256.digestWords, length_bigEndian]

theorem length_hexEncode (bytes : List UInt8) : utf16Length (hexEncode bytes) = 2 * bytes.length := by
  have hdigit : ∀ n < 16, (codeUnits (Value.hexDigit n)).length = 1 := by decide
  rw [utf16Length, hexEncode, String.toList_ofList]
  induction bytes with
  | nil => rfl
  | cons b bytes ih =>
    have hb := b.toNat_lt
    rw [List.flatMap_cons, List.flatMap_append, List.length_append, ih, List.flatMap_cons, List.flatMap_singleton,
      List.length_append, hdigit _ (by omega), hdigit _ (by omega), List.length_cons]
    omega

theorem sample_digests (text : String) : utf16Length (JsLibrary.sample.sha256 text) = 64 := by
  show utf16Length (hexEncode _) = 64
  rw [length_hexEncode, length_digest]

/-- An event whose hashes have been overwritten. -/
def overwritten (hash : String) : ActantEvent := ⟨"e", .userMessageReceived, "run", .object [], hash, hash⟩

/-- With a hash of another length it is rejected. -/
theorem expectChainIntact_iff_short : expectChainIntact [overwritten "x"] = .ok () ↔ Intact .sample [overwritten "x"] :=
  (expectChainIntact_iff .sample sample_digests [overwritten "x"]).mpr
    (Or.inr ⟨_, List.mem_singleton_self _, fun h => absurd h.1 (by decide)⟩)

/-- With one of the right length it is accepted, and it is not intact: no digest has an `x` in it. -/
theorem overwritten_accepted :
    expectChainIntact [overwritten (String.ofList (List.replicate 64 'x'))] = .ok () ∧
      ¬ Intact .sample [overwritten (String.ofList (List.replicate 64 'x'))] := by
  constructor
  · rfl
  · rintro ⟨-, hchain, -⟩
    have hlink : String.ofList (List.replicate 64 'x') =
        hexEncode (Sha256.digest (asBytes (genesisHash ++ ":" ++ String.ofList (List.replicate 64 'x')))) := hchain
    have hx : 'x' ∈ (String.ofList (List.replicate 64 'x')).toList := by decide
    have hhex : ∀ n < 16, Value.hexDigit n ≠ 'x' := by decide
    rw [hlink, hexEncode, String.toList_ofList, List.mem_flatMap] at hx
    obtain ⟨b, -, hb⟩ := hx
    have hlt := b.toNat_lt
    rw [List.mem_cons, List.mem_singleton] at hb
    rcases hb with hb | hb
    · exact hhex _ (by omega) hb.symm
    · exact hhex _ (by omega) hb.symm

end ActantDb
