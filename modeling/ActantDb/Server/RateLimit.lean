import ActantDb.Lib.Keyed
import ActantDb.Reliability.Throttle

/-!
# The rate limits of the server

Commands are limited for each workspace, redemptions of linking codes for each address, and logins for each workspace and address. Each has a table of token buckets, with a bucket for each key that has been asked for. Addresses are those of the peers, so the key of a login names both its parts.

What the others ask for takes nothing from anyone: a client is answered as if it were the only one, gets no more through than its bucket holds and is refilled with, and is let through if it has waited for a token (`limits_hold`).
-/

namespace ActantDb

namespace Server.RateLimit

open Throttle

/-! ### The limits -/

inductive Limiter where
  | workspace | link | login
deriving DecidableEq

/-- `LINK_RATE_LIMIT`. -/
def linkRateLimit : Policy := ⟨5, 5 / 60⟩

/-- `LOGIN_RATE_LIMIT`. -/
def loginRateLimit : Policy := ⟨10, 10 / 60⟩

/-- The limit for workspaces is optional. -/
def policyOf (ratePolicy : Option Policy) : Limiter → Option Policy
  | .workspace => ratePolicy
  | .link => some linkRateLimit
  | .login => some loginRateLimit

/-- The answer 429: its header, and the seconds in its body. -/
structure Refusal where
  retryAfter : Nat
  retryAfterSeconds : Nat
deriving DecidableEq

def refusal (wait : ℚ) : Refusal := ⟨max ⌊wait⌋₊ 1, ⌊wait⌋₊⟩

/-- The three tables. -/
abbrev Buckets := Limiter × String → Option Bucket

/-- `try_consume(1)`. -/
def consume (b : Bucket) (now : ℚ) : Except Refusal Unit × Bucket :=
  let r := b.tryConsume now 1
  (r.1.mapError refusal, r.2)

/-- `or_insert_with`. -/
def fresh (ratePolicy : Option Policy) (key : Limiter × String) (now : ℚ) : Option Bucket :=
  (policyOf ratePolicy key.1).map fun policy => .new policy now

section Handlers

variable (ratePolicy : Option Policy) (buckets : Buckets) (now : ℚ)

/-- One token of the bucket with this key; without a limit there is no bucket to ask. -/
def limit (key : Limiter × String) : Except Refusal Unit × Buckets :=
  Keyed.ask (fresh ratePolicy) consume (.ok ()) buckets key now

def enforceRateLimit (workspaceId : String) : Except Refusal Unit × Buckets :=
  limit ratePolicy buckets now (.workspace, workspaceId)

def enforceLinkRate (ip : Option String) : Except Refusal Unit × Buckets :=
  limit ratePolicy buckets now (.link, ip.getD "-")

def loginKey (workspaceId : String) (ip : Option String) : String := workspaceId ++ "|" ++ ip.getD "-"

/-- The first check of `login`. -/
def enforceLoginRate (workspaceId : String) (ip : Option String) : Except Refusal Unit × Buckets :=
  limit ratePolicy buckets now (.login, loginKey workspaceId ip)

end Handlers

/-! ### Requests -/

/-- A character of an address as it is printed. -/
def isIpChar (c : Char) : Bool := c.isDigit || ('a' ≤ c && c ≤ 'f') || c = '.' || c = ':'

/-- The address of a peer. -/
structure PeerIp where
  text : String
  printed : ∀ c ∈ text.toList, isIpChar c = true
deriving DecidableEq

inductive Request where
  | command (workspaceId : String)
  | redeem (ip : Option PeerIp)
  | login (workspaceId : String) (ip : Option PeerIp)
deriving DecidableEq

def respond (ratePolicy : Option Policy) (buckets : Buckets) (now : ℚ) : Request → Except Refusal Unit × Buckets
  | .command workspaceId => enforceRateLimit ratePolicy buckets now workspaceId
  | .redeem ip => enforceLinkRate ratePolicy buckets now (ip.map PeerIp.text)
  | .login workspaceId ip => enforceLoginRate ratePolicy buckets now workspaceId (ip.map PeerIp.text)

/-- What the requests are answered, each with its time. -/
def answers (ratePolicy : Option Policy) (buckets : Buckets) :
    List (Request × ℚ) → List (Request × ℚ × Except Refusal Unit)
  | [] => []
  | (req, now) :: requests =>
    (req, now, (respond ratePolicy buckets now req).1) :: answers ratePolicy (respond ratePolicy buckets now req).2 requests

/-- The tables after the requests. -/
def after (ratePolicy : Option Policy) (buckets : Buckets) (requests : List (Request × ℚ)) : Buckets :=
  requests.foldl (fun buckets r => (respond ratePolicy buckets r.2 r.1).2) buckets

/-- A server that has been asked for nothing yet. -/
def noBuckets : Buckets := fun _ => none

/-- The limit that a request is under. -/
def Request.policy (ratePolicy : Option Policy) : Request → Option Policy
  | .command _ => policyOf ratePolicy .workspace
  | .redeem _ => policyOf ratePolicy .link
  | .login .. => policyOf ratePolicy .login

/-- The answers to the requests that are this one, with their times. -/
def answersTo (req : Request) (l : List (Request × ℚ × Except Refusal Unit)) : List (ℚ × Except Refusal Unit) :=
  (l.filter fun x => x.1 = req).map Prod.snd

/-- How many of the answers from `a` to `z` let the request through. -/
def passed (a z : ℚ) (l : List (ℚ × Except Refusal Unit)) : Nat :=
  l.countP fun x => a ≤ x.1 ∧ x.1 ≤ z ∧ x.2.isOk

/-! ### The keys -/

section Keys

theorem append_cons_inj {α : Type*} {a a' b b' : List α} {c : α} (hb : c ∉ b) (hb' : c ∉ b')
    (h : a ++ c :: b = a' ++ c :: b') : a = a' ∧ b = b' := by
  rcases List.append_eq_append_iff.mp h with ⟨m, ha, hm⟩ | ⟨m, ha, hm⟩
  · cases m with
    | nil => exact ⟨by rw [ha, List.append_nil], (List.cons.inj hm).2⟩
    | cons x m =>
      obtain ⟨-, hm⟩ := List.cons.inj hm
      exact absurd (by simp [hm]) hb
  · cases m with
    | nil => exact ⟨by rw [ha, List.append_nil], (List.cons.inj hm).2.symm⟩
    | cons x m =>
      obtain ⟨-, hm⟩ := List.cons.inj hm
      exact absurd (by simp [hm]) hb'

/-- An address, or the sign for none. -/
def ipText (ip : Option PeerIp) : String := (ip.map PeerIp.text).getD "-"

theorem bar_notMem_ipText (ip : Option PeerIp) : '|' ∉ (ipText ip).toList := by
  cases ip with
  | none => decide
  | some ip => exact fun h => absurd (ip.printed _ h) (by decide)

theorem ipText_injective : Function.Injective ipText := by
  have hnone : ∀ ip : PeerIp, ip.text ≠ "-" := by
    intro ip h
    have hdash : '-' ∈ ip.text.toList := by rw [h]; decide
    exact absurd (ip.printed _ hdash) (by decide)
  intro ip ip' h
  cases ip with
  | none =>
    cases ip' with
    | none => rfl
    | some ip' => exact absurd h.symm (hnone ip')
  | some ip =>
    cases ip' with
    | none => exact absurd h (hnone ip)
    | some ip' =>
      obtain ⟨text, _⟩ := ip
      obtain ⟨text', _⟩ := ip'
      have htext : text = text' := h
      subst htext
      rfl

def Request.key : Request → Limiter × String
  | .command workspaceId => (.workspace, workspaceId)
  | .redeem ip => (.link, ipText ip)
  | .login workspaceId ip => (.login, loginKey workspaceId (ip.map PeerIp.text))

theorem key_injective : Function.Injective Request.key := by
  intro r r' h
  cases r with
  | command workspaceId =>
    cases r' with
    | command workspaceId' => rw [(Prod.mk.inj h).2]
    | redeem ip' => cases (Prod.mk.inj h).1
    | login workspaceId' ip' => cases (Prod.mk.inj h).1
  | redeem ip =>
    cases r' with
    | command workspaceId' => cases (Prod.mk.inj h).1
    | redeem ip' => rw [ipText_injective (Prod.mk.inj h).2]
    | login workspaceId' ip' => cases (Prod.mk.inj h).1
  | login workspaceId ip =>
    cases r' with
    | command workspaceId' => cases (Prod.mk.inj h).1
    | redeem ip' => cases (Prod.mk.inj h).1
    | login workspaceId' ip' =>
      have hkey : workspaceId ++ "|" ++ ipText ip = workspaceId' ++ "|" ++ ipText ip' := (Prod.mk.inj h).2
      have hchars : workspaceId.toList ++ '|' :: (ipText ip).toList =
          workspaceId'.toList ++ '|' :: (ipText ip').toList := by
        simpa using congrArg String.toList hkey
      obtain ⟨hworkspace, hip⟩ := append_cons_inj (bar_notMem_ipText ip) (bar_notMem_ipText ip') hchars
      rw [String.toList_injective hworkspace, ipText_injective (String.toList_injective hip)]

theorem policy_key (ratePolicy : Option Policy) (req : Request) :
    req.policy ratePolicy = policyOf ratePolicy req.key.1 := by
  cases req <;> rfl

end Keys

/-! ### The bucket of one key -/

section Bucket

variable {ratePolicy : Option Policy} {req : Request}

theorem respond_eq (buckets : Buckets) (now : ℚ) (req : Request) :
    respond ratePolicy buckets now req = Keyed.ask (fresh ratePolicy) consume (.ok ()) buckets req.key now := by
  cases req <;> rfl

theorem answers_eq (buckets : Buckets) (requests : List (Request × ℚ)) :
    (answers ratePolicy buckets requests).map (Prod.map Request.key id) =
      Keyed.answers (fresh ratePolicy) consume (.ok ()) buckets (requests.map (Prod.map Request.key id)) := by
  induction requests generalizing buckets with
  | nil => rfl
  | cons r requests ih =>
    obtain ⟨req, now⟩ := r
    rw [answers, List.map_cons, ih, respond_eq]
    rfl

/-- The calls to the bucket of a request. -/
theorem labels_key (req : Request) (requests : List (Request × ℚ)) :
    Keyed.labels req.key (requests.map (Prod.map Request.key id)) =
      (requests.filter fun r => r.1 = req).map Prod.snd := by
  rw [Keyed.labels, List.filter_map, List.map_map]
  have hsame : ((fun c : (Limiter × String) × ℚ => decide (c.1 = req.key)) ∘ Prod.map Request.key id) =
      fun r : Request × ℚ => decide (r.1 = req) := by
    funext r
    exact decide_eq_decide.mpr key_injective.eq_iff
  rw [hsame]
  rfl

theorem length_answers (buckets : Buckets) (requests : List (Request × ℚ)) :
    (answers ratePolicy buckets requests).length = requests.length := by
  induction requests generalizing buckets with
  | nil => rfl
  | cons r requests ih => rw [answers, List.length_cons, ih, List.length_cons]

theorem answers_append (buckets : Buckets) (pre post : List (Request × ℚ)) :
    answers ratePolicy buckets (pre ++ post) =
      answers ratePolicy buckets pre ++ answers ratePolicy (after ratePolicy buckets pre) post := by
  induction pre generalizing buckets with
  | nil => rfl
  | cons r pre ih =>
    rw [List.cons_append, answers, answers, ih, List.cons_append]
    rfl

/-- What a client is answered is what its bucket answers. -/
theorem answersTo_eq (req : Request) (buckets : Buckets) (requests : List (Request × ℚ)) :
    answersTo req (answers ratePolicy buckets requests) =
      Keyed.alone (fresh ratePolicy) consume (.ok ()) req.key (buckets req.key)
        ((requests.filter fun r => r.1 = req).map Prod.snd) := by
  rw [← labels_key, ← Keyed.answers_filter, ← answers_eq, List.filter_map, List.map_map]
  have hsame : ((fun a : (Limiter × String) × ℚ × Except Refusal Unit => decide (a.1 = req.key)) ∘
      Prod.map Request.key id) = fun x : Request × ℚ × Except Refusal Unit => decide (x.1 = req) := by
    funext x
    exact decide_eq_decide.mpr key_injective.eq_iff
  rw [hsame]
  rfl

theorem call_some (key : Limiter × String) (b : Bucket) (now : ℚ) :
    Keyed.call (fresh ratePolicy) consume (.ok ()) key (some b) now = ((consume b now).1, some (consume b now).2) := rfl

theorem isOk_consume (b : Bucket) (now : ℚ) : (consume b now).1.isOk = (b.tryConsume now 1).1.isOk := by
  rw [consume]
  cases (b.tryConsume now 1).1 <;> rfl

/-- Each request takes one token. -/
theorem passed_alone (key : Limiter × String) (b : Bucket) (times : List ℚ) (a z : ℚ) :
    passed a z (Keyed.alone (fresh ratePolicy) consume (.ok ()) key (some b) times) =
      b.granted (times.map fun now => ⟨now, 1⟩) a z := by
  induction times generalizing b with
  | nil => rfl
  | cons now times ih =>
    have hafter : (consume b now).2 = (b.tryConsume now 1).2 := rfl
    have hrest := ih (consume b now).2
    rw [passed] at hrest
    rw [Keyed.alone, call_some, passed, List.countP_cons, hrest, List.map_cons, Bucket.grants_cons, hafter, add_comm]
    congr 1
    rw [Bucket.taken, isOk_consume]
    by_cases hwithin : a ≤ now ∧ now ≤ z
    · simp [hwithin]
    · rw [if_neg hwithin, if_neg (by simpa using fun ha hz => absurd ⟨ha, hz⟩ hwithin)]

/-- The first request finds a full bucket. -/
theorem alone_none {key : Limiter × String} {policy : Policy} (hpolicy : policyOf ratePolicy key.1 = some policy)
    (now : ℚ) (times : List ℚ) :
    Keyed.alone (fresh ratePolicy) consume (.ok ()) key none (now :: times) =
      Keyed.alone (fresh ratePolicy) consume (.ok ()) key (some (.new policy now)) (now :: times) := by
  have hfresh : fresh ratePolicy key now = some (.new policy now) := by rw [fresh, hpolicy, Option.map_some]
  rw [Keyed.alone, Keyed.alone, Keyed.call, hfresh]
  rfl

theorem passed_le {policy : Policy} (hpolicy : req.policy ratePolicy = some policy) (hrate : 0 ≤ policy.refillPerSecond)
    {requests : List (Request × ℚ)} (hturn : (requests.map Prod.snd).Pairwise (· ≤ ·)) (a T : ℚ) (hT : 0 ≤ T) :
    (passed a (a + T) (answersTo req (answers ratePolicy noBuckets requests)) : ℚ) ≤
      policy.limit.toNat + policy.refillPerSecond * T := by
  rw [answersTo_eq, noBuckets]
  have htimes : ((requests.filter fun r => r.1 = req).map Prod.snd).Pairwise (· ≤ ·) :=
    hturn.sublist (List.filter_sublist.map _)
  cases htaken : (requests.filter fun r => r.1 = req).map Prod.snd with
  | nil =>
    exact add_nonneg (Nat.cast_nonneg _) (mul_nonneg hrate hT)
  | cons now times =>
    rw [htaken] at htimes
    have hcalls : Bucket.InTurn now ((now :: times).map fun t => (⟨t, 1⟩ : Call)) := by
      rw [Bucket.InTurn, List.map_map]
      have hid : Call.now ∘ (fun t => (⟨t, 1⟩ : Call)) = id := rfl
      rw [hid, List.map_id]
      refine List.pairwise_cons.mpr ⟨fun t ht => ?_, htimes⟩
      rcases List.mem_cons.mp ht with rfl | ht
      · exact le_refl _
      · exact (List.pairwise_cons.mp htimes).1 t ht
    have hle := Bucket.granted_le (Bucket.filled_new policy now) hrate hcalls (le_add_of_nonneg_right hT) (a := a)
    rw [add_sub_cancel_left] at hle
    rw [alone_none ((policy_key ratePolicy req) ▸ hpolicy), passed_alone]
    exact hle

/-- After these times, a bucket is one of its limit that has last been asked at one of them. -/
def Kept (policy : Policy) (times : List ℚ) : Option Bucket → Prop
  | none => times = []
  | some b => b.policy = policy ∧ b.Filled ∧ b.last ∈ times

theorem kept_call {key : Limiter × String} {policy : Policy} (hpolicy : policyOf ratePolicy key.1 = some policy)
    (hrate : 0 ≤ policy.refillPerSecond) {times : List ℚ} {b : Option Bucket} (h : Kept policy times b) (now : ℚ) :
    Kept policy (times ++ [now]) (Keyed.call (fresh ratePolicy) consume (.ok ()) key b now).2 := by
  have hasked : ∀ b : Bucket, b.policy = policy → b.Filled → Kept policy (times ++ [now]) (some (consume b now).2) := by
    intro b hb hfilled
    refine ⟨(Bucket.policy_tryConsume b now 1).trans hb, hfilled.tryConsume (hb ▸ hrate), ?_⟩
    rw [consume, Bucket.last_tryConsume]
    exact List.mem_append_right _ List.mem_cons_self
  cases b with
  | none =>
    have hfresh : fresh ratePolicy key now = some (.new policy now) := by rw [fresh, hpolicy, Option.map_some]
    rw [Keyed.call, hfresh]
    exact hasked _ rfl (Bucket.filled_new policy now)
  | some b => exact hasked b h.1 h.2.1

/-- A bucket that has waited for a token has one. -/
theorem consume_ok {policy : Policy} {b : Bucket} {now : ℚ} (hpolicy : b.policy = policy) (hfilled : b.Filled)
    (hlimit : 1 ≤ policy.limit) (hrate : 0 < policy.refillPerSecond)
    (hwaited : b.last + 1 / policy.refillPerSecond ≤ now) : (consume b now).1 = .ok () := by
  subst hpolicy
  have hholds : ((1 : UInt32).toNat : ℚ) ≤ (b.refill now).tokens := by
    have hinflow : 1 ≤ max 0 (now - b.last) * b.policy.refillPerSecond := by
      have hwait : 1 / b.policy.refillPerSecond ≤ max 0 (now - b.last) := le_trans (by linarith) (le_max_right _ _)
      rwa [div_le_iff₀ hrate] at hwait
    have hroom : (1 : ℚ) ≤ b.policy.limit.toNat := by exact_mod_cast UInt32.le_iff_toNat_le.mp hlimit
    have htokens := hfilled.nonneg
    rw [UInt32.toNat_one, Nat.cast_one]
    exact le_min (by linarith) hroom
  have hok := (Bucket.tryConsume_ok hfilled (le_of_lt hrate)).mpr hholds
  rw [consume, hok]
  rfl

end Bucket

theorem after_eq (ratePolicy : Option Policy) (requests : List (Request × ℚ)) :
    after ratePolicy noBuckets requests =
      Keyed.after (fresh ratePolicy) consume (.ok ()) noBuckets (requests.map (Prod.map Request.key id)) := by
  rw [after, Keyed.after, List.foldl_map]
  simp only [respond_eq, Prod.map_fst, Prod.map_snd, id]

theorem waited_ok {ratePolicy : Option Policy} {req : Request} {policy : Policy}
    (hpolicy : req.policy ratePolicy = some policy) (hlimit : 1 ≤ policy.limit) (hrate : 0 < policy.refillPerSecond)
    {pre : List (Request × ℚ)} {now : ℚ}
    (hwaited : ∀ r ∈ pre, r.1 = req → r.2 + 1 / policy.refillPerSecond ≤ now) :
    (respond ratePolicy (after ratePolicy noBuckets pre) now req).1 = .ok () := by
  have hlimiter := (policy_key ratePolicy req) ▸ hpolicy
  have hkept : Kept policy ((pre.filter fun r => r.1 = req).map Prod.snd) (after ratePolicy noBuckets pre req.key) := by
    rw [after_eq, ← labels_key]
    exact Keyed.after_rule (Kept policy) (show Kept policy [] none from rfl)
      (fun _ _ now h => kept_call hlimiter (le_of_lt hrate) h now) _
  rw [respond_eq, Keyed.ask]
  dsimp only
  cases hbucket : after ratePolicy noBuckets pre req.key with
  | none =>
    have hfresh : fresh ratePolicy req.key now = some (.new policy now) := by rw [fresh, hlimiter, Option.map_some]
    have hfull := Bucket.filled_new policy now
    have hholds : ((1 : UInt32).toNat : ℚ) ≤ ((Bucket.new policy now).refill now).tokens := by
      have hroom : (1 : ℚ) ≤ policy.limit.toNat := by exact_mod_cast UInt32.le_iff_toNat_le.mp hlimit
      rw [UInt32.toNat_one, Nat.cast_one]
      exact le_min (by simpa [Bucket.new] using hroom) hroom
    have hok := (Bucket.tryConsume_ok hfull (le_of_lt hrate)).mpr hholds
    rw [Keyed.call, hfresh]
    show (consume (Bucket.new policy now) now).1 = .ok ()
    rw [consume, hok]
    rfl
  | some b =>
    rw [hbucket] at hkept
    obtain ⟨hb, hfilled, hlast⟩ := hkept
    obtain ⟨r, hr, hlast⟩ := List.mem_map.mp hlast
    obtain ⟨hmem, hreq⟩ := List.mem_filter.mp hr
    rw [call_some]
    exact consume_ok hb hfilled hlimit hrate (hlast ▸ hwaited r hmem (of_decide_eq_true hreq))

/-- **The limits hold, and hold for each client alone**: a client is answered as if no other had asked, in any `T` seconds no more of its requests go through than the limit and what runs in meanwhile, and a request goes through if the client has left its bucket alone for as long as a token takes to run in. -/
theorem limits_hold (ratePolicy : Option Policy) (requests : List (Request × ℚ)) (req : Request)
    (hturn : (requests.map Prod.snd).Pairwise (· ≤ ·)) :
    answersTo req (answers ratePolicy noBuckets requests) =
        answersTo req (answers ratePolicy noBuckets (requests.filter fun r => r.1 = req)) ∧
      ∀ policy, req.policy ratePolicy = some policy → 0 < policy.refillPerSecond →
        (∀ a T, 0 ≤ T → (passed a (a + T) (answersTo req (answers ratePolicy noBuckets requests)) : ℚ) ≤
          policy.limit.toNat + policy.refillPerSecond * T) ∧
        ∀ pre now post, requests = pre ++ (req, now) :: post → 1 ≤ policy.limit →
          (∀ r ∈ pre, r.1 = req → r.2 + 1 / policy.refillPerSecond ≤ now) →
            (answers ratePolicy noBuckets requests)[pre.length]? = some (req, now, .ok ()) := by
  refine ⟨?_, fun policy hpolicy hrate => ⟨fun a T hT => ?_, ?_⟩⟩
  · rw [answersTo_eq, answersTo_eq, List.filter_filter]
    simp only [Bool.and_self]
  · exact passed_le hpolicy (le_of_lt hrate) hturn a T hT
  · rintro pre now post rfl hlimit hwaited
    rw [answers_append, List.getElem?_append_right (le_of_eq (length_answers noBuckets pre)), length_answers, Nat.sub_self, answers,
      waited_ok hpolicy hlimit hrate hwaited]
    rfl

/-- Two commands at once, and one a second. -/
def commandLimit : Policy := ⟨2, 1⟩

/-- A client that asks too often, another one, and the first again after a pause. -/
def busy : List (Request × ℚ) :=
  [(.command "a", 0), (.command "a", 0), (.command "a", 1 / 4), (.command "b", 1 / 4), (.command "a", 3 / 2)]

theorem limits_hold_busy :
    (passed 0 (0 + 1) (answersTo (.command "a") (answers (some commandLimit) noBuckets busy)) : ℚ) ≤
        commandLimit.limit.toNat + commandLimit.refillPerSecond * 1 ∧
      (answers (some commandLimit) noBuckets busy)[4]? = some (.command "a", 3 / 2, .ok ()) := by
  obtain ⟨-, hlimits⟩ := limits_hold (some commandLimit) busy (.command "a") (by decide +kernel)
  obtain ⟨hpassed, hwaited⟩ := hlimits commandLimit rfl (by decide)
  exact ⟨hpassed 0 1 (by decide), hwaited (busy.take 4) (3 / 2) [] rfl (by decide) (by decide +kernel)⟩

end Server.RateLimit

end ActantDb
