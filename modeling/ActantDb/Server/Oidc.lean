import Mathlib.Data.List.DropRight
import ActantDb.Core.Model
import ActantDb.Ledger.JsValue
import ActantDb.Lib.Expiring
import ActantDb.Lib.Run
import ActantDb.Server.Auth

/-!
# Keys of an identity provider

A token of an OpenID Connect provider is verified with a key of the set that the provider's discovery document names. Discovery document and keys are fetched over HTTP and kept for an hour. No lock is held while they are fetched, so that any number of verifications may fetch at once, and whoever is done last has the word.

Whatever the network answers and in whatever order the verifications take their steps, a token is accepted only with a key that some verification for the same provider has fetched from where the provider's own document says (`accepted_with_provided_key`); and once somebody has stored the keys, nobody asks the provider again until they go stale (`ensure_quiet`).
-/

namespace ActantDb

namespace Server.Oidc

structure DiscoveryDoc where
  issuer : String
  jwksUri : String
  idTokenSigningAlgValuesSupported : List String
deriving DecidableEq

structure Jwk where
  kid : String
  alg : Option String
  kty : String
  n : Option String
  e : Option String
  x : Option String
  y : Option String
  crv : Option String
deriving DecidableEq

structure JwkSet where
  keys : List Jwk
deriving DecidableEq

/-- What comes from crates: the derived parsers, with the texts of their errors, and `jsonwebtoken`. -/
structure Jose (Key : Type) where
  discoveryFromStr : String → Except String DiscoveryDoc
  jwksFromStr : String → Except String JwkSet
  /-- The `kid` of the header. -/
  decodeHeader : String → Except String (Option String)
  fromRsaComponents : String → String → Except String Key
  /-- The claims, if the signature is good for the key and the claims for the issuer, at that time. -/
  decode : Nat → String → Key → String → Except String Claims

/-- A discovery document and the keys that go with it. -/
abbrev Provider := DiscoveryDoc × JwkSet

variable {Key : Type} (J : Jose Key)

def discoveryUrl (issuer : String) : String :=
  String.ofList (issuer.toList.rdropWhile (· = '/')) ++ "/.well-known/openid-configuration"

/-- `verify_rs256`, once `ensure` has returned. -/
def verifyRs256 (now : Nat) (issuer token : String) (resolved : Except ActantError Provider) :
    Except ActantError Claims := do
  let provider ← resolved
  let header ← (J.decodeHeader token).mapError fun e => ActantError.invalidInput ("jwt header: " ++ e)
  let kid ← header.elim (.error (.invalidInput "jwt missing kid")) .ok
  let jwk ← (provider.2.keys.find? fun k => k.kid = kid).elim (.error (.permissionDenied ("no jwk for kid " ++ kid))) .ok
  let n ← jwk.n.elim (.error (.invalidInput "jwk missing n")) .ok
  let e ← jwk.e.elim (.error (.invalidInput "jwk missing e")) .ok
  let key ← (J.fromRsaComponents n e).mapError fun e => ActantError.invalidInput ("jwk decode: " ++ e)
  (J.decode now token key issuer).mapError fun e => .permissionDenied ("rs256 verify: " ++ e)

/-! ### The resolver -/

/-- How far a call of `ensure` is. -/
inductive Phase where
  | idle
  | discovering
  | fetching (discovery : DiscoveryDoc)
  | storing (discovery : DiscoveryDoc) (jwks : JwkSet)
  | returned (result : Except ActantError Provider)
deriving DecidableEq

/-- What a call does with the reply to its first request. -/
def afterDiscovery (reply : Except ActantError String) : Phase :=
  match reply with
  | .error e => .returned (.error e)
  | .ok body =>
    match J.discoveryFromStr body with
    | .error e => .returned (.error (.invalidInput ("oidc discovery: " ++ e)))
    | .ok discovery => .fetching discovery

def afterJwks (discovery : DiscoveryDoc) (reply : Except ActantError String) : Phase :=
  match reply with
  | .error e => .returned (.error e)
  | .ok body =>
    match J.jwksFromStr body with
    | .error e => .returned (.error (.invalidInput ("oidc jwks: " ++ e)))
    | .ok jwks => .storing discovery jwks

/-- A request, and what came of it. -/
structure Exchange (ι : Type) where
  caller : ι
  url : String
  reply : Except ActantError String

section Resolver

variable {ι : Type} (ttl : Nat) (issuer : ι → String)

structure Resolver (ι : Type) where
  inner : Expiring String Provider
  now : Nat
  phase : ι → Phase
  log : List (Exchange ι)

/-- Time passes, a call begins, its request is answered, or it stores what it has fetched. -/
inductive Event (ι : Type) where
  | pass (duration : Nat)
  | ensure (i : ι)
  | answer (i : ι) (reply : Except ActantError String)
  | store (i : ι)

namespace Resolver

def start : Resolver ι := ⟨.empty, 0, fun _ => .idle, []⟩

variable [DecidableEq ι] (s : Resolver ι)

def setPhase (i : ι) (p : Phase) : Resolver ι := { s with phase := Function.update s.phase i p }

@[simp] theorem setPhase_self (i : ι) (p : Phase) : (s.setPhase i p).phase i = p := by simp [setPhase]

theorem setPhase_of_ne {i j : ι} (h : j ≠ i) (p : Phase) : (s.setPhase i p).phase j = s.phase j := by
  simp [setPhase, Function.update_of_ne h]

def step : Event ι → Resolver ι
  | .pass duration => { s with now := s.now + duration }
  | .ensure i =>
    match s.phase i with
    | .idle =>
      s.setPhase i <|
        match s.inner.hit ttl s.now (issuer i) with
        | some provider => .returned (.ok provider)
        | none => .discovering
    | _ => s
  | .answer i reply =>
    match s.phase i with
    | .discovering =>
      { s.setPhase i (afterDiscovery J reply) with log := s.log ++ [⟨i, discoveryUrl (issuer i), reply⟩] }
    | .fetching discovery =>
      { s.setPhase i (afterJwks J discovery reply) with log := s.log ++ [⟨i, discovery.jwksUri, reply⟩] }
    | _ => s
  | .store i =>
    match s.phase i with
    | .storing discovery jwks =>
      { s.setPhase i (.returned (.ok (discovery, jwks))) with
        inner := s.inner.put (issuer i) (discovery, jwks) s.now }
    | _ => s

end Resolver

/-- The state after the events. -/
def reached [DecidableEq ι] (events : List (Event ι)) : Resolver ι := Lts.run (Resolver.step J ttl issuer) .start events

/-! ### Where keys come from -/

/-- Some call for the issuer got the document from the issuer, and some call for it got the keys from where the document says. -/
def Discovered (log : List (Exchange ι)) (iss : String) (discovery : DiscoveryDoc) : Prop :=
  ∃ x ∈ log, issuer x.caller = iss ∧ x.url = discoveryUrl iss ∧
    ∃ body, x.reply = .ok body ∧ J.discoveryFromStr body = .ok discovery

def Provided (log : List (Exchange ι)) (iss : String) (provider : Provider) : Prop :=
  Discovered J issuer log iss provider.1 ∧
    ∃ x ∈ log, issuer x.caller = iss ∧ x.url = provider.1.jwksUri ∧
      ∃ body, x.reply = .ok body ∧ J.jwksFromStr body = .ok provider.2

variable {J issuer} {ttl}

theorem Discovered.mono {log log' : List (Exchange ι)} {iss : String} {discovery : DiscoveryDoc}
    (h : Discovered J issuer log iss discovery) : Discovered J issuer (log ++ log') iss discovery := by
  obtain ⟨x, hx, hrest⟩ := h
  exact ⟨x, List.mem_append_left _ hx, hrest⟩

theorem Provided.mono {log log' : List (Exchange ι)} {iss : String} {provider : Provider}
    (h : Provided J issuer log iss provider) : Provided J issuer (log ++ log') iss provider := by
  obtain ⟨hdisc, x, hx, hrest⟩ := h
  exact ⟨hdisc.mono, x, List.mem_append_left _ hx, hrest⟩

/-- What a call holds, it has fetched. -/
def Phase.Sound (J : Jose Key) (issuer : ι → String) (log : List (Exchange ι)) (iss : String) : Phase → Prop
  | .idle | .discovering | .returned (.error _) => True
  | .fetching discovery => Discovered J issuer log iss discovery
  | .storing discovery jwks => Provided J issuer log iss (discovery, jwks)
  | .returned (.ok provider) => Provided J issuer log iss provider

theorem Phase.Sound.mono {log log' : List (Exchange ι)} {iss : String} {p : Phase} (h : p.Sound J issuer log iss) :
    p.Sound J issuer (log ++ log') iss := by
  match p with
  | .idle | .discovering | .returned (.error _) => trivial
  | .fetching discovery => exact Discovered.mono h
  | .storing discovery jwks => exact Provided.mono h
  | .returned (.ok provider) => exact Provided.mono h

/-- The cache holds what was fetched, and nothing of the future; a call that has not begun has asked nobody. -/
structure Inv (J : Jose Key) (issuer : ι → String) (s : Resolver ι) : Prop where
  phase : ∀ i, (s.phase i).Sound J issuer s.log (issuer i)
  cache : ∀ e ∈ s.inner.entries, Provided J issuer s.log e.key e.value
  past : ∀ e ∈ s.inner.entries, e.since ≤ s.now
  asked : ∀ x ∈ s.log, s.phase x.caller ≠ .idle

theorem inv_start : Inv J issuer (Resolver.start : Resolver ι) where
  phase _ := trivial
  cache _ h := nomatch h
  past _ h := nomatch h
  asked _ h := nomatch h

theorem afterDiscovery_sound (log : List (Exchange ι)) (i : ι) (reply : Except ActantError String) :
    (afterDiscovery J reply).Sound J issuer (log ++ [⟨i, discoveryUrl (issuer i), reply⟩]) (issuer i) := by
  cases reply with
  | error e => trivial
  | ok body =>
    rw [afterDiscovery]
    split
    · trivial
    · rename_i discovery hparse
      exact ⟨_, List.mem_append_right _ (List.mem_singleton_self _), rfl, rfl, body, rfl, hparse⟩

theorem afterDiscovery_ne_idle (reply : Except ActantError String) : afterDiscovery J reply ≠ .idle := by
  cases reply with
  | error e => nofun
  | ok body =>
    rw [afterDiscovery]
    split <;> nofun

theorem afterJwks_sound {log : List (Exchange ι)} {i : ι} {discovery : DiscoveryDoc}
    (h : Discovered J issuer log (issuer i) discovery) (reply : Except ActantError String) :
    (afterJwks J discovery reply).Sound J issuer (log ++ [⟨i, discovery.jwksUri, reply⟩]) (issuer i) := by
  cases reply with
  | error e => trivial
  | ok body =>
    rw [afterJwks]
    split
    · trivial
    · rename_i jwks hparse
      exact ⟨h.mono, _, List.mem_append_right _ (List.mem_singleton_self _), rfl, rfl, body, rfl, hparse⟩

theorem afterJwks_ne_idle (discovery : DiscoveryDoc) (reply : Except ActantError String) :
    afterJwks J discovery reply ≠ .idle := by
  cases reply with
  | error e => nofun
  | ok body =>
    rw [afterJwks]
    split <;> nofun

variable [DecidableEq ι]

/-- A step of one call that asks nobody and leaves the cache as it is. -/
theorem Inv.setPhase {s : Resolver ι} (h : Inv J issuer s) {i : ι} {p : Phase} (hp : p.Sound J issuer s.log (issuer i))
    (hne : p ≠ .idle) : Inv J issuer (s.setPhase i p) where
  phase := by
    intro j
    by_cases hj : j = i
    · subst hj
      rw [Resolver.setPhase_self]
      exact hp
    · rw [Resolver.setPhase_of_ne _ hj]
      exact h.phase j
  cache := h.cache
  past := h.past
  asked := by
    intro x hx
    by_cases hj : x.caller = i
    · rw [hj, Resolver.setPhase_self]
      exact hne
    · rw [Resolver.setPhase_of_ne _ hj]
      exact h.asked x hx

/-- A step of one call that makes a request. -/
theorem Inv.exchanged {s : Resolver ι} (h : Inv J issuer s) {i : ι} {p : Phase} {x : Exchange ι} (hx : x.caller = i)
    (hp : p.Sound J issuer (s.log ++ [x]) (issuer i)) (hne : p ≠ .idle) :
    Inv J issuer { s.setPhase i p with log := s.log ++ [x] } where
  phase := by
    intro j
    by_cases hj : j = i
    · subst hj
      show ((s.setPhase j p).phase j).Sound J issuer (s.log ++ [x]) (issuer j)
      rw [Resolver.setPhase_self]
      exact hp
    · show ((s.setPhase i p).phase j).Sound J issuer (s.log ++ [x]) (issuer j)
      rw [Resolver.setPhase_of_ne _ hj]
      exact (h.phase j).mono
  cache e he := (h.cache e he).mono
  past := h.past
  asked := by
    intro y hy
    show (s.setPhase i p).phase y.caller ≠ .idle
    by_cases hj : y.caller = i
    · rw [hj, Resolver.setPhase_self]
      exact hne
    · rw [Resolver.setPhase_of_ne _ hj]
      rcases List.mem_append.mp hy with hy | hy
      · exact h.asked y hy
      · rw [List.mem_singleton.mp hy] at hj
        exact absurd hx hj

theorem inv_step (ttl : Nat) {s : Resolver ι} (h : Inv J issuer s) (e : Event ι) : Inv J issuer (s.step J ttl issuer e) := by
  cases e with
  | pass duration => exact ⟨h.phase, h.cache, fun e he => Nat.le_trans (h.past e he) (Nat.le_add_right _ _), h.asked⟩
  | ensure i =>
    rw [Resolver.step]
    split
    · split
      · rename_i provider hhit
        obtain ⟨e, hfind, rfl, -⟩ := Expiring.find?_of_hit hhit
        have hkey := Expiring.key_of_find? hfind
        exact h.setPhase (p := .returned (.ok e.value)) (hkey ▸ h.cache e (Expiring.mem_of_find? hfind)) nofun
      · exact h.setPhase (p := .discovering) trivial nofun
    · exact h
  | answer i reply =>
    rw [Resolver.step]
    split
    · exact h.exchanged rfl (afterDiscovery_sound s.log i reply) (afterDiscovery_ne_idle reply)
    · rename_i discovery hphase
      have hdiscovery : (Phase.fetching discovery).Sound J issuer s.log (issuer i) := hphase ▸ h.phase i
      exact h.exchanged rfl (afterJwks_sound hdiscovery reply) (afterJwks_ne_idle discovery reply)
    · exact h
  | store i =>
    rw [Resolver.step]
    split
    · rename_i discovery jwks hphase
      have hprovided : (Phase.storing discovery jwks).Sound J issuer s.log (issuer i) := hphase ▸ h.phase i
      have hset := h.setPhase (p := .returned (.ok (discovery, jwks))) hprovided nofun
      refine ⟨hset.phase, fun e he => ?_, fun e he => ?_, hset.asked⟩
      · rcases Expiring.mem_put he with he | rfl
        · exact h.cache e he
        · exact hprovided
      · rcases Expiring.mem_put he with he | rfl
        · exact h.past e he
        · exact Nat.le_refl _
    · exact h

theorem inv_reached (J : Jose Key) (ttl : Nat) (issuer : ι → String) (events : List (Event ι)) :
    Inv J issuer (reached J ttl issuer events) :=
  Lts.run_invariant (Inv J issuer) (fun _ e h _ => inv_step ttl h e) inv_start (Lts.everyStep_true events)

/-! ### Tokens -/

/-- What `verify_rs256` has found when it accepts a token. -/
structure Accepted (J : Jose Key) (now : Nat) (iss token : String) (jwks : JwkSet) (claims : Claims) : Prop where
  key : ∃ jwk ∈ jwks.keys, J.decodeHeader token = .ok (some jwk.kid) ∧
    ∃ n e key, jwk.n = some n ∧ jwk.e = some e ∧ J.fromRsaComponents n e = .ok key ∧ J.decode now token key iss = .ok claims

theorem mapError_eq_ok {ε ε' α : Type} {f : ε → ε'} {x : Except ε α} {a : α} : x.mapError f = .ok a ↔ x = .ok a := by
  cases x <;> simp [Except.mapError]

theorem elim_eq_ok {ε α : Type} {e : ε} {x : Option α} {a : α} :
    x.elim (Except.error e) Except.ok = .ok a ↔ x = some a := by
  cases x <;> simp

theorem verifyRs256_accepted {now : Nat} {iss token : String} {resolved : Except ActantError Provider} {claims : Claims}
    (h : verifyRs256 J now iss token resolved = .ok claims) :
    ∃ provider, resolved = .ok provider ∧ Accepted J now iss token provider.2 claims := by
  rw [verifyRs256] at h
  obtain ⟨provider, hresolved, h⟩ := bind_eq_ok.mp h
  obtain ⟨header, hheader, h⟩ := bind_eq_ok.mp h
  obtain ⟨kid, hkid, h⟩ := bind_eq_ok.mp h
  obtain ⟨jwk, hjwk, h⟩ := bind_eq_ok.mp h
  obtain ⟨n, hn, h⟩ := bind_eq_ok.mp h
  obtain ⟨e, he, h⟩ := bind_eq_ok.mp h
  obtain ⟨key, hkey, h⟩ := bind_eq_ok.mp h
  rw [elim_eq_ok] at hkid hjwk hn he
  rw [mapError_eq_ok] at hheader hkey h
  have hnamed : jwk.kid = kid := by simpa using List.find?_some hjwk
  exact ⟨provider, hresolved, jwk, List.mem_of_find?_eq_some hjwk, by rw [hheader, hkid, hnamed], n, e, key, hn, he, hkey, h⟩

/-- **A token is accepted only with a key that its issuer has provided**: some call for the issuer has got a discovery document from it, some call for it has got keys from where the document says, and one of these keys, the one that the token's header names, verifies the token. -/
theorem accepted_with_provided_key (J : Jose Key) (ttl : Nat) (issuer : ι → String) (events : List (Event ι)) (i : ι)
    (result : Except ActantError Provider) (hreturned : (reached J ttl issuer events).phase i = .returned result) (now : Nat)
    (token : String) (claims : Claims) (haccepted : verifyRs256 J now (issuer i) token result = .ok claims) :
    ∃ provider, Provided J issuer (reached J ttl issuer events).log (issuer i) provider ∧
      Accepted J now (issuer i) token provider.2 claims := by
  obtain ⟨provider, rfl, hkey⟩ := verifyRs256_accepted haccepted
  have hsound := (inv_reached J ttl issuer events).phase i
  rw [hreturned] at hsound
  exact ⟨provider, hsound, hkey⟩

/-! ### How often the issuer is asked -/

/-- The cache only gets newer. -/
theorem newer_step {s : Resolver ι} (h : Inv J issuer s) (e : Event ι) : Expiring.Newer s.inner (s.step J ttl issuer e).inner := by
  cases e with
  | pass duration => exact Expiring.Newer.refl _
  | ensure i =>
    rw [Resolver.step]
    split <;> exact Expiring.Newer.refl _
  | answer i reply =>
    rw [Resolver.step]
    split <;> exact Expiring.Newer.refl _
  | store i =>
    rw [Resolver.step]
    split
    · exact Expiring.newer_put h.past
    · exact Expiring.Newer.refl _

/-- A call that has returned is not heard of again. -/
theorem returned_step {s : Resolver ι} {j : ι} {result : Except ActantError Provider}
    (h : s.phase j = .returned result ∧ ∀ x ∈ s.log, x.caller ≠ j) (e : Event ι) :
    (s.step J ttl issuer e).phase j = .returned result ∧ ∀ x ∈ (s.step J ttl issuer e).log, x.caller ≠ j := by
  have hother : ∀ i, s.phase i ≠ .returned result → ∀ p, (s.setPhase i p).phase j = .returned result := by
    intro i hi p
    have hj : j ≠ i := fun hj => hi (hj ▸ h.1)
    rw [Resolver.setPhase_of_ne _ hj]
    exact h.1
  have hasked : ∀ i url reply, s.phase i ≠ .returned result → ∀ x ∈ s.log ++ [⟨i, url, reply⟩], x.caller ≠ j := by
    intro i url reply hi x hx
    rcases List.mem_append.mp hx with hx | hx
    · exact h.2 x hx
    · rw [List.mem_singleton.mp hx]
      rintro rfl
      exact hi h.1
  cases e with
  | pass duration => exact h
  | ensure i =>
    rw [Resolver.step]
    split
    · rename_i hphase
      exact ⟨hother i (by simp [hphase]) _, h.2⟩
    · exact h
  | answer i reply =>
    rw [Resolver.step]
    split
    · rename_i hphase
      exact ⟨hother i (by simp [hphase]) _, hasked i _ _ (by simp [hphase])⟩
    · rename_i discovery hphase
      exact ⟨hother i (by simp [hphase]) _, hasked i _ _ (by simp [hphase])⟩
    · exact h
  | store i =>
    rw [Resolver.step]
    split
    · rename_i discovery jwks hphase
      exact ⟨hother i (by simp [hphase]) _, h.2⟩
    · exact h

theorem returned_run {s : Resolver ι} {j : ι} {result : Except ActantError Provider}
    (h : s.phase j = .returned result ∧ ∀ x ∈ s.log, x.caller ≠ j) (events : List (Event ι)) :
    (Lts.run (Resolver.step J ttl issuer) s events).phase j = .returned result ∧
      ∀ x ∈ (Lts.run (Resolver.step J ttl issuer) s events).log, x.caller ≠ j :=
  Lts.run_invariant (fun s : Resolver ι => s.phase j = .returned result ∧ ∀ x ∈ s.log, x.caller ≠ j)
    (fun _ e h _ => returned_step h e) h (Lts.everyStep_true events)

/-- **A provider is left alone until its keys go stale**: when a call has stored what it fetched, a call for the same issuer that begins less than the time to live later makes no request, and returns what was stored then or later. -/
theorem ensure_quiet (J : Jose Key) (ttl : Nat) (issuer : ι → String) (before mid after : List (Event ι)) (i j : ι)
    (discovery : DiscoveryDoc) (jwks : JwkSet)
    (hstoring : (reached J ttl issuer before).phase i = .storing discovery jwks) (hissuer : issuer j = issuer i)
    (hidle : (reached J ttl issuer (before ++ .store i :: mid)).phase j = .idle)
    (htime : (reached J ttl issuer (before ++ .store i :: mid)).now - (reached J ttl issuer before).now < ttl) :
    ∃ e, (reached J ttl issuer (before ++ .store i :: mid)).inner.find? (issuer j) = some e ∧
      (reached J ttl issuer before).now ≤ e.since ∧
      (reached J ttl issuer (before ++ .store i :: (mid ++ .ensure j :: after))).phase j = .returned (.ok e.value) ∧
      ∀ x ∈ (reached J ttl issuer (before ++ .store i :: (mid ++ .ensure j :: after))).log, x.caller ≠ j := by
  have hinv := inv_reached J ttl issuer before
  have hstored := inv_step ttl hinv (.store i)
  have hput : ((reached J ttl issuer before).step J ttl issuer (.store i)).inner.find? (issuer j) =
      some ⟨issuer j, (discovery, jwks), (reached J ttl issuer before).now⟩ := by
    rw [Resolver.step, hstoring, hissuer]
    exact Expiring.find?_put_self
  have hmid : Lts.run (Resolver.step J ttl issuer) ((reached J ttl issuer before).step J ttl issuer (.store i)) mid =
      reached J ttl issuer (before ++ .store i :: mid) := by
    rw [reached, reached, Lts.run_append, Lts.run_cons]
  have hnewer := Lts.run_rel (Inv J issuer) (fun s s' => Expiring.Newer s.inner s'.inner) (fun s => Expiring.Newer.refl _)
    (fun _ _ _ => Expiring.Newer.trans) (fun s e h _ => ⟨inv_step ttl h e, newer_step h e⟩) hstored
    (Lts.everyStep_true mid)
  rw [hmid] at hnewer
  obtain ⟨e, hfind, hsince, hhit⟩ := Expiring.hit_of_newer hnewer hput htime
  refine ⟨e, hfind, hsince, ?_⟩
  -- the call is answered at once, and that is the end of it
  have hensure : (reached J ttl issuer (before ++ .store i :: mid)).step J ttl issuer (.ensure j) =
      (reached J ttl issuer (before ++ .store i :: mid)).setPhase j (.returned (.ok e.value)) := by
    simp only [Resolver.step, hidle, hhit]
  have hafter : reached J ttl issuer (before ++ .store i :: (mid ++ .ensure j :: after)) =
      Lts.run (Resolver.step J ttl issuer)
        ((reached J ttl issuer (before ++ .store i :: mid)).step J ttl issuer (.ensure j)) after := by
    rw [← Lts.run_cons, reached, reached, ← Lts.run_append, List.append_assoc, List.cons_append]
  rw [hafter, hensure]
  refine returned_run ⟨Resolver.setPhase_self _ _ _, fun x hx hj => ?_⟩ after
  exact (inv_reached J ttl issuer (before ++ .store i :: mid)).asked x hx (hj ▸ hidle)

end Resolver

/-! ### A sample provider -/

def exampleDiscovery : DiscoveryDoc :=
  ⟨"https://issuer.example.com", "https://issuer.example.com/.well-known/jwks.json", ["RS256"]⟩

def exampleJwk : Jwk := ⟨"k1", some "RS256", "RSA", some "fake-modulus", some "AQAB", none, none, none⟩

/-- The bodies that the provider answers with. -/
def discoveryBody : String :=
  "\x7b\"issuer\":\"https://issuer.example.com\",\"jwks_uri\":\"https://issuer.example.com/.well-known/jwks.json\",\"id_token_signing_alg_values_supported\":[\"RS256\"]\x7d"

def jwksBody : String :=
  "\x7b\"keys\":[\x7b\"kid\":\"k1\",\"alg\":\"RS256\",\"kty\":\"RSA\",\"n\":\"fake-modulus\",\"e\":\"AQAB\"\x7d]\x7d"

def exampleClaims : Claims := ⟨"usr_01", "https://issuer.example.com", [], 1700000000, 1700003600⟩

/-- Knows these bodies, and one token. -/
def Jose.sample : Jose (String × String) where
  discoveryFromStr body := if body = discoveryBody then .ok exampleDiscovery else .error "expected value at line 1 column 1"
  jwksFromStr body := if body = jwksBody then .ok ⟨[exampleJwk]⟩ else .error "expected value at line 1 column 1"
  decodeHeader token := if token = "header.claims.signature" then .ok (some "k1") else .error "InvalidToken"
  fromRsaComponents n e := .ok (n, e)
  decode _ token key iss :=
    if token = "header.claims.signature" ∧ key = ("fake-modulus", "AQAB") ∧ iss = exampleClaims.iss then .ok exampleClaims
    else .error "InvalidSignature"

/-- A call for the provider fetches its keys. -/
def fetched (i : Bool) : List (Event Bool) :=
  [.ensure i, .answer i (.ok discoveryBody), .answer i (.ok jwksBody)]

def bothExample : Bool → String := fun _ => "https://issuer.example.com"

theorem accepted_with_provided_key_sample :
    ∃ provider, Provided Jose.sample bothExample (reached Jose.sample 3600 bothExample (fetched true ++ [Event.store true])).log
        (bothExample true) provider ∧
      Accepted Jose.sample 0 (bothExample true) "header.claims.signature" provider.2 exampleClaims :=
  accepted_with_provided_key Jose.sample 3600 bothExample (fetched true ++ [Event.store true]) true
    (.ok (exampleDiscovery, ⟨[exampleJwk]⟩)) (by decide +kernel) 0 "header.claims.signature" exampleClaims (by decide +kernel)

theorem ensure_quiet_hour :
    ∃ e, (reached Jose.sample 3600 bothExample (fetched true ++ .store true :: [.pass 3599])).inner.find?
        (bothExample false) = some e ∧
      (reached Jose.sample 3600 bothExample (fetched true)).now ≤ e.since ∧
      (reached Jose.sample 3600 bothExample (fetched true ++ .store true :: ([.pass 3599] ++ .ensure false :: []))).phase
        false = .returned (.ok e.value) ∧
      ∀ x ∈ (reached Jose.sample 3600 bothExample
        (fetched true ++ .store true :: ([.pass 3599] ++ .ensure false :: []))).log, x.caller ≠ false :=
  ensure_quiet Jose.sample 3600 bothExample (fetched true) [.pass 3599] [] true false exampleDiscovery ⟨[exampleJwk]⟩
    (by decide +kernel) rfl (by decide +kernel) (by decide +kernel)

end Server.Oidc

end ActantDb
