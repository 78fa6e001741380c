import Mathlib.Data.Option.Basic
import ActantDb.Lib.Base64
import ActantDb.Lib.Words
import ActantDb.Server.Auth

/-!
# What the server signs

A bearer token is a header, a payload and the code of both, in base 64, with dots between. The state that an OAuth sign-in carries to the provider and back is a provider, a time and a nonce with the code of the three in hexadecimal digits.

`verify` does not look at the header, but the code is one of the header and the payload as they are written, and bits that stand for nothing are refused. So a token cannot be written in another way (`tokens_sealed`). A state can, in its time and in the case of its digits, and still it is good for its provider, its time and its nonce only (`states_bound`).
-/

namespace ActantDb

namespace Server

/-! ### Bearer tokens -/

def b64 (bytes : List UInt8) : String := String.ofList (Base64.encode bytes)

/-- The crates, with the decoder that goes with `b64`. -/
def AuthCrates.withBase64 (X : AuthCrates) : AuthCrates := { X with decode := fun text => Base64.decode text.toList }

/-- An `i64` as JSON. -/
def integer (n : Int) : Value := .number (if 0 ≤ n then .posInt (.ofNat n.toNat) else .negInt (.ofInt n))

def Claims.toJson (c : Claims) : Value :=
  .object
    [("sub", .string c.sub), ("iss", .string c.iss), ("roles", .array (c.roles.map .string)), ("iat", integer c.iat),
      ("exp", integer c.exp)]

variable (X : AuthCrates)

def Claims.bytes (c : Claims) : List UInt8 := asBytes (c.toJson.toText X.toCrates)

/-- A token with any header and any payload, and their code. -/
def tokenOf (secret : List UInt8) (header : String) (payload : List UInt8) : String :=
  header ++ "." ++ b64 payload ++ "." ++ b64 (X.hmac secret (asBytes (header ++ "." ++ b64 payload)))

def jwtHeader : Value := .object [("alg", .string "HS256"), ("typ", .string "JWT")]

def sign (claims : Claims) (secret : List UInt8) : String :=
  tokenOf X secret (b64 (asBytes (jwtHeader.toText X.toCrates))) (claims.bytes X)

section Tokens

variable {X} {secret : List UInt8} {token header : String} {payload : List UInt8} {claims : Claims}

theorem dot_notMem_b64 (bytes : List UInt8) : '.' ∉ (b64 bytes).toList := by
  rw [b64, String.toList_ofList]
  exact Base64.notMem_encode (by decide) bytes

theorem b64_inj {a b : List UInt8} (h : b64 a = b64 b) : a = b := by
  have hdecode := congrArg (fun text => Base64.decode text.toList) h
  simp only [b64, String.toList_ofList, Base64.decode_encode, Option.some_inj] at hdecode
  exact hdecode

theorem toList_tokenOf :
    (tokenOf X secret header payload).toList =
      ['.'].intercalate [header.toList, (b64 payload).toList,
        (b64 (X.hmac secret (asBytes (header ++ "." ++ b64 payload)))).toList] := by
  simp [tokenOf, List.intercalate, List.intersperse]

theorem toList_tokenOf_splitOn (hheader : '.' ∉ header.toList) :
    (tokenOf X secret header payload).toList.splitOn '.' = [header.toList, (b64 payload).toList,
      (b64 (X.hmac secret (asBytes (header ++ "." ++ b64 payload)))).toList] := by
  rw [Words.splitOn_eq_iff (List.cons_ne_nil _ _)]
  refine ⟨toList_tokenOf, fun t ht => ?_⟩
  simp only [List.mem_cons, List.not_mem_nil, or_false] at ht
  rcases ht with rfl | rfl | rfl
  · exact hheader
  · exact dot_notMem_b64 _
  · exact dot_notMem_b64 _

/-- `verify` accepts what is sealed with claims that have not run out. -/
theorem verify_eq_some :
    verify X.withBase64 token secret = some claims ↔
      ∃ header payload, '.' ∉ header.toList ∧ token = tokenOf X secret header payload ∧ X.claims payload = some claims ∧
        X.now ≤ claims.exp := by
  constructor
  · intro h
    rw [verify] at h
    split at h
    · rename_i header payload signature hparts
      obtain ⟨htoken, hclear⟩ := (Words.splitOn_eq_iff (List.cons_ne_nil _ _)).mp hparts
      simp only [Option.bind_eq_bind, Option.bind_eq_some_iff, Option.guard_eq_some', Option.pure_def, Option.some_inj] at h
      obtain ⟨mac, hmac, _, rfl, json, hjson, c, hc, _, hexp, rfl⟩ := h
      have hpayload : payload = Base64.encode json := by
        apply Base64.decode_eq_some.mp
        rwa [← String.toList_ofList (l := payload)]
      have hsignature : signature =
          Base64.encode (X.hmac secret (asBytes (String.ofList header ++ "." ++ String.ofList payload))) := by
        apply Base64.decode_eq_some.mp
        rwa [← String.toList_ofList (l := signature)]
      refine ⟨String.ofList header, json, ?_, ?_, hc, hexp⟩
      · rw [String.toList_ofList]
        exact hclear header List.mem_cons_self
      · rw [← String.toList_inj, toList_tokenOf, htoken, hsignature, hpayload, b64, b64, String.toList_ofList,
          String.toList_ofList, String.toList_ofList]
    · cases h
  · rintro ⟨header, payload, hheader, rfl, hclaims, hexp⟩
    rw [verify, toList_tokenOf_splitOn hheader]
    have hdecode : ∀ bytes, X.withBase64.decode (b64 bytes) = some bytes := fun bytes => by
      rw [AuthCrates.withBase64, b64]
      dsimp only
      rw [String.toList_ofList, Base64.decode_encode]
    have hnow : X.withBase64.now ≤ claims.exp := hexp
    simp only [String.ofList_toList, hdecode, Option.bind_eq_bind, Option.bind_some]
    rw [show X.withBase64.claims payload = some claims from hclaims]
    simp [AuthCrates.withBase64, guard, hexp]

/-- The same header and payload make the same token. -/
theorem tokenOf_inj {header' : String} {payload' : List UInt8} {secret' : List UInt8} (hheader : '.' ∉ header.toList)
    (hheader' : '.' ∉ header'.toList) (h : tokenOf X secret header payload = tokenOf X secret' header' payload') :
    header = header' ∧ payload = payload' ∧
      X.hmac secret (asBytes (header ++ "." ++ b64 payload)) = X.hmac secret' (asBytes (header ++ "." ++ b64 payload)) := by
  have hparts : (tokenOf X secret header payload).toList.splitOn '.' = _ := toList_tokenOf_splitOn hheader
  rw [h, toList_tokenOf_splitOn hheader'] at hparts
  simp only [List.cons.injEq, and_true, String.toList_inj] at hparts
  obtain ⟨rfl, hpayload, hmac⟩ := hparts
  obtain rfl := b64_inj hpayload
  exact ⟨rfl, rfl, (b64_inj hmac).symm⟩

/-- **A token is accepted if and only if it is a header, a payload that holds its claims, and their code**, as long as the claims have not run out. So what `sign` makes is accepted with its claims, and what is accepted under another secret as well has the same code there. -/
theorem tokens_sealed (X : AuthCrates) (secret : List UInt8) :
    (∀ token claims, verify X.withBase64 token secret = some claims ↔
      ∃ header payload, '.' ∉ header.toList ∧ token = tokenOf X secret header payload ∧ X.claims payload = some claims ∧
        X.now ≤ claims.exp) ∧
    (∀ claims, X.claims (claims.bytes X) = some claims →
      verify X.withBase64 (sign X claims secret) secret = if X.now ≤ claims.exp then some claims else none) ∧
    ∀ token secret', (verify X.withBase64 token secret).isSome → (verify X.withBase64 token secret').isSome →
      ∃ message, X.hmac secret (asBytes message) = X.hmac secret' (asBytes message) ∧
        token = message ++ "." ++ b64 (X.hmac secret (asBytes message)) := by
  refine ⟨fun token claims => verify_eq_some, fun claims hclaims => ?_, fun token secret' h h' => ?_⟩
  · have hheader : '.' ∉ (b64 (asBytes (jwtHeader.toText X.toCrates))).toList := dot_notMem_b64 _
    split
    · rename_i hexp
      exact verify_eq_some.mpr ⟨_, _, hheader, rfl, hclaims, hexp⟩
    · rename_i hexp
      rw [Option.eq_none_iff_forall_not_mem]
      intro c hc
      obtain ⟨header, payload, hheader', htoken, hc', hexp'⟩ := verify_eq_some.mp hc
      obtain ⟨-, rfl, -⟩ := tokenOf_inj hheader hheader' htoken
      obtain rfl := Option.some_inj.mp (hclaims.symm.trans hc')
      exact hexp hexp'
  · obtain ⟨claims, hclaims⟩ := Option.isSome_iff_exists.mp h
    obtain ⟨claims', hclaims'⟩ := Option.isSome_iff_exists.mp h'
    obtain ⟨header, payload, hheader, rfl, -, -⟩ := verify_eq_some.mp hclaims
    obtain ⟨header', payload', hheader', htoken, -, -⟩ := verify_eq_some.mp hclaims'
    exact ⟨header ++ "." ++ b64 payload, (tokenOf_inj hheader hheader' htoken).2.2, rfl⟩

end Tokens

/-! ### The state of a sign-in -/

def oauthStateTtlSecs : Int := 10 * 60

/-- Whether a numeral is of a negative number, and its digits. -/
def splitSign : List Char → Bool × List Char
  | '-' :: rest => (true, rest)
  | '+' :: rest => (false, rest)
  | s => (false, s)

/-- `str::parse::<i64>`. -/
def parseI64 (s : List Char) : Option Int :=
  let digits := (splitSign s).2
  if digits.isEmpty || !digits.all Char.isDigit then none
  else
    let n : Int := Nat.ofDigitChars 10 digits 0
    let n := if (splitSign s).1 then -n else n
    if -2 ^ 63 ≤ n ∧ n < 2 ^ 63 then some n else none

/-- What the code of a state is of. -/
def oauthMessage (provider : String) (expiresAt : Int) (nonce : String) : String :=
  provider ++ "." ++ toString expiresAt ++ "." ++ nonce

def oauthStateSignature (hmac : List UInt8 → List UInt8 → List UInt8) (secret : List UInt8) (provider : String)
    (expiresAt : Int) (nonce : String) : String :=
  hexEncode (hmac secret (asBytes (oauthMessage provider expiresAt nonce)))

def newOauthState (hmac : List UInt8 → List UInt8 → List UInt8) (secret : List UInt8) (now : Int) (nonce provider : String) :
    String :=
  let expiresAt := now + oauthStateTtlSecs
  "oauth." ++ provider ++ "." ++ toString expiresAt ++ "." ++ nonce ++ "." ++
    oauthStateSignature hmac secret provider expiresAt nonce

inductive OauthRefusal where
  | permissionDenied (message : String)
  | notEnabled
deriving DecidableEq, Repr

/-- With the secret of the server, if there is one. -/
def verifyOauthState (hmac : List UInt8 → List UInt8 → List UInt8) (secret : Option (List UInt8)) (now : Int)
    (state provider : String) : Except OauthRefusal Unit :=
  match state.toList.splitOn '.' with
  | [tag, stateProvider, expiresAt, nonce, signature] =>
    if String.ofList tag ≠ "oauth" then .error (.permissionDenied "invalid OAuth state")
    else
      match parseI64 expiresAt with
      | none => .error (.permissionDenied "invalid OAuth state")
      | some expiresAt =>
        if String.ofList stateProvider ≠ provider then .error (.permissionDenied "OAuth state provider mismatch")
        else if expiresAt ≤ now then .error (.permissionDenied "expired OAuth state")
        else
          match secret with
          | none => .error .notEnabled
          | some secret =>
            match Hex.decode signature with
            | none => .error (.permissionDenied "invalid OAuth state")
            | some sig =>
              if hmac secret (asBytes (oauthMessage (String.ofList stateProvider) expiresAt (String.ofList nonce))) = sig then
                .ok ()
              else .error (.permissionDenied "invalid OAuth state")
  | _ => .error (.permissionDenied "invalid OAuth state")

section Oauth

variable {hmac : List UInt8 → List UInt8 → List UInt8} {secret : List UInt8} {now expiresAt : Int} {state provider nonce : String}

theorem decode_hexEncode (bytes : List UInt8) : Hex.decode (hexEncode bytes).toList = some bytes := by
  rw [hexEncode, String.toList_ofList, Hex.decode_eq_some, List.map_flatMap, List.map_flatMap]
  have hdigit : ∀ n < 16, Hex.value (Value.hexDigit n) = some n := by decide
  congr 1
  funext b
  have hb := b.toNat_lt
  rw [List.map_cons, List.map_cons, List.map_nil, hdigit _ (by omega), hdigit _ (by omega)]
  rfl

theorem dot_notMem_hexEncode (bytes : List UInt8) : '.' ∉ (hexEncode bytes).toList := by
  rw [hexEncode, String.toList_ofList, List.mem_flatMap]
  rintro ⟨b, -, hb⟩
  have hdigit : ∀ n < 16, '.' ≠ Value.hexDigit n := by decide
  have hlt := b.toNat_lt
  rw [List.mem_cons, List.mem_singleton] at hb
  exact hb.elim (hdigit _ (by omega)) (hdigit _ (by omega))

theorem toList_toString_ofNat (n : Nat) : (toString (Int.ofNat n)).toList = Nat.toDigits 10 n :=
  show (String.ofList (Nat.toDigits 10 n)).toList = _ from String.toList_ofList

theorem toList_toString_negSucc (n : Nat) : (toString (Int.negSucc n)).toList = '-' :: Nat.toDigits 10 (n + 1) := by
  have htext : toString (Int.negSucc n) = "-" ++ String.ofList (Nat.toDigits 10 (n + 1)) := rfl
  simp [htext]

theorem isDigit_of_mem_toDigits {c : Char} {n : Nat} (h : c ∈ Nat.toDigits 10 n) : c.isDigit = true :=
  Nat.isDigit_of_mem_toDigits (by decide) (by decide) h

/-- Digits of a natural number after a sign. -/
theorem parseDigits (n : Nat) :
    ((Nat.toDigits 10 n).isEmpty || !(Nat.toDigits 10 n).all Char.isDigit) = false ∧
      Nat.ofDigitChars 10 (Nat.toDigits 10 n) 0 = n := by
  refine ⟨?_, Nat.ofDigitChars_ten_toDigits⟩
  rw [Bool.or_eq_false_iff, Bool.not_eq_false', List.isEmpty_eq_false_iff, List.all_eq_true]
  exact ⟨Nat.toDigits_ne_nil, fun c hc => isDigit_of_mem_toDigits hc⟩

theorem splitSign_toDigits (n : Nat) : splitSign (Nat.toDigits 10 n) = (false, Nat.toDigits 10 n) := by
  obtain ⟨d, rest, hcons⟩ := List.exists_cons_of_ne_nil (Nat.toDigits_ne_nil (n := n) (b := 10))
  have hd : d.isDigit = true := isDigit_of_mem_toDigits (hcons ▸ List.mem_cons_self)
  rw [hcons, splitSign.eq_def]
  split
  · rename_i heq
    rw [(List.cons.inj heq).1] at hd
    cases hd
  · rename_i heq
    rw [(List.cons.inj heq).1] at hd
    cases hd
  · rfl

theorem parseI64_toString {n : Int} (hlow : -2 ^ 63 ≤ n) (hhigh : n < 2 ^ 63) : parseI64 (toString n).toList = some n := by
  cases n with
  | ofNat n =>
    obtain ⟨hdigits, hvalue⟩ := parseDigits n
    rw [toList_toString_ofNat, parseI64, splitSign_toDigits]
    simp only [hdigits, hvalue, Bool.false_eq_true, if_false]
    exact if_pos (And.intro hlow hhigh)
  | negSucc n =>
    obtain ⟨hdigits, hvalue⟩ := parseDigits (n + 1)
    rw [toList_toString_negSucc, parseI64]
    simp only [splitSign, hdigits, hvalue, Bool.false_eq_true, if_false, if_true]
    exact if_pos (And.intro hlow hhigh)

theorem dot_notMem_toString (n : Int) : '.' ∉ (toString n).toList := by
  have hdot : ∀ m, '.' ∉ Nat.toDigits 10 m := fun m h => nomatch isDigit_of_mem_toDigits h
  cases n with
  | ofNat n =>
    rw [toList_toString_ofNat]
    exact hdot n
  | negSucc n =>
    rw [toList_toString_negSucc, List.mem_cons, not_or]
    exact ⟨by decide, hdot _⟩

theorem toString_inj {n m : Int} (h : toString n = toString m) : n = m := by
  have hlist := congrArg String.toList h
  have hminus : ∀ {a b : Nat}, Nat.toDigits 10 a ≠ '-' :: Nat.toDigits 10 b := fun {a b} heq => by
    have hd := isDigit_of_mem_toDigits (heq ▸ List.mem_cons_self : '-' ∈ Nat.toDigits 10 a)
    cases hd
  cases n with
  | ofNat n =>
    cases m with
    | ofNat m =>
      rw [toList_toString_ofNat, toList_toString_ofNat] at hlist
      rw [← Nat.ofDigitChars_ten_toDigits (n := n), hlist, Nat.ofDigitChars_ten_toDigits]
    | negSucc m =>
      rw [toList_toString_ofNat, toList_toString_negSucc] at hlist
      exact absurd hlist hminus
  | negSucc n =>
    cases m with
    | ofNat m =>
      rw [toList_toString_ofNat, toList_toString_negSucc] at hlist
      exact absurd hlist.symm hminus
    | negSucc m =>
      rw [toList_toString_negSucc, toList_toString_negSucc] at hlist
      have hdigits := congrArg (Nat.ofDigitChars 10 · 0) (List.cons.inj hlist).2
      simp only [Nat.ofDigitChars_ten_toDigits] at hdigits
      rw [Nat.succ.inj hdigits]

theorem toList_oauthMessage :
    (oauthMessage provider expiresAt nonce).toList =
      ['.'].intercalate [provider.toList, (toString expiresAt).toList, nonce.toList] := by
  simp [oauthMessage, List.intercalate, List.intersperse]

/-- What the code is of says for which provider, time and nonce it is. -/
theorem oauthMessage_inj {provider' nonce' : String} {expiresAt' : Int} (hprovider : '.' ∉ provider.toList)
    (hnonce : '.' ∉ nonce.toList) (h : oauthMessage provider expiresAt nonce = oauthMessage provider' expiresAt' nonce') :
    provider = provider' ∧ expiresAt = expiresAt' ∧ nonce = nonce' := by
  have hlist := congrArg String.toList h
  rw [toList_oauthMessage, toList_oauthMessage] at hlist
  have hparts := Words.parts_eq (fun t ht => ?_) (by simp) hlist
  · simp only [List.cons.injEq, and_true, String.toList_inj] at hparts
    exact ⟨hparts.1, toString_inj hparts.2.1, hparts.2.2⟩
  · simp only [List.mem_cons, List.not_mem_nil, or_false] at ht
    rcases ht with rfl | rfl | rfl
    · exact hprovider
    · exact dot_notMem_toString expiresAt
    · exact hnonce

theorem verifyOauthState_eq_ok {secret : Option (List UInt8)} :
    verifyOauthState hmac secret now state provider = .ok () ↔
      ∃ key time expiresAt nonce signature, secret = some key ∧
        state.toList = ['.'].intercalate ["oauth".toList, provider.toList, time, nonce.toList, signature] ∧
        '.' ∉ provider.toList ∧ '.' ∉ time ∧ '.' ∉ nonce.toList ∧ '.' ∉ signature ∧ parseI64 time = some expiresAt ∧
        now < expiresAt ∧ Hex.decode signature = some (hmac key (asBytes (oauthMessage provider expiresAt nonce))) := by
  constructor
  · intro h
    rw [verifyOauthState] at h
    split at h
    · rename_i tag stateProvider time nonce signature hparts
      obtain ⟨hstate, hclear⟩ := (Words.splitOn_eq_iff (List.cons_ne_nil _ _)).mp hparts
      split at h
      · cases h
      rename_i htag
      split at h
      · cases h
      rename_i expiresAt htime
      split at h
      · cases h
      rename_i hprovider
      split at h
      · cases h
      rename_i hnow
      split at h
      · cases h
      rename_i key
      split at h
      · cases h
      rename_i sig hsig
      split at h
      · rename_i hmac
        rw [not_not, ← String.toList_inj, String.toList_ofList] at htag hprovider
        subst htag hprovider
        refine ⟨key, time, expiresAt, String.ofList nonce, signature, rfl, by rw [hstate, String.toList_ofList (l := nonce)], ?_, ?_, ?_,
          ?_, htime, Int.not_le.mp hnow, ?_⟩
        · exact hclear _ (by simp)
        · exact hclear _ (by simp)
        · rw [String.toList_ofList]
          exact hclear _ (by simp)
        · exact hclear _ (by simp)
        · rw [hsig, ← hmac, String.ofList_toList]
      · cases h
    · cases h
  · rintro ⟨key, time, expiresAt, nonce, signature, rfl, hstate, hprovider, htime, hnonce, hsignature, hparse, hnow, hsig⟩
    have hparts : state.toList.splitOn '.' = ["oauth".toList, provider.toList, time, nonce.toList, signature] := by
      rw [Words.splitOn_eq_iff (List.cons_ne_nil _ _)]
      refine ⟨hstate, fun t ht => ?_⟩
      simp only [List.mem_cons, List.not_mem_nil, or_false] at ht
      rcases ht with rfl | rfl | rfl | rfl | rfl
      · decide
      · exact hprovider
      · exact htime
      · exact hnonce
      · exact hsignature
    rw [verifyOauthState, hparts]
    simp [String.ofList_toList, hparse, Int.not_le.mpr hnow, hsig]

/-- **A state is good for what it was made for, and for nothing else**: what `new_oauth_state` makes is accepted for its provider until it runs out, if the name of the provider has no dot, and for no other; and whatever is accepted carries the code of one provider, one time and one nonce, for which alone it is the code. -/
theorem states_bound (hmac : List UInt8 → List UInt8 → List UInt8) (secret : List UInt8) (provider : String) (now : Int) :
    (∀ made nonce issuer, '.' ∉ nonce.toList → -2 ^ 63 ≤ made + oauthStateTtlSecs → made + oauthStateTtlSecs < 2 ^ 63 →
      (verifyOauthState hmac (some secret) now (newOauthState hmac secret made nonce issuer) provider = .ok () ↔
        issuer = provider ∧ '.' ∉ provider.toList ∧ now < made + oauthStateTtlSecs)) ∧
    ∀ state, verifyOauthState hmac (some secret) now state provider = .ok () →
      ∃ expiresAt nonce, ∃ signature : List Char, now < expiresAt ∧ signature <:+ state.toList ∧
        Hex.decode signature = some (hmac secret (asBytes (oauthMessage provider expiresAt nonce))) ∧
        ∀ provider' expiresAt' nonce', oauthMessage provider' expiresAt' nonce' = oauthMessage provider expiresAt nonce →
          provider' = provider ∧ expiresAt' = expiresAt ∧ nonce' = nonce := by
  constructor
  · intro made nonce issuer hnonce hlow hhigh
    have hstate : (newOauthState hmac secret made nonce issuer).toList =
        ['.'].intercalate ["oauth".toList, issuer.toList, (toString (made + oauthStateTtlSecs)).toList, nonce.toList,
          (oauthStateSignature hmac secret issuer (made + oauthStateTtlSecs) nonce).toList] := by
      simp [newOauthState, List.intercalate, List.intersperse]
    have htime := dot_notMem_toString (made + oauthStateTtlSecs)
    have hsignature : '.' ∉ (oauthStateSignature hmac secret issuer (made + oauthStateTtlSecs) nonce).toList :=
      dot_notMem_hexEncode _
    have hsealed : Hex.decode (oauthStateSignature hmac secret issuer (made + oauthStateTtlSecs) nonce).toList =
        some (hmac secret (asBytes (oauthMessage issuer (made + oauthStateTtlSecs) nonce))) := decode_hexEncode _
    rw [verifyOauthState_eq_ok]
    constructor
    · rintro ⟨key, time, expiresAt, nonce', signature, -, hstate', hprovider, htime', hnonce', hsignature', hparse, hnow, -⟩
      rw [hstate] at hstate'
      -- the parts are the same ones, as no part of what is accepted has a dot
      have hparts := Words.parts_eq (fun t ht => ?_) (by simp) hstate'.symm
      · simp only [List.cons.injEq, true_and, and_true, String.toList_inj] at hparts
        obtain ⟨rfl, rfl, -, -⟩ := hparts
        rw [parseI64_toString hlow hhigh, Option.some_inj] at hparse
        rw [hparse]
        exact ⟨rfl, hprovider, hnow⟩
      · simp only [List.mem_cons, List.not_mem_nil, or_false] at ht
        rcases ht with rfl | rfl | rfl | rfl | rfl
        · decide
        · exact hprovider
        · exact htime'
        · exact hnonce'
        · exact hsignature'
    · rintro ⟨rfl, hprovider, hnow⟩
      exact ⟨secret, _, _, nonce, _, rfl, hstate, hprovider, htime, hnonce, hsignature, parseI64_toString hlow hhigh, hnow, hsealed⟩
  · intro state h
    obtain ⟨key, time, expiresAt, nonce, signature, hkey, hstate, hprovider, -, hnonce, -, -, hnow, hsig⟩ :=
      verifyOauthState_eq_ok.mp h
    obtain rfl := Option.some_inj.mp hkey
    refine ⟨expiresAt, nonce, signature, hnow, ?_, hsig, fun provider' expiresAt' nonce' heq => ?_⟩
    · rw [hstate]
      refine ⟨"oauth.".toList ++ provider.toList ++ '.' :: time ++ '.' :: nonce.toList ++ ['.'], ?_⟩
      simp [List.intercalate, List.intersperse]
    · obtain ⟨rfl, rfl, rfl⟩ := oauthMessage_inj hprovider hnonce heq.symm
      exact ⟨rfl, rfl, rfl⟩

end Oauth

end Server

end ActantDb
