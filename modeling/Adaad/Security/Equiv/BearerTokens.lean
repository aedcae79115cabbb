import Adaad.Security.UnifiedAuth

/-!
# The tokens that authenticate

A bearer token authenticates as OIDC exactly where it is presented with claims that are valid and a
signature under the key that its header selects (`oidc_iff`).  The entry that is selected need not be a
symmetric key, and an entry without one is read as the empty key (`authentic_iff`).
-/

namespace Adaad.Security

open Py

variable {P : Platform}

/-! ### Keys -/

def ForHs256 (jwk : Members P.Float) : Prop :=
  get jwk (str "kty") = some (.str (str "oct")) ∧
    (get jwk (str "alg") = none ∨ get jwk (str "alg") = some .none ∨
      get jwk (str "alg") = some (.str (str "HS256")))

/-- The entry is a symmetric key for HS256, and not an empty one. -/
def Usable (jwk : Members P.Float) : Prop :=
  ForHs256 jwk ∧ ∃ secret, secretOf jwk = some secret ∧ secret ≠ []

def keyEntries (jwks : Members P.Float) : List (Members P.Float) :=
  match get jwks (str "keys") with
  | some (.list keys) => keys.filterMap Value.members?
  | _ => []

/-- The signature of the token is that of its first two segments under the key of the entry. -/
def SignedUnder (jwk : Members P.Float) (token : Str) : Prop :=
  ∃ header payload signature content secret, splitAt 46 token = [header, payload, signature] ∧
    encode (header ++ (str "." ++ payload)) = some content ∧ secretOf jwk = some secret ∧
      b64urlDecode signature = some (unhex (hmacSha256 P secret content))

theorem mem_of_keyWith {name text : Str} {keys : List P.Obj} {jwk : Members P.Float}
    (h : keyWith name text keys = some jwk) : jwk ∈ keys.filterMap Value.members? :=
  List.mem_of_find?_eq_some h

theorem mem_keyEntries_of_pickJwk {header jwks jwk : Members P.Float}
    (h : pickJwk header jwks = .ok jwk) : jwk ∈ keyEntries jwks := by
  unfold pickJwk at h
  split at h
  · next keys hkeys =>
    have hentries : keyEntries jwks = keys.filterMap Value.members? := by
      unfold keyEntries
      rw [hkeys]
    rw [hentries]
    dsimp only at h
    split at h
    · next key hpicked =>
      obtain rfl := Except.ok.inj h
      rcases Option.or_eq_some_iff.mp hpicked with hkid | ⟨-, halg⟩
      · split_ifs at hkid
        exact mem_of_keyWith hkid
      · split_ifs at halg
        exact mem_of_keyWith halg
    · next key _ =>
      obtain rfl := Except.ok.inj h
      exact List.mem_singleton_self _
    · cases h
  · cases h

/-! ### Signatures -/

theorem decodeJwt_eq_ok {token signatureB64 : Str} {header claims : Members P.Float}
    (h : decodeJwt token = .ok (header, claims, signatureB64)) :
    ∃ headerB64 payloadB64, splitAt 46 token = [headerB64, payloadB64, signatureB64] ∧
      segmentValue headerB64 = some (Value.dict header : P.Obj) ∧
        segmentValue payloadB64 = some (Value.dict claims : P.Obj) := by
  unfold decodeJwt at h
  split at h
  · next headerB64 payloadB64 signature hsplit =>
    split at h
    · next header' claims' hheader hpayload =>
      obtain ⟨rfl, hrest⟩ := Prod.mk.inj (Except.ok.inj h)
      obtain ⟨rfl, rfl⟩ := Prod.mk.inj hrest
      exact ⟨headerB64, payloadB64, hsplit, hheader, hpayload⟩
    · cases h
  · cases h

theorem verifySignature_eq_ok_iff {token headerB64 payloadB64 signatureB64 : Str}
    {header jwk : Members P.Float} (hsplit : splitAt 46 token = [headerB64, payloadB64, signatureB64]) :
    verifySignature header token signatureB64 jwk = .ok () ↔
      strOr P (get header (str "alg")) = str "HS256" ∧ SignedUnder jwk token := by
  have hpart : signedPart token = headerB64 ++ (str "." ++ payloadB64) := by
    unfold signedPart
    rw [hsplit]
    show (str ".").intercalate [headerB64, payloadB64] = _
    rw [List.intercalate_cons_cons, List.intercalate_singleton, List.append_assoc]
  unfold verifySignature SignedUnder
  rw [hpart, hsplit]
  dsimp only
  by_cases halg : strOr P (get header (str "alg")) = str "HS256"
  · rw [halg, and_iff_right rfl, if_neg (by decide)]
    constructor
    · intro h
      cases hcontent : encode (headerB64 ++ (str "." ++ payloadB64)) with
      | none =>
        rw [hcontent] at h
        cases h
      | some content =>
        cases hsignature : b64urlDecode signatureB64 with
        | none =>
          rw [hcontent, hsignature] at h
          cases h
        | some signature =>
          rw [hcontent, hsignature] at h
          dsimp only at h
          rw [if_pos rfl] at h
          cases hsecret : secretOf jwk with
          | none =>
            rw [hsecret] at h
            cases h
          | some secret =>
            rw [hsecret] at h
            dsimp only at h
            by_cases hsame : unhex (hmacSha256 P secret content) = signature
            · exact ⟨_, _, _, content, secret, rfl, hcontent, rfl, hsignature.trans (congrArg some hsame.symm)⟩
            · rw [if_pos hsame] at h
              cases h
    · rintro ⟨headerB64', payloadB64', signatureB64', content, secret, hsegments, hcontent, hsecret,
        hsignature⟩
      cases hsegments
      rw [hcontent]
      dsimp only
      rw [hsignature]
      dsimp only
      rw [if_pos rfl, hsecret]
      dsimp only
      rw [if_neg (not_not_intro rfl)]
  · refine iff_of_false (fun h => ?_) fun h => halg h.1
    by_cases hnone : strOr P (get header (str "alg")) = str "none"
    · rw [if_pos hnone] at h
      cases h
    · rw [if_neg hnone] at h
      cases hcontent : encode (headerB64 ++ (str "." ++ payloadB64)) with
      | none =>
        rw [hcontent] at h
        cases h
      | some content =>
        cases hsignature : b64urlDecode signatureB64 with
        | none =>
          rw [hcontent, hsignature] at h
          cases h
        | some signature =>
          rw [hcontent, hsignature] at h
          dsimp only at h
          rw [if_neg halg] at h
          cases h

/-! ### Claims -/

theorem times_of_validateStandardClaims {I : Integers P} {env : AuthEnvironment}
    {claims : Members P.Float} (h : validateStandardClaims I env claims = .ok ()) :
    (∃ exp, intClaim I claims (str "exp") = .ok exp ∧ env.now ≤ exp) ∧
      ∃ notBefore, intClaim I claims (str "nbf") = .ok notBefore ∧
        (notBefore = 0 ∨ notBefore ≤ env.now) := by
  unfold validateStandardClaims at h
  obtain ⟨exp, hexp, h⟩ := bind_eq_ok.mp h
  by_cases hexpired : exp ≤ 0 ∨ exp < env.now
  · rw [if_pos hexpired] at h
    cases h
  · rw [if_neg hexpired] at h
    obtain ⟨notBefore, hnbf, h⟩ := bind_eq_ok.mp h
    by_cases hearly : notBefore ≠ 0 ∧ notBefore > env.now
    · rw [if_pos hearly] at h
      cases h
    · refine ⟨⟨exp, mapError_eq_ok.mp hexp, by omega⟩, notBefore, mapError_eq_ok.mp hnbf, ?_⟩
      omega

/-! ### Tokens -/

/-- A JWT that is presented, whose header says HS256, with a signature under the key that its header
selects and with claims that are valid. -/
structure Presented (I : Integers P) (env : AuthEnvironment) (authorization : Option Str) (token : Str)
    (claims jwks jwk : Members P.Float) : Prop where
  bearer : bearerToken P authorization = .ok token
  audit : authenticateLegacyAuditToken P env token = .ok none
  selected : ∃ header signatureB64, decodeJwt token = .ok (header, claims, signatureB64) ∧
    pickJwk header jwks = .ok jwk ∧ strOr P (get header (str "alg")) = str "HS256"
  jwks : loadJwks P env = .ok jwks
  signed : SignedUnder jwk token
  valid : validateStandardClaims I env claims = .ok ()

variable {I : Integers P} {env : AuthEnvironment} {authorization : Option Str}

theorem tokenType_serviceAccount {credentialId secret : Str} {ctx : AuthContext}
    (h : authenticateServiceAccount I env credentialId secret = .ok ctx) :
    ctx.tokenType = str "service_account" := by
  unfold authenticateServiceAccount at h
  split at h
  · obtain ⟨accepted, -, h⟩ := bind_eq_ok.mp h
    by_cases hrefused : (!accepted) = true
    · rw [if_pos hrefused] at h
      cases h
    · rw [if_neg hrefused] at h
      obtain ⟨expiresAt, -, h⟩ := bind_eq_ok.mp h
      by_cases hexpired : expiresAt ≠ 0 ∧ expiresAt < env.now
      · rw [if_pos hexpired] at h
        cases h
      · rw [if_neg hexpired] at h
        obtain rfl := Except.ok.inj h
        rfl
  · cases h

theorem tokenType_auditToken {token : Str} {ctx : AuthContext}
    (h : authenticateLegacyAuditToken P env token = .ok (some ctx)) :
    ctx.tokenType = str "legacy_token" := by
  unfold authenticateLegacyAuditToken at h
  by_cases hblank : strip env.auditTokens = []
  · rw [if_pos hblank] at h
    cases h
  · rw [if_neg hblank] at h
    split at h
    · obtain ⟨matched, -, h⟩ := bind_eq_ok.mp h
      cases matched with
      | none => cases h
      | some matched =>
        obtain rfl := Option.some.inj (Except.ok.inj h)
        rfl
    · cases h

theorem authenticateJwt_eq_ok_iff {token : Str} {ctx : AuthContext} :
    authenticateJwt I env token = .ok ctx ↔
      ∃ header claims signatureB64 jwks jwk, decodeJwt token = .ok (header, claims, signatureB64) ∧
        loadJwks P env = .ok jwks ∧ pickJwk header jwks = .ok jwk ∧
          strOr P (get header (str "alg")) = str "HS256" ∧ SignedUnder jwk token ∧
            validateStandardClaims I env claims = .ok () ∧ ctx = oidcContext env claims := by
  unfold authenticateJwt
  constructor
  · intro h
    obtain ⟨⟨header, claims, signatureB64⟩, hdecode, h⟩ := bind_eq_ok.mp h
    obtain ⟨jwks, hjwks, h⟩ := bind_eq_ok.mp h
    obtain ⟨jwk, hpick, h⟩ := bind_eq_ok.mp h
    obtain ⟨_, hverify, h⟩ := bind_eq_ok.mp h
    obtain ⟨_, hvalid, h⟩ := bind_eq_ok.mp h
    obtain ⟨headerB64, payloadB64, hsplit, -, -⟩ := decodeJwt_eq_ok hdecode
    obtain ⟨halg, hsigned⟩ := (verifySignature_eq_ok_iff hsplit).mp hverify
    exact ⟨header, claims, signatureB64, jwks, jwk, hdecode, mapError_eq_ok.mp hjwks, hpick, halg,
      hsigned, hvalid, (Except.ok.inj h).symm⟩
  · rintro ⟨header, claims, signatureB64, jwks, jwk, hdecode, hjwks, hpick, halg, hsigned, hvalid, rfl⟩
    obtain ⟨headerB64, payloadB64, hsplit, -, -⟩ := decodeJwt_eq_ok hdecode
    exact bind_eq_ok.mpr ⟨_, hdecode, bind_eq_ok.mpr ⟨jwks, mapError_eq_ok.mpr hjwks,
      bind_eq_ok.mpr ⟨jwk, hpick, bind_eq_ok.mpr ⟨(),
        (verifySignature_eq_ok_iff hsplit).mpr ⟨halg, hsigned⟩, bind_eq_ok.mpr ⟨(), hvalid, rfl⟩⟩⟩⟩⟩

theorem oidc_iff {ctx : AuthContext} :
    authenticateBearer I env authorization = .ok ctx ∧ ctx.tokenType = str "oidc" ↔
      ∃ token claims jwks jwk, Presented I env authorization token claims jwks jwk ∧
        ctx = oidcContext env claims := by
  unfold authenticateBearer
  constructor
  · rintro ⟨h, htype⟩
    obtain ⟨token, hbearer, h⟩ := bind_eq_ok.mp h
    obtain ⟨legacy, haudit, h⟩ := bind_eq_ok.mp h
    cases legacy with
    | some legacy =>
      obtain rfl := Except.ok.inj h
      rw [tokenType_auditToken (mapError_eq_ok.mp haudit)] at htype
      cases htype
    | none =>
      dsimp only at h
      split at h
      · rw [tokenType_serviceAccount h] at htype
        cases htype
      · obtain ⟨header, claims, signatureB64, jwks, jwk, hdecode, hjwks, hpick, halg, hsigned, hvalid, rfl⟩ :=
          authenticateJwt_eq_ok_iff.mp h
        exact ⟨token, claims, jwks, jwk, ⟨hbearer, mapError_eq_ok.mp haudit,
          ⟨header, signatureB64, hdecode, hpick, halg⟩, hjwks, hsigned, hvalid⟩, rfl⟩
  · rintro ⟨token, claims, jwks, jwk, h, rfl⟩
    obtain ⟨header, signatureB64, hdecode, hpick, halg⟩ := h.selected
    obtain ⟨headerB64, payloadB64, hsplit, -, -⟩ := decodeJwt_eq_ok hdecode
    refine ⟨bind_eq_ok.mpr ⟨token, h.bearer, bind_eq_ok.mpr ⟨none, mapError_eq_ok.mpr h.audit, ?_⟩⟩, rfl⟩
    dsimp only
    rw [hsplit]
    exact authenticateJwt_eq_ok_iff.mpr ⟨header, claims, signatureB64, jwks, jwk, hdecode, h.jwks, hpick,
      halg, h.signed, h.valid, rfl⟩

variable (I env authorization) in
/-- What authenticates as OIDC has a signature under a key of the JWKS that is one for HS256 and not
empty, and it has not expired and is not early. -/
def Authentic : Prop :=
  ∀ ctx, authenticateBearer I env authorization = .ok ctx → ctx.tokenType = str "oidc" →
    ∃ token header claims signatureB64 jwks jwk, bearerToken P authorization = .ok token ∧
      decodeJwt token = .ok (header, claims, signatureB64) ∧ loadJwks P env = .ok jwks ∧
        (jwk ∈ keyEntries jwks ∧ Usable jwk ∧ SignedUnder jwk token) ∧
          (∃ exp, intClaim I claims (str "exp") = .ok exp ∧ env.now ≤ exp) ∧
            ∃ notBefore, intClaim I claims (str "nbf") = .ok notBefore ∧
              (notBefore = 0 ∨ notBefore ≤ env.now)

/-- A bearer token is authentic exactly where, if it is a JWT with a signature under the entry that its
header selects and with valid claims, this entry is a usable key, or another entry is under which the
signature is the same. -/
theorem authentic_iff (I : Integers P) (env : AuthEnvironment) (authorization : Option Str) :
    Authentic I env authorization ↔
      ∀ token claims jwks jwk, Presented I env authorization token claims jwks jwk →
        Usable jwk ∨ ∃ other ∈ keyEntries jwks, Usable other ∧ SignedUnder other token := by
  constructor
  · intro h token claims jwks jwk hpresented
    obtain ⟨hok, htype⟩ := oidc_iff.mpr ⟨token, claims, jwks, jwk, hpresented, rfl⟩
    obtain ⟨token', header, claims', signatureB64, jwks', other, hbearer, -, hjwks, ⟨hmem, husable, hsigned⟩,
      -, -⟩ := h _ hok htype
    obtain rfl := Except.ok.inj (hpresented.bearer.symm.trans hbearer)
    obtain rfl := Except.ok.inj (hpresented.jwks.symm.trans hjwks)
    exact .inr ⟨other, hmem, husable, hsigned⟩
  · intro h ctx hok htype
    obtain ⟨token, claims, jwks, jwk, hpresented, -⟩ := oidc_iff.mp ⟨hok, htype⟩
    obtain ⟨header, signatureB64, hdecode, hpick, -⟩ := hpresented.selected
    obtain ⟨hexp, hnbf⟩ := times_of_validateStandardClaims hpresented.valid
    refine ⟨token, header, claims, signatureB64, jwks, ?_⟩
    rcases h token claims jwks jwk hpresented with husable | ⟨other, hmem, husable, hsigned⟩
    · exact ⟨jwk, hpresented.bearer, hdecode, hpresented.jwks,
        ⟨mem_keyEntries_of_pickJwk hpick, husable, hpresented.signed⟩, hexp, hnbf⟩
    · exact ⟨other, hpresented.bearer, hdecode, hpresented.jwks, ⟨hmem, husable, hsigned⟩, hexp, hnbf⟩

/-! ### An RSA key -/

/-- No `float` is converted. -/
def referenceIntegers : Integers reference where
  letters := referenceLetters
  truncate _ := .error .typeError

def rsaEnvironment : AuthEnvironment where
  jwksJson := str "\x7b\"keys\":[\x7b\"kty\":\"RSA\",\"kid\":\"r\",\"n\":\"AQ\",\"e\":\"AQAB\"\x7d]\x7d"
  jwksPath := []
  jwksUrl := []
  jwtSecret := []
  oidcIssuer := []
  oidcAudience := []
  serviceAccounts := []
  auditTokens := []
  file _ := none
  urlopen _ := .unavailable
  now := 1

/-- A token with HS256 and `exp` 2, signed with the empty key. -/
def emptyKeyToken : Str :=
  str "Bearer eyJhbGciOiJIUzI1NiJ9.eyJleHAiOjJ9.VapArxnR4r4JK-h5r_NXNHSL1VFREFTN0672KA21_-s"

theorem not_authentic : ¬ Authentic referenceIntegers rsaEnvironment (some emptyKeyToken) := by
  intro h
  have hfacts : (authenticateBearer referenceIntegers rsaEnvironment (some emptyKeyToken)).map
        AuthContext.tokenType = .ok (str "oidc") ∧
      (loadJwks reference rsaEnvironment).map (fun jwks =>
        (keyEntries jwks).map fun jwk => strOr reference (get jwk (str "kty"))) = .ok [str "RSA"] := by
    decide +kernel
  obtain ⟨ctx, hok, htype⟩ := map_eq_ok.mp hfacts.1
  obtain ⟨jwks, hjwks, hkinds⟩ := map_eq_ok.mp hfacts.2
  obtain ⟨-, -, -, -, jwks', jwk, -, -, hjwks', ⟨hmem, ⟨⟨hkty, -⟩, -⟩, -⟩, -⟩ := h ctx hok htype
  obtain rfl := Except.ok.inj (hjwks.symm.trans hjwks')
  have hkind := List.mem_map_of_mem (f := fun jwk => strOr reference (get jwk (str "kty"))) hmem
  rw [hkinds, hkty, strOr_str] at hkind
  exact absurd hkind (by decide)

end Adaad.Security
