import Adaad.Py.Json.Loads
import Adaad.Py.Letters

/-!
# Bearer authentication

`security/unified_auth.py`: a bearer token is an audit token, the credentials of a service account, or
a JWT that is checked with a key of the JWKS.
-/

namespace Adaad.Security

open Py

variable (P : Platform)

/-! ### The environment -/

/-- What stops an authentication. -/
inductive AuthError where
  /-- `HTTPException` -/
  | http (statusCode : Nat) (detail : Str)
  | raised (e : Exc)
  /-- A `ValueError` of `base64` that nobody catches. -/
  | binascii
  deriving DecidableEq, Repr

/-- What a request for a document gives. -/
inductive Fetched where
  | body (b : Bytes)
  /-- A `URLError` or a `TimeoutError`. -/
  | unavailable
  | failed (e : Exc)

/-- The variables of the environment, which are empty where they are not set, and what is outside of
the process. -/
structure AuthEnvironment where
  jwksJson : Str
  jwksPath : Str
  jwksUrl : Str
  jwtSecret : Str
  oidcIssuer : Str
  oidcAudience : Str
  serviceAccounts : Str
  auditTokens : Str
  /-- The content of a file; `none` is an `OSError`. -/
  file : Str → Option Bytes
  urlopen : Str → Fetched
  /-- `int(time.time())` -/
  now : Int

/-- What is needed of the conversion of numbers. -/
structure Integers where
  letters : Letters P
  /-- `int(x)` of a `float` -/
  truncate : P.Float → Except Exc Int

/-- `AuthContext` -/
structure AuthContext where
  scheme : Str
  subject : Str
  orgId : Option Str
  workspaceId : Option Str
  roles : List Str
  actions : List Str
  scopes : List Str
  tokenType : Str
  deriving DecidableEq, Repr

/-- `HTTPException(status_code=401, detail=detail)` -/
def unauthorized (detail : String) : AuthError :=
  .http 401 (str detail)

/-- `text.split(sep)` -/
def splitAt (sep : Nat) (text : Str) : List Str :=
  let r := cutAll (· == sep) text
  r.1 ++ [r.2]

/-! ### Documents -/

variable {P}

/-- `json.loads(_b64url_decode(segment))`; `none` is an error that is caught. -/
def segmentValue (segment : Str) : Option P.Obj :=
  ((b64urlDecode segment).bind P.jsonBytes).bind (loads P)

/-- `_decode_jwt`: the header, the claims and the signature. -/
def decodeJwt (token : Str) : Except AuthError (Members P.Float × Members P.Float × Str) :=
  match splitAt 46 token with
  | [headerB64, payloadB64, signatureB64] =>
    match segmentValue (P := P) headerB64, segmentValue (P := P) payloadB64 with
    | some (.dict header), some (.dict payload) => .ok (header, payload, signatureB64)
    | _, _ => .error (unauthorized "invalid_token")
  | _ => .error (unauthorized "invalid_token")

/-- `_load_json_mapping` -/
def loadJsonMapping (env : AuthEnvironment) (path : Str) : Except Exc (Option (Members P.Float)) :=
  match env.file path with
  | none => .ok none
  | some file => do
    let text ← readText file
    return (loads P text).bind Value.members?

variable (P) in
/-- The keys of the secret of the legacy tokens. -/
def legacyJwks (secret : Bytes) : Members P.Float :=
  [(.str (str "keys"), .list [.dict
    [(.str (str "kty"), .str (str "oct")),
     (.str (str "kid"), .str (str "legacy-hs256")),
     (.str (str "alg"), .str (str "HS256")),
     (.str (str "k"), .str ((urlsafeB64encode secret).rdropWhile (· == 61)))]])]

variable (P) in
/-- The last source of `_load_jwks`. -/
def loadLegacyJwks (env : AuthEnvironment) : Except Exc (Members P.Float) :=
  if strip env.jwtSecret = [] then .ok [(.str (str "keys"), .list [])]
  else
    match encode (strip env.jwtSecret) with
    | none => .error .unicodeEncodeError
    | some secret => .ok (legacyJwks P secret)

variable (P) in
/-- `_load_jwks` -/
def loadJwks (env : AuthEnvironment) : Except Exc (Members P.Float) := do
  let inlined := if strip env.jwksJson = [] then none else (loads P (strip env.jwksJson)).bind Value.members?
  match inlined with
  | some data => return data
  | none =>
    let loaded ← if strip env.jwksPath = [] then pure none else loadJsonMapping env (strip env.jwksPath)
    match loaded with
    | some data => return data
    | none =>
      if strip env.jwksUrl = [] then loadLegacyJwks P env
      else
        match env.urlopen (strip env.jwksUrl) with
        | .failed e => throw e
        | .unavailable => loadLegacyJwks P env
        | .body body =>
          match (decode body).bind fun text => (loads P text).bind Value.members? with
          | some data => return data
          | none => loadLegacyJwks P env

/-! ### Signatures -/

/-- The first entry that is a mapping with this text under a name. -/
def keyWith (name text : Str) (keys : List P.Obj) : Option (Members P.Float) :=
  (keys.filterMap Value.members?).find? fun key => strOr P (get key name) = text

/-- `_pick_jwk` -/
def pickJwk (header jwks : Members P.Float) : Except AuthError (Members P.Float) :=
  match get jwks (str "keys") with
  | some (.list keys) =>
    let kid := strOr P (get header (str "kid"))
    let alg := strOr P (get header (str "alg"))
    let byKid := if kid = [] then none else keyWith (str "kid") kid keys
    let byAlg := if alg = [] then none else keyWith (str "alg") alg keys
    match byKid.or byAlg, keys with
    | some key, _ => .ok key
    | none, [.dict key] => .ok key
    | none, _ => .error (unauthorized "invalid_token")
  | _ => .error (unauthorized "invalid_token")

/-- `_b64url_decode(str(jwk.get("k") or ""))` -/
def secretOf (jwk : Members P.Float) : Option Bytes :=
  b64urlDecode (strOr P (get jwk (str "k")))

/-- `token.rsplit(".", 1)[0]` -/
def signedPart (token : Str) : Str :=
  (str ".").intercalate (splitAt 46 token).dropLast

/-- `_verify_signature` -/
def verifySignature (header : Members P.Float) (token signatureB64 : Str) (jwk : Members P.Float) :
    Except AuthError Unit :=
  let alg := strOr P (get header (str "alg"))
  if alg = str "none" then .error (unauthorized "invalid_token")
  else
    match encode (signedPart token) with
    | none => .error (.raised .unicodeEncodeError)
    | some signedContent =>
      match b64urlDecode signatureB64 with
      | none => .error (unauthorized "invalid_token")
      | some signature =>
        if alg = str "HS256" then
          match secretOf jwk with
          | none => .error .binascii
          | some secret =>
            if unhex (hmacSha256 P secret signedContent) ≠ signature then
              .error (unauthorized "invalid_token")
            else .ok ()
        else .error (unauthorized "unsupported_token_algorithm")

/-! ### Claims -/

/-- `value or default` of the texts of a list. -/
def textsOf (v : Option P.Obj) : List Str :=
  match v with
  | some (.list items) => items.map (toStr P)
  | _ => []

/-- `_ROLE_ACTIONS` -/
def roleActions (role : Str) : List Str :=
  if role = str "read" then [str "read"]
  else if role = str "write" then [str "read", str "write"]
  else if role = str "approve" then [str "read", str "write", str "approve"]
  else if role = str "merge" ∨ role = str "admin" then
    [str "read", str "write", str "approve", str "merge"]
  else []

/-- `tuple(sorted(set(texts)))` -/
def sortedSet (texts : List Str) : List Str :=
  texts.dedup.insertionSort fun s t => strLe s t = true

/-- `_normalized_claim_set`: the scopes, the roles and the actions. -/
def normalizedClaimSet (claims : Members P.Float) : List Str × List Str × List Str :=
  let scopes := (splitAt 32 (strip (strOr P (get claims (str "scope"))))).filter (· ≠ []) ++
    textsOf (get claims (str "scopes"))
  let roles := textsOf (get claims (str "roles"))
  let actions := textsOf (get claims (str "actions")) ++ roles.flatMap roleActions ++
    (if str "audit:read" ∈ scopes then [str "read"] else []) ++
    (if str "audit:write" ∈ scopes then [str "write"] else [])
  (sortedSet scopes, sortedSet roles, sortedSet actions)

/-- `int(claims.get(name, 0) or 0)` -/
def intClaim (I : Integers P) (claims : Members P.Float) (name : Str) : Except Exc Int :=
  let v := (get claims name).getD (.int 0)
  if truthy P v then
    match v with
    | .bool b => .ok (if b then 1 else 0)
    | .int i => .ok i
    | .float x => I.truncate x
    | .str s =>
      match intOf I.letters s with
      | some i => .ok i
      | none => .error (.valueError (str "invalid literal for int()"))
    | _ => .error .typeError
  else .ok 0

def configuredAudiences (env : AuthEnvironment) : List Str :=
  ((splitAt 44 env.oidcAudience).map strip).filter (· ≠ [])

def tokenAudiences (claims : Members P.Float) : List Str :=
  match get claims (str "aud") with
  | some (.str aud) => [aud]
  | some (.list auds) => auds.map (toStr P)
  | _ => []

/-- `_validate_standard_claims` -/
def validateStandardClaims (I : Integers P) (env : AuthEnvironment) (claims : Members P.Float) :
    Except AuthError Unit := do
  let exp ← (intClaim I claims (str "exp")).mapError .raised
  if exp ≤ 0 ∨ exp < env.now then throw (unauthorized "expired_token")
  let notBefore ← (intClaim I claims (str "nbf")).mapError .raised
  if notBefore ≠ 0 ∧ notBefore > env.now then throw (unauthorized "invalid_token")
  if strip env.oidcIssuer ≠ [] ∧ strOr P (get claims (str "iss")) ≠ strip env.oidcIssuer then
    throw (unauthorized "invalid_issuer")
  if configuredAudiences env ≠ [] ∧ ∀ aud ∈ tokenAudiences claims, aud ∉ configuredAudiences env then
    throw (unauthorized "invalid_audience")

/-! ### Tokens -/

/-- `hmac.compare_digest` of texts. -/
def compareDigest (a b : Str) : Except Exc Bool :=
  if (∀ c ∈ a, c < 128) ∧ ∀ c ∈ b, c < 128 then .ok (a = b) else .error .typeError

/-- `str(value or "") or None` -/
def textClaim (claims : Members P.Float) (name : Str) : Option Str :=
  let text := strOr P (get claims name)
  if text = [] then none else some text

variable (P) in
/-- `_extract_service_accounts` -/
def extractServiceAccounts (env : AuthEnvironment) : Members P.Float :=
  if strip env.serviceAccounts = [] then []
  else
    match loads P (strip env.serviceAccounts) with
    | some (.dict decoded) => decoded.filter fun m => m.2.members?.isSome
    | _ => []

/-- Whether the secret of a record is this one. -/
def secretAccepted (record : Members P.Float) (secret : Str) : Except Exc Bool :=
  let configuredSecret := strOr P (get record (str "secret"))
  if configuredSecret = [] then .ok false else compareDigest secret configuredSecret

/-- `_authenticate_service_account`, of a token with one dot. -/
def authenticateServiceAccount (I : Integers P) (env : AuthEnvironment) (credentialId secret : Str) :
    Except AuthError AuthContext :=
  match get (extractServiceAccounts P env) credentialId with
  | some (.dict record) => do
    let accepted ← (secretAccepted record secret).mapError .raised
    if !accepted then throw (unauthorized "invalid_token")
    let expiresAt ← (intClaim I record (str "expires_at")).mapError .raised
    if expiresAt ≠ 0 ∧ expiresAt < env.now then throw (unauthorized "expired_token")
    let (scopes, roles, actions) := normalizedClaimSet record
    return {
      scheme := str "bearer"
      subject := (textClaim record (str "sub")).getD (str "service-account:" ++ credentialId)
      orgId := textClaim record (str "org_id")
      workspaceId := textClaim record (str "workspace_id")
      roles := roles
      actions := actions
      scopes := scopes
      tokenType := str "service_account" }
  | _ => .error (unauthorized "invalid_token")

/-- The scopes of the first configured token that is this one. -/
def matchedScopes (token : Str) : Members P.Float → Except Exc (Option (List Str))
  | [] => .ok none
  | (.str configured, scopes) :: rest => do
    let same ← compareDigest token configured
    match same, scopes with
    | true, .list items => return some (items.map (toStr P))
    | _, _ => matchedScopes token rest
  | _ :: rest => matchedScopes token rest

variable (P) in
/-- `_authenticate_legacy_audit_token` -/
def authenticateLegacyAuditToken (env : AuthEnvironment) (token : Str) :
    Except Exc (Option AuthContext) :=
  if strip env.auditTokens = [] then .ok none
  else
    match loads P (strip env.auditTokens) with
    | some (.dict decoded) => do
      match ← matchedScopes token decoded with
      | none => return none
      | some matched =>
        let (scopes, roles, actions) := normalizedClaimSet (P := P)
          [(.str (str "scope"), .str ((str " ").intercalate matched)),
           (.str (str "sub"), .str (str "audit-token"))]
        return some {
          scheme := str "bearer"
          subject := str "audit-token"
          orgId := none
          workspaceId := none
          roles := roles
          actions := actions
          scopes := scopes
          tokenType := str "legacy_token" }
    | _ => .ok none

variable (P) in
def bearerToken (authorization : Option Str) : Except AuthError Str :=
  let text := authorization.getD []
  let scheme := text.takeWhile (· ≠ 32)
  let token := (text.dropWhile (· ≠ 32)).drop 1
  if P.lower scheme ≠ str "bearer" ∨ token = [] then .error (unauthorized "missing_authentication")
  else .ok token

/-- What an OIDC token authenticates, once its claims are valid. -/
def oidcContext (env : AuthEnvironment) (claims : Members P.Float) : AuthContext :=
  let (scopes, roles, actions) := normalizedClaimSet claims
  { scheme := str "bearer"
    subject := (textClaim claims (str "sub")).getD (str "unknown")
    orgId := textClaim claims (str "org_id")
    workspaceId := textClaim claims (str "workspace_id")
    roles := roles
    actions := if strip env.jwtSecret ≠ [] ∧ scopes = [] ∧ roles = [] ∧ actions = [] then
        roleActions (str "merge")
      else actions
    scopes := scopes
    tokenType := str "oidc" }

def authenticateJwt (I : Integers P) (env : AuthEnvironment) (token : Str) :
    Except AuthError AuthContext := do
  let (header, claims, signatureB64) ← decodeJwt (P := P) token
  let jwks ← (loadJwks P env).mapError .raised
  let jwk ← pickJwk header jwks
  verifySignature header token signatureB64 jwk
  validateStandardClaims I env claims
  return oidcContext env claims

/-- `authenticate_bearer` -/
def authenticateBearer (I : Integers P) (env : AuthEnvironment) (authorization : Option Str) :
    Except AuthError AuthContext := do
  let token ← bearerToken P authorization
  match ← (authenticateLegacyAuditToken P env token).mapError .raised with
  | some legacy => return legacy
  | none =>
    match splitAt 46 token with
    | [credentialId, secret] => authenticateServiceAccount I env credentialId secret
    | _ => authenticateJwt I env token

end Adaad.Security
