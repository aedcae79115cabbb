import Adaad.Py.Letters
import Mathlib.Data.Rat.Floor

/-!
# The gatekeeper of signatures

`security/cryovant_legacy.py` and `security/token_parsing/governance.py`: which secret signs, what a
signature of a payload and of an agent may be, and the tokens of a governance session.
-/

namespace Adaad.Cryovant

open Py

/-! ### The host -/

structure KeyFile where
  name : Str
  isFile : Bool
  content : Bytes

/-- What the gatekeeper reads of the host. -/
structure Host where
  /-- `os.environ` -/
  environ : Str → Option Str
  /-- What is in `KEYS_DIR`. -/
  keysDir : List KeyFile

inductive CryovantError where
  | unknownEnv (mode : Str)
  | missingSigningKey (env specificEnv genericEnvVar : Str)
  | unicodeEncodeError
  | typeError
  | valueError (text : Str)
  | tokenExpired (keyId : Str) (expiresAt : Int)
  deriving DecidableEq, Repr

/-- Where the secret of a kind of signature is found. -/
structure KeyNames where
  specificEnvPrefix : Str
  genericEnvVar : Str
  fallbackNamespace : Str

def signingKeyNames : KeyNames where
  specificEnvPrefix := str "ADAAD_SIGNING_KEY_"
  genericEnvVar := str "ADAAD_SIGNING_KEY"
  fallbackNamespace := str "adaad-signing-dev-secret"

def sessionKeyNames : KeyNames where
  specificEnvPrefix := str "ADAAD_GOVERNANCE_SESSION_KEY_"
  genericEnvVar := str "ADAAD_GOVERNANCE_SESSION_SIGNING_KEY"
  fallbackNamespace := str "adaad-governance-session-dev-secret"

def hmacSignaturePrefix : Str := str "sha256:"

/-- `_STRICT_ENVS` -/
def strictEnvs : List Str := [str "staging", str "production", str "prod"]

/-- `_KNOWN_ENVS` -/
def knownEnvs : List Str := [str "dev", str "test", str "staging", str "production", str "prod"]

/-- `_STRICT_GOVERNANCE_MODES` -/
def strictGovernanceModes : List Str := [str "strict", str "audit"]

def truthyTexts : List Str := [str "1", str "true", str "yes", str "on"]

/-- `os.environ.get(name, "")` -/
def Host.env (h : Host) (name : Str) : Str :=
  (h.environ name).getD []

variable (P : Platform) (h : Host)

/-! ### Environments -/

def devMode : Bool :=
  P.lower ((h.environ (str "CRYOVANT_DEV_MODE")).getD (str "0")) ∈ truthyTexts

/-- `_is_truthy_env` -/
def isTruthyEnv (value : Str) : Bool :=
  P.lower (strip value) ∈ truthyTexts

def modeOf (name : Str) : Str :=
  P.lower (strip (h.env name))

/-- `_governance_strict_context` -/
def governanceStrictContext : Bool :=
  modeOf P h (str "ADAAD_ENV") ∈ strictEnvs ||
    modeOf P h (str "ADAAD_REPLAY_MODE") ∈ strictGovernanceModes ||
    modeOf P h (str "ADAAD_RECOVERY_TIER") ∈ strictGovernanceModes ||
    isTruthyEnv P (h.env (str "ADAAD_GOVERNANCE_STRICT"))

/-- `_legacy_feature_enabled` -/
def legacyFeatureEnabled (flag : Str) : Bool :=
  match h.environ flag with
  | none => !governanceStrictContext P h
  | some configured => isTruthyEnv P configured

def envMode : Except CryovantError Str :=
  let mode := modeOf P h (str "ADAAD_ENV")
  if mode = [] then .ok (str "prod")
  else if mode ∈ knownEnvs then .ok mode
  else .error (.unknownEnv mode)

/-- `env_mode() == "dev" and dev_mode()` -/
def explicitDev : Except CryovantError Bool := do
  let mode ← envMode P h
  return mode = str "dev" && devMode P h

/-! ### Secrets -/

/-- The name of a variable has bytes; lone surrogates that stand for bytes are turned back into
them. -/
def isEnvName (name : Str) : Bool :=
  name.all fun c => !isSurrogate c || (0xDC80 ≤ c && c ≤ 0xDCFF)

variable {P} (u : Letters P)

def specificEnv (names : KeyNames) (keyId : Str) : Str :=
  names.specificEnvPrefix ++ (u.upper keyId).map fun c => if c = 45 then 95 else c

def configuredSecret (names : KeyNames) (keyId : Str) : Option Str :=
  let specific := strip (h.env (specificEnv u names keyId))
  if specific ≠ [] then some specific
  else
    let generic := strip (h.env names.genericEnvVar)
    if generic ≠ [] then some generic else none

/-- `_resolve_hmac_secret` -/
def resolveHmacSecret (names : KeyNames) (keyId : Str) : Except CryovantError Str :=
  if isEnvName (specificEnv u names keyId) then
    match configuredSecret h u names keyId with
    | some secret => .ok secret
    | none =>
      let env := modeOf P h (str "ADAAD_ENV")
      if env ∈ strictEnvs then
        .error (.missingSigningKey env (specificEnv u names keyId) names.genericEnvVar)
      else .ok (names.fallbackNamespace ++ 58 :: keyId)
  else .error .unicodeEncodeError

/-! ### Keyed digests -/

variable (P) in
/-- `"sha256:" + hashlib.sha256(f"{secret}:{signed_digest}".encode("utf-8")).hexdigest()` -/
def keyedDigest (secret signedDigest : Str) : Except CryovantError Str :=
  match encode (secret ++ 58 :: signedDigest) with
  | none => .error .unicodeEncodeError
  | some b => .ok (hmacSignaturePrefix ++ P.sha256 b)

/-- `sign_hmac_digest` with the secret of the environment. -/
def signHmacDigest (names : KeyNames) (keyId signedDigest : Str) : Except CryovantError Str := do
  let secret ← resolveHmacSecret h u names keyId
  keyedDigest P secret signedDigest

variable (P) in
/-- `_canonical_signature` -/
def canonicalSignature (signature : Str) : Str :=
  let candidate := strip signature
  if candidate = [] then []
  else if hmacSignaturePrefix <+: candidate then
    hmacSignaturePrefix ++ P.lower (candidate.drop hmacSignaturePrefix.length)
  else hmacSignaturePrefix ++ P.lower candidate

/-- `hmac.compare_digest` on texts. -/
def compareDigest (a b : Str) : Except CryovantError Bool :=
  if (a ++ b).all (· < 128) then .ok (a = b) else .error .typeError

def verifyHmacDigestSignature (names : KeyNames) (keyId signedDigest signature : Str) :
    Except CryovantError Bool := do
  let expected ← signHmacDigest h u names keyId signedDigest
  compareDigest (canonicalSignature P signature) expected

/-! ### The directory of keys -/

variable (P) in
/-- `_parse_sha256_signature` -/
def parseSha256Signature (signature : Str) : Str :=
  let normalized := P.lower (strip signature)
  if hmacSignaturePrefix <+: normalized then
    let digest := normalized.drop hmacSignaturePrefix.length
    if digest.length ≠ 64 ∨ digest.any (fun c => !isHexDigit c) then [] else normalized
  else []

/-- `Path(name).suffix` -/
def suffixOf (name : Str) : Str :=
  let extension := name.rtakeWhile (· ≠ 46)
  if 2 ≤ (name.rdropWhile (· ≠ 46)).length ∧ extension ≠ [] then 46 :: extension else []

variable (P) in
/-- `_active_key_paths`, in the order of the directory: any of the keys will do. -/
def activeKeys : List KeyFile :=
  h.keysDir.filter fun f =>
    f.isFile && P.lower (suffixOf f.name) ∈ [str ".key", str ".pem", str ".txt"]

/-- `bytes.strip` -/
def stripBytes (b : Bytes) : Bytes :=
  (b.dropWhile fun c => isAsciiSpace c.toNat).rdropWhile fun c => isAsciiSpace c.toNat

variable (P) in
/-- `verify_signature` -/
def verifySignature (signature : Str) : Bool :=
  let normalized := parseSha256Signature P signature
  normalized ≠ [] && (activeKeys P h).any fun f =>
    let keyMaterial := stripBytes f.content
    keyMaterial ≠ [] &&
      normalized = hmacSignaturePrefix ++ hmacSha256 P keyMaterial ((encode (str "cryovant")).getD [])

/-! ### Payloads -/

def staticPrefix : Str := str "cryovant-static-"

def legacyStaticFlag : Str := str "ADAAD_ENABLE_LEGACY_STATIC_SIGNATURES"

variable (P) in
/-- The digest that is signed for a payload: the payload itself where it reads as a digest. -/
def signedDigestOf (payload : Bytes) : Str :=
  let payloadText := decodeIgnore payload
  if hmacSignaturePrefix <+: payloadText ∧ payloadText.length = hmacSignaturePrefix.length + 64 then
    payloadText
  else hmacSignaturePrefix ++ P.sha256 payload

def staticSignatures (signedDigest : Str) : List Str :=
  [staticPrefix ++ signedDigest, staticPrefix ++ signedDigest.drop hmacSignaturePrefix.length]

variable (P) in
/-- What becomes of a static signature of the payload. -/
def verifyStatic : Except CryovantError Bool := do
  let dev ← explicitDev P h
  return legacyFeatureEnabled P h legacyStaticFlag && dev

/-- `verify_payload_signature` -/
def verifyPayloadSignature (names : KeyNames) (payload : Bytes) (signature keyId : Str) :
    Except CryovantError Bool :=
  if signature = [] then .ok false
  else
    let signedDigest := signedDigestOf P payload
    if signature ∈ staticSignatures signedDigest then verifyStatic P h
    else do
      let keyed ← verifyHmacDigestSignature h u names keyId signedDigest signature
      return keyed || verifySignature P h signature

/-! ### Agents -/

/-- `_legacy_static_signature_allowed` -/
def legacyStaticSignatureAllowed (signature : Str) : Bool :=
  staticPrefix <+: signature

variable (P) in
/-- `_dev_signature_allowed` -/
def devSignatureAllowed (signature : Str) : Except CryovantError Bool :=
  if str "cryovant-dev-" <+: signature then explicitDev P h else .ok false

/-- The payload of a lineage hash carries the signature. -/
def lineageSigned (signature lineageHash : Str) : Except CryovantError Bool :=
  if lineageHash = [] then .ok false
  else
    match encode (hmacSignaturePrefix ++ lineageHash) with
    | none => .error .unicodeEncodeError
    | some payload =>
      verifyPayloadSignature h u signingKeyNames payload signature (str "agent-certificate")

variable (P) in
/-- The signature is a legacy one, and these are enabled. -/
def legacyAccepted (signature : Str) : Except CryovantError Bool :=
  if legacyFeatureEnabled P h legacyStaticFlag then do
    let dev ← if legacyStaticSignatureAllowed signature then .ok true
      else devSignatureAllowed P h signature
    if dev then
      -- the mode is logged
      (envMode P h).map fun _ => true
    else .ok false
  else .ok false

/-- `_valid_signature`, of a lineage hash -/
def validSignature (signature lineageHash : Str) : Except CryovantError Bool :=
  if signature = [] then .ok false
  else do
    let signed ← lineageSigned h u signature lineageHash
    if signed then return true else legacyAccepted P h signature

/-! ### Governance tokens -/

structure ParsedGovernanceToken where
  keyId : Str
  expiresAt : Int
  nonce : Str
  signature : Str

def isValidGovernanceTokenField (value : Str) : Bool :=
  strip value ≠ [] && value = strip value && 58 ∉ value

def tokenTag : Str := str "cryovant-gov-v1"

def parseGovernanceToken (candidate : Str) : Option ParsedGovernanceToken :=
  match splitMax 58 5 (strip candidate) with
  | [tag, keyId, expiresAtRaw, nonce, sigPrefix, digest] =>
    if tag ≠ tokenTag ∨ sigPrefix ≠ str "sha256" then none
    else if isValidGovernanceTokenField keyId && isValidGovernanceTokenField nonce then
      (intOf u expiresAtRaw).map fun expiresAt =>
        { keyId := keyId
          expiresAt := expiresAt
          nonce := nonce
          signature := sigPrefix ++ 58 :: digest }
    else none
  | _ => none

/-- `f"sha256:{key_id}:{expires_at}:{nonce}"` -/
def tokenDigest (keyId : Str) (expiresAt : Int) (nonce : Str) : Str :=
  hmacSignaturePrefix ++ keyId ++ 58 :: intText expiresAt ++ 58 :: nonce

/-- `f"cryovant-gov-v1:{key_id}:{expires_at}:{nonce}:{signature}"` -/
def tokenText (keyId expiresAt nonce signature : Str) : Str :=
  tokenTag ++ 58 :: (keyId ++ 58 :: (expiresAt ++ 58 :: (nonce ++ 58 :: signature)))

def signGovernanceToken (names : KeyNames) (keyId : Str) (expiresAt : Int) (nonce : Str) :
    Except CryovantError Str :=
  let normalizedKeyId := strip keyId
  let normalizedNonce := strip nonce
  if expiresAt ≤ 0 then .error (.valueError (str "expires_at must be > 0"))
  else if !isValidGovernanceTokenField normalizedKeyId then
    .error (.valueError (str "key_id required and must not contain ':' or edge whitespace"))
  else if !isValidGovernanceTokenField normalizedNonce then
    .error (.valueError (str "nonce required and must not contain ':' or edge whitespace"))
  else do
    -- the secret is looked up under the key id as it is given
    let signature ← signHmacDigest h u names keyId
      (tokenDigest normalizedKeyId expiresAt normalizedNonce)
    return tokenText normalizedKeyId (intText expiresAt) normalizedNonce signature

/-- `int(time.time())` -/
def truncate (time : ℚ) : Int :=
  if 0 ≤ time then ⌊time⌋ else ⌈time⌉

/-- `verify_governance_token` at a time, without ring claims -/
def verifyGovernanceToken (names : KeyNames) (token : Str) (time : ℚ) :
    Except CryovantError Bool :=
  let candidate := strip token
  if candidate = [] then .ok false
  else
    let devToken := strip (h.env (str "CRYOVANT_DEV_TOKEN"))
    if devToken ≠ [] ∧ candidate = devToken then
      if legacyFeatureEnabled P h (str "ADAAD_ENABLE_LEGACY_DEV_TOKEN_OVERRIDE") then explicitDev P h
      else .ok false
    else
      match parseGovernanceToken u candidate with
      | none => .ok false
      | some t =>
        if t.expiresAt ≤ truncate time then .error (.tokenExpired t.keyId t.expiresAt)
        else
          verifyHmacDigestSignature h u names t.keyId (tokenDigest t.keyId t.expiresAt t.nonce)
            t.signature

end Adaad.Cryovant
