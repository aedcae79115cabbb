import Adaad.Py.Json.Dumps
import Adaad.Py.Letters

/-!
# Signatures of events

`runtime/evolution/event_signing.py`: what a signer makes of a message, and a verifier takes.
-/

namespace Adaad.EventSigning

open Py

structure SignatureBundle where
  signature : Str
  signingKeyId : Str
  algorithm : Str
  deriving DecidableEq, Repr

/-- `sign`, of one key. -/
abbrev EventSigner := Str → SignatureBundle

/-- `verify` -/
abbrev EventVerifier := Str → SignatureBundle → Bool

end Adaad.EventSigning

/-!
## AGM events

`runtime/evolution/agm_event.py`: the envelope of an event, and what is asked of it.
-/

namespace Adaad.AgmEvent

open Py EventSigning

variable (P : Platform)

/-- The decimal digits of Unicode; no whitespace is one. -/
structure Digits where
  letters : Letters P
  decimal_space : ∀ c, isSpace c = true → letters.decimal c = none

structure AGMEventEnvelope where
  schemaVersion : Str
  eventId : Str
  eventType : Str
  emittedAt : Str
  payload : Members P.Float
  signature : Str
  signingKeyId : Str
  signatureAlgorithm : Str

variable {P}

/-- `as_dict` -/
def AGMEventEnvelope.asDict (e : AGMEventEnvelope P) : Members P.Float :=
  [(.str (str "schema_version"), .str e.schemaVersion), (.str (str "event_id"), .str e.eventId),
    (.str (str "event_type"), .str e.eventType), (.str (str "emitted_at"), .str e.emittedAt),
    (.str (str "payload"), .dict e.payload), (.str (str "signature"), .str e.signature),
    (.str (str "signing_key_id"), .str e.signingKeyId),
    (.str (str "signature_algorithm"), .str e.signatureAlgorithm)]

/-- `SignatureBundle(signature=…, signing_key_id=…, algorithm=…)` of an envelope. -/
def AGMEventEnvelope.bundle (e : AGMEventEnvelope P) : SignatureBundle where
  signature := e.signature
  signingKeyId := e.signingKeyId
  algorithm := e.signatureAlgorithm

/-! ### Times -/

/-- The texts `\d{4}-\d{2}-\d{2}T\d{2}:\d{2}:\d{2}Z`, where `9` stands for `\d`. -/
def emittedAtShape : Str := str "9999-99-99T99:99:99Z"

/-- `_EMITTED_AT_RE.fullmatch` -/
def matchesEmittedAt (d : Digits P) (s : Str) : Bool :=
  s.length = emittedAtShape.length &&
    (s.zip emittedAtShape).all fun m => if m.2 = 57 then (d.letters.digit m.1).isSome else m.1 = m.2

/-- The number that the digits from a place on are. -/
def numberAt (d : Digits P) (s : Str) (start length : Nat) : Nat :=
  (d.letters.digits 0 ((s.drop start).take length)).getD 0

/-- `calendar.isleap` -/
def isLeap (year : Nat) : Bool :=
  year % 4 = 0 && (year % 100 ≠ 0 || year % 400 = 0)

def daysInMonth (year month : Nat) : Nat :=
  if month = 2 then if isLeap year then 29 else 28
  else if month = 4 ∨ month = 6 ∨ month = 9 ∨ month = 11 then 30
  else 31

/-- The text of two digits is one of `strptime` for the directive: the first digit is one of ASCII,
and so is the second one where it is not free. -/
def directive (s : Str) (start : Nat) (allowed : Nat → Option Nat → Bool) : Bool :=
  match (s.drop start).take 2 with
  | [a, b] => allowed a (if isDigit b then some (b - 48) else none)
  | _ => false

/-- `%m`: `1[0-2]|0[1-9]` -/
def monthDirective (a : Nat) (b : Option Nat) : Bool :=
  match b with
  | some b => (a = 49 && b ≤ 2) || (a = 48 && 1 ≤ b)
  | none => false

/-- `%d`: `3[0-1]|[1-2]\d|0[1-9]` -/
def dayDirective (a : Nat) (b : Option Nat) : Bool :=
  a = 49 || a = 50 || match b with
    | some b => (a = 51 && b ≤ 1) || (a = 48 && 1 ≤ b)
    | none => false

/-- `%H`: `2[0-3]|[0-1]\d` -/
def hourDirective (a : Nat) (b : Option Nat) : Bool :=
  a = 48 || a = 49 || match b with
    | some b => a = 50 && b ≤ 3
    | none => false

/-- `%M`: `[0-5]\d` -/
def minuteDirective (a : Nat) (_ : Option Nat) : Bool :=
  48 ≤ a && a ≤ 53

/-- `datetime.strptime(s, "%Y-%m-%dT%H:%M:%SZ")` does not raise, for a text of the shape; `datetime`
has no second beyond 59. -/
def parsesEmittedAt (d : Digits P) (s : Str) : Bool :=
  let year := numberAt d s 0 4
  let month := numberAt d s 5 2
  directive s 5 monthDirective && directive s 8 dayDirective && directive s 11 hourDirective &&
    directive s 14 minuteDirective && directive s 17 minuteDirective && 1 ≤ year &&
    numberAt d s 8 2 ≤ daysInMonth year month

/-! ### Validation -/

/-- `re.fullmatch(r"[0-9a-f]{n}", s)` -/
def isHexOfLength (n : Nat) (s : Str) : Bool :=
  s.length = n && s.all isHexDigit

/-- `_validate_step_11_commit_contract` -/
def validateStep11CommitContract (payload : Members P.Float) : Except Str Unit :=
  match get payload (str "step_11_commit_sha") with
  | some (.str sha) =>
    if isHexOfLength 40 sha then
      match get payload (str "step_11_contract_passed") with
      | some (.bool true) => .ok ()
      | _ => .error (str "invalid:step_11_contract")
    else .error (str "invalid:step_11_commit_sha")
  | _ => .error (str "invalid:step_11_commit_sha")

/-- The check, or the message of the `AGMEventValidationError`. -/
def demand (b : Bool) (message : Str) : Except Str Unit :=
  if b then .ok () else .error message

/-- The checks of the signature, where it is required. -/
def validateSignature (e : AGMEventEnvelope P) : Except Str Unit := do
  demand (strip e.signature ≠ []) (str "missing:signature")
  demand (strip e.signingKeyId ≠ []) (str "missing:signing_key_id")
  demand (strip e.signatureAlgorithm ≠ []) (str "missing:signature_algorithm")

/-- `validate_event_envelope` with a signature. -/
def validateEventEnvelope (d : Digits P) (e : AGMEventEnvelope P) : Except Str Unit := do
  demand (e.schemaVersion = str "1.0") (str "invalid:schema_version")
  demand (strip e.eventId ≠ []) (str "missing:event_id")
  demand (isHexOfLength 32 e.eventId) (str "invalid:event_id_format")
  demand (e.eventType = str "scoring_event" ∨ e.eventType = str "deployment_gating_event")
    (str "invalid:event_type")
  demand (matchesEmittedAt d e.emittedAt) (str "invalid:emitted_at")
  demand (parsesEmittedAt d e.emittedAt) (str "invalid:emitted_at")
  validateSignature e
  if e.eventType = str "deployment_gating_event" then validateStep11CommitContract e.payload
  else .ok ()

end Adaad.AgmEvent
