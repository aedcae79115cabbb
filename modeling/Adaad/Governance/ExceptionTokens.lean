import Adaad.Py.Assoc
import Adaad.Py.Json.Equiv.RowLog
import Adaad.Py.Reference
import Adaad.Run

/-!
# Exception tokens

`runtime/governance/exception_tokens.py`: tokens that are granted for a few epochs, and a ledger of
JSON lines that is read again when it is opened.

A missing ledger file is an empty one.  Records that the ledger does not write, whose fields are of
other types, are passed over.
-/

namespace Adaad.ExceptionTokens

open Py Run

variable (P : Platform)

/-- `EXCEPTION_TOKEN_MAX_TTL` -/
def maxTtl : Int := 3

/-- `ELIGIBLE_RULE_IDS` -/
def eligibleRuleIds : List Str := [str "AST-COMPLEX-0"]

/-- `TIER_0_CAPABILITY_NAMES` -/
def tier0CapabilityNames : List Str :=
  [str "governance.gate", str "governance.policy", str "determinism.provider"]

structure ExceptionToken where
  tokenId : Str
  capabilityName : Str
  ruleId : Str
  grantedAtEpoch : Str
  expiresAtEpoch : Int
  grantedEpochSeq : Int
  lineageProjection : List P.Float
  humanApprovalRef : Option Str
  revocationTrigger : Str
  revoked : Bool
  revocationReason : Option Str

/-- The arguments of `create`. -/
structure Request where
  capabilityName : Str
  ruleId : Str
  grantedAtEpoch : Str
  grantedEpochSeq : Int
  lineageProjection : List P.Float
  humanApprovalRef : Option Str
  ttlEpochs : Int

variable {P}

variable (P) in
/-- `hashlib.sha256(json.dumps(value, sort_keys=True, separators=(",", ":")).encode()).hexdigest()`
of a mapping of texts -/
def jsonHash (ms : Members P.Float) : Str :=
  P.sha256 ((encode ((dumpsSortedAscii P .compact (.dict ms)).getD [])).getD [])

variable (P) in
/-- `_scope_hash` -/
def scopeHash (capabilityName ruleId epochId : Str) : Str :=
  jsonHash P [(.str (str "capability_name"), .str capabilityName),
    (.str (str "rule_id"), .str ruleId), (.str (str "epoch_id"), .str epochId)]

variable (P) in
/-- `_token_id` -/
def tokenIdOf (epochId capabilityName ruleId scopeHash : Str) : Str :=
  jsonHash P [(.str (str "epoch_id"), .str epochId),
    (.str (str "capability_name"), .str capabilityName),
    (.str (str "rule_id"), .str ruleId), (.str (str "scope_hash"), .str scopeHash)]

def defaultTrigger : Str :=
  str "auto-revoke on: lineage_diverges | capability_contract_changes | " ++
    str "test_failure_rate_exceeds_threshold | epoch_window_expires"

/-- `ExceptionToken.create`; the error is the text of a `ValueError`. -/
def ExceptionToken.create (r : Request P) : Except Str (ExceptionToken P) :=
  if r.capabilityName ∈ tier0CapabilityNames then
    .error (str "EXCEP-SCOPE-0 violation: Tier-0 capability '" ++ r.capabilityName ++
      str "' is permanently ineligible for exception tokens")
  else if r.ruleId ∉ eligibleRuleIds then
    .error (str "EXCEP-SCOPE-0 violation: rule_id '" ++ r.ruleId ++
      str "' is not eligible; eligible rules: ['AST-COMPLEX-0']")
  else if r.ttlEpochs < 1 ∨ maxTtl < r.ttlEpochs then
    .error (str "EXCEP-TTL-0 violation: ttl_epochs=" ++ intText r.ttlEpochs ++
      str " outside [1, " ++ intText maxTtl ++ str "]")
  else if (r.humanApprovalRef.getD []).all isSpace then
    .error (str "EXCEP-HUMAN-0 violation: human_approval_ref required for Tier-1 capability '" ++
      r.capabilityName ++ str "'")
  else
    .ok {
      tokenId := tokenIdOf P r.grantedAtEpoch r.capabilityName r.ruleId
        (scopeHash P r.capabilityName r.ruleId r.grantedAtEpoch)
      capabilityName := r.capabilityName
      ruleId := r.ruleId
      grantedAtEpoch := r.grantedAtEpoch
      expiresAtEpoch := r.grantedEpochSeq + r.ttlEpochs
      grantedEpochSeq := r.grantedEpochSeq
      lineageProjection := r.lineageProjection
      humanApprovalRef := r.humanApprovalRef
      revocationTrigger := defaultTrigger
      revoked := false
      revocationReason := none }

namespace ExceptionToken

/-- `is_active` -/
def isActive (t : ExceptionToken P) (currentEpochSeq : Int) : Bool :=
  !t.revoked && currentEpochSeq ≤ t.expiresAtEpoch

/-- `dataclasses.replace(token, revoked=True, revocation_reason=reason)` -/
def revoke (t : ExceptionToken P) (reason : Option Str) : ExceptionToken P :=
  { t with revoked := true, revocationReason := reason }

def ofOption : Option Str → P.Obj
  | none => .none
  | some s => .str s

def toDict (t : ExceptionToken P) : Members P.Float :=
  [(.str (str "token_id"), .str t.tokenId), (.str (str "capability_name"), .str t.capabilityName),
    (.str (str "rule_id"), .str t.ruleId), (.str (str "granted_at_epoch"), .str t.grantedAtEpoch),
    (.str (str "granted_epoch_seq"), .int t.grantedEpochSeq),
    (.str (str "expires_at_epoch"), .int t.expiresAtEpoch),
    (.str (str "lineage_projection"), .list (t.lineageProjection.map .float)),
    (.str (str "human_approval_ref"), ofOption t.humanApprovalRef),
    (.str (str "revocation_trigger"), .str t.revocationTrigger),
    (.str (str "revoked"), .bool t.revoked),
    (.str (str "revocation_reason"), ofOption t.revocationReason)]

end ExceptionToken

/-! ### The ledger -/

def textOf : P.Obj → Option Str
  | .str s => some s
  | _ => none

def optionOf : Option P.Obj → Option (Option Str)
  | some (.str s) => some (some s)
  | some .none => some none
  | none => some none
  | _ => none

def intOf : P.Obj → Option Int
  | .int i => some i
  | _ => none

def floatOf : P.Obj → Option P.Float
  | .float x => some x
  | _ => none

def floatsOf : Option P.Obj → Option (List P.Float)
  | some (.list xs) => xs.mapM floatOf
  | none => some []
  | _ => none

/-- `_reconstruct` -/
def reconstruct (record : Members P.Float) : Option (ExceptionToken P) := do
  let tokenId ← (get record (str "token_id")).bind textOf
  let capabilityName ← (get record (str "capability_name")).bind textOf
  let ruleId ← (get record (str "rule_id")).bind textOf
  let grantedAtEpoch ← (get record (str "granted_at_epoch")).bind textOf
  let grantedEpochSeq ← (get record (str "granted_epoch_seq")).bind intOf
  let expiresAtEpoch ← (get record (str "expires_at_epoch")).bind intOf
  let lineageProjection ← floatsOf (get record (str "lineage_projection"))
  let humanApprovalRef ← optionOf (get record (str "human_approval_ref"))
  let revocationTrigger ← textOf ((get record (str "revocation_trigger")).getD (.str []))
  let revocationReason ← optionOf (get record (str "revocation_reason"))
  return {
    tokenId, capabilityName, ruleId, grantedAtEpoch, expiresAtEpoch, grantedEpochSeq
    lineageProjection, humanApprovalRef, revocationTrigger
    revoked := (get record (str "revoked")).any (truthy P)
    revocationReason }

variable (P) in
abbrev Tokens := List (Str × ExceptionToken P)

/-- What a record that is loaded does to the tokens. -/
def applyRecord (tokens : Tokens P) (record : Members P.Float) : Tokens P :=
  match textOf ((get record (str "event")).getD .none),
    textOf ((get record (str "token_id")).getD (.str [])) with
  | some event, some tokenId =>
    if event = str "granted" then
      match reconstruct record with
      | some token => Assoc.set tokens tokenId token
      | none => tokens
    else if event = str "revoked" then
      match tokens.lookup tokenId with
      | some token =>
        Assoc.set tokens tokenId (token.revoke
          ((optionOf (some ((get record (str "reason")).getD (.str (str "unknown"))))).getD none))
      | none => tokens
    else tokens
  | _, _ => tokens

/-- The body of the loop of `_load`. -/
def loadLine (tokens : Tokens P) (line : Str) : Except Exc (Tokens P) :=
  if strip line = [] then .ok tokens
  else
    match loads P (strip line) with
    | none => .ok tokens
    | some (.dict record) => .ok (applyRecord tokens record)
    | some _ => .error .attributeError

/-- `_load` -/
def load (file : Bytes) : Except Exc (Tokens P) := do
  (splitlines (← readText file)).foldlM loadLine []

variable (P) in
/-- `ExceptionTokenLedger` -/
structure Ledger where
  file : Bytes
  tokens : Tokens P

namespace Ledger

/-- `_append` -/
def append (l : Ledger P) (record : Members P.Float) : Ledger P :=
  { l with file := l.file ++ (encode (dumpsAscii P .compact (.dict record) ++ [lf])).getD [] }

def grantedRecord (token : ExceptionToken P) : Members P.Float :=
  (.str (str "event"), .str (str "granted")) :: token.toDict

def revokedRecord (tokenId reason : Str) : Members P.Float :=
  [(.str (str "event"), .str (str "revoked")), (.str (str "token_id"), .str tokenId),
    (.str (str "reason"), .str reason)]

/-- `grant`; the error is the text of a `ValueError`. -/
def grant (l : Ledger P) (token : ExceptionToken P) : Except Str Unit × Ledger P :=
  if (l.tokens.lookup token.tokenId).isSome then
    (.error (str "ExceptionTokenLedger: token_id " ++ token.tokenId ++ str " already exists"), l)
  else
    (.ok (), ({ l with tokens := Assoc.set l.tokens token.tokenId token }).append
      (grantedRecord token))

/-- `revoke`; the error is the text of a `KeyError`. -/
def revoke (l : Ledger P) (tokenId reason : Str) : Except Str Unit × Ledger P :=
  match l.tokens.lookup tokenId with
  | none => (.error (str "ExceptionTokenLedger: unknown token_id " ++ tokenId), l)
  | some token =>
    if token.revoked then (.ok (), l)
    else
      (.ok (), ({ l with tokens := Assoc.set l.tokens tokenId (token.revoke (some reason)) }).append
        (revokedRecord tokenId reason))

def windowExpires : Str := str "epoch_window_expires"

/-- The body of the loop of `check_and_expire`. -/
def expireOne (currentEpochSeq : Int) (r : List Str × Ledger P) (item : Str × ExceptionToken P) :
    List Str × Ledger P :=
  if item.2.revoked = false ∧ item.2.expiresAtEpoch < currentEpochSeq then
    (r.1 ++ [item.1], (r.2.revoke item.1 windowExpires).2)
  else r

/-- `check_and_expire` -/
def checkAndExpire (l : Ledger P) (currentEpochSeq : Int) : List Str × Ledger P :=
  l.tokens.foldl (expireOne currentEpochSeq) ([], l)

/-- `has_active_token` -/
def hasActiveToken (l : Ledger P) (capabilityName ruleId : Str) (currentEpochSeq : Int) : Bool :=
  l.tokens.any fun t =>
    t.2.capabilityName = capabilityName ∧ t.2.isActive currentEpochSeq ∧ t.2.ruleId = ruleId

end Ledger

/-! ### Runs -/

variable (P) in
inductive Action where
  /-- `grant(ExceptionToken.create(…))` -/
  | grant (r : Request P)
  | revoke (tokenId reason : Str)
  | checkAndExpire (currentEpochSeq : Int)
  /-- A new ledger on the file. -/
  | reopen

def step (l : Ledger P) : Action P → Ledger P
  | .grant r =>
    match ExceptionToken.create r with
    | .error _ => l
    | .ok token => (l.grant token).2
  | .revoke tokenId reason => (l.revoke tokenId reason).2
  | .checkAndExpire n => (l.checkAndExpire n).2
  | .reopen =>
    match load l.file with
    | .error _ => l
    | .ok tokens => { l with tokens := tokens }

variable (P) in
def Ledger.new : Ledger P := ⟨[], []⟩

/-- A ledger that is opened on the file has the same tokens. -/
def Reopens (l : Ledger P) : Prop :=
  load l.file = .ok l.tokens

/-- A token is active at most `EXCEPTION_TOKEN_MAX_TTL` epochs after its grant. -/
def Bounded (l : Ledger P) : Prop :=
  ∀ id t, l.tokens.lookup id = some t → ∀ n, t.isActive n = true → n ≤ t.grantedEpochSeq + maxTtl

/-- What is revoked stays so, and is active at no epoch. -/
def StaysRevoked (l l' : Ledger P) : Prop :=
  ∀ id t, l.tokens.lookup id = some t → t.revoked = true →
    ∃ t', l'.tokens.lookup id = some t' ∧ t'.revoked = true ∧ ∀ n, t'.isActive n = false

/-- No token whose window ended before the epoch is active at any epoch. -/
def NoneExpired (n : Int) (l : Ledger P) : Prop :=
  ∀ id t, l.tokens.lookup id = some t → t.expiresAtEpoch < n → ∀ m, t.isActive m = false

/-- What is expected of a run: the file always gives the tokens back, no token is active for too
long, revocations stay, and a check leaves none active that has expired. -/
structure Sound (l : Ledger P) (as : List (Action P)) : Prop where
  reopens : Always step Reopens l as
  bounded : Always step Bounded l as
  staysRevoked : Henceforth step StaysRevoked l as
  noneExpired : ∀ before n after, as = before ++ .checkAndExpire n :: after →
    NoneExpired n (run step l (before ++ [.checkAndExpire n]))

/-- The text is read from its JSON escapes as it was: no high surrogate comes right before a low
one. -/
def Steady (s : Str) : Prop :=
  readAscii s = s

/-- The texts that the action writes to the ledger are steady. -/
def Writes (l : Ledger P) : Action P → Prop
  | .grant r => ∀ token, ExceptionToken.create r = .ok token →
      l.tokens.lookup token.tokenId = none →
      Steady r.capabilityName ∧ Steady r.grantedAtEpoch ∧ ∀ s ∈ r.humanApprovalRef, Steady s
  | .revoke tokenId reason => ∀ token, l.tokens.lookup tokenId = some token →
      token.revoked = false → Steady reason
  | .checkAndExpire _ => True
  | .reopen => True

/-! ### The file

What a line does to the tokens when it is loaded goes by the row that was written and by how JSON
reads its texts.
-/

section File

variable {l : Ledger P} {file : Bytes} {rows : List (Members P.Float)} {row : Members P.Float}

/-- The lines of the file are those of the rows. -/
def HasRows (rows : List (Members P.Float)) (file : Bytes) : Prop :=
  (∀ row ∈ rows, NamedItems row) ∧
    encode ((rows.map fun row => dumpsAscii P .compact (.dict row)).flatMap (· ++ [lf])) = some file

def replay (rows : List (Members P.Float)) : Tokens P :=
  rows.foldl (fun tokens row => applyRecord tokens (readBack P row)) []

theorem asciiRow_of_mem_map {line : Str}
    (h : line ∈ rows.map fun row => dumpsAscii P .compact (.dict row)) :
    AsciiRow P .compact line := by
  obtain ⟨row, -, rfl⟩ := List.mem_map.mp h
  exact ⟨row, rfl⟩

theorem loadLine_dumps (h : NamedItems row) (tokens : Tokens P) :
    loadLine tokens (dumpsAscii P .compact (.dict row)) =
      .ok (applyRecord tokens (readBack P row)) := by
  have hne : strip (dumpsAscii P .compact (.dict row)) ≠ [] := AsciiRow.strip_ne_nil ⟨row, rfl⟩
  unfold loadLine
  rw [if_neg hne, strip_dumpsAscii_dict, loads_dumpsAscii_of_named P h]
  rfl

theorem HasRows.load_eq (h : HasRows rows file) : load file = .ok (replay rows) := by
  have hfold : ∀ (rows : List (Members P.Float)) (tokens : Tokens P),
      (∀ row ∈ rows, NamedItems row) →
      (rows.map fun row => dumpsAscii P .compact (.dict row)).foldlM loadLine tokens =
        .ok (rows.foldl (fun tokens row => applyRecord tokens (readBack P row)) tokens) := by
    intro rows
    induction rows with
    | nil => exact fun _ _ => rfl
    | cons row rows ih =>
      intro tokens hrows
      rw [List.map_cons, List.foldlM_cons, loadLine_dumps (hrows row (by simp))]
      exact ih _ fun r hr => hrows r (by simp [hr])
  unfold load
  rw [readText_asciiLines (fun _ => asciiRow_of_mem_map) h.2]
  show (splitlines _).foldlM loadLine [] = _
  rw [splitlines_asciiLines fun _ => asciiRow_of_mem_map]
  exact hfold rows [] h.1

theorem HasRows.append (h : HasRows rows l.file) (hrow : NamedItems row) :
    HasRows (rows ++ [row]) (l.append row).file := by
  obtain ⟨b, hb⟩ := AsciiRow.exists_encode (P := P) (L := .compact) ⟨row, rfl⟩
  refine ⟨fun r hr => ?_, ?_⟩
  · rcases List.mem_append.mp hr with hr | hr
    · exact h.1 r hr
    · rwa [List.mem_singleton.mp hr]
  · rw [List.map_append, List.map_singleton, List.flatMap_append, List.flatMap_singleton]
    refine encode_append_eq_some.mpr ⟨l.file, b, h.2, hb, ?_⟩
    unfold Ledger.append
    rw [hb, Option.getD_some]

theorem replay_concat (rows : List (Members P.Float)) (row : Members P.Float) :
    replay (rows ++ [row]) = applyRecord (replay rows) (readBack P row) :=
  List.foldl_append

/-! ### The rows -/

theorem namedItems_grantedRecord (t : ExceptionToken P) : NamedItems (Ledger.grantedRecord t) :=
  .of_names [str "event", str "token_id", str "capability_name", str "rule_id",
    str "granted_at_epoch", str "granted_epoch_seq", str "expires_at_epoch",
    str "lineage_projection", str "human_approval_ref", str "revocation_trigger", str "revoked",
    str "revocation_reason"] rfl (by decide) (by decide)

theorem namedItems_revokedRecord (tokenId reason : Str) :
    NamedItems (Ledger.revokedRecord tokenId reason : Members P.Float) :=
  .of_names [str "event", str "token_id", str "reason"] rfl (by decide) (by decide)

def ExceptionToken.reread (t : ExceptionToken P) : ExceptionToken P :=
  { t with
    tokenId := readAscii t.tokenId
    capabilityName := readAscii t.capabilityName
    ruleId := readAscii t.ruleId
    grantedAtEpoch := readAscii t.grantedAtEpoch
    humanApprovalRef := t.humanApprovalRef.map readAscii
    revocationTrigger := readAscii t.revocationTrigger
    revocationReason := t.revocationReason.map readAscii }

theorem optionOf_image (s : Option Str) :
    optionOf (some (image P ((ExceptionToken.ofOption s : P.Obj).mapStr readAscii))) =
      some (s.map readAscii) := by
  cases s <;> rfl

theorem floatsOf_image (xs : List P.Float) :
    floatsOf (some (image P ((Value.list (xs.map .float) : P.Obj).mapStr readAscii))) =
      some xs := by
  have hstays : (Value.list (xs.map .float) : P.Obj).Stays := by
    refine Value.stays_list fun x hx => ?_
    obtain ⟨y, -, rfl⟩ := List.mem_map.mp hx
    exact ⟨trivial, trivial, rfl⟩
  rw [hstays.mapStr, image_eq_self P hstays.plain hstays.wf]
  show (xs.map .float).mapM floatOf = some xs
  clear hstays
  induction xs with
  | nil => rfl
  | cons x xs ih =>
    rw [List.map_cons, List.mapM_cons, ih]
    rfl

theorem get_row (k : Str) (v : P.Obj) (h : get row k = some v) :
    get (readBack P row) k = some (image P (v.mapStr readAscii)) := by
  rw [get_readBack, h]
  rfl

theorem reconstruct_grantedRecord (t : ExceptionToken P) :
    reconstruct (readBack P (Ledger.grantedRecord t)) = some t.reread := by
  unfold reconstruct
  rw [get_row (str "token_id") (.str t.tokenId) rfl,
    get_row (str "capability_name") (.str t.capabilityName) rfl,
    get_row (str "rule_id") (.str t.ruleId) rfl,
    get_row (str "granted_at_epoch") (.str t.grantedAtEpoch) rfl,
    get_row (str "granted_epoch_seq") (.int t.grantedEpochSeq) rfl,
    get_row (str "expires_at_epoch") (.int t.expiresAtEpoch) rfl,
    get_row (str "lineage_projection") (.list (t.lineageProjection.map .float)) rfl,
    get_row (str "human_approval_ref") (ExceptionToken.ofOption t.humanApprovalRef) rfl,
    get_row (str "revocation_trigger") (.str t.revocationTrigger) rfl,
    get_row (str "revoked") (.bool t.revoked) rfl,
    get_row (str "revocation_reason") (ExceptionToken.ofOption t.revocationReason) rfl,
    floatsOf_image, optionOf_image, optionOf_image]
  show some _ = some _
  cases t with
  | mk _ _ _ _ _ _ _ _ _ revoked _ => cases revoked <;> rfl

theorem applyRecord_grantedRecord (tokens : Tokens P) (t : ExceptionToken P) :
    applyRecord tokens (readBack P (Ledger.grantedRecord t)) =
      Assoc.set tokens (readAscii t.tokenId) t.reread := by
  unfold applyRecord
  rw [get_row (str "event") (.str (str "granted")) rfl,
    get_row (str "token_id") (.str t.tokenId) rfl]
  show (match reconstruct _ with | some token => Assoc.set tokens _ token | none => tokens) = _
  rw [reconstruct_grantedRecord]

theorem applyRecord_revokedRecord (tokens : Tokens P) (tokenId reason : Str) :
    applyRecord tokens (readBack P (Ledger.revokedRecord tokenId reason)) =
      match tokens.lookup (readAscii tokenId) with
      | some token => Assoc.set tokens (readAscii tokenId) (token.revoke (some (readAscii reason)))
      | none => tokens := by
  unfold applyRecord
  rw [get_row (str "event") (.str (str "revoked")) rfl,
    get_row (str "token_id") (.str tokenId) rfl, get_row (str "reason") (.str reason) rfl]
  rfl

end File

/-! ### A step -/

variable {l : Ledger P} {t : ExceptionToken P} {r : Request P} {id reason : Str}

theorem create_eq_ok (h : ExceptionToken.create r = .ok t) :
    r.ruleId ∈ eligibleRuleIds ∧ r.ttlEpochs ≤ maxTtl ∧
      t = { t with
        tokenId := tokenIdOf P r.grantedAtEpoch r.capabilityName r.ruleId
          (scopeHash P r.capabilityName r.ruleId r.grantedAtEpoch)
        capabilityName := r.capabilityName
        ruleId := r.ruleId
        grantedAtEpoch := r.grantedAtEpoch
        expiresAtEpoch := t.grantedEpochSeq + r.ttlEpochs
        humanApprovalRef := r.humanApprovalRef
        revocationTrigger := defaultTrigger
        revocationReason := none } := by
  unfold ExceptionToken.create at h
  split_ifs at h with hcap hrule httl href
  cases h
  exact ⟨hrule, by omega, rfl⟩

theorem reread_eq_self_iff (h : ExceptionToken.create r = .ok t) :
    t.reread = t ↔ Steady r.capabilityName ∧ Steady r.grantedAtEpoch ∧
      ∀ s ∈ r.humanApprovalRef, Steady s := by
  obtain ⟨hrule, -, ht⟩ := create_eq_ok h
  have hruleAscii : readAscii r.ruleId = r.ruleId := by
    rw [List.mem_singleton.mp hrule]
    exact readAscii_of_ascii (by decide)
  have hid : readAscii (tokenIdOf P r.grantedAtEpoch r.capabilityName r.ruleId
      (scopeHash P r.capabilityName r.ruleId r.grantedAtEpoch)) = _ :=
    readAscii_of_ascii (ascii_sha256 P _)
  have htrigger : readAscii defaultTrigger = defaultTrigger :=
    readAscii_of_ascii (by decide +kernel)
  have href : r.humanApprovalRef.map readAscii = r.humanApprovalRef ↔
      ∀ s ∈ r.humanApprovalRef, Steady s := by
    cases r.humanApprovalRef with
    | none => exact iff_of_true rfl fun s hs => absurd hs (Option.not_mem_none s)
    | some s =>
      rw [Option.map_some, Option.some_inj]
      exact ⟨fun hs s' hs' => Option.some.inj hs' ▸ hs, fun hs => hs s rfl⟩
  rw [ht, ← href]
  simp only [ExceptionToken.reread, ExceptionToken.mk.injEq, hruleAscii, hid, htrigger, Steady,
    Option.map_none, true_and, and_true]

/-- The file gives the tokens back, whose ids are digests, and their windows are not too long. -/
structure Kept (l : Ledger P) : Prop where
  rows : ∃ rows, HasRows rows l.file ∧ replay rows = l.tokens
  nodup : (Assoc.keys l.tokens).Nodup
  ids : ∀ id t, l.tokens.lookup id = some t → readAscii id = id
  windows : ∀ id t, l.tokens.lookup id = some t → t.expiresAtEpoch ≤ t.grantedEpochSeq + maxTtl

theorem Kept.reopens (h : Kept l) : Reopens l := by
  obtain ⟨rows, hrows, htokens⟩ := h.rows
  rw [Reopens, hrows.load_eq, htokens]

theorem Kept.bounded (h : Kept l) : Bounded l := by
  intro id t ht n hn
  have hwindow := h.windows id t ht
  have hle : n ≤ t.expiresAtEpoch := by
    rw [ExceptionToken.isActive, Bool.and_eq_true, decide_eq_true_eq] at hn
    exact hn.2
  omega

theorem kept_new : Kept (Ledger.new P) where
  rows := ⟨[], ⟨fun _ h => absurd h List.not_mem_nil, rfl⟩, rfl⟩
  nodup := List.nodup_nil
  ids _ _ h := absurd h (Option.some_ne_none _).symm
  windows _ _ h := absurd h (Option.some_ne_none _).symm

theorem Kept.load_append_iff (h : Kept l) {tokens : Tokens P} {row : Members P.Float}
    (hrow : NamedItems row) :
    Reopens (({ l with tokens := tokens } : Ledger P).append row) ↔
      applyRecord l.tokens (readBack P row) = tokens := by
  obtain ⟨rows, hrows, htokens⟩ := h.rows
  have happend :
      HasRows (rows ++ [row]) (({ l with tokens := tokens } : Ledger P).append row).file :=
    HasRows.append (l := { l with tokens := tokens }) hrows hrow
  rw [Reopens, happend.load_eq, replay_concat, htokens]
  exact ⟨fun heq => Except.ok.inj heq, fun heq => congrArg Except.ok heq⟩

theorem Kept.append (h : Kept l) {row : Members P.Float} {t : ExceptionToken P}
    (hrow : NamedItems row)
    (hreopens : Reopens (({ l with tokens := Assoc.set l.tokens id t } : Ledger P).append row))
    (hid : readAscii id = id) (hwindow : t.expiresAtEpoch ≤ t.grantedEpochSeq + maxTtl) :
    Kept (({ l with tokens := Assoc.set l.tokens id t } : Ledger P).append row) where
  rows := by
    obtain ⟨rows, hrows, htokens⟩ := h.rows
    refine ⟨rows ++ [row], HasRows.append (l := { l with tokens := _ }) hrows hrow, ?_⟩
    rw [replay_concat, htokens]
    exact (h.load_append_iff hrow).mp hreopens
  nodup := Assoc.nodup_keys_set h.nodup id t
  ids k u hu := by
    rw [Ledger.append, Assoc.lookup_set] at hu
    split_ifs at hu with hk
    · rwa [hk]
    · exact h.ids k u hu
  windows k u hu := by
    rw [Ledger.append, Assoc.lookup_set] at hu
    split_ifs at hu with hk
    · rwa [← Option.some.inj hu]
    · exact h.windows k u hu

theorem Kept.grant_iff (h : Kept l) (ht : ExceptionToken.create r = .ok t)
    (hnew : l.tokens.lookup t.tokenId = none) :
    Reopens (l.grant t).2 ↔ Steady r.capabilityName ∧ Steady r.grantedAtEpoch ∧
      ∀ s ∈ r.humanApprovalRef, Steady s := by
  have hid : readAscii t.tokenId = t.tokenId := by
    rw [(create_eq_ok ht).2.2]
    exact readAscii_of_ascii (ascii_sha256 P _)
  unfold Ledger.grant
  rw [if_neg (by rw [hnew]; exact Bool.false_ne_true),
    h.load_append_iff (namedItems_grantedRecord t), applyRecord_grantedRecord, hid,
    ← reread_eq_self_iff ht]
  refine ⟨fun heq => ?_, fun heq => by rw [heq]⟩
  have hlookup := congrArg (List.lookup t.tokenId) heq
  rw [Assoc.lookup_set, Assoc.lookup_set, if_pos rfl, if_pos rfl] at hlookup
  exact Option.some.inj hlookup

theorem Kept.grant (h : Kept l) (ht : ExceptionToken.create r = .ok t)
    (hreopens : Reopens (l.grant t).2) : Kept (l.grant t).2 := by
  obtain ⟨-, httl, heq⟩ := create_eq_ok ht
  by_cases hnew : (l.tokens.lookup t.tokenId).isSome
  · unfold Ledger.grant
    rwa [if_pos hnew]
  · unfold Ledger.grant at hreopens ⊢
    rw [if_neg hnew] at hreopens ⊢
    refine h.append (namedItems_grantedRecord t) hreopens ?_ ?_
    · rw [heq]
      exact readAscii_of_ascii (ascii_sha256 P _)
    · rw [heq]
      show t.grantedEpochSeq + r.ttlEpochs ≤ t.grantedEpochSeq + maxTtl
      omega

theorem lookup_grant (l : Ledger P) (t : ExceptionToken P) {id : Str} {u : ExceptionToken P}
    (h : l.tokens.lookup id = some u) : (l.grant t).2.tokens.lookup id = some u := by
  unfold Ledger.grant
  by_cases hnew : (l.tokens.lookup t.tokenId).isSome
  · rwa [if_pos hnew]
  · rw [if_neg hnew]
    refine (Assoc.lookup_set _ _ _ _).trans ?_
    rw [if_neg, h]
    rintro rfl
    exact hnew (by rw [h]; rfl)

theorem revoke_cases (l : Ledger P) (id reason : Str) :
    ((∀ t, l.tokens.lookup id = some t → t.revoked = true) ∧ (l.revoke id reason).2 = l) ∨
    ∃ t, l.tokens.lookup id = some t ∧ t.revoked = false ∧ (l.revoke id reason).2 =
      ({ l with tokens := Assoc.set l.tokens id (t.revoke (some reason)) } : Ledger P).append
        (Ledger.revokedRecord id reason) := by
  unfold Ledger.revoke
  cases ht : l.tokens.lookup id with
  | none => exact .inl ⟨fun _ h => absurd h (Option.some_ne_none _).symm, rfl⟩
  | some t =>
    dsimp only
    cases hrevoked : t.revoked with
    | true =>
      rw [if_pos rfl]
      exact .inl ⟨fun _ h => by rw [← Option.some.inj h, hrevoked], rfl⟩
    | false =>
      rw [if_neg Bool.false_ne_true]
      exact .inr ⟨t, rfl, hrevoked, rfl⟩

theorem Kept.revoke_iff (h : Kept l) : Reopens (l.revoke id reason).2 ↔
    ∀ t, l.tokens.lookup id = some t → t.revoked = false → Steady reason := by
  obtain ⟨hinactive, heq⟩ | ⟨t, ht, hrevoked, heq⟩ := revoke_cases l id reason
  · refine iff_of_true (by rw [heq]; exact h.reopens) fun t ht hfalse => ?_
    rw [hinactive t ht] at hfalse
    cases hfalse
  · rw [heq, h.load_append_iff (namedItems_revokedRecord id reason), applyRecord_revokedRecord,
      h.ids id t ht, ht]
    refine ⟨fun heq _ _ _ => ?_, fun hall => ?_⟩
    · have hlookup := congrArg (List.lookup id) heq
      dsimp only at hlookup
      rw [Assoc.lookup_set, Assoc.lookup_set, if_pos rfl, if_pos rfl] at hlookup
      exact Option.some.inj (congrArg ExceptionToken.revocationReason (Option.some.inj hlookup))
    · rw [show readAscii reason = reason from hall t rfl hrevoked]

theorem Kept.revoke (h : Kept l) (hreopens : Reopens (l.revoke id reason).2) :
    Kept (l.revoke id reason).2 := by
  obtain ⟨-, heq⟩ | ⟨t, ht, -, heq⟩ := revoke_cases l id reason
  · rwa [heq]
  · rw [heq] at hreopens ⊢
    exact h.append (namedItems_revokedRecord id reason) hreopens (h.ids id t ht) (h.windows id t ht)

theorem lookup_revoke (l : Ledger P) (id reason k : Str) :
    (l.revoke id reason).2.tokens.lookup k =
      (l.tokens.lookup k).map fun t =>
        if k = id ∧ t.revoked = false then t.revoke (some reason) else t := by
  obtain ⟨hinactive, heq⟩ | ⟨t, ht, hrevoked, heq⟩ := revoke_cases l id reason
  · rw [heq]
    cases hk : l.tokens.lookup k with
    | none => rfl
    | some t =>
      rw [Option.map_some, if_neg]
      rintro ⟨rfl, hfalse⟩
      rw [hinactive t hk] at hfalse
      cases hfalse
  · rw [heq]
    refine (Assoc.lookup_set _ _ _ _).trans ?_
    by_cases hk : k = id
    · rw [if_pos hk, hk, ht, Option.map_some, if_pos ⟨rfl, hrevoked⟩]
    · rw [if_neg hk]
      cases l.tokens.lookup k with
      | none => rfl
      | some u => rw [Option.map_some, if_neg fun hand => hk hand.1]

/-! ### Expiry -/

/-- Each token is there with its window, and a revoked one is revoked. -/
def Later (l l' : Ledger P) : Prop :=
  ∀ id t, l.tokens.lookup id = some t → ∃ t', l'.tokens.lookup id = some t' ∧
    t'.expiresAtEpoch = t.expiresAtEpoch ∧ (t.revoked = true → t'.revoked = true)

theorem Later.refl (l : Ledger P) : Later l l :=
  fun _ t ht => ⟨t, ht, rfl, fun h => h⟩

theorem Later.trans {l₁ l₂ l₃ : Ledger P} (h₁ : Later l₁ l₂) (h₂ : Later l₂ l₃) : Later l₁ l₃ := by
  intro id t ht
  obtain ⟨t', ht', hexpires, hrevoked⟩ := h₁ id t ht
  obtain ⟨t'', ht'', hexpires', hrevoked'⟩ := h₂ id t' ht'
  exact ⟨t'', ht'', hexpires'.trans hexpires, fun h => hrevoked' (hrevoked h)⟩

theorem Later.staysRevoked {l l' : Ledger P} (h : Later l l') : StaysRevoked l l' := by
  intro id t ht hrevoked
  obtain ⟨t', ht', -, hkeep⟩ := h id t ht
  refine ⟨t', ht', hkeep hrevoked, fun n => ?_⟩
  rw [ExceptionToken.isActive, hkeep hrevoked]
  rfl

theorem later_revoke (l : Ledger P) (id reason : Str) : Later l (l.revoke id reason).2 := by
  intro k t ht
  rw [lookup_revoke, ht, Option.map_some]
  refine ⟨_, rfl, ?_, fun h => ?_⟩
  · split_ifs <;> rfl
  · split_ifs
    · rfl
    · exact h

theorem later_grant (l : Ledger P) (t : ExceptionToken P) : Later l (l.grant t).2 :=
  fun _ u hu => ⟨u, lookup_grant l t hu, rfl, fun h => h⟩

theorem Kept.revoke_windowExpires (h : Kept l) (id : Str) :
    Kept (l.revoke id Ledger.windowExpires).2 :=
  h.revoke (h.revoke_iff.mpr fun _ _ _ => readAscii_of_ascii (by decide))

variable {n : Int} (ids : List Str) {m : Str × ExceptionToken P}

theorem Kept.expireOne (h : Kept l) : Kept (Ledger.expireOne n (ids, l) m).2 := by
  unfold Ledger.expireOne
  split_ifs
  · exact h.revoke_windowExpires m.1
  · exact h

theorem later_expireOne : Later l (Ledger.expireOne n (ids, l) m).2 := by
  unfold Ledger.expireOne
  split_ifs
  · exact later_revoke l m.1 _
  · exact .refl l

theorem lookup_expireOne_eq_none (h : l.tokens.lookup id = none) :
    (Ledger.expireOne n (ids, l) m).2.tokens.lookup id = none := by
  unfold Ledger.expireOne
  split_ifs
  · exact (lookup_revoke l m.1 _ id).trans (by rw [h]; rfl)
  · exact h

theorem revoked_expireOne (hm : l.tokens.lookup m.1 = some t)
    (hrevoked : m.2.revoked = true → t.revoked = true) (hexpired : m.2.expiresAtEpoch < n) :
    ∃ t', (Ledger.expireOne n (ids, l) m).2.tokens.lookup m.1 = some t' ∧ t'.revoked = true := by
  unfold Ledger.expireOne
  by_cases hfalse : m.2.revoked = false
  · rw [if_pos ⟨hfalse, hexpired⟩]
    dsimp only
    rw [lookup_revoke, hm, Option.map_some]
    refine ⟨_, rfl, ?_⟩
    by_cases ht : t.revoked = false
    · rw [if_pos ⟨rfl, ht⟩]
      rfl
    · rw [if_neg fun hand => ht hand.2]
      exact eq_true_of_ne_false ht
  · rw [if_neg fun hand => hfalse hand.1]
    exact ⟨t, hm, hrevoked (eq_true_of_ne_false hfalse)⟩

theorem Kept.foldl_expireOne (items : List (Str × ExceptionToken P)) (ids : List Str) (h : Kept l) :
    Kept (items.foldl (Ledger.expireOne n) (ids, l)).2 ∧
      Later l (items.foldl (Ledger.expireOne n) (ids, l)).2 ∧
      ∀ id, l.tokens.lookup id = none →
        (items.foldl (Ledger.expireOne n) (ids, l)).2.tokens.lookup id = none := by
  induction items generalizing ids l with
  | nil => exact ⟨h, .refl l, fun _ hid => hid⟩
  | cons m items ih =>
    have hone : Kept (Ledger.expireOne n (ids, l) m).2 := h.expireOne ids
    obtain ⟨hkept, hlater, hnone⟩ := ih (Ledger.expireOne n (ids, l) m).1 hone
    refine ⟨hkept, (later_expireOne ids).trans hlater, fun id hid => ?_⟩
    exact hnone id (lookup_expireOne_eq_none ids hid)

theorem revoked_foldl_expireOne (items : List (Str × ExceptionToken P)) (ids : List Str)
    (h : Kept l) (hitems : ∀ m ∈ items, ∃ t, l.tokens.lookup m.1 = some t ∧
      (m.2.revoked = true → t.revoked = true)) :
    ∀ m ∈ items, m.2.expiresAtEpoch < n →
      ∃ t', (items.foldl (Ledger.expireOne n) (ids, l)).2.tokens.lookup m.1 = some t' ∧
        t'.revoked = true := by
  induction items generalizing ids l with
  | nil => exact fun m hm => absurd hm List.not_mem_nil
  | cons m₀ items ih =>
    have hnext : Kept (Ledger.expireOne n (ids, l) m₀).2 := h.expireOne ids
    intro m hm hexpired
    rcases List.mem_cons.mp hm with rfl | hm
    · obtain ⟨t, ht, hrevoked⟩ := hitems m (by simp)
      obtain ⟨t', ht', hrevoked'⟩ := revoked_expireOne ids ht hrevoked hexpired
      obtain ⟨t'', ht'', -, hkeep⟩ := (hnext.foldl_expireOne (n := n) items
        (Ledger.expireOne n (ids, l) m).1).2.1 m.1 t' ht'
      exact ⟨t'', ht'', hkeep hrevoked'⟩
    · refine ih _ hnext (fun m' hm' => ?_) m hm hexpired
      obtain ⟨t, ht, hrevoked⟩ := hitems m' (by simp [hm'])
      obtain ⟨t', ht', -, hkeep⟩ := later_expireOne (n := n) (m := m₀) ids m'.1 t ht
      exact ⟨t', ht', fun htrue => hkeep (hrevoked htrue)⟩

theorem Kept.noneExpired (h : Kept l) (n : Int) : NoneExpired n (l.checkAndExpire n).2 := by
  intro id t' ht' hexpired k
  obtain ⟨-, hlater, hnone⟩ := h.foldl_expireOne (n := n) l.tokens []
  cases ht : l.tokens.lookup id with
  | none => exact absurd (ht'.symm.trans (hnone id ht)) (Option.some_ne_none _)
  | some t =>
    obtain ⟨t₁, ht₁, hexpires, -⟩ := hlater id t ht
    obtain rfl := Option.some.inj (ht'.symm.trans ht₁)
    have hitems : ∀ m ∈ l.tokens, ∃ t, l.tokens.lookup m.1 = some t ∧
        (m.2.revoked = true → t.revoked = true) :=
      fun m hm => ⟨m.2, (Assoc.lookup_eq_some_iff h.nodup).mpr hm, fun htrue => htrue⟩
    obtain ⟨t₂, ht₂, hrevoked⟩ := revoked_foldl_expireOne (n := n) l.tokens [] h hitems (id, t)
      (Assoc.mem_of_lookup ht) (by rw [← hexpires]; exact hexpired)
    obtain rfl := Option.some.inj (ht'.symm.trans ht₂)
    rw [ExceptionToken.isActive, hrevoked]
    rfl

/-! ### Runs -/

theorem Kept.of_reopens_step (h : Kept l) {a : Action P} (ha : Reopens (step l a)) :
    Kept (step l a) ∧ Later l (step l a) := by
  cases a with
  | grant r =>
    unfold ExceptionTokens.step at ha ⊢
    dsimp only at ha ⊢
    cases ht : ExceptionToken.create r with
    | error e => exact ⟨h, .refl l⟩
    | ok t =>
      rw [ht] at ha
      exact ⟨h.grant ht ha, later_grant l t⟩
  | revoke id reason => exact ⟨h.revoke ha, later_revoke l id reason⟩
  | checkAndExpire n =>
    obtain ⟨hkept, hlater, -⟩ := h.foldl_expireOne (n := n) l.tokens []
    exact ⟨hkept, hlater⟩
  | reopen =>
    have hself : ExceptionTokens.step l .reopen = l := by
      unfold ExceptionTokens.step
      dsimp only
      rw [show load l.file = .ok l.tokens from h.reopens]
    rw [hself]
    exact ⟨h, .refl l⟩

theorem Kept.reopens_step_iff (h : Kept l) (a : Action P) : Reopens (step l a) ↔ Writes l a := by
  cases a with
  | grant r =>
    unfold ExceptionTokens.step Writes
    dsimp only
    cases ht : ExceptionToken.create r with
    | error e => exact iff_of_true h.reopens fun t ht' => absurd ht' (by simp)
    | ok t =>
      by_cases hnew : l.tokens.lookup t.tokenId = none
      · refine (h.grant_iff ht hnew).trans
          ⟨fun hsteady t' ht' _ => hsteady, fun hall => hall t rfl hnew⟩
      · refine iff_of_true ?_ fun t' ht' hnew' => ?_
        · dsimp only
          unfold Ledger.grant
          rw [if_pos (Option.ne_none_iff_isSome.mp hnew)]
          exact h.reopens
        · cases ht'
          exact absurd hnew' hnew
  | revoke id reason => exact h.revoke_iff
  | checkAndExpire n =>
    obtain ⟨hkept, -, -⟩ := h.foldl_expireOne (n := n) l.tokens []
    exact iff_of_true hkept.reopens trivial
  | reopen =>
    refine iff_of_true ?_ trivial
    unfold ExceptionTokens.step
    dsimp only
    rw [show load l.file = .ok l.tokens from h.reopens]
    exact h.reopens

theorem staysRevoked_refl (l : Ledger P) : StaysRevoked l l :=
  (Later.refl l).staysRevoked

theorem staysRevoked_trans (l₁ l₂ l₃ : Ledger P) (h₁ : StaysRevoked l₁ l₂)
    (h₂ : StaysRevoked l₂ l₃) : StaysRevoked l₁ l₃ := by
  intro id t ht hrevoked
  obtain ⟨t', ht', hrevoked', -⟩ := h₁ id t ht hrevoked
  exact h₂ id t' ht' hrevoked'

/-- A run is as expected exactly when every text that it writes to the ledger is steady. -/
theorem tokensSound_iff (as : List (Action P)) :
    Sound (Ledger.new P) as ↔ Meets step Writes (Ledger.new P) as := by
  have hkeep : ∀ (l : Ledger P) (a : Action P), Kept l → Writes l a → Kept (step l a) :=
    fun l a h ha => (h.of_reopens_step ((h.reopens_step_iff a).mpr ha)).1
  have hreopens : Always step Reopens (Ledger.new P) as ↔ Meets step Writes (Ledger.new P) as :=
    always_iff_meets_of_kept (fun l h => h.reopens) hkeep
      (fun l a h ha => (h.reopens_step_iff a).mp ha) kept_new
  refine ⟨fun h => hreopens.mp h.reopens, fun h => ?_⟩
  have hkept : Always step Kept (Ledger.new P) as := always_of_step hkeep kept_new h
  refine ⟨hreopens.mpr h, hkept.imp fun l hl => hl.bounded, ?_, ?_⟩
  · refine (henceforth_iff_meets staysRevoked_refl staysRevoked_trans).mpr ?_
    refine Meets.of_step (J := Kept) (fun l a hl ha => ?_) kept_new h
    have hstep := hl.of_reopens_step ((hl.reopens_step_iff a).mpr ha)
    exact ⟨hstep.1, hstep.2.staysRevoked⟩
  · rintro before n after rfl
    have hbefore := (always_of_step hkeep kept_new (meets_append.mp h).1).last
    rw [run_append]
    exact hbefore.noneExpired n

/-- A grant whose capability is named by the two halves of a character. -/
def splitGrant : Action reference :=
  .grant ⟨[0xD83D, 0xDE00], str "AST-COMPLEX-0", str "e1", 1, [], some (str "HUMAN-1"), 3⟩

/-- The name of the capability is read as one character, so a ledger that is opened on the file has
another token. -/
theorem not_sound_splitGrant :
    ¬ ∀ as : List (Action reference), Sound (Ledger.new reference) as := by
  intro h
  have hreopens : Reopens (step (Ledger.new reference) splitGrant) :=
    (h [splitGrant]).reopens.2.first
  have hwrites := (kept_new.reopens_step_iff splitGrant).mp hreopens
  have hsteady : Steady [0xD83D, 0xDE00] := (hwrites _ rfl rfl).1
  exact absurd (show readAscii [0xD83D, 0xDE00] = [0xD83D, 0xDE00] from hsteady) (by decide)

end Adaad.ExceptionTokens
