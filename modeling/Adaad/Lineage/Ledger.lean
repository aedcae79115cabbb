import Adaad.Ledger.ChainFile
import Adaad.Tenancy.Tenancy

/-!
# Digests of the lineage ledger

`LineageLedgerV2`: how the digest of an epoch goes on with each bundle that is appended, and what is
read of an entry for it.
-/

namespace Adaad.Lineage

open Py Tenancy

variable (P : Platform)

/-! ### Keys -/

def typeKey : Str := str "type"
def epochIdKey : Str := str "epoch_id"
def bundleIdKey : Str := str "bundle_id"
def certificateKey : Str := str "certificate"
def bundleDigestKey : Str := str "bundle_digest"
def epochDigestKey : Str := str "epoch_digest"

def mutationBundleEvent : Str := str "MutationBundleEvent"
def epochCheckpointEvent : Str := str "EpochCheckpointEvent"

/-- `v == s` for a string `s`, where a missing value is `None`. -/
def isText {F : Type} (v : Option (Value F)) (s : Str) : Bool :=
  match v with
  | some (.str t) => t = s
  | _ => false

/-- The `float` that is written `0.` and these digits. -/
def decimal (digits : String) : P.Float :=
  P.floatOf (.lit ⟨false, str "0", str digits, none⟩)

/-! ### Entries -/

/-- `entry.get("payload", {}).get(key)` -/
def payloadGet (entry : Members P.Float) (key : Str) : Except Exc (Option P.Obj) :=
  match get entry payloadKey with
  | none => .ok none
  | some (.dict payload) => .ok (get payload key)
  | some _ => .error .attributeError

/-- `entry.get("payload", {}).get("epoch_id") == epoch_id` -/
def isInEpoch (epochId : Str) (entry : Members P.Float) : Except Exc Bool := do
  return isText (← payloadGet P entry epochIdKey) epochId

/-! ### Epoch digests -/

/-- `hashlib.sha256(text.encode("utf-8")).hexdigest()` -/
def sha256Text (t : Str) : Except Exc Str :=
  match encode t with
  | none => .error .unicodeEncodeError
  | some b => .ok (P.sha256 b)

/-- `"sha256:" + hashlib.sha256(json.dumps(value, …,
sort_keys=True).encode("utf-8")).hexdigest()` -/
def prefixedDigest (L : Layout) (v : P.Obj) : Except Exc Str :=
  match dumpsSorted P L v with
  | none => .error .typeError
  | some t => (sha256Text P t).map (str "sha256:" ++ ·)

/-- `bundle_event.get("certificate", {})`, which has to have a method `get`. -/
def certificateOf (bundleEvent : Members P.Float) : Except Exc (Members P.Float) :=
  match get bundleEvent certificateKey with
  | none => .ok []
  | some (.dict certificate) => .ok certificate
  | some _ => .error .attributeError

/-- `compute_bundle_digest` -/
def computeBundleDigest (bundleEvent : Members P.Float) : Except Exc Str := do
  let certificate ← certificateOf P bundleEvent
  prefixedDigest P .spaced (.dict
    [(.str epochIdKey, (get bundleEvent epochIdKey).getD .none),
      (.str bundleIdKey,
        (orElse P (get bundleEvent bundleIdKey) (get certificate bundleIdKey)).getD .none),
      (.str (str "impact"),
        (orElse P (get bundleEvent (str "impact")) (get bundleEvent (str "impact_score"))).getD
          .none),
      (.str (str "strategy_set"),
        (orElse P (get bundleEvent (str "strategy_set"))
          (orElse P (get certificate (str "strategy_set")) (some (.list [])))).getD .none),
      (.str (str "strategy_snapshot_hash"),
        (get certificate (str "strategy_snapshot_hash")).getD (.str [])),
      (.str (str "strategy_version_set"),
        (get certificate (str "strategy_version_set")).getD (.list [])),
      (.str certificateKey, (orElse P (get bundleEvent certificateKey) (some (.dict []))).getD .none)])

/-- `"sha256:0"` -/
def emptyDigest : Str := str "sha256:0"

/-- `"sha256:" + hashlib.sha256((previous + bundle_digest).encode("utf-8")).hexdigest()` -/
def chainDigest (previous bundleDigest : Str) : Except Exc Str :=
  (sha256Text P (previous ++ bundleDigest)).map (str "sha256:" ++ ·)

/-- The body of the loop of `get_epoch_digest`. -/
def noteEpochDigest (digest : Option Str) (entry : Members P.Float) : Option Str :=
  let recorded := get (payloadOf P entry) epochDigestKey
  if (isText (get entry typeKey) mutationBundleEvent ∨
      isText (get entry typeKey) epochCheckpointEvent) ∧ (recorded.any (truthy P)) then
    some (strOr P recorded)
  else digest

/-- The payload that `append_bundle_with_digest` appends. -/
def bundlePayload (epochId bundleDigest epochDigest : Str) (bundleEvent : Members P.Float) :
    Members P.Float :=
  set (set (set bundleEvent epochIdKey (.str epochId)) bundleDigestKey (.str bundleDigest))
    epochDigestKey (.str epochDigest)

/-- `digest or "sha256:0"` -/
def digestOr (digest : Option Str) : Str :=
  match digest with
  | none => emptyDigest
  | some [] => emptyDigest
  | some d => d

end Adaad.Lineage
