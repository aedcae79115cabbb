import Adaad.Governance.Foundation
import Adaad.Journal.Journal
import Adaad.Py.Assoc
import Adaad.Py.Letters

/-!
# The canon law

`runtime/governance/canon_law.py`: the clauses of the law are read from a JSON artifact, and a breach
of one is an entry of the journal.
-/

namespace Adaad.CanonLaw

open Py

variable (P : Platform)

/-- `ESCALATION_ORDER` -/
def escalationOrder : List (Str × Nat) :=
  [(str "advisory", 1), (str "conservative", 2), (str "governance", 3), (str "critical", 4)]

/-- `CanonClause` -/
structure CanonClause where
  article : Str
  clauseId : Str
  appliesTo : Str
  enforcement : Str
  escalation : Str
  mutationBlock : Bool
  failClosed : Bool
  deriving DecidableEq, Repr

/-- `CanonLawError`, by its message. -/
inductive CanonLawError where
  /-- `undefined escalation state: {value!r}` -/
  | undefinedEscalation (value : Option P.Obj)
  /-- `canon law artifact missing clauses` -/
  | missingClauses
  /-- `canon law clause must be object` -/
  | notObject
  /-- `canon law clause missing clause_id` -/
  | missingClauseId

/-- What stops a caller of the law. -/
inductive Stop where
  | canonLaw (e : CanonLawError P)
  /-- `KeyError` -/
  | keyError (key : Str)
  | fault (e : Fault)

variable {P}

/-! ### The artifact -/

/-- `_validate_escalation` -/
def validateEscalation (value : Option P.Obj) : Except (CanonLawError P) Str :=
  match value with
  | some (.str s) =>
    if (escalationOrder.lookup s).isSome then .ok s else .error (.undefinedEscalation value)
  | _ => .error (.undefinedEscalation value)

/-- `bool(item.get(key, False))` -/
def flag (item : Members P.Float) (key : Str) : Bool :=
  ((get item key).map (truthy P)).getD false

/-- The body of the loop of `load_canon_law`. -/
def readClause (clauses : List (Str × CanonClause)) (item : P.Obj) :
    Except (CanonLawError P) (List (Str × CanonClause)) :=
  match item with
  | .dict item => do
    let escalation ← validateEscalation (get item (str "escalation"))
    let clause : CanonClause :=
      { article := strOr P (get item (str "article"))
        clauseId := strOr P (get item (str "clause_id"))
        appliesTo := strOr P (get item (str "applies_to"))
        enforcement := strOr P (get item (str "enforcement"))
        escalation := escalation
        mutationBlock := flag item (str "mutation_block")
        failClosed := flag item (str "fail_closed") }
    if clause.clauseId = [] then .error .missingClauseId
    else .ok (Assoc.set clauses clause.clauseId clause)
  | _ => .error .notObject

def clausesOf (raw : P.Obj) : Except (CanonLawError P) (List (Str × CanonClause)) :=
  match raw.members?.bind fun raw => get raw (str "clauses") with
  | some (.list (item :: items)) => (item :: items).foldlM readClause []
  | _ => .error .missingClauses

variable (P) in
/-- `load_canon_law`, on the bytes of the artifact. -/
def loadCanonLaw (artifact : Bytes) : Except (Stop P) (List (Str × CanonClause)) := do
  let text ← (readText artifact).mapError (.fault ∘ .raised)
  match loads P text with
  | none => .error (.fault (.raised .jsonDecodeError))
  | some raw => (clausesOf raw).mapError .canonLaw

/-- `one_way_escalation` -/
def oneWayEscalation (current requested : Str) : Except (CanonLawError P) Str := do
  let current ← validateEscalation (some (.str current))
  let requested ← validateEscalation (some (.str requested))
  if (escalationOrder.lookup requested).getD 0 < (escalationOrder.lookup current).getD 0 then
    .ok current
  else .ok requested

/-! ### Breaches -/

/-- The payload of `violation_event_payload` without its hash. -/
def violation (component : Str) (clause : CanonClause) (reason : Str) (context : Dict P.Float) :
    Members P.Float :=
  [(.str (str "component"), .str component), (.str (str "article"), .str clause.article),
    (.str (str "clause_id"), .str clause.clauseId), (.str (str "reason"), .str reason),
    (.str (str "escalation"), .str clause.escalation),
    (.str (str "mutation_block"), .bool clause.mutationBlock),
    (.str (str "fail_closed"), .bool clause.failClosed),
    (.str (str "context"), .dict context.items)]

/-- `violation_event_payload` -/
def violationEventPayload (component : Str) (clause : CanonClause) (reason : Str)
    (context : Dict P.Float) : Except Exc (Dict P.Float) := do
  let hash ← canonicalDigest P (.dict (violation component clause reason context))
  return {
    items := violation component clause reason context ++ [(.str (str "payload_hash"), .str hash)]
    wf := by
      refine wf_of_names [str "component", str "article", str "clause_id", str "reason",
        str "escalation", str "mutation_block", str "fail_closed", str "context",
        str "payload_hash"] rfl (by decide) ?_
      simp only [violation, List.cons_append, List.nil_append, List.forall_mem_cons]
      exact ⟨trivial, trivial, trivial, trivial, trivial, trivial, trivial, context.wf, trivial,
        List.forall_mem_nil _⟩ }

variable (u : Letters P)

/-- `emit_violation_event` -/
def emitViolationEvent (component : Str) (clause : CanonClause) (reason : Str)
    (context : Dict P.Float) (clock : Journal.Clock) (w : Journal.World) :
    Except Fault (Members P.Float) × Journal.World :=
  match violationEventPayload component clause reason context with
  | .error e => (.error (.raised e), w)
  | .ok payload =>
    Journal.appendTx P
      { txType := str "governance_canon_violation"
        payload := payload
        txId := some (str "CANON-" ++ u.upper component ++ str "-" ++ clause.clauseId)
        tenantContext := [] } clock w

end Adaad.CanonLaw
