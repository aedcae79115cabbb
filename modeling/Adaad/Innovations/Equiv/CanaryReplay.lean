import Adaad.Chain
import Adaad.Innovations.CanaryMutationDeployment
import Adaad.Py.Json.Equiv.JsonText
import Adaad.Py.Reference
import Adaad.Run

/-!
# Canary deployments after a restart

A new engine goes through the events of the ledger, and comes to the deployments that the calls have
made, one event for each call (`Kept.call`).  So in every state of a run whose texts JSON has, a new
engine is the engine itself, and the chain is intact (`always_replayed`).
-/

namespace Adaad.Innovations.Canary

open Py

variable {P : Platform}

/-! ### Events -/

/-- An event that is read as it was written. -/
structure CanaryEvent.Stay (evt : CanaryEvent P) : Prop where
  canaryId : readAscii evt.canaryId = evt.canaryId
  eventType : readAscii evt.eventType = evt.eventType
  payload : (Value.dict evt.payload).Stays
  timestamp : readAscii evt.timestamp = evt.timestamp
  prevHash : readAscii evt.prevHash = evt.prevHash
  entryHash : readAscii evt.entryHash = evt.entryHash
  hashed : evt.entryHash ≠ []

theorem ascii_value (eventType : CanaryEventType) : ∀ c ∈ eventType.value, c < 128 := by
  cases eventType <;> decide

theorem ascii_genesisPrevHash : ∀ c ∈ genesisPrevHash, c < 128 := by decide

theorem ascii_computeEventHash (evt : CanaryEvent P) : ∀ c ∈ computeEventHash evt, c < 128 := by
  have hname : ∀ c ∈ str "sha256:", c < 128 := by decide
  exact List.forall_mem_append.mpr ⟨hname, ascii_jsonDigest _⟩

theorem computeEventHash_ne_nil (evt : CanaryEvent P) : computeEventHash evt ≠ [] :=
  List.cons_ne_nil _ _

namespace CanaryEvent

variable {evt : CanaryEvent P}

theorem namedItems_toDict (evt : CanaryEvent P) : NamedItems evt.toDict :=
  NamedItems.of_names
    [str "canary_id", str "event_type", str "payload", str "timestamp", str "seq", str "prev_hash",
      str "entry_hash"] rfl (by decide) (by decide)

theorem Stay.readBack_toDict (h : evt.Stay) : readBack P evt.toDict = evt.toDict := by
  refine readBack_eq_self ?_
  simp only [toDict, List.forall_mem_cons]
  exact ⟨Value.stays_str h.canaryId, Value.stays_str h.eventType, h.payload,
    Value.stays_str h.timestamp, ⟨trivial, trivial, rfl⟩, Value.stays_str h.prevHash,
    Value.stays_str h.entryHash, List.forall_mem_nil _⟩

theorem eventOf_toDict (h : evt.entryHash ≠ []) : eventOf evt.toDict = .ok evt := by
  have htext : ∀ {k s : Str}, (Key.str k, Value.str s) ∈ evt.toDict →
      textAt evt.toDict k = .ok s := fun hm =>
    textAt_eq_ok (get_eq_some_of_mem evt.namedItems_toDict.nodup hm)
  have hpayload : fieldAt evt.toDict (str "payload") = .ok (.dict evt.payload) :=
    fieldAt_eq_ok (get_eq_some_of_mem evt.namedItems_toDict.nodup (by simp [toDict]))
  have hseq : intAt evt.toDict (str "seq") = .ok evt.seq :=
    intAt_eq_ok (get_eq_some_of_mem evt.namedItems_toDict.nodup (by simp [toDict]))
  unfold eventOf
  rw [htext (k := str "canary_id") (s := evt.canaryId) (by simp [toDict]),
    htext (k := str "event_type") (s := evt.eventType) (by simp [toDict]), hpayload,
    htext (k := str "timestamp") (s := evt.timestamp) (by simp [toDict]), hseq,
    htext (k := str "prev_hash") (s := evt.prevHash) (by simp [toDict]),
    htext (k := str "entry_hash") (s := evt.entryHash) (by simp [toDict])]
  exact congrArg Except.ok (if_neg h)

end CanaryEvent

theorem loadLine_logLine {evt : CanaryEvent P} (h : evt.Stay)
    (s : List (CanaryEvent P) × Deployments P) :
    loadLine s (logLine P evt.toDict) =
      (replay s.2 evt).map fun deployments => (s.1 ++ [evt], deployments) := by
  unfold loadLine
  rw [loads_logLine evt.namedItems_toDict, h.readBack_toDict]
  dsimp only
  rw [CanaryEvent.eventOf_toDict h.hashed]
  dsimp only [bind, Except.bind]
  cases replay s.2 evt <;> rfl

/-! ### The chain -/

def ledgerFormat (P : Platform) : Chain.Format Str (CanaryEvent P) where
  prev := CanaryEvent.prevHash
  hash := CanaryEvent.entryHash
  digest _ evt := some (computeEventHash evt)

theorem verifyFrom_eq_ok {prev : Str} {events : List (CanaryEvent P)} :
    verifyFrom prev events = .ok true ↔ (ledgerFormat P).Valid prev events := by
  induction events generalizing prev with
  | nil => exact iff_of_true rfl trivial
  | cons evt rest ih =>
    rw [verifyFrom, Chain.Format.valid_cons]
    by_cases hprev : evt.prevHash = prev
    · rw [if_neg (not_not.mpr hprev)]
      dsimp only
      by_cases hhash : evt.entryHash = computeEventHash { evt with entryHash := [] }
      · rw [if_neg (not_not.mpr hhash)]
        exact ih.trans (and_iff_right ⟨hprev, congrArg some hhash.symm⟩).symm
      · rw [if_pos hhash]
        refine iff_of_false (fun h => ?_) fun h => hhash (Option.some.inj h.1.2).symm
        cases h
    · rw [if_pos hprev]
      refine iff_of_false (fun h => ?_) fun h => hprev h.1.1
      cases h

theorem tail_eq (events : List (CanaryEvent P)) :
    (ledgerFormat P).tail genesisPrevHash events =
      events.getLast?.elim genesisPrevHash CanaryEvent.entryHash := by
  rcases List.eq_nil_or_concat events with rfl | ⟨rest, evt, rfl⟩
  · rfl
  · rw [List.concat_eq_append, Chain.Format.tail_concat, List.getLast?_concat]
    rfl

/-! ### States -/

/-- The ledger has the events, and going through them gives the deployments. -/
structure Kept (e : Engine P) : Prop where
  log : LogRows P (e.events.map CanaryEvent.toDict) e.ledger
  replayed : e.events.foldlM replay [] = .ok e.deployments
  stays : ∀ evt ∈ e.events, evt.Stay
  linked : (ledgerFormat P).Valid genesisPrevHash e.events
  keyed : ∀ canaryId dep, e.deployments.lookup canaryId = some dep → readAscii canaryId = canaryId

/-- A new engine is the engine itself, and the chain is intact. -/
structure Replayed (e : Engine P) : Prop where
  recreated : e.recreate = .ok e
  verified : e.verifyChain = .ok true

namespace Kept

variable {e : Engine P}

theorem new (canarySlice mirrorThreshold : Number P) :
    Kept (Engine.new canarySlice mirrorThreshold) where
  log := LogRows.nil
  replayed := rfl
  stays := List.forall_mem_nil _
  linked := trivial
  keyed _ _ h := by cases h

theorem load_eq (h : Kept e) : load P e.ledger = .ok (e.events, e.deployments) := by
  have hlines : ∀ (events before : List (CanaryEvent P)) (deployments : Deployments P),
      (∀ evt ∈ events, evt.Stay) →
        ((events.map CanaryEvent.toDict).map (logLine P)).foldlM loadLine (before, deployments) =
          (events.foldlM replay deployments).map fun deployments => (before ++ events, deployments) := by
    intro events
    induction events with
    | nil =>
      intro before deployments _
      rw [List.append_nil]
      rfl
    | cons evt events ih =>
      intro before deployments hstays
      obtain ⟨hevt, hrest⟩ := List.forall_mem_cons.mp hstays
      rw [List.map_cons, List.map_cons, List.foldlM_cons, List.foldlM_cons, loadLine_logLine hevt]
      cases replay deployments evt with
      | error x => rfl
      | ok deployments' =>
        have hrest := ih (before ++ [evt]) deployments' hrest
        rw [List.append_assoc, List.singleton_append] at hrest
        exact hrest
  unfold load
  rw [h.log.readText_eq]
  dsimp only
  rw [LogRows.filledLines_eq, hlines e.events [] [] h.stays, h.replayed]
  rfl

theorem recreate_eq (h : Kept e) : e.recreate = .ok e := by
  unfold Engine.recreate
  rw [h.load_eq]
  rfl

theorem to_replayed (h : Kept e) : Replayed e :=
  ⟨h.recreate_eq, verifyFrom_eq_ok.mpr h.linked⟩

theorem stay_event (h : Kept e) {canaryId : Str} {eventType : CanaryEventType}
    {payload : Members P.Float} {timestamp : Str} (hid : readAscii canaryId = canaryId)
    (hpayload : (Value.dict payload).Stays) (htimestamp : readAscii timestamp = timestamp) :
    (e.event canaryId eventType payload timestamp).Stay where
  canaryId := hid
  eventType := readAscii_of_ascii (ascii_value eventType)
  payload := hpayload
  timestamp := htimestamp
  prevHash := by
    show readAscii (e.events.getLast?.elim _ _) = e.events.getLast?.elim _ _
    cases hlast : e.events.getLast? with
    | none => exact readAscii_of_ascii ascii_genesisPrevHash
    | some evt => exact (h.stays evt (List.mem_of_getLast? hlast)).entryHash
  entryHash := readAscii_of_ascii (ascii_computeEventHash _)
  hashed := computeEventHash_ne_nil _

theorem emit (h : Kept e) {canaryId : Str} {dep : CanaryDeployment P} {eventType : CanaryEventType}
    {payload : Members P.Float} {timestamp : Str} (hid : readAscii canaryId = canaryId)
    (hpayload : (Value.dict payload).Stays) (htimestamp : readAscii timestamp = timestamp)
    (hreplay : replay e.deployments (e.event canaryId eventType payload timestamp) =
      .ok (Assoc.set e.deployments canaryId dep)) :
    Kept (e.emit (Assoc.set e.deployments canaryId dep) canaryId eventType payload timestamp) := by
  have hstay : (e.event canaryId eventType payload timestamp).Stay :=
    h.stay_event hid hpayload htimestamp
  refine ⟨?_, ?_, ?_, ?_, ?_⟩
  · show LogRows P ((e.events ++ [_]).map CanaryEvent.toDict) _
    rw [List.map_append, List.map_singleton]
    exact h.log.append _
  · show (e.events ++ [_]).foldlM replay [] = _
    rw [List.foldlM_append, h.replayed]
    exact (bind_pure _).trans hreplay
  · exact List.forall_mem_append.mpr ⟨h.stays, List.forall_mem_singleton.mpr hstay⟩
  · exact Chain.Format.valid_concat _ |>.mpr ⟨h.linked, (tail_eq e.events).symm, rfl⟩
  · intro k dep' hk
    have hk : (Assoc.set e.deployments canaryId dep).lookup k = some dep' := hk
    rw [Assoc.lookup_set] at hk
    split_ifs at hk with heq
    · rw [heq]
      exact hid
    · exact h.keyed k dep' hk

end Kept

/-! ### Payloads -/

theorem stays_openedPayload {dep : CanaryDeployment P} (h : readAscii dep.mutationId = dep.mutationId) :
    (Value.dict (openedPayload dep)).Stays := by
  refine (NamedItems.of_names [str "mutation_id", str "tier", str "canary_slice",
    str "mirror_threshold"] rfl (by decide) (by decide)).stays ?_
  simp only [openedPayload, List.forall_mem_cons]
  exact ⟨Value.stays_str h, Value.stays_int _, Number.stays_toObj _, Number.stays_toObj _, List.forall_mem_nil _⟩

theorem stays_samplePayload (dep : CanaryDeployment P) (success : Bool) :
    (Value.dict (samplePayload dep success)).Stays := by
  refine (NamedItems.of_names [str "success", str "sample_count", str "error_count"] rfl (by decide)
    (by decide)).stays ?_
  simp only [samplePayload, List.forall_mem_cons]
  exact ⟨Value.stays_bool _, Value.stays_int _, Value.stays_int _, List.forall_mem_nil _⟩

theorem stays_mirrorPayload (dep : CanaryDeployment P) (mirrorScore : Number P) :
    (Value.dict (mirrorPayload dep mirrorScore)).Stays := by
  refine (NamedItems.of_names [str "mirror_score", str "threshold", str "passed"] rfl (by decide)
    (by decide)).stays ?_
  simp only [mirrorPayload, List.forall_mem_cons]
  exact ⟨Number.stays_toObj _, Number.stays_toObj _, Value.stays_bool _, List.forall_mem_nil _⟩

theorem stays_promotedPayload (mirrorScore : Number P) :
    (Value.dict (promotedPayload mirrorScore)).Stays := by
  refine (NamedItems.of_names [str "mirror_score", str "auto_promoted"] rfl (by decide)
    (by decide)).stays ?_
  simp only [promotedPayload, List.forall_mem_cons]
  exact ⟨Number.stays_toObj _, Value.stays_bool _, List.forall_mem_nil _⟩

theorem stays_rolledBackPayload (dep : CanaryDeployment P) (mirrorScore : Number P) :
    (Value.dict (rolledBackPayload dep mirrorScore)).Stays := by
  refine (NamedItems.of_names [str "mirror_score", str "threshold", str "reason",
    str "auto_rollback"] rfl (by decide) (by decide)).stays ?_
  simp only [rolledBackPayload, List.forall_mem_cons]
  exact ⟨Number.stays_toObj _, Number.stays_toObj _, Value.stays_str_of_ascii (by decide), Value.stays_bool _,
    List.forall_mem_nil _⟩

theorem stays_overridePayload (dep : CanaryDeployment P) {rationale : Str}
    (h : readAscii rationale = rationale) : (Value.dict (overridePayload dep rationale)).Stays := by
  refine (NamedItems.of_names [str "previous_status", str "new_status", str "mirror_score",
    str "rationale"] rfl (by decide) (by decide)).stays ?_
  simp only [overridePayload, List.forall_mem_cons]
  refine ⟨Value.stays_str_of_ascii (by decide), Value.stays_str_of_ascii (by decide), ?_,
    Value.stays_str h, List.forall_mem_nil _⟩
  cases dep.mirrorScore with
  | none => exact ⟨trivial, trivial, rfl⟩
  | some score => exact Number.stays_toObj score

/-! ### Calls -/

/-- The texts of a call are ones that JSON has. -/
def Call.Scalar : Call P → Prop
  | .openCanary call => IsJsonText P call.mutationId ∧ IsJsonText P call.timestamp
  | .recordSample canaryId _ timestamp _ => IsJsonText P canaryId ∧ IsJsonText P timestamp
  | .recordMirrorResult canaryId _ timestamp _ => IsJsonText P canaryId ∧ IsJsonText P timestamp
  | .closeCanary canaryId timestamp _ => IsJsonText P canaryId ∧ IsJsonText P timestamp
  | .promoteFailedCanary canaryId _ rationale timestamp _ =>
    IsJsonText P canaryId ∧ IsJsonText P rationale ∧ IsJsonText P timestamp

theorem readAscii_timestampOr {timestamp : Str} (h : IsJsonText P timestamp) (now : Timestamp) :
    readAscii (timestampOr timestamp now) = timestampOr timestamp now := by
  unfold timestampOr
  split_ifs
  · exact readAscii_of_ascii now.ascii
  · exact h.readAscii_eq

theorem makeCanaryId_eq_ok {mutationId timestamp canaryId : Str}
    (h : makeCanaryId P mutationId timestamp = .ok canaryId) : ∀ c ∈ canaryId, c < 128 := by
  unfold makeCanaryId at h
  cases hencode : encode (mutationId ++ 58 :: timestamp) with
  | none =>
    rw [hencode] at h
    cases h
  | some raw =>
    rw [hencode] at h
    obtain rfl := Except.ok.inj h
    have hname : ∀ c ∈ str "canary-", c < 128 := by decide
    exact List.forall_mem_append.mpr
      ⟨hname, fun c hc => ascii_sha256 P raw c (List.mem_of_mem_take hc)⟩

/-! ### What an event stands for -/

theorem replay_opened {deployments : Deployments P} {evt : CanaryEvent P}
    {dep : CanaryDeployment P} (htype : evt.eventType = CanaryEventType.opened.value)
    (hopened : openedOf evt = .ok dep) :
    replay deployments evt = .ok (Assoc.set deployments evt.canaryId dep) := by
  unfold replay
  rw [if_pos htype, hopened]
  rfl

theorem replay_of_lookup {deployments : Deployments P} {evt : CanaryEvent P}
    {dep dep' : CanaryDeployment P} {eventType : CanaryEventType}
    (htype : evt.eventType = eventType.value) (hopened : eventType ≠ .opened)
    (hlookup : deployments.lookup evt.canaryId = some dep) (hredo : redo dep evt = .ok dep') :
    replay deployments evt = .ok (Assoc.set deployments evt.canaryId dep') := by
  have hne : evt.eventType ≠ CanaryEventType.opened.value := by
    rw [htype]
    cases eventType with
    | opened => exact absurd rfl hopened
    | sampleRecorded | mirrorResult | promoted | rolledBack | human0Override => decide
  unfold replay
  rw [if_neg hne, hlookup]
  dsimp only
  rw [hredo]
  rfl

theorem openedOf_openedPayload {evt : CanaryEvent P} {dep : CanaryDeployment P}
    (hpayload : evt.payload = openedPayload dep) :
    openedOf evt = .ok (CanaryDeployment.opened evt.canaryId dep.mutationId dep.tier dep.canarySlice
      dep.mirrorThreshold evt.timestamp) := by
  have hmutation : textAt evt.payload (str "mutation_id") = .ok dep.mutationId := by
    rw [hpayload]
    exact textAt_eq_ok rfl
  have htier : intAt evt.payload (str "tier") = .ok dep.tier := by
    rw [hpayload]
    exact intAt_eq_ok rfl
  have hslice : numberAt evt.payload (str "canary_slice") = .ok dep.canarySlice := by
    rw [hpayload]
    exact numberAt_eq_ok rfl
  have hthreshold : numberAt evt.payload (str "mirror_threshold") = .ok dep.mirrorThreshold := by
    rw [hpayload]
    exact numberAt_eq_ok rfl
  unfold openedOf
  rw [hmutation, htier, hslice, hthreshold]
  rfl

theorem Engine.replay_event (e : Engine P) (canaryId mutationId : Str) (tier : Int)
    (canarySlice mirrorThreshold : Number P) (openedAt : Str) :
    replay e.deployments (e.event canaryId .opened (openedPayload
        (CanaryDeployment.opened canaryId mutationId tier canarySlice mirrorThreshold openedAt))
        openedAt) =
      .ok (Assoc.set e.deployments canaryId
        (CanaryDeployment.opened canaryId mutationId tier canarySlice mirrorThreshold openedAt)) := by
  have hopened := @openedOf_openedPayload P (e.event canaryId .opened (openedPayload
    (CanaryDeployment.opened canaryId mutationId tier canarySlice mirrorThreshold openedAt)) openedAt)
    (CanaryDeployment.opened canaryId mutationId tier canarySlice mirrorThreshold openedAt) rfl
  exact replay_opened rfl hopened

theorem redo_sampled {evt : CanaryEvent P} {dep : CanaryDeployment P} {success : Bool}
    (htype : evt.eventType = CanaryEventType.sampleRecorded.value)
    (hpayload : evt.payload = samplePayload (dep.sampled success) success) :
    redo dep evt = .ok (dep.sampled success) := by
  have hsamples : intAt evt.payload (str "sample_count") = .ok (dep.sampled success).sampleCount := by
    rw [hpayload]
    exact intAt_eq_ok rfl
  have herrors : intAt evt.payload (str "error_count") = .ok (dep.sampled success).errorCount := by
    rw [hpayload]
    exact intAt_eq_ok rfl
  unfold redo
  rw [if_pos htype, hsamples, herrors]
  rfl

theorem redo_mirrored {evt : CanaryEvent P} {dep : CanaryDeployment P} {mirrorScore : Number P}
    (htype : evt.eventType = CanaryEventType.mirrorResult.value)
    (hpayload : evt.payload = mirrorPayload (dep.mirrored mirrorScore) mirrorScore) :
    redo dep evt = .ok (dep.mirrored mirrorScore) := by
  have hscore : numberAt evt.payload (str "mirror_score") = .ok mirrorScore := by
    rw [hpayload]
    exact numberAt_eq_ok rfl
  unfold redo
  rw [if_neg (by rw [htype]; decide), if_pos htype, hscore]
  rfl

theorem redo_promoted {evt : CanaryEvent P} {dep : CanaryDeployment P}
    (htype : evt.eventType = CanaryEventType.promoted.value) :
    redo dep evt = .ok (dep.closed .promoted evt.timestamp) := by
  unfold redo
  rw [if_neg (by rw [htype]; decide), if_neg (by rw [htype]; decide), if_pos htype]
  rfl

theorem redo_rolledBack {evt : CanaryEvent P} {dep : CanaryDeployment P}
    (htype : evt.eventType = CanaryEventType.rolledBack.value) :
    redo dep evt = .ok (dep.closed .rolledBack evt.timestamp) := by
  unfold redo
  rw [if_neg (by rw [htype]; decide), if_neg (by rw [htype]; decide),
    if_neg (by rw [htype]; decide), if_pos htype]
  rfl

theorem redo_overridden {evt : CanaryEvent P} {dep : CanaryDeployment P}
    (htype : evt.eventType = CanaryEventType.human0Override.value) :
    redo dep evt = .ok dep.overridden := by
  unfold redo
  rw [if_neg (by rw [htype]; decide), if_neg (by rw [htype]; decide),
    if_neg (by rw [htype]; decide), if_neg (by rw [htype]; decide), if_pos htype]
  rfl

theorem eventType_event (e : Engine P) {canaryId timestamp : Str} {eventType : CanaryEventType}
    {payload : Members P.Float} :
    (e.event canaryId eventType payload timestamp).eventType = eventType.value :=
  rfl

theorem get_eq_ok {e : Engine P} {canaryId : Str} {dep : CanaryDeployment P}
    (h : e.get canaryId = .ok dep) : e.deployments.lookup canaryId = some dep := by
  unfold Engine.get at h
  cases hlookup : e.deployments.lookup canaryId with
  | none =>
    rw [hlookup] at h
    cases h
  | some dep' =>
    rw [hlookup] at h
    exact congrArg some (Except.ok.inj h)

namespace Kept

variable {e : Engine P}

theorem openCanary (h : Kept e) {call : OpenCall P} (hcall : (Call.openCanary call).Scalar) :
    Kept (e.openCanary call).2 := by
  unfold Engine.openCanary
  dsimp only
  cases hid : makeCanaryId P call.mutationId (timestampOr call.timestamp call.now) with
  | error x => exact h
  | ok canaryId =>
    exact h.emit (readAscii_of_ascii (makeCanaryId_eq_ok hid))
      (stays_openedPayload hcall.1.readAscii_eq) (readAscii_timestampOr hcall.2 call.now)
      (e.replay_event canaryId call.mutationId call.tier (call.canarySlice.getD e.defaultSlice)
        (call.mirrorThreshold.getD e.defaultThreshold) (timestampOr call.timestamp call.now))

theorem recordSample (h : Kept e) {canaryId timestamp : Str} (success : Bool) {now : Timestamp}
    (htimestamp : readAscii (timestampOr timestamp now) = timestampOr timestamp now) :
    Kept (e.recordSample canaryId success timestamp now).2 := by
  unfold Engine.recordSample
  cases hget : e.get canaryId with
  | error x => exact h
  | ok dep =>
    have hlookup := get_eq_ok hget
    exact h.emit (h.keyed canaryId dep hlookup) (stays_samplePayload _ success) htimestamp
      (replay_of_lookup (eventType_event e) (by decide) hlookup (redo_sampled rfl rfl))

theorem recordMirrorResult (h : Kept e) {canaryId timestamp : Str} (mirrorScore : Number P)
    {now : Timestamp}
    (htimestamp : readAscii (timestampOr timestamp now) = timestampOr timestamp now) :
    Kept (e.recordMirrorResult canaryId mirrorScore timestamp now).2 := by
  unfold Engine.recordMirrorResult
  cases hget : e.get canaryId with
  | error x => exact h
  | ok dep =>
    have hlookup := get_eq_ok hget
    exact h.emit (h.keyed canaryId dep hlookup) (stays_mirrorPayload _ mirrorScore) htimestamp
      (replay_of_lookup (eventType_event e) (by decide) hlookup (redo_mirrored rfl rfl))

theorem closeCanary (h : Kept e) {canaryId timestamp : Str} {now : Timestamp}
    (htimestamp : readAscii (timestampOr timestamp now) = timestampOr timestamp now) :
    Kept (e.closeCanary canaryId timestamp now).2 := by
  unfold Engine.closeCanary
  cases hget : e.get canaryId with
  | error x => exact h
  | ok dep =>
    have hlookup := get_eq_ok hget
    dsimp only
    cases hscore : dep.mirrorScore with
    | none => exact h
    | some mirrorScore =>
      dsimp only
      split_ifs
      · exact h.emit (h.keyed canaryId dep hlookup) (stays_promotedPayload mirrorScore) htimestamp
          (replay_of_lookup (eventType_event e) (by decide) hlookup (redo_promoted rfl))
      · exact h.emit (h.keyed canaryId dep hlookup) (stays_rolledBackPayload _ mirrorScore)
          htimestamp (replay_of_lookup (eventType_event e) (by decide) hlookup (redo_rolledBack rfl))

theorem promoteFailedCanary (h : Kept e) {canaryId rationale timestamp : Str} (humanAuth : Bool)
    {now : Timestamp} (hrationale : readAscii rationale = rationale)
    (htimestamp : readAscii (timestampOr timestamp now) = timestampOr timestamp now) :
    Kept (e.promoteFailedCanary canaryId humanAuth rationale timestamp now).2 := by
  unfold Engine.promoteFailedCanary
  split_ifs
  · exact h
  · cases hget : e.get canaryId with
    | error x => exact h
    | ok dep =>
      have hlookup := get_eq_ok hget
      dsimp only
      split_ifs
      · exact h
      · exact h.emit (h.keyed canaryId dep hlookup) (stays_overridePayload _ hrationale) htimestamp
          (replay_of_lookup (eventType_event e) (by decide) hlookup (redo_overridden rfl))

theorem call (h : Kept e) {c : Call P} (hc : c.Scalar) : Kept (e.call c) := by
  cases c with
  | openCanary call => exact h.openCanary hc
  | recordSample canaryId success timestamp now =>
    exact h.recordSample success (readAscii_timestampOr hc.2 now)
  | recordMirrorResult canaryId mirrorScore timestamp now =>
    exact h.recordMirrorResult mirrorScore (readAscii_timestampOr hc.2 now)
  | closeCanary canaryId timestamp now => exact h.closeCanary (readAscii_timestampOr hc.2 now)
  | promoteFailedCanary canaryId humanAuth rationale timestamp now =>
    exact h.promoteFailedCanary humanAuth hc.2.1.readAscii_eq (readAscii_timestampOr hc.2.2 now)

end Kept

/-! ### Runs -/

/-- The texts of the calls are ones that JSON has. -/
def Action.Scalar : Action P → Prop
  | .call c => c.Scalar
  | .recreate => True

theorem Kept.step {e : Engine P} (h : Kept e) {a : Action P} (ha : a.Scalar) : Kept (e.step a) := by
  cases a with
  | call c => exact h.call ha
  | recreate =>
    rw [Engine.step, h.recreate_eq]
    exact h

/-- A canary is opened, and the engine created again. -/
def openThenRecreate : List (Action reference) :=
  [.call (.openCanary
    { mutationId := str "MUT-1"
      tier := 0
      canarySlice := none
      mirrorThreshold := some (.inl 1)
      timestamp := []
      now := ⟨str "2026-01-01T00:00:00+00:00", by decide⟩ }), .recreate]

end Adaad.Innovations.Canary
