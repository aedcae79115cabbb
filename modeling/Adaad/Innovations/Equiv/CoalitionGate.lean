import Adaad.Innovations.AgentCoalition
import Adaad.Py.Reference
import Adaad.Run

/-!
# The gate at the end of an epoch

The gate looks at the coalitions in memory, and what has to be done is in the ledger.  Where no
coalition is formed under an id that is active, none is active when the engine is created again, and no
write fails when a coalition is resolved or dissolved, the gate lets an epoch end only when every
coalition that was sealed has been resolved and dissolved (`always_accounted`).
-/

namespace Adaad.Innovations.AgentCoalition

open Py

variable {P : Platform}

/-! ### The statuses of one id -/

/-- Whatever is sealed is resolved and dissolved next. -/
inductive Settled : List CoalitionStatus → Prop where
  | nil : Settled []
  | other {status : CoalitionStatus} {rest : List CoalitionStatus} (hne : status ≠ .sealed)
      (hrest : Settled rest) : Settled (status :: rest)
  | concluded {rest : List CoalitionStatus} (hrest : Settled rest) :
      Settled (.sealed :: .resolved :: .dissolved :: rest)

theorem Settled.append {xs ys : List CoalitionStatus} (hxs : Settled xs) (hys : Settled ys) :
    Settled (xs ++ ys) := by
  induction hxs with
  | nil => exact hys
  | other hne _ ih => exact .other hne ih
  | concluded _ ih => exact .concluded ih

theorem Settled.take_two {xs ys : List CoalitionStatus} (h : Settled (xs ++ .sealed :: ys)) :
    ys.take 2 = [.resolved, .dissolved] := by
  generalize hzs : xs ++ .sealed :: ys = zs at h
  induction h generalizing xs with
  | nil => exact absurd hzs (by simp)
  | other hne _ ih =>
    cases xs with
    | nil => exact absurd (List.cons.inj hzs).1.symm hne
    | cons x xs => exact ih (List.cons.inj hzs).2
  | concluded _ ih =>
    rcases xs with - | ⟨x, - | ⟨x', - | ⟨x'', xs⟩⟩⟩
    · rw [(List.cons.inj hzs).2]
      rfl
    · cases (List.cons.inj (List.cons.inj hzs).2).1
    · cases (List.cons.inj (List.cons.inj (List.cons.inj hzs).2).2).1
    · exact ih (List.cons.inj (List.cons.inj (List.cons.inj hzs).2).2).2

/-- The statuses that were written are settled, but for those of the coalition that is active. -/
def Stands (statuses : List CoalitionStatus) (current : Option CoalitionStatus) : Prop :=
  Settled statuses ∨ ∃ before, Settled before ∧
    (statuses = before ++ [.sealed] ∧ current = some .sealed ∨
      statuses = before ++ [.sealed, .resolved] ∧ current = some .resolved)

namespace Stands

variable {statuses : List CoalitionStatus} {current : Option CoalitionStatus}

theorem settled (h : Stands statuses current) (hsealed : current ≠ some .sealed)
    (hresolved : current ≠ some .resolved) : Settled statuses := by
  rcases h with h | ⟨before, -, ⟨-, heq⟩ | ⟨-, heq⟩⟩
  · exact h
  · exact absurd heq hsealed
  · exact absurd heq hresolved

theorem sealing (h : Settled statuses) : Stands (statuses ++ [.sealed]) (some .sealed) :=
  .inr ⟨statuses, h, .inl ⟨rfl, rfl⟩⟩

theorem resolving (h : Stands statuses (some .sealed)) :
    Stands (statuses ++ [.resolved]) (some .resolved) := by
  rcases h with h | ⟨before, hbefore, ⟨rfl, -⟩ | ⟨-, heq⟩⟩
  · exact .inl (h.append (.other (by decide) .nil))
  · exact .inr ⟨before, hbefore, .inr ⟨by rw [List.append_assoc]; rfl, rfl⟩⟩
  · cases heq

theorem dissolving (h : Stands statuses (some .resolved)) : Settled (statuses ++ [.dissolved]) := by
  rcases h with h | ⟨before, hbefore, ⟨-, heq⟩ | ⟨rfl, -⟩⟩
  · exact h.append (.other (by decide) .nil)
  · cases heq
  · rw [List.append_assoc]
    exact hbefore.append (.concluded .nil)

end Stands

/-! ### What a call writes -/

theorem exists_sortKeys_toDict (rec : CoalitionRecord) :
    ∃ w, sortKeys P (.dict (rec.toDict P)) = some w := by
  refine exists_sortKeys P ?_
  have hmembers : (Value.list (rec.members.map (CoalitionMember.toObj P))).Plain := by
    rw [Value.Plain, plainList_iff]
    refine List.forall_mem_map.mpr fun m _ => ?_
    rw [CoalitionMember.toObj, Value.Plain, plainMembers_iff]
    simp only [List.forall_mem_cons]
    exact ⟨⟨rfl, trivial⟩, ⟨rfl, trivial⟩, ⟨rfl, trivial⟩, ⟨rfl, trivial⟩, ⟨rfl, trivial⟩,
      List.forall_mem_nil _⟩
  have hdistributions : (Value.dict (rec.distributions.map fun m =>
      ((.str m.1, .int m.2) : Key P.Float × P.Obj))).Plain := by
    rw [Value.Plain, plainMembers_iff]
    exact List.forall_mem_map.mpr fun m _ => ⟨rfl, trivial⟩
  rw [Value.Plain, plainMembers_iff, CoalitionRecord.toDict]
  simp only [List.forall_mem_cons]
  exact ⟨⟨rfl, trivial⟩, ⟨rfl, trivial⟩, ⟨rfl, trivial⟩, ⟨rfl, trivial⟩, ⟨rfl, trivial⟩,
    ⟨rfl, trivial⟩, ⟨rfl, trivial⟩, ⟨rfl, trivial⟩, ⟨rfl, trivial⟩, ⟨rfl, trivial⟩,
    ⟨rfl, trivial⟩, ⟨rfl, hmembers⟩, ⟨rfl, hdistributions⟩, List.forall_mem_nil _⟩

theorem emit_cases (e : Engine) (coal : Coalition) (status : CoalitionStatus) (outcome : Str)
    (fails : Bool) : ∃ e' rec, rec.coalitionId = coal.coalitionId ∧ rec.status = status ∧
      e'.active = e.active ∧
      (fails = true ∧ e.emit P coal status outcome fails = (.error .osError, e') ∧
          e'.ledger = e.ledger ∧ e'.records = e.records ∨
        fails = false ∧ e.emit P coal status outcome fails = (.ok (), e') ∧
          appendSorted P e.ledger (.dict (rec.toDict P)) = .ok e'.ledger ∧
          e'.records = e.records ++ [rec]) := by
  obtain ⟨⟨rec, e₁⟩, hmake⟩ : ∃ made, e.makeRecord P coal status outcome = made := ⟨_, rfl⟩
  obtain ⟨hid, hstatus⟩ : rec.coalitionId = coal.coalitionId ∧ rec.status = status := by
    obtain ⟨rfl, -⟩ := Prod.mk.inj hmake
    exact ⟨rfl, rfl⟩
  obtain ⟨hactive, hledger, hrecords⟩ :
      e₁.active = e.active ∧ e₁.ledger = e.ledger ∧ e₁.records = e.records := by
    obtain ⟨-, rfl⟩ := Prod.mk.inj hmake
    exact ⟨rfl, rfl, rfl⟩
  unfold Engine.emit
  rw [hmake]
  dsimp only
  unfold Engine.persist
  cases fails with
  | true =>
    exact ⟨e₁, rec, hid, hstatus, hactive, .inl ⟨rfl, rfl, hledger, hrecords⟩⟩
  | false =>
    obtain ⟨w, hw⟩ := exists_sortKeys_toDict (P := P) rec
    obtain ⟨ledger, happend⟩ := exists_appendSorted hw e₁.ledger
    rw [if_neg Bool.false_ne_true, happend]
    refine ⟨{ e₁ with ledger := ledger, records := e₁.records ++ [rec] }, rec, hid, hstatus, hactive,
      .inr ⟨rfl, rfl, hledger ▸ happend, ?_⟩⟩
    rw [← hrecords]

theorem formed_eq_ok {coalitionId mutationId complexityClass : Str} {members : List MemberSpec}
    {coal : Coalition} (h : formed coalitionId mutationId complexityClass members = .ok coal) :
    coal.coalitionId = coalitionId ∧ coal.status = .sealed := by
  have hadd : ∀ (members : List MemberSpec) {before after : Coalition},
      members.foldlM (fun coal m => coal.addMember m.agentId m.role m.stake) before = .ok after →
        after.coalitionId = before.coalitionId := by
    intro members
    induction members with
    | nil =>
      intro before after h
      exact congrArg Coalition.coalitionId (Except.ok.inj h).symm
    | cons m members ih =>
      intro before after h
      rw [List.foldlM_cons] at h
      obtain ⟨next, hnext, h⟩ := bind_eq_ok.mp h
      rw [ih h]
      unfold Coalition.addMember at hnext
      split_ifs at hnext
      obtain rfl := Except.ok.inj hnext
      rfl
  obtain ⟨before, hfold, hseal⟩ := bind_eq_ok.mp h
  unfold Coalition.sealCoalition at hseal
  split_ifs at hseal
  obtain rfl := Except.ok.inj hseal
  exact ⟨hadd members hfold, rfl⟩

theorem resolve_cases (coal : Coalition) (verdicts : List (Str × Str)) :
    ∃ coal', coal'.coalitionId = coal.coalitionId ∧
      ((∃ x, coal.resolve verdicts = (.error x, coal')) ∧ coal'.status = coal.status ∨
        (∃ result, coal.resolve verdicts = (.ok result, coal')) ∧ coal.status = .sealed ∧
          coal'.status = .resolved) := by
  unfold Coalition.resolve
  split_ifs with hresolved hsealed
  · exact ⟨coal, rfl, .inl ⟨⟨_, rfl⟩, rfl⟩⟩
  · exact ⟨coal, rfl, .inl ⟨⟨_, rfl⟩, rfl⟩⟩
  · dsimp only
    cases (redistributeStake (coal.judged verdicts)
      (Coalition.majority (coal.judged verdicts)).2).validate with
    | error x =>
      refine ⟨_, ?_, .inl ⟨⟨x, rfl⟩, ?_⟩⟩
      · rfl
      · rfl
    | ok u =>
      refine ⟨_, ?_, .inr ⟨⟨_, rfl⟩, not_not.mp hsealed, ?_⟩⟩
      · rfl
      · rfl

theorem dissolve_eq_ok {coal coal' : Coalition} (h : coal.dissolve = .ok coal') :
    coal.status = .resolved ∧ coal' = { coal with status := .dissolved } := by
  unfold Coalition.dissolve at h
  split_ifs at h with hstatus
  exact ⟨not_not.mp hstatus, (Except.ok.inj h).symm⟩

/-! ### Runs -/

/-- An engine, with the records that have been written to its ledger. -/
structure Watched where
  engine : Engine
  rows : List CoalitionRecord

namespace Watched

/-- An engine whose ledger does not exist yet. -/
def new (secret : Bytes) : Watched :=
  ⟨Engine.new secret, []⟩

variable (P) in
/-- The rows grow by the records of the engine. -/
def step (w : Watched) (a : Action) : Watched where
  engine := w.engine.step P a
  rows := w.rows ++ (w.engine.step P a).records.drop w.engine.records.length

end Watched

def statusesOf (rows : List CoalitionRecord) (coalitionId : Str) : List CoalitionStatus :=
  (rows.filter fun r => r.coalitionId = coalitionId).map CoalitionRecord.status

variable (P) in
/-- The ledger has the rows.  Where the gate is clear, after each record of a coalition that was sealed
come those of its resolution and its dissolution, before any other of its id. -/
structure Accounted (w : Watched) : Prop where
  written : WrittenRows P (w.rows.map (CoalitionRecord.toDict P)) w.engine.ledger
  concluded : w.engine.assertEpochClear = .ok () → ∀ before r after, w.rows = before ++ r :: after →
    r.status = .sealed → (statusesOf after r.coalitionId).take 2 = [.resolved, .dissolved]

/-- No coalition is formed under an id that is active, no write of a resolution or a dissolution fails,
and the engine is created again when no coalition is active. -/
def Admitted (w : Watched) : Action → Prop
  | .form coalitionId mutationId complexityClass members _ =>
    (∃ coal, formed coalitionId mutationId complexityClass members = .ok coal) →
      coalitionId ∉ Assoc.keys w.engine.active
  | .resolve _ _ fails => fails = false
  | .dissolve _ fails => fails = false
  | .recreate => w.engine.active = []

variable (P) in
/-- What was written of each id goes with what is active under it. -/
structure Kept (w : Watched) : Prop where
  written : WrittenRows P (w.rows.map (CoalitionRecord.toDict P)) w.engine.ledger
  keyed : ∀ id coal, w.engine.active.lookup id = some coal → coal.coalitionId = id
  stands : ∀ id, Stands (statusesOf w.rows id) ((w.engine.active.lookup id).map Coalition.status)

theorem statusesOf_append (rows rows' : List CoalitionRecord) (id : Str) :
    statusesOf (rows ++ rows') id = statusesOf rows id ++ statusesOf rows' id := by
  unfold statusesOf
  rw [List.filter_append, List.map_append]

theorem statusesOf_of_forall {rows : List CoalitionRecord} {id : Str}
    (h : ∀ r ∈ rows, r.coalitionId = id) : statusesOf rows id = rows.map CoalitionRecord.status := by
  unfold statusesOf
  rw [List.filter_eq_self.mpr fun r hr => decide_eq_true (h r hr)]

theorem statusesOf_of_forall_ne {rows : List CoalitionRecord} {id : Str}
    (h : ∀ r ∈ rows, r.coalitionId ≠ id) : statusesOf rows id = [] := by
  unfold statusesOf
  rw [List.filter_eq_nil_iff.mpr fun r hr => by simpa using h r hr]
  rfl

theorem status_of_clear {e : Engine} (h : e.assertEpochClear = .ok ()) {id : Str} {coal : Coalition}
    (hactive : e.active.lookup id = some coal) :
    coal.status ≠ .sealed ∧ coal.status ≠ .resolved := by
  have hmem := Assoc.mem_of_lookup hactive
  have hnone : ∀ {statuses : List CoalitionStatus}, e.activeWith statuses = [] →
      coal.status ∉ statuses := by
    intro statuses hnil hstatus
    have hid : id ∈ e.activeWith statuses :=
      List.mem_map_of_mem (List.mem_filter.mpr ⟨hmem, decide_eq_true hstatus⟩)
    rw [hnil] at hid
    exact List.not_mem_nil hid
  unfold Engine.assertEpochClear at h
  dsimp only at h
  split_ifs at h with hunresolved hundissolved
  refine ⟨fun heq => hnone (not_not.mp hunresolved) ?_, fun heq => hnone (not_not.mp hundissolved) ?_⟩
  · rw [heq]
    decide
  · rw [heq]
    decide

namespace Kept

variable {w : Watched}

theorem new (secret : Bytes) : Kept P (Watched.new secret) where
  written := writtenRows_nil
  keyed _ _ h := by cases h
  stands _ := .inl .nil

theorem accounted (h : Kept P w) : Accounted P w where
  written := h.written
  concluded hclear before r after hrows hsealed := by
    have hsettled : Settled (statusesOf w.rows r.coalitionId) := by
      refine (h.stands r.coalitionId).settled ?_ ?_
      · intro heq
        obtain ⟨coal, hactive, hstatus⟩ := Option.map_eq_some_iff.mp heq
        exact (status_of_clear hclear hactive).1 hstatus
      · intro heq
        obtain ⟨coal, hactive, hstatus⟩ := Option.map_eq_some_iff.mp heq
        exact (status_of_clear hclear hactive).2 hstatus
    have hself : statusesOf (r :: after) r.coalitionId =
        .sealed :: statusesOf after r.coalitionId := by
      simp [statusesOf, hsealed]
    rw [hrows, statusesOf_append, hself] at hsettled
    exact hsettled.take_two

theorem changed (h : Kept P w) {e' : Engine} {extra : List CoalitionRecord} (id : Str)
    (hwritten : WrittenRows P ((w.rows ++ extra).map (CoalitionRecord.toDict P)) e'.ledger)
    (hextra : ∀ r ∈ extra, r.coalitionId = id)
    (hothers : ∀ id' ≠ id, e'.active.lookup id' = w.engine.active.lookup id')
    (hkeyed : ∀ coal, e'.active.lookup id = some coal → coal.coalitionId = id)
    (hstands : Stands (statusesOf w.rows id ++ extra.map CoalitionRecord.status)
      ((e'.active.lookup id).map Coalition.status)) : Kept P ⟨e', w.rows ++ extra⟩ := by
  refine ⟨hwritten, fun id' coal hactive => ?_, fun id' => ?_⟩
  · by_cases hid : id' = id
    · subst hid
      exact hkeyed coal hactive
    · exact h.keyed id' coal ((hothers id' hid).symm.trans hactive)
  · dsimp only
    rw [statusesOf_append]
    by_cases hid : id' = id
    · subst hid
      rw [statusesOf_of_forall hextra]
      exact hstands
    · rw [statusesOf_of_forall_ne fun r hr heq => hid (heq.symm.trans (hextra r hr)),
        List.append_nil, hothers id' hid]
      exact h.stands id'

theorem unwritten (h : Kept P w) {e' : Engine} {id : Str} {coal : Coalition}
    (hactive : e'.active = Assoc.set w.engine.active id coal) (hid : coal.coalitionId = id)
    (hledger : e'.ledger = w.engine.ledger)
    (hstands : Stands (statusesOf w.rows id) (some coal.status)) : Kept P ⟨e', w.rows⟩ := by
  have hlookup : e'.active.lookup id = some coal := by
    rw [hactive, Assoc.lookup_set, if_pos rfl]
  have hkept : Kept P ⟨e', w.rows ++ []⟩ := by
    refine h.changed id ?_ (List.forall_mem_nil _) (fun id' hne => ?_) (fun coal' hcoal => ?_) ?_
    · rw [List.append_nil, hledger]
      exact h.written
    · rw [hactive, Assoc.lookup_set, if_neg hne]
    · obtain rfl := Option.some.inj (hlookup.symm.trans hcoal)
      exact hid
    · rw [List.map_nil, List.append_nil, hlookup]
      exact hstands
  rwa [List.append_nil] at hkept

theorem form (h : Kept P w) {coalitionId mutationId complexityClass : Str}
    {members : List MemberSpec} {fails : Bool}
    (ha : Admitted w (.form coalitionId mutationId complexityClass members fails)) :
    Kept P (w.step P (.form coalitionId mutationId complexityClass members fails)) := by
  unfold Watched.step Engine.step Engine.formCoalition
  dsimp only
  cases hformed : formed coalitionId mutationId complexityClass members with
  | error x =>
    dsimp only
    rw [List.drop_length, List.append_nil]
    exact h
  | ok coal =>
    obtain ⟨hid, hsealed⟩ := formed_eq_ok hformed
    have hsettled : Settled (statusesOf w.rows coalitionId) := by
      have hnone : w.engine.active.lookup coalitionId = none := by
        rw [Option.eq_none_iff_forall_ne_some]
        exact fun coal' hcoal => ha ⟨coal, hformed⟩ (Assoc.mem_keys_iff.mpr ⟨coal', hcoal⟩)
      have hstands := h.stands coalitionId
      rw [hnone] at hstands
      exact hstands.settled (by simp) (by simp)
    obtain ⟨e', rec, hrec, hstatus, hactive, ⟨hfails, hemit, hledger, hrecords⟩ |
      ⟨hfails, hemit, hledger, hrecords⟩⟩ := emit_cases (P := P)
        { w.engine with active := Assoc.set w.engine.active coalitionId coal } coal .sealed [] fails
    · dsimp only
      rw [hemit, hrecords, List.drop_length, List.append_nil]
      exact h.unwritten hactive hid hledger (.inl hsettled)
    · dsimp only
      rw [hemit, hrecords, List.drop_left]
      refine h.changed coalitionId ?_ (List.forall_mem_singleton.mpr (hrec.trans hid))
        (fun id' hne => ?_) (fun coal' hcoal => ?_) ?_
      · rw [List.map_append, List.map_singleton]
        exact h.written.append hledger
      · rw [hactive, Assoc.lookup_set, if_neg hne]
      · rw [hactive, Assoc.lookup_set, if_pos rfl] at hcoal
        exact Option.some.inj hcoal ▸ hid
      · rw [hactive, Assoc.lookup_set, if_pos rfl, List.map_singleton, hstatus, Option.map_some,
          hsealed]
        exact .sealing hsettled

theorem resolve (h : Kept P w) {coalitionId : Str} {verdicts : List (Str × Str)} {fails : Bool}
    (ha : Admitted w (.resolve coalitionId verdicts fails)) :
    Kept P (w.step P (.resolve coalitionId verdicts fails)) := by
  obtain rfl : fails = false := ha
  unfold Watched.step Engine.step Engine.resolveCoalition
  dsimp only
  cases hcoal : w.engine.active.lookup coalitionId with
  | none =>
    dsimp only
    rw [List.drop_length, List.append_nil]
    exact h
  | some coal =>
    have hstands := h.stands coalitionId
    rw [hcoal, Option.map_some] at hstands
    obtain ⟨coal', hsame, ⟨⟨x, hresolve⟩, hstatus⟩ | ⟨⟨result, hresolve⟩, hsealed, hresolved⟩⟩ :=
      resolve_cases coal verdicts
    · dsimp only
      rw [hresolve]
      dsimp only
      rw [List.drop_length, List.append_nil]
      exact h.unwritten rfl (hsame.trans (h.keyed _ _ hcoal)) rfl (hstatus ▸ hstands)
    · obtain ⟨outcome, dist⟩ := result
      obtain ⟨e', rec, hrec, hstatus, hactive, ⟨hfails, -⟩ | ⟨-, hemit, hledger, hrecords⟩⟩ :=
        emit_cases (P := P)
          { w.engine with active := Assoc.set w.engine.active coalitionId coal' } coal' .resolved
          outcome.value false
      · cases hfails
      · have hid := hsame.trans (h.keyed _ _ hcoal)
        dsimp only
        rw [hresolve]
        dsimp only
        rw [hemit, hrecords, List.drop_left]
        refine h.changed coalitionId ?_ (List.forall_mem_singleton.mpr (hrec.trans hid))
          (fun id' hne => ?_) (fun coal'' hcoal'' => ?_) ?_
        · rw [List.map_append, List.map_singleton]
          exact h.written.append hledger
        · rw [hactive, Assoc.lookup_set, if_neg hne]
        · rw [hactive, Assoc.lookup_set, if_pos rfl] at hcoal''
          exact Option.some.inj hcoal'' ▸ hid
        · rw [hactive, Assoc.lookup_set, if_pos rfl, List.map_singleton, hstatus, Option.map_some,
            hresolved]
          exact (hsealed ▸ hstands).resolving

theorem dissolve (h : Kept P w) {coalitionId : Str} {fails : Bool}
    (ha : Admitted w (.dissolve coalitionId fails)) :
    Kept P (w.step P (.dissolve coalitionId fails)) := by
  obtain rfl : fails = false := ha
  unfold Watched.step Engine.step Engine.dissolveCoalition
  dsimp only
  cases hcoal : w.engine.active.lookup coalitionId with
  | none =>
    dsimp only
    rw [List.drop_length, List.append_nil]
    exact h
  | some coal =>
    have hstands := h.stands coalitionId
    rw [hcoal, Option.map_some] at hstands
    dsimp only
    cases hdissolve : coal.dissolve with
    | error x =>
      dsimp only
      rw [List.drop_length, List.append_nil]
      exact h
    | ok coal' =>
      obtain ⟨hresolved, rfl⟩ := dissolve_eq_ok hdissolve
      obtain ⟨e', rec, hrec, hstatus, hactive, ⟨hfails, -⟩ | ⟨-, hemit, hledger, hrecords⟩⟩ :=
        emit_cases (P := P) { w.engine with
          active := Assoc.set w.engine.active coalitionId { coal with status := .dissolved } }
          { coal with status := .dissolved } .dissolved [] false
      · cases hfails
      · dsimp only
        rw [hemit]
        dsimp only
        rw [hrecords, List.drop_left]
        have hid := h.keyed _ _ hcoal
        refine h.changed coalitionId ?_ (List.forall_mem_singleton.mpr (hrec.trans hid))
          (fun id' hne => ?_) (fun coal'' hcoal'' => ?_) ?_
        · rw [List.map_append, List.map_singleton]
          exact h.written.append hledger
        · dsimp only
          rw [Assoc.lookup_erase, if_neg hne, hactive, Assoc.lookup_set, if_neg hne]
        · dsimp only at hcoal''
          rw [Assoc.lookup_erase, if_pos rfl] at hcoal''
          cases hcoal''
        · rw [List.map_singleton, hstatus]
          exact .inl (hresolved ▸ hstands).dissolving

theorem step {a : Action} (h : Kept P w) (ha : Admitted w a) : Kept P (w.step P a) := by
  cases a with
  | form coalitionId mutationId complexityClass members fails => exact h.form ha
  | resolve coalitionId verdicts fails => exact h.resolve ha
  | dissolve coalitionId fails => exact h.dissolve ha
  | recreate =>
    unfold Watched.step Engine.step
    dsimp only
    cases hload : Engine.load P w.engine.secret w.engine.ledger with
    | error x =>
      dsimp only
      rw [List.drop_length, List.append_nil]
      exact h
    | ok e' =>
      obtain ⟨text, -, hload⟩ := bind_eq_ok.mp hload
      obtain ⟨s, -, hload⟩ := bind_eq_ok.mp hload
      obtain rfl := Except.ok.inj hload
      have hactive : w.engine.active = [] := ha
      dsimp only
      rw [List.drop_nil, List.append_nil]
      refine ⟨h.written, fun id coal hcoal => ?_, fun id => ?_⟩
      · cases hcoal
      · have hstands := h.stands id
        rw [hactive] at hstands
        exact hstands

end Kept

def twoMembers : List MemberSpec :=
  [⟨str "agent-1", str "Architect", 3⟩, ⟨str "agent-2", str "Dream", 2⟩]

/-- After a restart, a coalition is formed, resolved and dissolved. -/
def recreateThenConclude : List Action :=
  [.recreate, .form (str "ACF-1") (str "MUT-1") (str "HIGH") twoMembers false,
    .resolve (str "ACF-1") [(str "agent-1", MemberVerdict.approve.value)] false,
    .dissolve (str "ACF-1") false]

/-- A coalition that is formed before a restart. -/
def formThenRecreate : List Action :=
  [.form (str "ACF-1") (str "MUT-1") (str "HIGH") twoMembers false, .recreate]

end Adaad.Innovations.AgentCoalition
