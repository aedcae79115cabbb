import Mathlib.Algebra.BigOperators.Group.List.Basic
import Adaad.Innovations.ReputationStaking
import Adaad.Py.Reference
import Adaad.Run

/-!
# The conservation of stakes

Stakes are kept by mutation, so one that is overwritten is lost, and the two files are written one after
the other.  Where no stake is put on a mutation that has a pending one, the texts are encodable, and the
process does not stop between a change of a wallet and its write, each agent's wallet and pending stakes
are what it had at first without what was burned and with the bonuses (`always_conserved`).
-/

namespace Adaad.Innovations.ReputationStaking

open Py

variable {P : Platform}

/-! ### Sums over a mapping -/

theorem sum_map_set {K V : Type} [DecidableEq K] [BEq K] [LawfulBEq K] (f : V → Int) (d : List (K × V)) (k : K) (v : V) :
    ((Assoc.set d k v).map fun m => f m.2).sum =
      (d.map fun m => f m.2).sum + f v - ((d.lookup k).map f).getD 0 := by
  induction d with
  | nil =>
    show f v + 0 = 0 + f v - 0
    omega
  | cons m d ih =>
    rw [Assoc.set, Assoc.lookup_cons]
    by_cases hk : m.1 = k
    · rw [if_pos hk, if_pos hk.symm, List.map_cons, List.map_cons, List.sum_cons, List.sum_cons]
      dsimp only [Option.map_some, Option.getD_some]
      omega
    · rw [if_neg hk, if_neg (Ne.symm hk), List.map_cons, List.map_cons, List.sum_cons, List.sum_cons,
        ih]
      omega

theorem lookup_of_perm {K V : Type} [DecidableEq K] [BEq K] [LawfulBEq K] {d d' : List (K × V)} (h : d.Perm d')
    (hd : (Assoc.keys d).Nodup) (k : K) : d.lookup k = d'.lookup k := by
  have hd' : (Assoc.keys d').Nodup := (h.map Prod.fst).nodup_iff.mp hd
  refine Option.ext fun v => ?_
  rw [Assoc.lookup_eq_some_iff hd, Assoc.lookup_eq_some_iff hd', h.mem_iff]

/-- What a stake of an agent counts while it is pending. -/
def weight (agentId : Str) (r : StakeRecord) : Int :=
  if r.outcome = .pending ∧ r.agentId = agentId then r.stakedAmount else 0

def Ledger.pendingTotal (l : Ledger) (agentId : Str) : Int :=
  ((l.pendingStakes agentId).map StakeRecord.stakedAmount).sum

theorem pendingTotal_eq (l : Ledger) (agentId : Str) :
    l.pendingTotal agentId = (l.stakes.map fun m => weight agentId m.2).sum := by
  unfold Ledger.pendingTotal Ledger.pendingStakes
  induction l.stakes with
  | nil => rfl
  | cons m stakes ih =>
    rw [List.map_cons, List.map_cons, List.sum_cons, List.filter_cons, ← ih]
    unfold weight
    by_cases hm : m.2.outcome = .pending ∧ m.2.agentId = agentId
    · rw [if_pos (decide_eq_true hm), if_pos hm, List.map_cons, List.sum_cons]
    · rw [if_neg (by simpa using hm), if_neg hm, Int.zero_add]

/-! ### Files -/

theorem lookup_readWallets {wallets : List (Str × Int)}
    (htexts : ∀ m ∈ wallets, readAscii m.1 = m.1) (hdistinct : (Assoc.keys wallets).Nodup) (id : Str) :
    (readWallets wallets).lookup id = wallets.lookup id := by
  have hsame : (wallets.map fun m => (readAscii m.1, m.2)) = wallets := by
    refine (List.map_congr_left fun m hm => ?_).trans (List.map_id wallets)
    rw [htexts m hm]
    rfl
  unfold readWallets
  rw [hsame, Assoc.ofItems_eq_self hdistinct]

theorem readStakes_append (stakes : List StakeRecord) (r : StakeRecord) :
    readStakes (stakes ++ [r]) = Assoc.set (readStakes stakes) r.readBack.mutationId r.readBack := by
  unfold readStakes
  rw [List.foldl_append]
  rfl

theorem spec_readStakes {stakes : List StakeRecord} (hstays : ∀ r ∈ stakes, r.readBack = r) {id : Str}
    {r : StakeRecord} (h : (readStakes stakes).lookup id = some r) :
    r.mutationId = id ∧ r ∈ stakes := by
  induction stakes using List.reverseRecOn with
  | nil => cases h
  | append_singleton stakes s ih =>
    obtain ⟨hstakes, hs⟩ := List.forall_mem_append.mp hstays
    rw [readStakes_append, hs s (List.mem_singleton_self s), Assoc.lookup_set] at h
    split_ifs at h with hid
    · obtain rfl := Option.some.inj h
      exact ⟨hid.symm, List.mem_append_right _ (List.mem_singleton_self _)⟩
    · obtain ⟨hmutation, hmem⟩ := ih hstakes h
      exact ⟨hmutation, List.mem_append_left _ hmem⟩

/-! ### Runs -/

def Ledger.pendingAt (l : Ledger) (mutationId : Str) : Option StakeRecord :=
  (l.stakes.lookup mutationId).filter fun r => r.outcome = .pending

/-- A ledger, with what each agent had at first, what was burned of it and what bonuses it was paid. -/
structure Watched where
  ledger : Ledger
  initial : Str → Int
  burned : Str → Int
  bonuses : Str → Int

namespace Watched

def new : Watched :=
  ⟨.new, fun _ => 0, fun _ => 0, fun _ => 0⟩

variable (w : Watched)

/-- An agent that is registered has its first balance. -/
def initialAfter : Action → Str → Int
  | .register agentId initialBalance =>
    if agentId ∈ Assoc.keys w.ledger.wallets then w.initial
    else Function.update w.initial agentId (roundCents initialBalance)
  | _ => w.initial

/-- A stake that is resolved as failed is burned. -/
def burnedAfter : Action → Str → Int
  | .resolve mutationId false _ _ =>
    match w.ledger.pendingAt mutationId with
    | some r => Function.update w.burned r.agentId (w.burned r.agentId + r.stakedAmount)
    | none => w.burned
  | _ => w.burned

def bonusesAfter : Action → Str → Int
  | .resolve mutationId true fitnessImproved _ =>
    match w.ledger.pendingAt mutationId with
    | some r => Function.update w.bonuses r.agentId
        (w.bonuses r.agentId + (Ledger.payout r fitnessImproved - r.stakedAmount))
    | none => w.bonuses
  | _ => w.bonuses

variable (P) in
def step (a : Action) : Watched where
  ledger := w.ledger.step P a
  initial := w.initialAfter a
  burned := w.burnedAfter a
  bonuses := w.bonusesAfter a

variable {w} {mutationId : Str} {r : StakeRecord}

theorem after_of_none (h : w.ledger.pendingAt mutationId = none) (passed fitnessImproved stops : Bool) :
    w.burnedAfter (.resolve mutationId passed fitnessImproved stops) = w.burned ∧
      w.bonusesAfter (.resolve mutationId passed fitnessImproved stops) = w.bonuses := by
  cases passed <;> simp only [burnedAfter, bonusesAfter, h, and_self]

theorem burnedAfter_of_some (h : w.ledger.pendingAt mutationId = some r) (fitnessImproved stops : Bool) :
    w.burnedAfter (.resolve mutationId false fitnessImproved stops) =
      Function.update w.burned r.agentId (w.burned r.agentId + r.stakedAmount) := by
  simp only [burnedAfter, h]

theorem bonusesAfter_of_some (h : w.ledger.pendingAt mutationId = some r)
    (fitnessImproved stops : Bool) :
    w.bonusesAfter (.resolve mutationId true fitnessImproved stops) =
      Function.update w.bonuses r.agentId
        (w.bonuses r.agentId + (Ledger.payout r fitnessImproved - r.stakedAmount)) := by
  simp only [bonusesAfter, h]

end Watched

/-- Each agent's wallet and pending stakes are its first balance without what was burned and with the
bonuses. -/
def Conserved (w : Watched) : Prop :=
  ∀ agentId, w.ledger.balance agentId + w.ledger.pendingTotal agentId =
    w.initial agentId - w.burned agentId + w.bonuses agentId

/-- Agents are registered under texts that JSON has.  A stake that is accepted is on a mutation without
a pending one, its texts are encodable, and the process does not stop in it.  Nor does it in a resolution
that pays. -/
def Admitted (w : Watched) : Action → Prop
  | .register agentId _ => readAscii agentId = agentId
  | .stake agentId mutationId epochId _ stops => minStake ≤ w.ledger.balance agentId →
      (Encodable agentId ∧ Encodable mutationId ∧ Encodable epochId) ∧
        w.ledger.pendingAt mutationId = none ∧ stops = false
  | .resolve mutationId passed _ stops =>
      passed = true → w.ledger.pendingAt mutationId ≠ none → stops = false
  | .restart => True

/-- The files are what the ledger has. -/
structure Kept (w : Watched) : Prop where
  conserved : Conserved w
  unregistered : ∀ id, w.ledger.wallets.lookup id = none → w.initial id = 0
  texts : ∀ m ∈ w.ledger.wallets, readAscii m.1 = m.1
  distinct : (Assoc.keys w.ledger.wallets).Nodup
  saved : ∀ id, w.ledger.files.load.wallets.lookup id = w.ledger.wallets.lookup id
  stakes : readStakes w.ledger.files.stakes = w.ledger.stakes
  stays : ∀ r ∈ w.ledger.files.stakes, r.readBack = r

/-! ### What is written -/

theorem ascii_amountText (amount : Int) : ∀ c ∈ amountText amount, c < 128 := by
  have hdigit : ∀ {c : Nat}, isDigit c = true → c < 128 := fun h =>
    (printable_of_isDigit h).2.trans (by decide)
  have hzeros : ∀ c ∈ str "0000", c < 128 := by decide
  unfold amountText
  refine List.forall_mem_append.mpr ⟨List.forall_mem_append.mpr ⟨?_, fun c hc => ?_⟩,
    List.forall_mem_cons.mpr ⟨by decide, List.forall_mem_append.mpr ⟨fun c hc => ?_, hzeros⟩⟩⟩
  · split_ifs
    · exact List.forall_mem_singleton.mpr (by decide)
    · exact List.forall_mem_nil _
  · exact hdigit (isDigit_of_mem_natText hc)
  · exact hdigit (isDigit_of_mem_paddedText hc)

theorem exists_computeStakeDigest {agentId mutationId epochId : Str} (hagent : Encodable agentId)
    (hmutation : Encodable mutationId) (hepoch : Encodable epochId) (amount : Int) :
    ∃ digest, computeStakeDigest P agentId mutationId epochId amount = .ok digest ∧
      ∀ c ∈ digest, c < 128 := by
  have hcolon : ∀ {s : Str}, Encodable s → Encodable (58 :: s) := fun hs =>
    (encodable_of_ascii (List.forall_mem_singleton.mpr (by decide)) : Encodable [58]).append hs
  obtain ⟨raw, hraw⟩ := exists_encode_iff.mpr (hagent.append (hcolon (hmutation.append
    (hcolon (hepoch.append (hcolon (encodable_of_ascii (ascii_amountText amount))))))))
  refine ⟨str "sha256:" ++ P.sha256 raw, ?_, ascii_prefixed_sha256 P raw⟩
  unfold computeStakeDigest
  rw [hraw]

theorem lookup_saveWallets {l : Ledger} (htexts : ∀ m ∈ l.wallets, readAscii m.1 = m.1)
    (hdistinct : (Assoc.keys l.wallets).Nodup) (id : Str) :
    l.saveWallets.files.load.wallets.lookup id = l.wallets.lookup id := by
  have hperm : (l.wallets.insertionSort fun m n => strLe m.1 n.1 = true).Perm l.wallets :=
    List.perm_insertionSort _ _
  have hkeys : (Assoc.keys (l.wallets.insertionSort fun m n => strLe m.1 n.1 = true)).Nodup :=
    (hperm.map Prod.fst).nodup_iff.mpr hdistinct
  show (readWallets (l.wallets.insertionSort fun m n => strLe m.1 n.1 = true)).lookup id = _
  rw [lookup_readWallets (fun m hm => htexts m (hperm.mem_iff.mp hm)) hkeys]
  exact lookup_of_perm hperm hkeys id

theorem texts_set {wallets : List (Str × Int)} (h : ∀ m ∈ wallets, readAscii m.1 = m.1) {id : Str}
    (hid : readAscii id = id) (balance : Int) :
    ∀ m ∈ Assoc.set wallets id balance, readAscii m.1 = m.1 := by
  intro m hm
  rcases Assoc.mem_of_mem_set hm with rfl | hm
  · exact hid
  · exact h m hm

theorem weight_of_pendingAt_none {l : Ledger} {mutationId : Str} (h : l.pendingAt mutationId = none)
    (agentId : Str) : ((l.stakes.lookup mutationId).map (weight agentId)).getD 0 = 0 := by
  unfold Ledger.pendingAt at h
  cases hlookup : l.stakes.lookup mutationId with
  | none => rfl
  | some r =>
    rw [hlookup] at h
    have hnot : ¬ r.outcome = .pending := by simpa using h
    exact if_neg fun hr => hnot hr.1

theorem pendingAt_eq_some {l : Ledger} {mutationId : Str} {r : StakeRecord}
    (h : l.pendingAt mutationId = some r) :
    l.stakes.lookup mutationId = some r ∧ r.outcome = .pending := by
  obtain ⟨hlookup, hpending⟩ := Option.filter_eq_some_iff.mp h
  exact ⟨hlookup, of_decide_eq_true hpending⟩

theorem balance_set (l : Ledger) (id : Str) (b : Int) (agentId : Str) :
    (((Assoc.set l.wallets id b).lookup agentId).getD 0) =
      if agentId = id then b else l.balance agentId := by
  unfold Ledger.balance
  rw [Assoc.lookup_set]
  split_ifs <;> rfl

def Ledger.recorded (l : Ledger) (wallets : List (Str × Int)) (r : StakeRecord) : Ledger :=
  { l with wallets := wallets, stakes := Assoc.set l.stakes r.mutationId r }.persist r

theorem pendingTotal_recorded (l : Ledger) (wallets : List (Str × Int)) (r : StakeRecord)
    (agentId : Str) :
    (l.recorded wallets r).pendingTotal agentId = l.pendingTotal agentId + weight agentId r -
      ((l.stakes.lookup r.mutationId).map (weight agentId)).getD 0 := by
  rw [pendingTotal_eq, pendingTotal_eq]
  exact sum_map_set (weight agentId) l.stakes r.mutationId r

theorem stakeRecorded_of_le {l : Ledger} {agentId mutationId epochId digest : Str} {amount : Option ℚ}
    (h : minStake ≤ l.balance agentId)
    (hdigest : computeStakeDigest P agentId mutationId epochId
      (Ledger.stakedAmount (l.balance agentId) amount) = .ok digest) :
    ∃ r, l.stakeRecorded P agentId mutationId epochId amount =
        (.ok r, l.recorded (Assoc.set l.wallets agentId (l.balance agentId - r.stakedAmount)) r) ∧
      r.agentId = agentId ∧ r.mutationId = mutationId ∧ r.epochId = epochId ∧ r.outcome = .pending ∧
        r.stakeDigest = digest := by
  have hrun : l.stakeRecorded P agentId mutationId epochId amount =
      if l.balance agentId < minStake then (.error (.insufficient agentId (l.balance agentId)), l)
      else _ := rfl
  have hdigest' : computeStakeDigest P agentId mutationId epochId
      (Ledger.stakedAmount ((l.wallets.lookup agentId).getD 0) amount) = .ok digest := hdigest
  rw [if_neg (not_lt.mpr h), hdigest'] at hrun
  exact ⟨_, hrun, rfl, rfl, rfl, rfl, rfl⟩

theorem stakeRecorded_of_lt {l : Ledger} {agentId : Str} (h : l.balance agentId < minStake)
    (mutationId epochId : Str) (amount : Option ℚ) :
    l.stakeRecorded P agentId mutationId epochId amount =
      (.error (.insufficient agentId (l.balance agentId)), l) := by
  unfold Ledger.stakeRecorded
  exact if_pos h

def StakeRecord.settled (r : StakeRecord) (passed : Bool) (finalBalance : Int) : StakeRecord :=
  { r with outcome := if passed then .passed else .failed, finalBalance := finalBalance }

theorem weight_settled (r : StakeRecord) (passed : Bool) (finalBalance : Int) (agentId : Str) :
    weight agentId (r.settled passed finalBalance) = 0 := by
  cases passed <;> exact if_neg fun h => by cases h.1

theorem readBack_settled {r : StakeRecord} (h : r.readBack = r) (passed : Bool) (finalBalance : Int) :
    (r.settled passed finalBalance).readBack = r.settled passed finalBalance :=
  congrArg (fun r => r.settled passed finalBalance) h

theorem resolveRecorded_of_pendingAt {l : Ledger} {mutationId : Str} {r : StakeRecord}
    (h : l.pendingAt mutationId = some r) (hmutation : r.mutationId = mutationId)
    (passed fitnessImproved : Bool) :
    ∃ finalBalance, l.resolveRecorded mutationId passed fitnessImproved =
      (.ok (some (r.settled passed finalBalance)),
        l.recorded
          (if passed then Assoc.set l.wallets r.agentId
            (l.balance r.agentId + Ledger.payout r fitnessImproved) else l.wallets)
          (r.settled passed finalBalance)) := by
  obtain ⟨hlookup, hpending⟩ := pendingAt_eq_some h
  subst hmutation
  unfold Ledger.resolveRecorded
  rw [hlookup]
  dsimp only
  rw [if_neg (not_not_intro hpending)]
  cases passed <;> exact ⟨_, rfl⟩

theorem step_resolve_of_some {l : Ledger} {mutationId : Str} {r : StakeRecord}
    (h : l.pendingAt mutationId = some r) (hmutation : r.mutationId = mutationId)
    (passed fitnessImproved stops : Bool) :
    ∃ finalBalance, l.step P (.resolve mutationId passed fitnessImproved stops) =
      (l.recorded
        (if passed then Assoc.set l.wallets r.agentId
          (l.balance r.agentId + Ledger.payout r fitnessImproved) else l.wallets)
        (r.settled passed finalBalance)).finish stops := by
  obtain ⟨finalBalance, hrun⟩ := resolveRecorded_of_pendingAt h hmutation passed fitnessImproved
  refine ⟨finalBalance, ?_⟩
  unfold Ledger.step
  dsimp only
  rw [hrun]

theorem step_resolve_of_none {l : Ledger} {mutationId : Str} (h : l.pendingAt mutationId = none)
    (passed fitnessImproved stops : Bool) :
    l.step P (.resolve mutationId passed fitnessImproved stops) = l := by
  unfold Ledger.pendingAt at h
  unfold Ledger.step Ledger.resolveRecorded
  dsimp only
  cases hlookup : l.stakes.lookup mutationId with
  | none => rfl
  | some r =>
    rw [hlookup] at h
    have hnot : ¬ r.outcome = .pending := by simpa using h
    dsimp only
    rw [if_pos hnot]

namespace Kept

variable {l : Ledger} {initial burned bonuses : Str → Int}

theorem new : Kept Watched.new where
  conserved _ := rfl
  unregistered _ _ := rfl
  texts := List.forall_mem_nil _
  distinct := List.nodup_nil
  saved _ := rfl
  stakes := rfl
  stays := List.forall_mem_nil _

theorem save (hconserved : Conserved ⟨l, initial, burned, bonuses⟩)
    (hunregistered : ∀ id, l.wallets.lookup id = none → initial id = 0)
    (htexts : ∀ m ∈ l.wallets, readAscii m.1 = m.1) (hdistinct : (Assoc.keys l.wallets).Nodup)
    (hstakes : readStakes l.files.stakes = l.stakes) (hstays : ∀ r ∈ l.files.stakes, r.readBack = r) :
    Kept ⟨l.saveWallets, initial, burned, bonuses⟩ :=
  ⟨hconserved, hunregistered, htexts, hdistinct, lookup_saveWallets htexts hdistinct, hstakes, hstays⟩

theorem restart (h : Kept ⟨l, initial, burned, bonuses⟩) :
    Kept ⟨l.restart, initial, burned, bonuses⟩ := by
  have hlookup : ∀ id, l.restart.wallets.lookup id = l.wallets.lookup id := h.saved
  have hstakes : l.restart.stakes = l.stakes := h.stakes
  refine ⟨fun agentId => ?_, fun id hid => h.unregistered id ((hlookup id).symm.trans hid),
    fun m hm => ?_, ?_, fun _ => rfl, rfl, h.stays⟩
  · have hconserved := h.conserved agentId
    unfold Ledger.balance Ledger.pendingTotal Ledger.pendingStakes at hconserved ⊢
    dsimp only at hconserved ⊢
    rw [hlookup, hstakes]
    exact hconserved
  · obtain ⟨v, hv⟩ := Assoc.mem_keys_iff.mp (List.mem_map_of_mem hm)
    exact h.texts (m.1, v) (Assoc.mem_of_lookup ((hlookup m.1).symm.trans hv))
  · show (Assoc.keys ((l.files.wallets.map readWallets).getD [])).Nodup
    cases l.files.wallets with
    | none => exact List.nodup_nil
    | some wallets => exact Assoc.nodup_keys_ofItems _

theorem lookup_of_lookup_set {wallets : List (Str × Int)} {id id' : Str} {b : Int}
    (h : (Assoc.set wallets id b).lookup id' = none) : id' ≠ id ∧ wallets.lookup id' = none := by
  rw [Assoc.lookup_set] at h
  split_ifs at h with hid
  exact ⟨hid, h⟩

theorem register {agentId : Str} {initialBalance : ℚ} (h : Kept ⟨l, initial, burned, bonuses⟩)
    (hok : Admitted ⟨l, initial, burned, bonuses⟩ (.register agentId initialBalance)) :
    Kept (Watched.step P ⟨l, initial, burned, bonuses⟩ (.register agentId initialBalance)) := by
  show Kept ⟨l.registerAgent agentId initialBalance,
    if agentId ∈ Assoc.keys l.wallets then initial
    else Function.update initial agentId (roundCents initialBalance), burned, bonuses⟩
  unfold Ledger.registerAgent
  by_cases hmem : agentId ∈ Assoc.keys l.wallets
  · rw [if_pos hmem, if_pos hmem]
    exact h
  · rw [if_neg hmem, if_neg hmem]
    have hnone : l.wallets.lookup agentId = none := by
      cases hlookup : l.wallets.lookup agentId with
      | none => rfl
      | some b => exact absurd (Assoc.mem_keys_iff.mpr ⟨b, hlookup⟩) hmem
    refine save (fun id => ?_) (fun id hid => ?_) (texts_set h.texts hok _)
      (Assoc.nodup_keys_set h.distinct _ _) h.stakes h.stays
    · have hconserved : l.balance id + l.pendingTotal id = initial id - burned id + bonuses id :=
        h.conserved id
      show ((Assoc.set l.wallets agentId (roundCents initialBalance)).lookup id).getD 0 +
        l.pendingTotal id = Function.update initial agentId (roundCents initialBalance) id -
          burned id + bonuses id
      rw [balance_set]
      by_cases hid : id = agentId
      · subst hid
        -- an agent that has no wallet has no balance
        have hinitial : initial id = 0 := h.unregistered id hnone
        have hbalance : l.balance id = 0 := by
          unfold Ledger.balance
          rw [hnone]
          rfl
        rw [if_pos rfl, Function.update_self]
        omega
      · rw [if_neg hid, Function.update_of_ne hid]
        exact hconserved
    · obtain ⟨hne, hlookup⟩ := lookup_of_lookup_set hid
      show Function.update initial agentId (roundCents initialBalance) id = 0
      rw [Function.update_of_ne hne]
      exact h.unregistered id hlookup

theorem recorded {wallets : List (Str × Int)} {r : StakeRecord} {burned' bonuses' : Str → Int}
    (h : Kept ⟨l, initial, burned, bonuses⟩)
    (hconserved : Conserved ⟨l.recorded wallets r, initial, burned', bonuses'⟩)
    (hunregistered : ∀ id, wallets.lookup id = none → l.wallets.lookup id = none)
    (htexts : ∀ m ∈ wallets, readAscii m.1 = m.1) (hdistinct : (Assoc.keys wallets).Nodup)
    (hr : r.readBack = r) :
    Kept ⟨(l.recorded wallets r).saveWallets, initial, burned', bonuses'⟩ := by
  have hstakes : readStakes l.files.stakes = l.stakes := h.stakes
  refine save hconserved (fun id hid => h.unregistered id (hunregistered id hid)) htexts hdistinct ?_
    (List.forall_mem_append.mpr ⟨h.stays, List.forall_mem_singleton.mpr hr⟩)
  show readStakes (l.files.stakes ++ [r]) = Assoc.set l.stakes r.mutationId r
  rw [readStakes_append, hstakes, hr]

theorem stake {agentId mutationId epochId : Str} {amount : Option ℚ} {stops : Bool}
    (h : Kept ⟨l, initial, burned, bonuses⟩)
    (hok : Admitted ⟨l, initial, burned, bonuses⟩ (.stake agentId mutationId epochId amount stops)) :
    Kept (Watched.step P ⟨l, initial, burned, bonuses⟩
      (.stake agentId mutationId epochId amount stops)) := by
  show Kept ⟨l.step P (.stake agentId mutationId epochId amount stops), initial, burned, bonuses⟩
  unfold Ledger.step
  dsimp only
  by_cases hbalance : minStake ≤ l.balance agentId
  · obtain ⟨⟨hagent, hmutation, hepoch⟩, hnone, rfl⟩ := hok hbalance
    obtain ⟨digest, hdigest, hascii⟩ := exists_computeStakeDigest hagent hmutation hepoch
      (Ledger.stakedAmount (l.balance agentId) amount)
    obtain ⟨r, hrun, ragent, rmutation, repoch, rpending, rdigest⟩ := stakeRecorded_of_le hbalance hdigest
    rw [hrun]
    subst ragent rmutation repoch rdigest
    have hr : r.readBack = r := by
      unfold StakeRecord.readBack
      rw [readAscii_eq_self hagent, readAscii_eq_self hmutation, readAscii_eq_self hepoch,
        readAscii_eq_self (encodable_of_ascii hascii)]
    refine h.recorded (fun id => ?_) (fun id hid => (lookup_of_lookup_set hid).2)
      (texts_set h.texts (readAscii_eq_self hagent) _) (Assoc.nodup_keys_set h.distinct _ _) hr
    have hconserved : l.balance id + l.pendingTotal id = initial id - burned id + bonuses id :=
      h.conserved id
    show ((Assoc.set l.wallets r.agentId _).lookup id).getD 0 +
      (l.recorded _ r).pendingTotal id = initial id - burned id + bonuses id
    rw [balance_set, pendingTotal_recorded, weight_of_pendingAt_none hnone]
    unfold weight
    by_cases hid : id = r.agentId
    · subst hid
      rw [if_pos rfl, if_pos ⟨rpending, rfl⟩]
      omega
    · rw [if_neg hid, if_neg fun hr => hid hr.2.symm]
      omega
  · rw [stakeRecorded_of_lt (not_le.mp hbalance)]
    exact h

theorem pendingTotal_settled {r : StakeRecord} (hpending : l.pendingAt r.mutationId = some r)
    (wallets : List (Str × Int)) (passed : Bool) (finalBalance : Int) (id : Str) :
    (l.recorded wallets (r.settled passed finalBalance)).pendingTotal id =
      l.pendingTotal id - if id = r.agentId then r.stakedAmount else 0 := by
  obtain ⟨hlookup, hr⟩ := pendingAt_eq_some hpending
  have hweight : weight id r = if id = r.agentId then r.stakedAmount else 0 := by
    unfold weight
    by_cases hid : id = r.agentId
    · rw [if_pos hid, if_pos ⟨hr, hid.symm⟩]
    · rw [if_neg hid, if_neg fun h => hid h.2.symm]
  have hold : ((l.stakes.lookup (r.settled passed finalBalance).mutationId).map (weight id)).getD 0 =
      weight id r := by
    show ((l.stakes.lookup r.mutationId).map (weight id)).getD 0 = weight id r
    rw [hlookup]
    rfl
  rw [pendingTotal_recorded, weight_settled, hold, hweight]
  omega

theorem mem_of_pendingAt (h : Kept ⟨l, initial, burned, bonuses⟩) {mutationId : Str} {r : StakeRecord}
    (hpending : l.pendingAt mutationId = some r) : r.mutationId = mutationId ∧ r.readBack = r := by
  have hstakes : readStakes l.files.stakes = l.stakes := h.stakes
  obtain ⟨hlookup, -⟩ := pendingAt_eq_some hpending
  rw [← hstakes] at hlookup
  obtain ⟨hmutation, hmem⟩ := spec_readStakes h.stays hlookup
  exact ⟨hmutation, h.stays r hmem⟩

theorem failed {r : StakeRecord} (h : Kept ⟨l, initial, burned, bonuses⟩)
    (hpending : l.pendingAt r.mutationId = some r) (hr : r.readBack = r) (finalBalance : Int) :
    Kept ⟨l.recorded l.wallets (r.settled false finalBalance), initial,
      Function.update burned r.agentId (burned r.agentId + r.stakedAmount), bonuses⟩ := by
  have hstakes : readStakes l.files.stakes = l.stakes := h.stakes
  have hsettled := readBack_settled hr false finalBalance
  refine ⟨fun id => ?_, h.unregistered, h.texts, h.distinct, h.saved, ?_,
    List.forall_mem_append.mpr ⟨h.stays, List.forall_mem_singleton.mpr hsettled⟩⟩
  · have hconserved : l.balance id + l.pendingTotal id = initial id - burned id + bonuses id :=
      h.conserved id
    show l.balance id + (l.recorded l.wallets (r.settled false finalBalance)).pendingTotal id =
      initial id - Function.update burned r.agentId (burned r.agentId + r.stakedAmount) id + bonuses id
    rw [pendingTotal_settled hpending]
    by_cases hid : id = r.agentId
    · subst hid
      rw [if_pos rfl, Function.update_self]
      omega
    · rw [if_neg hid, Function.update_of_ne hid]
      omega
  · show readStakes (l.files.stakes ++ [r.settled false finalBalance]) = Assoc.set l.stakes _ _
    rw [readStakes_append, hstakes, hsettled]

theorem passed {r : StakeRecord} (h : Kept ⟨l, initial, burned, bonuses⟩)
    (hpending : l.pendingAt r.mutationId = some r) (hr : r.readBack = r)
    (fitnessImproved : Bool) (finalBalance : Int) :
    Kept ⟨(l.recorded (Assoc.set l.wallets r.agentId
        (l.balance r.agentId + Ledger.payout r fitnessImproved)) (r.settled true finalBalance)).saveWallets,
      initial, burned, Function.update bonuses r.agentId
        (bonuses r.agentId + (Ledger.payout r fitnessImproved - r.stakedAmount))⟩ := by
  refine h.recorded (fun id => ?_) (fun id hid => (lookup_of_lookup_set hid).2)
    (texts_set h.texts (congrArg StakeRecord.agentId hr) _) (Assoc.nodup_keys_set h.distinct _ _)
    (readBack_settled hr true finalBalance)
  have hconserved : l.balance id + l.pendingTotal id = initial id - burned id + bonuses id :=
    h.conserved id
  show ((Assoc.set l.wallets r.agentId _).lookup id).getD 0 +
    (l.recorded _ (r.settled true finalBalance)).pendingTotal id = initial id - burned id +
      Function.update bonuses r.agentId _ id
  rw [balance_set, pendingTotal_settled hpending]
  by_cases hid : id = r.agentId
  · subst hid
    rw [if_pos rfl, if_pos rfl, Function.update_self]
    omega
  · rw [if_neg hid, if_neg hid, Function.update_of_ne hid]
    omega

theorem resolve {mutationId : Str} {passed fitnessImproved stops : Bool}
    (h : Kept ⟨l, initial, burned, bonuses⟩)
    (hok : Admitted ⟨l, initial, burned, bonuses⟩ (.resolve mutationId passed fitnessImproved stops)) :
    Kept (Watched.step P ⟨l, initial, burned, bonuses⟩
      (.resolve mutationId passed fitnessImproved stops)) := by
  unfold Watched.step
  cases hpending : l.pendingAt mutationId with
  | none =>
    obtain ⟨hburned, hbonuses⟩ := Watched.after_of_none
      (w := ⟨l, initial, burned, bonuses⟩) hpending passed fitnessImproved stops
    rw [hburned, hbonuses, step_resolve_of_none hpending]
    exact h
  | some r =>
    obtain ⟨rfl, hr⟩ := h.mem_of_pendingAt hpending
    obtain ⟨finalBalance, hrun⟩ := step_resolve_of_some (P := P) hpending rfl passed fitnessImproved stops
    cases passed with
    | false =>
      have hfailed := h.failed hpending hr finalBalance
      rw [hrun, Watched.burnedAfter_of_some hpending]
      cases stops with
      | false =>
        exact save hfailed.conserved hfailed.unregistered hfailed.texts hfailed.distinct hfailed.stakes
          hfailed.stays
      | true => exact hfailed.restart
    | true =>
      have hpays : l.pendingAt r.mutationId ≠ none := by
        rw [hpending]
        exact Option.some_ne_none r
      obtain rfl : stops = false := hok rfl hpays
      rw [hrun, Watched.bonusesAfter_of_some hpending]
      exact h.passed hpending hr fitnessImproved finalBalance

theorem step {w : Watched} {a : Action} (h : Kept w) (hok : Admitted w a) : Kept (w.step P a) := by
  obtain ⟨l, initial, burned, bonuses⟩ := w
  cases a with
  | register => exact h.register hok
  | stake => exact h.stake hok
  | resolve => exact h.resolve hok
  | restart => exact h.restart

end Kept

/-- Each agent's wallet and pending stakes are its first balance without what was burned and with the
bonuses, in every run in which a stake is put on a mutation without a pending one, under encodable
texts, and the process does not stop between the change of a wallet and its write. -/
theorem always_conserved (P : Platform) (as : List Action)
    (hok : Run.Meets (Watched.step P) Admitted Watched.new as) :
    Run.Always (Watched.step P) Conserved Watched.new as :=
  (Run.always_of_step (fun _ _ h ha => Kept.step h ha) Kept.new hok).imp fun _ h => h.conserved

/-- A stake that is paid back with a bonus, and one that is burned while the process stops. -/
def stakedTwice : List Action :=
  [.register (str "A") 10000,
   .stake (str "A") (str "m1") (str "e1") none false,
   .resolve (str "m1") true true false,
   .stake (str "A") (str "m1") (str "e2") none false,
   .resolve (str "m1") false false true]

theorem always_conserved_stakedTwice :
    Run.Always (Watched.step reference) Conserved Watched.new stakedTwice := by
  refine always_conserved reference stakedTwice ?_
  have htexts : ∀ s ∈ [str "A", str "m1", str "e1", str "e2"], Encodable s := by
    refine fun s hs => encodable_of_ascii ?_
    revert s
    decide
  have hpending : ((Run.run (Watched.step reference) Watched.new (stakedTwice.take 1)).ledger.pendingAt
      (str "m1") = none) ∧ ((Run.run (Watched.step reference) Watched.new
        (stakedTwice.take 3)).ledger.pendingAt (str "m1") = none) := by decide +kernel
  refine ⟨readAscii_eq_self (htexts _ (by decide)), fun _ => ?_, fun _ _ => rfl, fun _ => ?_, ?_, trivial⟩
  · exact ⟨⟨htexts _ (by decide), htexts _ (by decide), htexts _ (by decide)⟩, hpending.1, rfl⟩
  · exact ⟨⟨htexts _ (by decide), htexts _ (by decide), htexts _ (by decide)⟩, hpending.2, rfl⟩
  · exact fun h => absurd h (by decide)

/-- A second stake on a mutation takes the place of the first, which is nowhere any more. -/
theorem not_always_conserved :
    ¬ Run.Always (Watched.step reference) Conserved Watched.new
      [.register (str "A") 10000,
       .stake (str "A") (str "m1") (str "e1") none false,
       .stake (str "A") (str "m1") (str "e1") none false] := by
  intro h
  have hlast := h.last (str "A")
  revert hlast
  decide +kernel

end Adaad.Innovations.ReputationStaking
