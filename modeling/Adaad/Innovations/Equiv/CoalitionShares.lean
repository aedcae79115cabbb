import Adaad.Innovations.AgentCoalition
import Adaad.Shares

/-!
# The shares of a coalition

The shares are entered under the ids of the agents, so two members of one id share an entry.  Where
only members on the losing side have one id, the resolution succeeds: who is on the winning side gets
the stake back and a bonus rounded down, and less is left than there are winners (`shared_of_distinct`).
Where no side wins, every stake is returned.
-/

namespace Adaad.Innovations.AgentCoalition

open Py Shares

/-! ### Sealed coalitions -/

/-- What calls of the methods make of a new coalition. -/
inductive Made : Coalition → Prop where
  | new (coalitionId mutationId complexityClass : Str) :
      Made (Coalition.new coalitionId mutationId complexityClass)
  | addMember {coal coal' : Coalition} {agentId role : Str} {stake : Int} (h : Made coal)
      (hcall : coal.addMember agentId role stake = .ok coal') : Made coal'
  | sealCoalition {coal coal' : Coalition} (h : Made coal) (hcall : coal.sealCoalition = .ok coal') :
      Made coal'
  | resolve {coal : Coalition} (verdicts : List (Str × Str)) (h : Made coal) :
      Made (coal.resolve verdicts).2
  | dissolve {coal coal' : Coalition} (h : Made coal) (hcall : coal.dissolve = .ok coal') :
      Made coal'

theorem stake_pos_resolve {coal : Coalition} (h : ∀ m ∈ coal.members, 0 < m.stake)
    (verdicts : List (Str × Str)) : ∀ m ∈ (coal.resolve verdicts).2.members, 0 < m.stake := by
  have hjudged : ∀ m ∈ coal.judged verdicts, 0 < m.stake := by
    intro m hm
    obtain ⟨n, hn, rfl⟩ := List.mem_map.mp hm
    exact h n hn
  unfold Coalition.resolve
  split_ifs
  · exact h
  · exact h
  · dsimp only
    cases (redistributeStake (coal.judged verdicts)
      (Coalition.majority (coal.judged verdicts)).2).validate with
    | error e => exact hjudged
    | ok _ =>
      intro m hm
      obtain ⟨n, hn, rfl⟩ := List.mem_map.mp hm
      exact hjudged n hn

theorem Made.stake_pos {coal : Coalition} (h : Made coal) : ∀ m ∈ coal.members, 0 < m.stake := by
  induction h with
  | new => exact List.forall_mem_nil _
  | addMember _ hcall ih =>
    unfold Coalition.addMember at hcall
    split_ifs at hcall with hstatus hstake
    obtain rfl := Except.ok.inj hcall
    intro m hm
    rcases List.mem_append.mp hm with hm | hm
    · exact ih m hm
    · rw [List.mem_singleton.mp hm]
      exact not_le.mp hstake
  | sealCoalition _ hcall ih =>
    unfold Coalition.sealCoalition at hcall
    split_ifs at hcall
    obtain rfl := Except.ok.inj hcall
    exact ih
  | resolve verdicts _ ih => exact stake_pos_resolve ih verdicts
  | dissolve _ hcall ih =>
    unfold Coalition.dissolve at hcall
    split_ifs at hcall
    obtain rfl := Except.ok.inj hcall
    exact ih

/-! ### Sides -/

/-- The verdict of the winning side, where there is one. -/
def CoalitionOutcome.winningVerdict : CoalitionOutcome → Option Str
  | approved => some MemberVerdict.approve.value
  | rejected => some MemberVerdict.reject.value
  | escalated => none

def Wins (outcome : CoalitionOutcome) (m : CoalitionMember) : Prop :=
  outcome.winningVerdict = some m.verdict

/-- The member has voted against the winning side. -/
def Loses (outcome : CoalitionOutcome) (m : CoalitionMember) : Prop :=
  outcome.winningVerdict ≠ none ∧ outcome.winningVerdict ≠ some m.verdict ∧
    m.verdict ≠ MemberVerdict.abstain.value

instance (outcome : CoalitionOutcome) (m : CoalitionMember) : Decidable (Wins outcome m) :=
  inferInstanceAs (Decidable (_ = _))

instance (outcome : CoalitionOutcome) (m : CoalitionMember) : Decidable (Loses outcome m) :=
  inferInstanceAs (Decidable (_ ∧ _ ∧ _))

/-- What is meant to hold of the shares, but for what is left. -/
structure Fair (coal : Coalition) (verdicts : List (Str × Str)) (outcome : CoalitionOutcome)
    (dist : StakeDistribution) (coal' : Coalition) : Prop where
  members : coal'.members.map (fun m => (m.agentId, m.stake, m.verdict)) =
    (coal.judged verdicts).map fun m => (m.agentId, m.stake, m.verdict)
  conserved : (coal'.members.map CoalitionMember.shareReturned).sum + dist.remainder =
    totalStake coal.members
  /-- The bonus is the share of what the losing side has staked, rounded down. -/
  winner : ∀ m ∈ coal'.members, Wins outcome m → m.stake ≤ m.shareReturned ∧
    m.shareReturned = m.stake + m.stake * totalStake (coal'.members.filter (Loses outcome ·)) /
      totalStake (coal'.members.filter (Wins outcome ·))
  abstainer : ∀ m ∈ coal'.members, m.verdict = MemberVerdict.abstain.value →
    m.shareReturned = m.stake
  loser : ∀ m ∈ coal'.members, Loses outcome m → m.shareReturned = 0

/-- A resolution as it is meant to be, with the bound of the rest by the winners. -/
def Shared (coal : Coalition) (verdicts : List (Str × Str)) : Prop :=
  ∃ outcome dist coal', coal.resolve verdicts = (.ok (outcome, dist), coal') ∧
    Fair coal verdicts outcome dist coal' ∧ 0 ≤ dist.remainder ∧
    dist.remainder < (coal'.members.filter (Wins outcome ·)).length

/-- A resolution as the code has it: where no side wins, every stake is returned. -/
def SharedOrReturned (coal : Coalition) (verdicts : List (Str × Str)) : Prop :=
  ∃ outcome dist coal', coal.resolve verdicts = (.ok (outcome, dist), coal') ∧
    Fair coal verdicts outcome dist coal' ∧ 0 ≤ dist.remainder ∧
    (outcome ≠ .escalated → dist.remainder < (coal'.members.filter (Wins outcome ·)).length) ∧
    (outcome = .escalated → dist.remainder = 0 ∧ ∀ m ∈ coal'.members, m.shareReturned = m.stake)

/-! ### Entries -/

theorem recover_eq {d : List (Str × Int)} {ms : List CoalitionMember}
    (h : (Assoc.keys d ++ ms.map CoalitionMember.agentId).Nodup) :
    recover d ms = d ++ ms.map fun m => (m.agentId, m.stake) := by
  induction ms generalizing d with
  | nil => exact (List.append_nil d).symm
  | cons m ms ih =>
    rw [List.map_cons, List.append_cons] at h
    have hnew : m.agentId ∉ Assoc.keys d := fun hmem =>
      (List.nodup_append.mp (List.nodup_append.mp h).1).2.2 _ hmem _ (List.mem_singleton_self _) rfl
    have hkeys : Assoc.keys (d ++ [(m.agentId, m.stake)]) = Assoc.keys d ++ [m.agentId] :=
      List.map_append
    rw [← hkeys] at h
    rw [recover, List.foldl_cons, Assoc.set_of_notMem hnew, ← recover, ih h, List.append_assoc]
    rfl

theorem payBonus_foldl (pool whole : Int) {ws : List CoalitionMember} {d : List (Str × Int)}
    (h : (Assoc.keys d ++ ws.map CoalitionMember.agentId).Nodup) (rest : List (Str × Int))
    (remainder : Int) :
    ws.foldl (payBonus pool whole)
        (d ++ ((ws.map fun m => (m.agentId, m.stake)) ++ rest), remainder) =
      (d ++ ((ws.map fun m => (m.agentId, m.stake + m.stake * pool / whole)) ++ rest),
        remainder - (ws.map fun m => m.stake * pool / whole).sum) := by
  induction ws generalizing d remainder with
  | nil => simp
  | cons m ws ih =>
    rw [List.map_cons, List.append_cons] at h
    have hnew : m.agentId ∉ Assoc.keys d := fun hmem =>
      (List.nodup_append.mp (List.nodup_append.mp h).1).2.2 _ hmem _ (List.mem_singleton_self _) rfl
    have hkeys : Assoc.keys (d ++ [(m.agentId, m.stake + m.stake * pool / whole)]) =
        Assoc.keys d ++ [m.agentId] := List.map_append
    rw [← hkeys] at h
    rw [List.foldl_cons, List.map_cons, List.cons_append, payBonus]
    dsimp only
    rw [Assoc.lookup_append_cons hnew, Option.getD_some, Assoc.set_append_cons hnew,
      List.append_cons, ih h, List.map_cons, List.map_cons, List.sum_cons, ← List.append_cons,
      List.cons_append, sub_sub]

/-! ### Sums over the sides -/

theorem sum_sides (w : Str) (hw : w ≠ MemberVerdict.abstain.value) (f : CoalitionMember → Int)
    (ms : List CoalitionMember) :
    (ms.map f).sum = ((ms.filter fun m => m.verdict = w).map f).sum +
      ((ms.filter fun m => m.verdict = MemberVerdict.abstain.value).map f).sum +
      ((ms.filter fun m => m.verdict ≠ w ∧ m.verdict ≠ MemberVerdict.abstain.value).map f).sum := by
  induction ms with
  | nil => rfl
  | cons m ms ih =>
    simp only [List.filter_cons, decide_eq_true_eq]
    rw [List.map_cons, List.sum_cons, ih]
    by_cases hm : m.verdict = w
    · rw [if_pos hm, if_neg (by rw [hm]; exact hw), if_neg fun h => h.1 hm, List.map_cons,
        List.sum_cons]
      omega
    · by_cases ha : m.verdict = MemberVerdict.abstain.value
      · rw [if_neg hm, if_pos ha, if_neg fun h => h.2 ha, List.map_cons, List.sum_cons]
        omega
      · rw [if_neg hm, if_neg ha, if_pos ⟨hm, ha⟩, List.map_cons, List.sum_cons]
        omega

/-! ### Majorities -/

theorem majority_winningVerdict (ms : List CoalitionMember) :
    (Coalition.majority ms).2 = (Coalition.majority ms).1.winningVerdict := by
  unfold Coalition.majority
  dsimp only
  split_ifs <;> rfl

theorem exists_of_majority {ms : List CoalitionMember} {w : Str}
    (h : (Coalition.majority ms).2 = some w) :
    w ≠ MemberVerdict.abstain.value ∧ ∃ m ∈ ms, m.verdict = w := by
  have hcount : ∀ {v : Str}, 0 < List.count v ((ms.map CoalitionMember.verdict).filter
      (· ≠ MemberVerdict.abstain.value)) → ∃ m ∈ ms, m.verdict = v := by
    intro v hv
    exact List.mem_map.mp (List.mem_of_mem_filter (List.count_pos_iff.mp hv))
  unfold Coalition.majority at h
  dsimp only at h
  split_ifs at h with happrove hreject
  · obtain rfl := Option.some.inj h
    exact ⟨by decide, hcount (Nat.zero_lt_of_lt happrove)⟩
  · obtain rfl := Option.some.inj h
    exact ⟨by decide, hcount (Nat.zero_lt_of_lt hreject)⟩

theorem totalStake_pos {ms : List CoalitionMember} (hpos : ∀ m ∈ ms, 0 < m.stake) (hne : ms ≠ []) :
    0 < totalStake ms := by
  unfold totalStake
  refine List.sum_pos _ ?_ ?_
  · intro x hx
    obtain ⟨m, hm, rfl⟩ := List.mem_map.mp hx
    exact hpos m hm
  · simpa using hne

/-! ### The redistribution -/

section sides

variable {ms : List CoalitionMember} {w : Str}

def winnersOf (ms : List CoalitionMember) (w : Str) : List CoalitionMember :=
  ms.filter fun m => m.verdict = w

def abstainersOf (ms : List CoalitionMember) : List CoalitionMember :=
  ms.filter fun m => m.verdict = MemberVerdict.abstain.value

def losersOf (ms : List CoalitionMember) (w : Str) : List CoalitionMember :=
  ms.filter fun m => m.verdict ≠ w ∧ m.verdict ≠ MemberVerdict.abstain.value

def bonusOf (ms : List CoalitionMember) (w : Str) (m : CoalitionMember) : Int :=
  m.stake * totalStake (losersOf ms w) / totalStake (winnersOf ms w)

theorem redistributeStake_some (hpos : ∀ m ∈ ms, 0 < m.stake) (hwinner : ∃ m ∈ ms, m.verdict = w)
    (hdistinct : ((winnersOf ms w ++ abstainersOf ms).map CoalitionMember.agentId).Nodup) :
    redistributeStake ms (some w) =
      { totalPool := totalStake ms
        distributions := ((winnersOf ms w).map fun m => (m.agentId, m.stake + bonusOf ms w m)) ++
          (abstainersOf ms).map fun m => (m.agentId, m.stake)
        remainder := leftOver (totalStake (losersOf ms w)) (totalStake (winnersOf ms w))
          ((winnersOf ms w).map CoalitionMember.stake) } := by
  obtain ⟨m, hm, hverdict⟩ := hwinner
  have hmem : m ∈ winnersOf ms w := List.mem_filter.mpr ⟨hm, decide_eq_true hverdict⟩
  have hne : winnersOf ms w ≠ [] := List.ne_nil_of_mem hmem
  have htotal : 0 < totalStake (winnersOf ms w) :=
    totalStake_pos (fun n hn => hpos n (List.mem_of_mem_filter hn)) hne
  rw [List.map_append] at hdistinct
  have hrecover : recover (recover [] (winnersOf ms w)) (abstainersOf ms) =
      [] ++ (((winnersOf ms w).map fun m => (m.agentId, m.stake)) ++
        (abstainersOf ms).map fun m => (m.agentId, m.stake)) := by
    have hwinners : (Assoc.keys ([] : List (Str × Int)) ++
        (winnersOf ms w).map CoalitionMember.agentId).Nodup := (List.nodup_append.mp hdistinct).1
    rw [recover_eq hwinners, List.nil_append, recover_eq]
    · rfl
    · have hkeys : Assoc.keys ((winnersOf ms w).map fun m => (m.agentId, m.stake)) =
          (winnersOf ms w).map CoalitionMember.agentId := List.map_map
      rw [hkeys]
      exact hdistinct
  have hfold := @payBonus_foldl (totalStake (losersOf ms w)) (totalStake (winnersOf ms w))
    (winnersOf ms w) [] (List.nodup_append.mp hdistinct).1
    ((abstainersOf ms).map fun m => (m.agentId, m.stake)) (totalStake (losersOf ms w))
  rw [← hrecover] at hfold
  unfold redistributeStake
  dsimp only
  rw [show (ms.filter fun m => decide (m.verdict = w)) = winnersOf ms w from rfl,
    show (ms.filter fun m => decide (m.verdict = MemberVerdict.abstain.value)) = abstainersOf ms from rfl,
    show (ms.filter fun m => decide (m.verdict ≠ w ∧ m.verdict ≠ MemberVerdict.abstain.value)) =
      losersOf ms w from rfl,
    if_pos ⟨hne, htotal⟩, hfold]
  unfold leftOver
  rw [List.map_map]
  rfl

theorem redistributeStake_none (hdistinct : (ms.map CoalitionMember.agentId).Nodup) :
    redistributeStake ms none =
      { totalPool := totalStake ms
        distributions := ms.map fun m => (m.agentId, m.stake)
        remainder := 0 } := by
  unfold redistributeStake
  rw [recover_eq (d := []) hdistinct]
  rfl

def shareOf (ms : List CoalitionMember) (w : Str) (m : CoalitionMember) : Int :=
  if m.verdict = w then m.stake + bonusOf ms w m
  else if m.verdict = MemberVerdict.abstain.value then m.stake else 0

theorem lookup_share (hpos : ∀ m ∈ ms, 0 < m.stake) (hwinner : ∃ m ∈ ms, m.verdict = w)
    (hdistinct : ((winnersOf ms w ++ abstainersOf ms).map CoalitionMember.agentId).Nodup)
    (hsame : ∀ m ∈ ms, ∀ n ∈ ms, m.agentId = n.agentId → m.verdict = n.verdict)
    {m : CoalitionMember} (hm : m ∈ ms) :
    ((redistributeStake ms (some w)).distributions.lookup m.agentId).getD 0 = shareOf ms w m := by
  rw [redistributeStake_some hpos hwinner hdistinct]
  dsimp only
  have hkeys : Assoc.keys (((winnersOf ms w).map fun m => (m.agentId, m.stake + bonusOf ms w m)) ++
      (abstainersOf ms).map fun m => (m.agentId, m.stake)) =
      (winnersOf ms w ++ abstainersOf ms).map CoalitionMember.agentId := by
    unfold Assoc.keys
    rw [List.map_append, List.map_append, List.map_map, List.map_map]
    rfl
  rw [← hkeys] at hdistinct
  unfold shareOf
  by_cases hwin : m.verdict = w
  · have hmem : m ∈ winnersOf ms w := List.mem_filter.mpr ⟨hm, decide_eq_true hwin⟩
    rw [if_pos hwin, (Assoc.lookup_eq_some_iff hdistinct).mpr
      (List.mem_append_left _ (List.mem_map_of_mem hmem)), Option.getD_some]
  rw [if_neg hwin]
  by_cases habstain : m.verdict = MemberVerdict.abstain.value
  · have hmem : m ∈ abstainersOf ms := List.mem_filter.mpr ⟨hm, decide_eq_true habstain⟩
    rw [if_pos habstain, (Assoc.lookup_eq_some_iff hdistinct).mpr
      (List.mem_append_right _ (List.mem_map_of_mem hmem)), Option.getD_some]
  rw [if_neg habstain]
  -- no one else of the id has voted otherwise
  have hnone : m.agentId ∉ Assoc.keys (((winnersOf ms w).map fun m =>
      (m.agentId, m.stake + bonusOf ms w m)) ++ (abstainersOf ms).map fun m =>
        (m.agentId, m.stake)) := by
    rw [hkeys, List.mem_map]
    rintro ⟨n, hn, hid⟩
    rcases List.mem_append.mp hn with hn | hn
    · obtain ⟨hn, hverdict⟩ := List.mem_filter.mp hn
      exact hwin ((hsame m hm n hn hid.symm).trans (of_decide_eq_true hverdict))
    · obtain ⟨hn, hverdict⟩ := List.mem_filter.mp hn
      exact habstain ((hsame m hm n hn hid.symm).trans (of_decide_eq_true hverdict))
  cases hlookup : List.lookup m.agentId (((winnersOf ms w).map fun m =>
      (m.agentId, m.stake + bonusOf ms w m)) ++ (abstainersOf ms).map fun m =>
        (m.agentId, m.stake)) with
  | none => rfl
  | some v => exact absurd (Assoc.mem_keys_iff.mpr ⟨v, hlookup⟩) hnone

theorem sum_bonus (ms : List CoalitionMember) (w : Str) :
    ((winnersOf ms w).map (bonusOf ms w)).sum +
      leftOver (totalStake (losersOf ms w)) (totalStake (winnersOf ms w))
        ((winnersOf ms w).map CoalitionMember.stake) = totalStake (losersOf ms w) := by
  unfold leftOver
  rw [List.map_map]
  exact add_sub_cancel _ _

theorem sum_shareOf (hw : w ≠ MemberVerdict.abstain.value) :
    (ms.map (shareOf ms w)).sum =
      ((winnersOf ms w).map fun m => m.stake + bonusOf ms w m).sum + totalStake (abstainersOf ms) := by
  have hwinners : (winnersOf ms w).map (shareOf ms w) =
      (winnersOf ms w).map fun m => m.stake + bonusOf ms w m := by
    refine List.map_congr_left fun m hm => ?_
    exact if_pos (of_decide_eq_true (List.mem_filter.mp hm).2)
  have habstainers : (abstainersOf ms).map (shareOf ms w) =
      (abstainersOf ms).map CoalitionMember.stake := by
    refine List.map_congr_left fun m hm => ?_
    have hverdict : m.verdict = MemberVerdict.abstain.value :=
      of_decide_eq_true (List.mem_filter.mp hm).2
    exact (if_neg (by rw [hverdict]; exact hw.symm)).trans (if_pos hverdict)
  have hlosers : ((losersOf ms w).map (shareOf ms w)).sum = 0 := by
    refine List.sum_eq_zero fun x hx => ?_
    obtain ⟨m, hm, rfl⟩ := List.mem_map.mp hx
    have hverdict := of_decide_eq_true (List.mem_filter.mp hm).2
    exact (if_neg hverdict.1).trans (if_neg hverdict.2)
  have hsides := sum_sides w hw (shareOf ms w) ms
  change _ = ((winnersOf ms w).map _).sum + ((abstainersOf ms).map _).sum +
    ((losersOf ms w).map _).sum at hsides
  rw [hsides, hwinners, habstainers, hlosers, add_zero]
  rfl

theorem sum_shareOf_add_leftOver (hw : w ≠ MemberVerdict.abstain.value) :
    (ms.map (shareOf ms w)).sum +
      leftOver (totalStake (losersOf ms w)) (totalStake (winnersOf ms w))
        ((winnersOf ms w).map CoalitionMember.stake) = totalStake ms := by
  have hsides := sum_sides w hw CoalitionMember.stake ms
  change totalStake ms = totalStake (winnersOf ms w) + totalStake (abstainersOf ms) +
    totalStake (losersOf ms w) at hsides
  have hbonus := sum_bonus ms w
  rw [sum_shareOf hw, List.sum_map_add]
  change totalStake (winnersOf ms w) + _ + _ + _ = _
  omega

end sides

/-! ### The resolution -/

variable {coal : Coalition} {verdicts : List (Str × Str)}

theorem verdict_of_judged {m n : CoalitionMember} (hm : m ∈ coal.judged verdicts)
    (hn : n ∈ coal.judged verdicts) (hid : m.agentId = n.agentId) : m.verdict = n.verdict := by
  obtain ⟨m', hm', rfl⟩ := List.mem_map.mp hm
  obtain ⟨n', hn', rfl⟩ := List.mem_map.mp hn
  dsimp only at hid ⊢
  rw [hid]

/-- The members after a resolution with these shares. -/
def withShares (dist : StakeDistribution) (ms : List CoalitionMember) : List CoalitionMember :=
  ms.map fun m => { m with shareReturned := (dist.distributions.lookup m.agentId).getD 0 }

theorem resolve_of_balanced (hsealed : coal.status = .sealed) {dist : StakeDistribution}
    (hdist : redistributeStake (coal.judged verdicts)
      (Coalition.majority (coal.judged verdicts)).2 = dist)
    (hbalanced : (dist.distributions.map Prod.snd).sum + dist.remainder = dist.totalPool) :
    coal.resolve verdicts = (.ok ((Coalition.majority (coal.judged verdicts)).1, dist),
      { coal with
        members := withShares dist (coal.judged verdicts)
        status := .resolved }) := by
  have hvalid : dist.validate = .ok () := by
    unfold StakeDistribution.validate
    exact if_neg (not_not.mpr hbalanced)
  unfold Coalition.resolve
  rw [hsealed, if_neg (by decide), if_neg (by decide)]
  dsimp only
  rw [hdist, hvalid]
  rfl

theorem filter_withShares (dist : StakeDistribution) (ms : List CoalitionMember) (c : Str → Bool) :
    (withShares dist ms).filter (fun m => c m.verdict) =
      withShares dist (ms.filter fun m => c m.verdict) :=
  List.filter_map

theorem totalStake_withShares (dist : StakeDistribution) (ms : List CoalitionMember) :
    totalStake (withShares dist ms) = totalStake ms := by
  unfold totalStake withShares
  rw [List.map_map]
  rfl

theorem totalStake_judged : totalStake (coal.judged verdicts) = totalStake coal.members := by
  unfold totalStake Coalition.judged
  rw [List.map_map]
  rfl

theorem map_withShares (dist : StakeDistribution) (ms : List CoalitionMember) :
    (withShares dist ms).map (fun m => (m.agentId, m.stake, m.verdict)) =
      ms.map fun m => (m.agentId, m.stake, m.verdict) := by
  unfold withShares
  rw [List.map_map]
  rfl

theorem sum_withShares (dist : StakeDistribution) (ms : List CoalitionMember) :
    ((withShares dist ms).map CoalitionMember.shareReturned).sum =
      (ms.map fun m => (dist.distributions.lookup m.agentId).getD 0).sum := by
  unfold withShares
  rw [List.map_map]
  rfl

theorem wins_iff {outcome : CoalitionOutcome} {w : Str} (hw : outcome.winningVerdict = some w)
    (m : CoalitionMember) : Wins outcome m ↔ m.verdict = w := by
  unfold Wins
  rw [hw, Option.some.injEq, eq_comm]

theorem loses_iff {outcome : CoalitionOutcome} {w : Str} (hw : outcome.winningVerdict = some w)
    (m : CoalitionMember) :
    Loses outcome m ↔ m.verdict ≠ w ∧ m.verdict ≠ MemberVerdict.abstain.value := by
  unfold Loses
  rw [hw, ne_eq, ne_eq, Option.some.injEq, eq_comm (a := w), and_iff_right (Option.some_ne_none w)]

theorem filter_wins {outcome : CoalitionOutcome} {w : Str} (hw : outcome.winningVerdict = some w)
    (dist : StakeDistribution) (ms : List CoalitionMember) :
    (withShares dist ms).filter (Wins outcome ·) = withShares dist (winnersOf ms w) := by
  refine (List.filter_congr fun m _ => ?_).trans (filter_withShares dist ms fun v => v = w)
  exact decide_eq_decide.mpr (wins_iff hw m)

theorem filter_loses {outcome : CoalitionOutcome} {w : Str} (hw : outcome.winningVerdict = some w)
    (dist : StakeDistribution) (ms : List CoalitionMember) :
    (withShares dist ms).filter (Loses outcome ·) = withShares dist (losersOf ms w) := by
  refine (List.filter_congr fun m _ => ?_).trans (filter_withShares dist ms fun v =>
    v ≠ w ∧ v ≠ MemberVerdict.abstain.value)
  exact decide_eq_decide.mpr (loses_iff hw m)

theorem shared_of_tie (hsealed : coal.status = .sealed)
    (hescalated : (Coalition.majority (coal.judged verdicts)).1 = .escalated)
    (hdistinct : ((coal.judged verdicts).map CoalitionMember.agentId).Nodup) :
    SharedOrReturned coal verdicts := by
  have hverdict := majority_winningVerdict (coal.judged verdicts)
  rw [hescalated] at hverdict
  have hdist := redistributeStake_none hdistinct
  have hstakes : (((coal.judged verdicts).map fun m => (m.agentId, m.stake)).map Prod.snd).sum =
      totalStake (coal.judged verdicts) := by
    rw [List.map_map]
    rfl
  rw [← show _ = none from hverdict] at hdist
  have hresolve := resolve_of_balanced hsealed hdist (by rw [hstakes, add_zero])
  rw [hescalated] at hresolve
  have hkeys : (Assoc.keys ((coal.judged verdicts).map fun m => (m.agentId, m.stake))).Nodup := by
    unfold Assoc.keys
    rw [List.map_map]
    exact hdistinct
  have hshare : ∀ m ∈ coal.judged verdicts, (List.lookup m.agentId
      ((coal.judged verdicts).map fun m => (m.agentId, m.stake))).getD 0 = m.stake := by
    intro m hm
    rw [(Assoc.lookup_eq_some_iff hkeys).mpr (List.mem_map_of_mem hm), Option.getD_some]
  refine ⟨_, _, _, hresolve, ?_, le_refl 0, fun hne => absurd rfl hne, fun _ => ⟨rfl, ?_⟩⟩
  · refine ⟨map_withShares _ _, ?_, ?_, ?_, ?_⟩
    · dsimp only
      rw [sum_withShares, List.map_congr_left hshare, add_zero]
      exact totalStake_judged
    · intro m hm hwins
      cases hwins
    · intro m hm _
      obtain ⟨n, hn, rfl⟩ := List.mem_map.mp hm
      exact hshare n hn
    · intro m hm hloses
      exact absurd rfl hloses.1
  · intro m hm
    obtain ⟨n, hn, rfl⟩ := List.mem_map.mp hm
    exact hshare n hn

theorem shared_of_winner (hsealed : coal.status = .sealed) (hpos : ∀ m ∈ coal.members, 0 < m.stake)
    {w : Str} (hw : (Coalition.majority (coal.judged verdicts)).1.winningVerdict = some w)
    (hdistinct : ((winnersOf (coal.judged verdicts) w ++ abstainersOf (coal.judged verdicts)).map
      CoalitionMember.agentId).Nodup) : SharedOrReturned coal verdicts := by
  have hjudged : ∀ m ∈ coal.judged verdicts, 0 < m.stake := by
    intro m hm
    obtain ⟨n, hn, rfl⟩ := List.mem_map.mp hm
    exact hpos n hn
  have hverdict := (majority_winningVerdict (coal.judged verdicts)).trans hw
  obtain ⟨hne, hwinner⟩ := exists_of_majority hverdict
  have hshare : ∀ m ∈ coal.judged verdicts,
      ((redistributeStake (coal.judged verdicts) (some w)).distributions.lookup m.agentId).getD 0 =
        shareOf (coal.judged verdicts) w m := fun m hm =>
    lookup_share hjudged hwinner hdistinct (fun _ hm _ hn => verdict_of_judged hm hn) hm
  have hdist := redistributeStake_some hjudged hwinner hdistinct
  have hsum := @sum_shareOf_add_leftOver (coal.judged verdicts) w hne
  have hwhole : 0 < totalStake (winnersOf (coal.judged verdicts) w) := by
    obtain ⟨m, hm, hm'⟩ := hwinner
    refine totalStake_pos (fun n hn => hjudged n (List.mem_of_mem_filter hn)) ?_
    exact List.ne_nil_of_mem (List.mem_filter.mpr ⟨hm, decide_eq_true hm'⟩)
  have hpool : 0 ≤ totalStake (losersOf (coal.judged verdicts) w) := by
    refine List.sum_nonneg fun x hx => ?_
    obtain ⟨m, hm, rfl⟩ := List.mem_map.mp hx
    exact (hjudged m (List.mem_of_mem_filter hm)).le
  have hbounds := @leftOver_bounds _ hwhole (totalStake (losersOf (coal.judged verdicts) w))
    ((winnersOf (coal.judged verdicts) w).map CoalitionMember.stake) rfl
  have hresult := congrArg (redistributeStake (coal.judged verdicts)) hverdict
  generalize redistributeStake (coal.judged verdicts) (some w) = dist at hdist hshare hresult
  have hremainder := congrArg StakeDistribution.remainder hdist
  have hentries := congrArg StakeDistribution.distributions hdist
  have htotal := congrArg StakeDistribution.totalPool hdist
  dsimp only at hremainder hentries htotal
  have hresolve := resolve_of_balanced hsealed hresult ?_
  · generalize (Coalition.majority (coal.judged verdicts)).1 = outcome at hw hresolve
    rw [← hremainder] at hbounds
    refine ⟨_, _, _, hresolve, ?_, hbounds.1, fun _ => ?_, fun hescalated => ?_⟩
    · refine ⟨map_withShares _ _, ?_, ?_, ?_, ?_⟩
      · dsimp only
        rw [sum_withShares, List.map_congr_left hshare, hremainder, hsum]
        exact totalStake_judged
      · intro m hm hwins
        obtain ⟨n, hn, rfl⟩ := List.mem_map.mp hm
        have hn' : n.verdict = w := (wins_iff hw _).mp hwins
        have hbonus : 0 ≤ bonusOf (coal.judged verdicts) w n :=
          Int.ediv_nonneg (mul_nonneg (hjudged n hn).le hpool) hwhole.le
        have heq := hshare n hn
        rw [shareOf, if_pos hn'] at heq
        dsimp only at heq ⊢
        rw [heq, filter_wins hw, filter_loses hw, totalStake_withShares, totalStake_withShares]
        exact ⟨le_add_of_nonneg_right hbonus, rfl⟩
      · intro m hm habstain
        obtain ⟨n, hn, rfl⟩ := List.mem_map.mp hm
        have hn' : n.verdict = MemberVerdict.abstain.value := habstain
        have heq := hshare n hn
        rw [shareOf, if_neg (by rw [hn']; exact hne.symm), if_pos hn'] at heq
        exact heq
      · intro m hm hloses
        obtain ⟨n, hn, rfl⟩ := List.mem_map.mp hm
        have hn' : n.verdict ≠ w ∧ n.verdict ≠ MemberVerdict.abstain.value :=
          (loses_iff hw _).mp hloses
        have heq := hshare n hn
        rw [shareOf, if_neg hn'.1, if_neg hn'.2] at heq
        exact heq
    · dsimp only
      rw [filter_wins hw, withShares, List.length_map]
      have hlt := hbounds.2
      rw [List.length_map] at hlt
      exact hlt
    · rw [hescalated] at hw
      cases hw
  · rw [hentries, hremainder, htotal, List.map_append, List.map_map, List.map_map, List.sum_append,
      ← hsum, sum_shareOf hne]
    rfl

theorem perm_of_not_loses {outcome : CoalitionOutcome} {w : Str}
    (hw : outcome.winningVerdict = some w) (hne : w ≠ MemberVerdict.abstain.value)
    (ms : List CoalitionMember) :
    (winnersOf ms w ++ abstainersOf ms).Perm (ms.filter fun m => ¬ Loses outcome m) := by
  have hwinners : winnersOf ms w =
      (ms.filter fun m => ¬ Loses outcome m).filter fun m => m.verdict = w := by
    rw [List.filter_filter]
    refine List.filter_congr fun m _ => ?_
    rw [← Bool.decide_and]
    refine decide_eq_decide.mpr (Iff.symm ?_)
    rw [and_iff_left_iff_imp, loses_iff hw]
    exact fun h hloses => hloses.1 h
  have habstainers : abstainersOf ms =
      (ms.filter fun m => ¬ Loses outcome m).filter fun m => !decide (m.verdict = w) := by
    rw [List.filter_filter]
    refine List.filter_congr fun m _ => ?_
    rw [← decide_not, ← Bool.decide_and]
    refine decide_eq_decide.mpr ?_
    rw [loses_iff hw]
    constructor
    · intro h
      exact ⟨by rw [h]; exact hne.symm, fun hloses => hloses.2 h⟩
    · rintro ⟨hwin, hloses⟩
      exact not_not.mp fun h => hloses ⟨hwin, h⟩
  rw [hwinners, habstainers]
  exact List.filter_append_perm _ _

/-- Where no two members of one id are left besides the losing side, a sealed coalition is resolved,
and the shares are as they are meant to be; where no side wins, every stake is returned. -/
theorem shared_of_distinct (hmade : Made coal) (hsealed : coal.status = .sealed)
    (verdicts : List (Str × Str))
    (hdistinct : (((coal.judged verdicts).filter fun m =>
      ¬ Loses (Coalition.majority (coal.judged verdicts)).1 m).map CoalitionMember.agentId).Nodup) :
    SharedOrReturned coal verdicts := by
  cases hw : (Coalition.majority (coal.judged verdicts)).1.winningVerdict with
  | none =>
    have hall : ((coal.judged verdicts).filter fun m =>
        ¬ Loses (Coalition.majority (coal.judged verdicts)).1 m) = coal.judged verdicts :=
      List.filter_eq_self.mpr fun m _ => decide_eq_true fun hloses => hloses.1 hw
    rw [hall] at hdistinct
    refine shared_of_tie hsealed ?_ hdistinct
    cases hout : (Coalition.majority (coal.judged verdicts)).1 with
    | escalated => rfl
    | approved =>
      rw [hout] at hw
      cases hw
    | rejected =>
      rw [hout] at hw
      cases hw
  | some w =>
    have hne := (exists_of_majority ((majority_winningVerdict _).trans hw)).1
    refine shared_of_winner hsealed hmade.stake_pos hw ?_
    exact ((perm_of_not_loses hw hne _).map _).nodup_iff.mpr hdistinct

/-! ### Two members -/

/-- A sealed coalition of two members with three units each. -/
def pair (a b : Str) : Coalition where
  coalitionId := str "ACF-1"
  mutationId := str "MUT-1"
  complexityClass := str "HIGH"
  status := .sealed
  members := [⟨a, str "Architect", 3, [], 0⟩, ⟨b, str "Dream", 3, [], 0⟩]

theorem made_pair (a b : Str) : Made (pair a b) := by
  have hnew := Made.new (str "ACF-1") (str "MUT-1") (str "HIGH")
  have hfirst := hnew.addMember (rfl : Coalition.addMember _ a (str "Architect") 3 = .ok _)
  have hsecond := hfirst.addMember (rfl : Coalition.addMember _ b (str "Dream") 3 = .ok _)
  exact hsecond.sealCoalition rfl

theorem shared_of_distinct_pair :
    SharedOrReturned (pair (str "a") (str "b")) [(str "a", str "APPROVE")] :=
  shared_of_distinct (made_pair _ _) rfl _ (by decide)

theorem resolve_pair_same :
    ((pair (str "a") (str "a")).resolve []).1 = .error (.shareArithmetic 3 6) := by
  decide

theorem resolve_pair_tie :
    ((pair (str "a") (str "b")).resolve []).1 =
      .ok (.escalated, ⟨6, [(str "a", 3), (str "b", 3)], 0⟩) := by
  decide

/-- Two members of one id are not resolved, and without a winning side nothing is less than the number of
winners. -/
theorem not_shared :
    (Made (pair (str "a") (str "a")) ∧ (pair (str "a") (str "a")).status = .sealed ∧
      ¬ Shared (pair (str "a") (str "a")) []) ∧
    (Made (pair (str "a") (str "b")) ∧ (pair (str "a") (str "b")).status = .sealed ∧
      ¬ Shared (pair (str "a") (str "b")) []) := by
  refine ⟨⟨made_pair _ _, rfl, ?_⟩, made_pair _ _, rfl, ?_⟩
  · rintro ⟨outcome, dist, coal', hresolve, -⟩
    have hok := congrArg Prod.fst hresolve
    rw [resolve_pair_same] at hok
    cases hok
  · rintro ⟨outcome, dist, coal', hresolve, -, -, hlt⟩
    have hok := congrArg Prod.fst hresolve
    rw [resolve_pair_tie] at hok
    obtain ⟨rfl, rfl⟩ := Prod.mk.inj (Except.ok.inj hok)
    have hnone : coal'.members.filter (Wins .escalated ·) = [] :=
      List.filter_eq_nil_iff.mpr fun m _ hwins => by cases of_decide_eq_true hwins
    rw [hnone] at hlt
    exact absurd hlt (by decide)

end Adaad.Innovations.AgentCoalition
