import Adaad.Federation.Coordination
import Adaad.Py.Json.Equiv.Sort
import Adaad.Py.Reference

/-!
# Counting peers

What `evaluate_federation_decision` decides does not depend on the order of the votes, and the
manifest digests do not either as long as nobody sends two different ones (`orderFree_iff`).  It
decides for a version with a quorum of distinct peers, whatever the quorum is, exactly when nobody
supports the leading version twice (`sound_iff`).
-/

namespace Adaad.Coordination

open Py

variable {P : Platform} {e : FederationPolicyExchange} {votes votes' : List FederationVote}

/-! ### Tallies -/

def tally (e : FederationPolicyExchange) (votes : List FederationVote) (version : Str) : Nat :=
  (supporters e votes version).length

theorem tally_perm (h : votes'.Perm votes) (version : Str) :
    tally e votes' version = tally e votes version := by
  unfold tally supporters
  rw [List.length_append, List.length_append, List.length_map, List.length_map,
    (h.filter _).length_eq]

theorem tally_append (version : Str) (v : FederationVote) :
    tally e (votes ++ [v]) version =
      tally e votes version + if v.accepts version = true then 1 else 0 := by
  unfold tally supporters
  rw [List.filter_append, List.map_append, ← List.append_assoc, List.length_append]
  congr 1
  by_cases h : v.accepts version = true
  · rw [if_pos h, List.filter_cons_of_pos (p := fun x : FederationVote => x.accepts version) h]
    rfl
  · rw [if_neg h, List.filter_cons_of_neg (p := fun x : FederationVote => x.accepts version) h]
    rfl

theorem tally_local_pos : 0 < tally e votes e.localPolicyVersion := by
  unfold tally supporters
  rw [if_pos rfl, List.length_append, List.length_singleton]
  omega

theorem foldl_tallyVote (votes : List FederationVote) :
    (Assoc.keys (votes.foldl tallyVote [(e.localPolicyVersion, 1)])).Nodup ∧
      ∀ version, (votes.foldl tallyVote [(e.localPolicyVersion, 1)]).lookup version =
        if tally e votes version = 0 then none else some (tally e votes version) := by
  induction votes using List.reverseRecOn with
  | nil =>
    refine ⟨List.nodup_singleton _, fun version => ?_⟩
    show ([(e.localPolicyVersion, 1)] : List (Str × Nat)).lookup version = _
    unfold tally supporters
    rw [Assoc.lookup_cons]
    by_cases h : version = e.localPolicyVersion
    · rw [if_pos h, if_pos h]
      rfl
    · rw [if_neg h, if_neg h]
      rfl
  | append_singleton votes v ih =>
    obtain ⟨hnodup, hlookup⟩ := ih
    rw [List.foldl_append]
    generalize votes.foldl tallyVote [(e.localPolicyVersion, 1)] = t at hnodup hlookup ⊢
    show (Assoc.keys (tallyVote t v)).Nodup ∧ ∀ version, (tallyVote t v).lookup version = _
    unfold tallyVote
    by_cases hv : v.decision = .accept
    · rw [if_pos hv]
      refine ⟨Assoc.nodup_keys_set hnodup _ _, fun version => ?_⟩
      rw [Assoc.lookup_set, tally_append, hlookup, hlookup]
      by_cases h : version = v.policyVersion
      · have hacc : v.accepts version = true := by simp [FederationVote.accepts, hv, h]
        rw [if_pos h, if_pos hacc, if_neg (Nat.succ_ne_zero _), ← h]
        split_ifs with h0
        · rw [h0]
          rfl
        · rfl
      · have hacc : ¬ v.accepts version = true := by
          simp [FederationVote.accepts, Ne.symm h]
        rw [if_neg h, if_neg hacc, Nat.add_zero]
    · rw [if_neg hv]
      refine ⟨hnodup, fun version => ?_⟩
      have hacc : ¬ v.accepts version = true := by simp [FederationVote.accepts, hv]
      rw [hlookup, tally_append, if_neg hacc, Nat.add_zero]

theorem nodup_keys_tallies : (Assoc.keys (tallies e votes)).Nodup :=
  (foldl_tallyVote _).1

theorem mem_tallies {version : Str} {n : Nat} :
    (version, n) ∈ tallies e votes ↔ n = tally e votes version ∧ 0 < n := by
  have hsame : tally e (sortedVotes votes) version = tally e votes version :=
    tally_perm (List.perm_insertionSort _ _) version
  rw [← Assoc.lookup_eq_some_iff nodup_keys_tallies, tallies, (foldl_tallyVote _).2, hsame]
  constructor
  · intro h
    split_ifs at h with h0
    obtain rfl := Option.some.inj h
    exact ⟨rfl, Nat.pos_of_ne_zero h0⟩
  · rintro ⟨rfl, hpos⟩
    exact if_neg (by omega)

/-! ### The leading version -/

instance : Std.Total fun a b : Str × Nat => versionLe a b = true where
  total a b := by
    simp only [versionLe, Bool.or_eq_true, Bool.and_eq_true, decide_eq_true_eq, beq_iff_eq]
    rcases Nat.lt_trichotomy a.2 b.2 with h | h | h
    · exact .inr (.inl h)
    · exact (strLe_total a.1 b.1).imp (fun hle => .inr ⟨h, hle⟩) fun hle => .inr ⟨h.symm, hle⟩
    · exact .inl (.inl h)

instance : IsTrans (Str × Nat) fun a b => versionLe a b = true where
  trans a b c hab hbc := by
    simp only [versionLe, Bool.or_eq_true, Bool.and_eq_true, decide_eq_true_eq,
      beq_iff_eq] at *
    rcases hab with hab | ⟨hab, hle⟩
    · rcases hbc with hbc | ⟨hbc, -⟩
      · exact .inl (by omega)
      · exact .inl (by omega)
    · rcases hbc with hbc | ⟨hbc, hle'⟩
      · exact .inl (by omega)
      · exact .inr ⟨by omega, strLe_trans hle hle'⟩

instance : Std.Antisymm fun a b : Str × Nat => versionLe a b = true where
  antisymm a b hab hba := by
    simp only [versionLe, Bool.or_eq_true, Bool.and_eq_true, decide_eq_true_eq,
      beq_iff_eq] at hab hba
    rcases hab with hab | ⟨hab, hle⟩
    · rcases hba with hba | ⟨hba, -⟩ <;> omega
    · rcases hba with hba | ⟨-, hle'⟩
      · omega
      · exact Prod.ext (strLe_antisymm hle hle') hab

theorem sortedVersions_perm (h : votes'.Perm votes) :
    sortedVersions e votes' = sortedVersions e votes := by
  have hperm : (tallies e votes').Perm (tallies e votes) := by
    refine (List.perm_ext_iff_of_nodup ?_ ?_).mpr fun m => ?_
    · exact List.Nodup.of_map _ nodup_keys_tallies
    · exact List.Nodup.of_map _ nodup_keys_tallies
    · obtain ⟨version, n⟩ := m
      rw [mem_tallies, mem_tallies, tally_perm h]
  refine List.Perm.eq_of_pairwise' (r := fun a b => versionLe a b = true)
    (List.pairwise_insertionSort _ _) (List.pairwise_insertionSort _ _) ?_
  exact ((List.perm_insertionSort _ _).trans hperm).trans (List.perm_insertionSort _ _).symm

/-- The version that most peers are behind, one for each of their votes; of several the first by
name. -/
def Leading (e : FederationPolicyExchange) (votes : List FederationVote) (version : Str) : Prop :=
  ∀ other, (supporters e votes other).length < (supporters e votes version).length ∨
    (supporters e votes other).length = (supporters e votes version).length ∧
      strLe version other = true

theorem Leading.unique {v w : Str} (hv : Leading e votes v) (hw : Leading e votes w) : v = w := by
  rcases hv w with hlt | ⟨-, hle⟩
  · rcases hw v with hlt' | ⟨heq, -⟩ <;> omega
  · rcases hw v with hlt' | ⟨-, hle'⟩
    · rcases hv w with hlt | ⟨heq, -⟩ <;> omega
    · exact strLe_antisymm hle hle'

theorem exists_sortedVersions (e : FederationPolicyExchange) (votes : List FederationVote) :
    ∃ v rest, sortedVersions e votes = (v, tally e votes v) :: rest ∧ Leading e votes v := by
  have hmem : ∀ m, m ∈ sortedVersions e votes ↔ m ∈ tallies e votes := fun m =>
    List.mem_insertionSort _
  have hlocal : (e.localPolicyVersion, tally e votes e.localPolicyVersion) ∈
      sortedVersions e votes := (hmem _).mpr (mem_tallies.mpr ⟨rfl, tally_local_pos⟩)
  obtain ⟨⟨v, n⟩, rest, hsorted⟩ := List.exists_cons_of_ne_nil (List.ne_nil_of_mem hlocal)
  have hhead : n = tally e votes v ∧ 0 < n := by
    rw [← mem_tallies, ← hmem, hsorted]
    exact List.mem_cons_self
  obtain ⟨rfl, hpos⟩ := hhead
  refine ⟨v, rest, hsorted, fun w => ?_⟩
  show tally e votes w < tally e votes v ∨ tally e votes w = tally e votes v ∧ strLe v w = true
  by_cases hw : tally e votes w = 0
  · exact .inl (by omega)
  · have hin : (w, tally e votes w) ∈ sortedVersions e votes :=
      (hmem _).mpr (mem_tallies.mpr ⟨rfl, Nat.pos_of_ne_zero hw⟩)
    have hpair := List.pairwise_insertionSort (fun a b : Str × Nat => versionLe a b = true)
      (tallies e votes)
    rw [show List.insertionSort _ (tallies e votes) = _ from hsorted, List.pairwise_cons] at hpair
    rw [hsorted, List.mem_cons] at hin
    rcases hin with hin | hin
    · obtain ⟨rfl, -⟩ := Prod.mk.inj hin
      exact .inr ⟨rfl, (strLe_total w w).elim id id⟩
    · have hle := hpair.1 _ hin
      simp only [versionLe, Bool.or_eq_true, Bool.and_eq_true, decide_eq_true_eq,
        beq_iff_eq] at hle
      exact hle.imp id fun h => ⟨h.1.symm, h.2⟩

/-! ### Manifest digests -/

theorem filter_sortedVotes (votes : List FederationVote) (p : Str) :
    (sortedVotes votes).filter (·.peerId = p) = votes.filter (·.peerId = p) := by
  have hpair : (votes.filter (·.peerId = p)).Pairwise
      fun a b => strLe a.peerId b.peerId = true := by
    rw [List.pairwise_filter]
    refine List.pairwise_of_forall fun a b ha hb => ?_
    rw [of_decide_eq_true ha, of_decide_eq_true hb]
    exact (strLe_total p p).elim id id
  have hsub := (List.sublist_insertionSort hpair List.filter_sublist).filter (·.peerId = p)
  rw [List.filter_filter] at hsub
  simp only [Bool.and_self] at hsub
  have hlen := ((List.perm_insertionSort (fun a b : FederationVote =>
    strLe a.peerId b.peerId = true) votes).filter (·.peerId = p)).length_eq
  exact (hsub.eq_of_length hlen.symm).symm

theorem foldl_manifestDigest (votes : List FederationVote) {d : List (Str × Str)}
    (hd : (Assoc.keys d).Nodup) :
    (Assoc.keys (votes.foldl (fun d v => Assoc.set d v.peerId v.manifestDigest) d)).Nodup ∧
      ∀ p, (votes.foldl (fun d v => Assoc.set d v.peerId v.manifestDigest) d).lookup p =
        ((votes.filter (·.peerId = p)).getLast?.map (·.manifestDigest)).or (d.lookup p) := by
  induction votes using List.reverseRecOn with
  | nil => exact ⟨hd, fun p => rfl⟩
  | append_singleton votes v ih =>
    obtain ⟨hnodup, hlookup⟩ := ih
    rw [List.foldl_append]
    refine ⟨Assoc.nodup_keys_set hnodup _ _, fun p => ?_⟩
    show (Assoc.set _ v.peerId v.manifestDigest).lookup p = _
    rw [Assoc.lookup_set, hlookup, List.filter_append]
    by_cases h : p = v.peerId
    · rw [if_pos h, List.filter_cons_of_pos (p := fun x : FederationVote => decide (x.peerId = p))
        (decide_eq_true h.symm), List.filter_nil, List.getLast?_concat]
      rfl
    · rw [if_neg h, List.filter_cons_of_neg (p := fun x : FederationVote => decide (x.peerId = p))
        (by simpa using Ne.symm h), List.filter_nil, List.append_nil]

theorem nodup_keys_local :
    (Assoc.keys [(e.localPeerId, e.localManifestDigest)]).Nodup :=
  List.nodup_singleton e.localPeerId

theorem nodup_keys_manifestDigests : (Assoc.keys (manifestDigests e votes)).Nodup :=
  (foldl_manifestDigest _ nodup_keys_local).1

theorem lookup_manifestDigests (p : Str) : (manifestDigests e votes).lookup p =
    ((votes.filter (·.peerId = p)).getLast?.map (·.manifestDigest)).or
      (if p = e.localPeerId then some e.localManifestDigest else none) := by
  rw [manifestDigests, (foldl_manifestDigest _ nodup_keys_local).2, filter_sortedVotes,
    Assoc.lookup_cons]
  rfl

theorem mem_decision_manifestDigests {q : Int} {p d : Str} :
    (p, d) ∈ (evaluateFederationDecision P e votes q).manifestDigests ↔
      (manifestDigests e votes).lookup p = some d := by
  show (p, d) ∈ (sortedPeers (manifestDigests e votes)).map
    (fun p => (p, ((manifestDigests e votes).lookup p).getD [])) ↔ _
  unfold sortedPeers
  simp only [List.mem_map, List.mem_insertionSort, Assoc.mem_keys_iff, Prod.mk.injEq]
  constructor
  · rintro ⟨p, ⟨d', hd'⟩, rfl, rfl⟩
    rw [hd']
    rfl
  · intro hd
    exact ⟨p, ⟨d, hd⟩, rfl, by rw [hd]; rfl⟩

/-! ### The order of the votes -/

/-- No peer sends two different manifest digests. -/
def Consistent (votes : List FederationVote) : Prop :=
  ∀ a ∈ votes, ∀ b ∈ votes, a.peerId = b.peerId → a.manifestDigest = b.manifestDigest

/-- The decision class, the selected version and the manifest digests are the same for every order
of the votes. -/
def OrderFree (P : Platform) (e : FederationPolicyExchange) (votes : List FederationVote) : Prop :=
  ∀ q : Int, 1 ≤ q → ∀ votes' : List FederationVote, votes'.Perm votes →
    (evaluateFederationDecision P e votes' q).decisionClass =
        (evaluateFederationDecision P e votes q).decisionClass ∧
      (evaluateFederationDecision P e votes' q).selectedPolicyVersion =
        (evaluateFederationDecision P e votes q).selectedPolicyVersion ∧
      (evaluateFederationDecision P e votes' q).manifestDigests =
        (evaluateFederationDecision P e votes q).manifestDigests

theorem lookup_manifestDigests_perm (hc : Consistent votes) (h : votes'.Perm votes) (p : Str) :
    (manifestDigests e votes').lookup p = (manifestDigests e votes).lookup p := by
  rw [lookup_manifestDigests, lookup_manifestDigests]
  congr 1
  have hperm := h.filter (·.peerId = p)
  have hmem : ∀ {v}, v ∈ votes.filter (·.peerId = p) → v ∈ votes ∧ v.peerId = p := by
    intro v hv
    exact ⟨List.mem_of_mem_filter hv, of_decide_eq_true (List.mem_filter.mp hv).2⟩
  rcases hl : (votes.filter (·.peerId = p)).getLast? with _ | v
  · rw [List.getLast?_eq_none_iff] at hl
    rw [hl] at hperm
    rw [hl, hperm.eq_nil]
  · rcases hl' : (votes'.filter (·.peerId = p)).getLast? with _ | v'
    · rw [List.getLast?_eq_none_iff] at hl'
      rw [hl'] at hperm
      rw [hperm.symm.eq_nil] at hl
      exact nomatch hl
    · obtain ⟨hv, hvp⟩ := hmem (List.mem_of_getLast? hl)
      obtain ⟨hv', hvp'⟩ := hmem (hperm.mem_iff.mp (List.mem_of_getLast? hl'))
      rw [hl, hl']
      show some v'.manifestDigest = some v.manifestDigest
      rw [hc v' hv' v hv (hvp'.trans hvp.symm)]

theorem orderFree_iff : OrderFree P e votes ↔ Consistent votes := by
  constructor
  · intro h a ha b hb hpeer
    -- Whichever vote is put last names the digest of its peer.
    have hlast : ∀ v ∈ votes, (v.peerId, v.manifestDigest) ∈
        (evaluateFederationDecision P e votes 1).manifestDigests := by
      intro v hv
      have hperm : (votes.erase v ++ [v]).Perm votes :=
        (List.perm_append_singleton v _).trans (List.perm_cons_erase hv).symm
      rw [← (h 1 le_rfl _ hperm).2.2, mem_decision_manifestDigests, lookup_manifestDigests,
        List.filter_append, List.filter_cons_of_pos
          (p := fun x : FederationVote => decide (x.peerId = v.peerId)) (decide_eq_true rfl),
        List.filter_nil, List.getLast?_concat]
      rfl
    have hda := mem_decision_manifestDigests.mp (hlast a ha)
    have hdb := mem_decision_manifestDigests.mp (hlast b hb)
    rw [hpeer] at hda
    exact Option.some.inj (hda.symm.trans hdb)
  · intro hc q _ votes' hperm
    have hversions : sortedVersions e votes' = sortedVersions e votes := sortedVersions_perm hperm
    have hlookup := lookup_manifestDigests_perm (e := e) hc hperm
    have hkeys : (Assoc.keys (manifestDigests e votes')).Perm
        (Assoc.keys (manifestDigests e votes)) := by
      refine (List.perm_ext_iff_of_nodup nodup_keys_manifestDigests
        nodup_keys_manifestDigests).mpr fun p => ?_
      rw [Assoc.mem_keys_iff, Assoc.mem_keys_iff, hlookup]
    have hpeers : sortedPeers (manifestDigests e votes') =
        sortedPeers (manifestDigests e votes) := by
      refine List.Perm.eq_of_pairwise' (r := fun a b => strLe a b = true)
        (List.pairwise_insertionSort _ _) (List.pairwise_insertionSort _ _) ?_
      exact ((List.perm_insertionSort _ _).trans hkeys).trans (List.perm_insertionSort _ _).symm
    refine ⟨?_, ?_, ?_⟩
    · show (classify e (sortedVersions e votes') q).1 = (classify e (sortedVersions e votes) q).1
      rw [hversions]
    · show (classify e (sortedVersions e votes') q).2.1 =
        (classify e (sortedVersions e votes) q).2.1
      rw [hversions]
    · show (sortedPeers (manifestDigests e votes')).map _ = (sortedPeers _).map _
      rw [hpeers]
      exact List.map_congr_left fun p _ => by rw [hlookup]

/-! ### Quorums of distinct peers -/

/-- A decision for a version by consensus or quorum has as many distinct peers behind it as the
quorum asks for. -/
def Sound (P : Platform) (e : FederationPolicyExchange) (votes : List FederationVote) : Prop :=
  ∀ q : Int, 1 ≤ q →
    (evaluateFederationDecision P e votes q).decisionClass = .consensus ∨
      (evaluateFederationDecision P e votes q).decisionClass = .quorum →
    q ≤ supportCount e votes (evaluateFederationDecision P e votes q).selectedPolicyVersion

theorem classify_cons (v : Str) (n : Nat) (rest : List (Str × Nat)) (q : Int) :
    ((classify e ((v, n) :: rest) q).1 = .consensus ∨
        (classify e ((v, n) :: rest) q).1 = .quorum ↔ q ≤ n) ∧
      (q ≤ n → (classify e ((v, n) :: rest) q).2.1 = v) := by
  unfold classify
  dsimp only [List.headD_cons]
  by_cases hq : q ≤ n
  · by_cases hone : ((v, n) :: rest).length = 1
    · rw [if_pos ⟨hone, hq⟩]
      exact ⟨iff_of_true (.inl rfl) hq, fun _ => rfl⟩
    · rw [if_neg (fun h => hone h.1), if_pos hq]
      exact ⟨iff_of_true (.inr rfl) hq, fun _ => rfl⟩
  · rw [if_neg (fun h => hq h.2), if_neg hq]
    refine ⟨iff_of_false ?_ hq, fun h => absurd h hq⟩
    split_ifs <;> simp

theorem sound_iff : Sound P e votes ↔
    ∀ version, Leading e votes version → (supporters e votes version).Nodup := by
  obtain ⟨v, rest, hsorted, hlead⟩ := exists_sortedVersions e votes
  have hclass := fun q => (classify_cons (e := e) v (tally e votes v) rest q).1
  have hselect := fun q => (classify_cons (e := e) v (tally e votes v) rest q).2
  rw [← hsorted] at hclass hselect
  have hdedup : (supporters e votes v).dedup.length ≤ tally e votes v :=
    (List.dedup_sublist _).length_le
  constructor
  · intro h w hw
    obtain rfl := hlead.unique hw
    by_cases hpos : 0 < tally e votes v
    · have hq := h (tally e votes v) (by omega) ((hclass _).mpr le_rfl)
      rw [show (evaluateFederationDecision P e votes (tally e votes v)).selectedPolicyVersion = v
        from hselect _ le_rfl] at hq
      have hlen : (supporters e votes v).dedup.length = (supporters e votes v).length := by
        unfold supportCount at hq
        unfold tally at hq hdedup
        omega
      rw [← (List.dedup_sublist _).eq_of_length hlen]
      exact List.nodup_dedup _
    · unfold tally at hpos
      rw [List.length_eq_zero_iff.mp (Nat.eq_zero_of_not_pos hpos)]
      exact List.nodup_nil
  · intro h q _ hdecided
    have hq : q ≤ tally e votes v := (hclass q).mp hdecided
    rw [show (evaluateFederationDecision P e votes q).selectedPolicyVersion = v from hselect q hq]
    unfold supportCount
    rw [(h v hlead).dedup]
    exact hq

/-- A decision is sound and does not depend on the order of the votes exactly when nobody is behind
the leading version twice and nobody sends two different manifest digests. -/
theorem sound_and_orderFree_iff :
    Sound P e votes ∧ OrderFree P e votes ↔
      (∀ version, Leading e votes version → (supporters e votes version).Nodup) ∧
        Consistent votes := by
  rw [sound_iff, orderFree_iff]

/-! ### A peer that votes twice -/

def localExchange : FederationPolicyExchange where
  localPeerId := str "local"
  localPolicyVersion := str "1"
  localManifestDigest := str "m"

def doubleVote : List FederationVote :=
  [⟨str "peer", str "2", str "m", .accept⟩, ⟨str "peer", str "2", str "m", .accept⟩]

/-- In general a decision is not sound: one peer makes a quorum of two. -/
theorem not_sound : ¬ ∀ (e : FederationPolicyExchange) (votes : List FederationVote),
    Sound reference e votes ∧ OrderFree reference e votes := by
  intro h
  have hq := (h localExchange doubleVote).1 2 (by decide) (.inr (by decide))
  exact absurd hq (by decide)

end Adaad.Coordination
