import Adaad.Lineage.Checkpoints

/-!
# Chained checkpoints that are verified

The verifier accepts the chains whose digests follow from each other
(`verifyCheckpointChain_eq_true_iff`).  A chain is the one built of its own epochs and payloads
exactly when besides each payload has the digest that is given for it, and each version is the
current one (`buildCheckpointChain_own_iff`); the verifier computes neither.
-/

namespace Adaad.Lineage.CheckpointChain

open Py

variable {P : Platform} {chain : List (ChainedCheckpoint P)}

def format (P : Platform) : Chain.Format Str (ChainedCheckpoint P) where
  prev := ChainedCheckpoint.predecessorDigest
  hash := ChainedCheckpoint.chainDigest
  digest h cp := (prefixedDigest P .compact
    (chainPayload P cp.epochId h cp.payloadDigest cp.chainVersion)).toOption

/-- The entry has the digest of its payload, and the version of the algorithm. -/
structure Matching (cp : ChainedCheckpoint P) : Prop where
  payload : checkpointDigest P cp.payload = .ok cp.payloadDigest
  version : cp.chainVersion = chainVersion

/-- The epochs and payloads that the chain says it is of. -/
def ownEntries (chain : List (ChainedCheckpoint P)) : List (Str × Members P.Float) :=
  chain.map fun cp => (cp.epochId, cp.payload)

/-! ### The verifier -/

theorem toOption_eq_some_iff {α : Type} {x : Except Exc α} {a : α} :
    x.toOption = some a ↔ x = .ok a := by
  cases x with
  | error e => exact iff_of_false (fun h => by cases h) fun h => by cases h
  | ok b => exact ⟨fun h => congrArg _ (Option.some.inj h), fun h => congrArg _ (Except.ok.inj h)⟩

theorem verifyFrom_cons_eq_true_iff {before : Option Str} {cp : ChainedCheckpoint P} :
    verifyFrom P before (cp :: chain) = .ok true ↔
      (format P).digest cp.predecessorDigest cp = some cp.chainDigest ∧
        (∀ d ∈ before, cp.predecessorDigest = d) ∧
        verifyFrom P (some cp.chainDigest) chain = .ok true := by
  have hdigest : (format P).digest cp.predecessorDigest cp = some cp.chainDigest ↔
      prefixedDigest P .compact (chainPayload P cp.epochId cp.predecessorDigest cp.payloadDigest
        cp.chainVersion) = .ok cp.chainDigest := toOption_eq_some_iff
  rw [hdigest, verifyFrom]
  cases prefixedDigest P .compact (chainPayload P cp.epochId cp.predecessorDigest cp.payloadDigest
      cp.chainVersion) with
  | error e => exact iff_of_false (fun h => by cases h) fun h => by cases h.1
  | ok d =>
    show (if d ≠ cp.chainDigest then _ else _) = _ ↔ _
    by_cases hd : d = cp.chainDigest
    · rw [if_neg (not_not.mpr hd), hd, and_iff_right rfl]
      have hany : before.any (cp.predecessorDigest ≠ ·) = true ↔
          ¬∀ d ∈ before, cp.predecessorDigest = d := by
        cases before <;> simp
      by_cases hbefore : ∀ d ∈ before, cp.predecessorDigest = d
      · rw [if_neg fun h => hany.mp h hbefore, and_iff_right hbefore]
      · rw [if_pos (hany.mpr hbefore)]
        exact iff_of_false (fun h => by cases h) fun h => hbefore h.1
    · rw [if_pos hd]
      exact iff_of_false (fun h => by cases h) fun h => hd (Except.ok.inj h.1)

theorem verifyFrom_some_eq_true_iff {h : Str} :
    verifyFrom P (some h) chain = .ok true ↔ (format P).Valid h chain := by
  induction chain generalizing h with
  | nil => exact iff_of_true rfl trivial
  | cons cp chain ih =>
    rw [verifyFrom_cons_eq_true_iff, ih, Chain.Format.valid_cons]
    constructor
    · rintro ⟨hdigest, hprev, hrest⟩
      have hprev := hprev h rfl
      exact ⟨⟨hprev, hprev ▸ hdigest⟩, hrest⟩
    · rintro ⟨⟨hprev, hdigest⟩, hrest⟩
      have hprev : cp.predecessorDigest = h := hprev
      exact ⟨hprev.symm ▸ hdigest, fun d hd => hprev.trans (Option.some.inj hd), hrest⟩

theorem verifyCheckpointChain_eq_true_iff :
    verifyCheckpointChain P chain = .ok true ↔
      chain ≠ [] ∧ (format P).Valid zeroHash chain := by
  unfold verifyCheckpointChain
  cases chain with
  | nil => exact iff_of_false (fun h => by cases h) fun h => h.1 rfl
  | cons first chain =>
    rw [and_iff_right (List.cons_ne_nil _ _), Chain.Format.valid_cons]
    dsimp only
    by_cases hfirst : first.predecessorDigest = zeroHash
    · rw [if_neg (not_not.mpr hfirst), verifyFrom_cons_eq_true_iff, verifyFrom_some_eq_true_iff]
      constructor
      · rintro ⟨hdigest, -, hrest⟩
        exact ⟨⟨hfirst, hfirst ▸ hdigest⟩, hrest⟩
      · rintro ⟨⟨-, hdigest⟩, hrest⟩
        exact ⟨hfirst.symm ▸ hdigest, fun d hd => (by cases hd), hrest⟩
    · rw [if_pos hfirst]
      exact iff_of_false (fun h => by cases h) fun h => hfirst h.1.1

/-! ### Building a chain -/

theorem checkpointChainDigest_eq_ok_iff {cp : ChainedCheckpoint P} {h : Str} :
    checkpointChainDigest P cp.payload cp.epochId h = .ok cp ↔
      (format P).Links h cp ∧ Matching cp := by
  unfold checkpointChainDigest
  rw [bind_eq_ok]
  constructor
  · rintro ⟨payloadDigest, hpayload, hcp⟩
    obtain ⟨chainDigest, hchain, hcp⟩ := bind_eq_ok.mp hcp
    have heq := (Except.ok.inj hcp).symm
    have hpayloadDigest : cp.payloadDigest = payloadDigest := by rw [heq]
    have hchainDigest : cp.chainDigest = chainDigest := by rw [heq]
    have hversion : cp.chainVersion = chainVersion := by rw [heq]
    have hprev : cp.predecessorDigest = h := by rw [heq]
    rw [← hpayloadDigest] at hpayload hchain
    rw [← hchainDigest, ← hversion] at hchain
    exact ⟨⟨hprev, toOption_eq_some_iff.mpr hchain⟩, hpayload, hversion⟩
  · rintro ⟨⟨hprev, hdigest⟩, hpayload, hversion⟩
    have hchain := toOption_eq_some_iff.mp hdigest
    rw [hversion] at hchain
    refine ⟨cp.payloadDigest, hpayload, bind_eq_ok.mpr ⟨cp.chainDigest, hchain, ?_⟩⟩
    obtain ⟨epochId, payload, predecessorDigest, payloadDigest, chainDigest, version⟩ := cp
    obtain rfl : predecessorDigest = h := hprev
    obtain rfl : version = chainVersion := hversion
    rfl

theorem buildFrom_own_iff {h : Str} :
    buildFrom P h (ownEntries chain) = .ok chain ↔
      (format P).Valid h chain ∧ ∀ cp ∈ chain, Matching cp := by
  induction chain generalizing h with
  | nil => exact iff_of_true rfl ⟨trivial, fun _ hcp => absurd hcp List.not_mem_nil⟩
  | cons cp chain ih =>
    rw [Chain.Format.valid_cons, List.forall_mem_cons, and_and_and_comm,
      ← checkpointChainDigest_eq_ok_iff, ← ih]
    show (checkpointChainDigest P cp.payload cp.epochId h >>= _) = _ ↔ _
    rw [bind_eq_ok]
    constructor
    · rintro ⟨cp', hcp, hrest⟩
      obtain ⟨later, hlater, heq⟩ := bind_eq_ok.mp hrest
      obtain ⟨rfl, rfl⟩ := List.cons.inj (Except.ok.inj heq)
      exact ⟨hcp, hlater⟩
    · rintro ⟨hcp, hlater⟩
      exact ⟨cp, hcp, bind_eq_ok.mpr ⟨chain, hlater, rfl⟩⟩

theorem buildCheckpointChain_own_iff :
    buildCheckpointChain P (ownEntries chain) = .ok chain ↔
      verifyCheckpointChain P chain = .ok true ∧ ∀ cp ∈ chain, Matching cp := by
  rw [verifyCheckpointChain_eq_true_iff, and_assoc, ← buildFrom_own_iff]
  unfold buildCheckpointChain
  rw [bind_eq_ok]
  constructor
  · rintro ⟨built, hfrom, hbuilt⟩
    cases built with
    | nil => cases hbuilt
    | cons cp built =>
      obtain rfl := Except.ok.inj hbuilt
      exact ⟨List.cons_ne_nil _ _, hfrom⟩
  · rintro ⟨hne, hfrom⟩
    refine ⟨chain, hfrom, ?_⟩
    cases chain with
    | nil => exact absurd rfl hne
    | cons cp chain => rfl

theorem ownEntries_of_buildFrom {entries : List (Str × Members P.Float)} {h : Str}
    (hbuild : buildFrom P h entries = .ok chain) : ownEntries chain = entries := by
  induction entries generalizing h chain with
  | nil =>
    obtain rfl := Except.ok.inj hbuild
    rfl
  | cons entry entries ih =>
    obtain ⟨cp, hcp, hrest⟩ := bind_eq_ok.mp hbuild
    obtain ⟨later, hlater, heq⟩ := bind_eq_ok.mp hrest
    obtain rfl := Except.ok.inj heq
    obtain ⟨payloadDigest, -, hcp⟩ := bind_eq_ok.mp hcp
    obtain ⟨chainDigest, -, hcp⟩ := bind_eq_ok.mp hcp
    obtain rfl := Except.ok.inj hcp
    exact congrArg (entry :: ·) (ih hlater)

theorem verifyCheckpointChain_of_built {entries : List (Str × Members P.Float)}
    (h : buildCheckpointChain P entries = .ok chain) : verifyCheckpointChain P chain = .ok true := by
  have hown : ownEntries chain = entries := by
    obtain ⟨built, hfrom, hbuilt⟩ := bind_eq_ok.mp h
    cases built with
    | nil => cases hbuilt
    | cons cp built =>
      obtain rfl := Except.ok.inj hbuilt
      exact ownEntries_of_buildFrom hfrom
  rw [← hown] at h
  exact (buildCheckpointChain_own_iff.mp h).1

/-! ### What the verifier does not see -/

/-- An entry does not follow the one before it, or the chain is empty. -/
def Broken (chain : List (ChainedCheckpoint P)) : Prop :=
  chain = [] ∨ ¬(format P).Valid zeroHash chain

/-- The verifier accepts exactly a chain that is built of its own epochs and payloads, when the
entries match or the chain is broken. -/
theorem verifies_iff (chain : List (ChainedCheckpoint P)) :
    (verifyCheckpointChain P chain = .ok true ↔
        buildCheckpointChain P (ownEntries chain) = .ok chain) ↔
      (∀ cp ∈ chain, Matching cp) ∨ Broken chain := by
  have hbroken : Broken chain ↔ ¬verifyCheckpointChain P chain = .ok true := by
    rw [verifyCheckpointChain_eq_true_iff, not_and_or, not_not]
    exact Iff.rfl
  rw [buildCheckpointChain_own_iff, hbroken, iff_self_and, or_comm, imp_iff_not_or]

/-! ### A payload that is changed -/

def boot (v : Int) : Members reference.Float :=
  [(.str (str "v"), .int v)]

theorem exists_checkpointChainDigest :
    ∃ cp, checkpointChainDigest reference (boot 1) (str "e0") zeroHash = .ok cp := by
  have hsome : (checkpointChainDigest reference (boot 1) (str "e0")
      zeroHash).toOption.isSome = true := by
    decide +kernel
  obtain ⟨cp, hcp⟩ := Option.isSome_iff_exists.mp hsome
  exact ⟨cp, toOption_eq_some_iff.mp hcp⟩

theorem checkpointDigest_ne :
    (checkpointDigest reference (boot 1)).toOption ≠
      (checkpointDigest reference (boot 999)).toOption := by
  decide +kernel

/-- In general the verifier accepts a chain that is not built of its own epochs and payloads: an
entry that was built, with another payload. -/
theorem not_verifies : ¬ ∀ chain : List (ChainedCheckpoint reference),
    (verifyCheckpointChain reference chain = .ok true ↔
      buildCheckpointChain reference (ownEntries chain) = .ok chain) := by
  intro h
  obtain ⟨cp, hcp⟩ := exists_checkpointChainDigest
  have hbuilt : buildCheckpointChain reference [(str "e0", boot 1)] = .ok [cp] :=
    bind_eq_ok.mpr ⟨[cp], bind_eq_ok.mpr ⟨cp, hcp, rfl⟩, rfl⟩
  have haccepted := verifyCheckpointChain_of_built hbuilt
  -- The verifier does not look at the payload.
  have hverifies : verifyCheckpointChain reference [{ cp with payload := boot 999 }] = .ok true :=
    haccepted
  have hmatching := (buildCheckpointChain_own_iff.mp ((h _).mp hverifies)).2 _ List.mem_cons_self
  obtain ⟨payloadDigest, hdigest, hrest⟩ := bind_eq_ok.mp hcp
  obtain ⟨chainDigest, -, heq⟩ := bind_eq_ok.mp hrest
  obtain rfl := Except.ok.inj heq
  have hpayload : checkpointDigest reference (boot 999) = .ok payloadDigest := hmatching.payload
  exact checkpointDigest_ne (by rw [hdigest, hpayload])

end Adaad.Lineage.CheckpointChain
