import Adaad.Security.Equiv.Signatures

/-!
# Signatures and payloads

A signature that is accepted for one payload is accepted for another: a payload that reads as a
digest is taken for the digest of itself, and so is one with a byte more that does not decode; and a
signature of the key directory has nothing of a payload in it.  A signature is bound to a payload
only where it is accepted for none (`bound_iff_unusable`).
-/

namespace Adaad.Cryovant

open Py

variable {P : Platform} {h : Host} {u : Letters P} {names : KeyNames}
variable {keyId signature : Str} {payload : Bytes}

variable (h u names keyId signature) in
def Accepts (payload : Bytes) : Prop :=
  verifyPayloadSignature h u names payload signature keyId = .ok true

variable (P h signature) in
/-- A static signature where these are accepted. -/
def LegacyInDev : Prop :=
  staticPrefix <+: signature ∧ verifyStatic P h = .ok true

def DigestText (d : Str) : Prop :=
  hmacSignaturePrefix <+: d ∧ d.length = hmacSignaturePrefix.length + 64

variable (h u names keyId signature) in
/-- The signature is no digest that is keyed with the secret of the key, and none of the key
directory where that secret can be had. -/
def Unusable : Prop :=
  ∀ d, DigestText d → ∀ b, verifyHmacDigestSignature h u names keyId d signature = .ok b →
    b = false ∧ verifySignature P h signature = false

theorem digestText_signedDigestOf (payload : Bytes) : DigestText (signedDigestOf P payload) := by
  unfold signedDigestOf
  dsimp only
  split_ifs with hd
  · exact hd
  · refine ⟨List.prefix_append _ _, ?_⟩
    rw [List.length_append, P.length_sha256]

theorem signedDigestOf_encode {d : Str} (hd : DigestText d) {b : Bytes} (hb : encode d = some b) :
    signedDigestOf P b = d ∧ signedDigestOf P (b ++ [0xFF]) = d := by
  have hdecode : decodeIgnore (b ++ [0xFF]) = d := by
    have hgo := decodeGo_encode true hb [0xFF]
    have hlast : decodeGo true [0xFF] = ([], true) := by decide
    unfold decodeIgnore
    rw [hgo, hlast]
    exact List.append_nil d
  constructor
  · unfold signedDigestOf
    rw [decodeIgnore_encode hb]
    exact if_pos hd
  · unfold signedDigestOf
    rw [hdecode]
    exact if_pos hd

theorem static_of_mem {d : Str} (hmem : signature ∈ staticSignatures d) :
    staticPrefix <+: signature := by
  unfold staticSignatures at hmem
  rcases List.mem_cons.mp hmem with rfl | hmem
  · exact List.prefix_append _ _
  · rw [List.mem_singleton] at hmem
    rw [hmem]
    exact List.prefix_append _ _

theorem accepts_iff (hlegacy : ¬ LegacyInDev P h signature) :
    Accepts h u names keyId signature payload ↔ signature ≠ [] ∧ ∃ b,
      verifyHmacDigestSignature h u names keyId (signedDigestOf P payload) signature = .ok b ∧
        (b = true ∨ verifySignature P h signature = true) := by
  unfold Accepts verifyPayloadSignature
  by_cases hnil : signature = []
  · rw [if_pos hnil]
    exact iff_of_false (by simp) fun h => h.1 hnil
  · rw [if_neg hnil]
    dsimp only
    by_cases hstatic : signature ∈ staticSignatures (signedDigestOf P payload)
    · rw [if_pos hstatic]
      have hs := static_of_mem hstatic
      refine iff_of_false (fun hok => hlegacy ⟨hs, hok⟩) ?_
      rintro ⟨-, b, hb, rfl | hdir⟩
      · obtain ⟨secret, -, hkeyed⟩ := verifyHmac_eq_true.mp hb
        exact not_keyed_of_static u hs hkeyed
      · rw [verifySignature_of_static u hs] at hdir
        cases hdir
    · rw [if_neg hstatic]
      constructor
      · intro hok
        obtain ⟨b, hb, hor⟩ := bind_eq_ok.mp hok
        exact ⟨hnil, b, hb, by simpa using Except.ok.inj hor⟩
      · rintro ⟨-, b, hb, hor⟩
        exact bind_eq_ok.mpr ⟨b, hb, congrArg Except.ok (by simpa using hor)⟩

/-- No two payloads are accepted with one signature exactly where none is. -/
theorem bound_iff_unusable (h : Host) (u : Letters P) (names : KeyNames) (keyId signature : Str)
    (hlegacy : ¬ LegacyInDev P h signature) :
    (∀ p q, Accepts h u names keyId signature p → Accepts h u names keyId signature q → p = q) ↔
      signature = [] ∨ Unusable h u names keyId signature := by
  constructor
  · intro hbound
    by_contra hcon
    obtain ⟨hnil, husable⟩ := not_or.mp hcon
    refine husable fun d hd b hb => ?_
    by_contra hne
    have hor : b = true ∨ verifySignature P h signature = true := by
      cases b with
      | true => exact .inl rfl
      | false =>
        right
        by_contra hdir
        exact hne ⟨rfl, Bool.eq_false_iff.mpr hdir⟩
    obtain ⟨secret, expected, -, hkeyed, -⟩ := verifyHmac_eq_ok hb
    obtain ⟨payload, hpayload⟩ := exists_encode_iff.mpr (encodable_of_keyedDigest hkeyed)
    obtain ⟨hfirst, hsecond⟩ := signedDigestOf_encode (P := P) hd hpayload
    have haccept : Accepts h u names keyId signature payload :=
      (accepts_iff hlegacy).mpr ⟨hnil, b, hfirst ▸ hb, hor⟩
    have haccept' : Accepts h u names keyId signature (payload ++ [0xFF]) :=
      (accepts_iff hlegacy).mpr ⟨hnil, b, hsecond ▸ hb, hor⟩
    have := congrArg List.length (hbound _ _ haccept haccept')
    rw [List.length_append, List.length_singleton] at this
    omega
  · intro hunusable p q hp
    obtain ⟨hnil, b, hb, hor⟩ := (accepts_iff hlegacy).mp hp
    obtain ⟨hfalse, hdir⟩ :=
      (hunusable.resolve_left hnil) _ (digestText_signedDigestOf p) b hb
    rw [hfalse, hdir] at hor
    rcases hor with hor | hor <;> cases hor

/-! ### A key in the directory -/

def keyedHost : Host where
  environ name := if name = str "ADAAD_ENV" then some (str "dev") else none
  keysDir := [{ name := str "signing.key", isFile := true, content := [107, 101, 121] }]

/-- The signature that it accepts of the directory. -/
def directorySignature : Str :=
  hmacSignaturePrefix ++ hmacSha256 reference [107, 101, 121] ((encode (str "cryovant")).getD [])

theorem bound_iff_unusable_keyedHost :
    (∀ p q, Accepts keyedHost referenceLetters signingKeyNames (str "k") [97] p →
        Accepts keyedHost referenceLetters signingKeyNames (str "k") [97] q → p = q) ↔
      ([97] : Str) = [] ∨ Unusable keyedHost referenceLetters signingKeyNames (str "k") [97] :=
  bound_iff_unusable keyedHost referenceLetters signingKeyNames (str "k") [97] fun h =>
    absurd h.1 (by decide)

/-- It is accepted for the payloads `a` and `b`. -/
theorem not_bound_directorySignature :
    ¬ LegacyInDev reference keyedHost directorySignature ∧
      reference.sha256 [97] ≠ reference.sha256 [98] ∧
      Accepts keyedHost referenceLetters signingKeyNames (str "k") directorySignature [97] ∧
      Accepts keyedHost referenceLetters signingKeyNames (str "k") directorySignature [98] := by
  refine ⟨fun hl => ?_, by decide +kernel, ?_, ?_⟩
  · obtain ⟨rest, hrest⟩ := hl.1
    have := congrArg List.head? hrest
    simp [directorySignature, hmacSignaturePrefix, staticPrefix, str] at this
  · unfold Accepts
    decide +kernel
  · unfold Accepts
    decide +kernel

end Adaad.Cryovant

/-!
## Signatures without keys

Outside of development, and with the legacy features not switched on, an agent's signature is
accepted only if a key made it, but for two slips: static signatures are accepted where nothing says
that the context is strict, an unset `ADAAD_ENV` included, and a digest that is keyed with the
public fallback secret is, where no secret is configured (`keyMade_iff_guarded`).
-/

namespace Adaad.Cryovant

open Py

variable {P : Platform} {h : Host} {u : Letters P} {signature lineageHash : Str}

/-- `"agent-certificate"` -/
def agentKeyId : Str := str "agent-certificate"

variable (P) in
/-- The signature is the digest of the lineage hash, keyed with the secret. -/
def KeyedWith (secret signature lineageHash : Str) : Prop :=
  lineageHash ≠ [] ∧ ∃ payload, encode (hmacSignaturePrefix ++ lineageHash) = some payload ∧
    keyedDigest P secret (signedDigestOf P payload) = .ok (canonicalSignature P signature)

variable (h u signature lineageHash) in
/-- A key made the signature: one that is configured, or one of the key directory. -/
def KeyMade : Prop :=
  (∃ secret, configuredSecret h u signingKeyNames agentKeyId = some secret ∧
    KeyedWith P secret signature lineageHash) ∨ verifySignature P h signature = true

variable (h u signature lineageHash) in
/-- A static signature is one where legacy signatures are not enabled, or where the check of the
lineage hash raises; and a digest that is keyed with the public secret where this is the one that
signs is also a signature of the key directory. -/
structure Guarded : Prop where
  static : staticPrefix <+: signature → legacyFeatureEnabled P h legacyStaticFlag = true →
    ∀ b, lineageSigned h u signature lineageHash ≠ .ok b
  fallback : isEnvName (specificEnv u signingKeyNames agentKeyId) = true →
    configuredSecret h u signingKeyNames agentKeyId = none →
    modeOf P h (str "ADAAD_ENV") ∉ strictEnvs →
    KeyedWith P (signingKeyNames.fallbackNamespace ++ 58 :: agentKeyId) signature lineageHash →
    verifySignature P h signature = true

section

variable {m : Str} (hmode : envMode P h = .ok m) (hdev : m ≠ str "dev")
include hmode hdev

theorem explicitDev_of_mode : explicitDev P h = .ok false := by
  unfold explicitDev
  rw [hmode]
  show Except.ok _ = _
  rw [decide_eq_false hdev, Bool.false_and]

theorem verifyStatic_of_mode : verifyStatic P h = .ok false := by
  unfold verifyStatic
  rw [explicitDev_of_mode hmode hdev]
  show Except.ok _ = _
  rw [Bool.and_false]

theorem not_legacyInDev_of_mode : ¬ LegacyInDev P h signature := by
  rintro ⟨-, hstatic⟩
  rw [verifyStatic_of_mode hmode hdev] at hstatic
  cases hstatic

theorem legacyAccepted_iff_of_mode :
    legacyAccepted P h signature = .ok true ↔
      legacyFeatureEnabled P h legacyStaticFlag = true ∧ staticPrefix <+: signature := by
  have hnever : devSignatureAllowed P h signature = .ok false := by
    unfold devSignatureAllowed
    rw [explicitDev_of_mode hmode hdev, ite_self]
  unfold legacyAccepted
  cases legacyFeatureEnabled P h legacyStaticFlag with
  | false => simp
  | true =>
    rw [if_pos rfl, hnever, hmode]
    unfold legacyStaticSignatureAllowed
    by_cases hs : staticPrefix <+: signature
    · rw [if_pos (decide_eq_true hs)]
      exact iff_of_true rfl ⟨rfl, hs⟩
    · rw [if_neg (by simpa using hs)]
      exact iff_of_false (by show ¬ Except.ok false = Except.ok true; simp) fun h => hs h.2

theorem lineageSigned_iff_of_mode (hnil : signature ≠ []) :
    lineageSigned h u signature lineageHash = .ok true ↔
      lineageHash ≠ [] ∧ ∃ payload, encode (hmacSignaturePrefix ++ lineageHash) = some payload ∧ ∃ b,
        verifyHmacDigestSignature h u signingKeyNames agentKeyId (signedDigestOf P payload) signature =
          .ok b ∧ (b = true ∨ verifySignature P h signature = true) := by
  unfold lineageSigned
  by_cases hhash : lineageHash = []
  · rw [if_pos hhash]
    exact iff_of_false (by simp) fun h => h.1 hhash
  · rw [if_neg hhash]
    cases hpayload : encode (hmacSignaturePrefix ++ lineageHash) with
    | none =>
      dsimp only
      refine iff_of_false (by simp) ?_
      rintro ⟨-, payload, heq, -⟩
      cases heq
    | some payload =>
      dsimp only
      have hlegacy : ¬ LegacyInDev P h signature := not_legacyInDev_of_mode hmode hdev
      have haccepts := @accepts_iff P h u signingKeyNames agentKeyId _ payload hlegacy
      rw [show verifyPayloadSignature h u signingKeyNames payload signature (str "agent-certificate") =
        .ok true ↔ _ from haccepts]
      constructor
      · rintro ⟨-, b, hb, hor⟩
        exact ⟨hhash, payload, rfl, b, hb, hor⟩
      · rintro ⟨-, _, heq, b, hb, hor⟩
        obtain rfl := Option.some.inj heq
        exact ⟨hnil, b, hb, hor⟩

end

/-- Outside of development a key made every signature that is accepted, exactly where the two slips
are guarded against. -/
theorem keyMade_iff_guarded (h : Host) (u : Letters P) (signature lineageHash m : Str)
    (hmode : envMode P h = .ok m) (hdev : m ≠ str "dev") :
    (validSignature h u signature lineageHash = .ok true → KeyMade h u signature lineageHash) ↔
      signature = [] ∨ Guarded h u signature lineageHash := by
  by_cases hnil : signature = []
  · refine iff_of_true (fun hok => ?_) (.inl hnil)
    rw [validSignature, if_pos hnil] at hok
    cases hok
  · rw [or_iff_right hnil]
    have hvalid : validSignature h u signature lineageHash = .ok true ↔
        ∃ signed, lineageSigned h u signature lineageHash = .ok signed ∧
          (signed = true ∨ legacyAccepted P h signature = .ok true) := by
      rw [validSignature, if_neg hnil]
      refine bind_eq_ok.trans (exists_congr fun signed => and_congr_right fun _ => ?_)
      cases signed
      · exact (or_iff_right Bool.false_ne_true).symm
      · exact iff_of_true rfl (.inl rfl)
    constructor
    · intro hkey
      refine ⟨fun hs henabled b hb => ?_, fun hname hnone hstrict hkeyed => ?_⟩
      · have hlegacy := (legacyAccepted_iff_of_mode hmode hdev).mpr ⟨henabled, hs⟩
        rcases hkey (hvalid.mpr ⟨b, hb, .inr hlegacy⟩) with ⟨secret, -, -, payload, -, hk⟩ | hdir
        · exact not_keyed_of_static u hs hk
        · rw [verifySignature_of_static u hs] at hdir
          cases hdir
      · obtain ⟨hhash, payload, hpayload, hk⟩ := hkeyed
        have hverify : verifyHmacDigestSignature h u signingKeyNames agentKeyId
            (signedDigestOf P payload) signature = .ok true :=
          verifyHmac_eq_true.mpr ⟨_, resolve_eq_ok.mpr ⟨hname, .inr ⟨hnone, hstrict, rfl⟩⟩, hk⟩
        have hsigned := (lineageSigned_iff_of_mode (u := u) hmode hdev hnil).mpr
          ⟨hhash, payload, hpayload, true, hverify, .inl rfl⟩
        rcases hkey (hvalid.mpr ⟨true, hsigned, .inl rfl⟩) with ⟨secret, hsecret, -⟩ | hdir
        · rw [hnone] at hsecret
          cases hsecret
        · exact hdir
    · intro hguard hok
      obtain ⟨signed, hsigned, hor⟩ := hvalid.mp hok
      rcases hor with rfl | hlegacy
      · obtain ⟨hhash, payload, hpayload, b, hb, hor⟩ :=
          (lineageSigned_iff_of_mode (u := u) hmode hdev hnil).mp hsigned
        rcases hor with rfl | hdir
        · obtain ⟨secret, hsecret, hk⟩ := verifyHmac_eq_true.mp hb
          obtain ⟨hname, hconfigured | ⟨hnone, hstrict, rfl⟩⟩ := resolve_eq_ok.mp hsecret
          · exact .inl ⟨secret, hconfigured, hhash, payload, hpayload, hk⟩
          · exact .inr (hguard.fallback hname hnone hstrict ⟨hhash, payload, hpayload, hk⟩)
        · exact .inr hdir
      · obtain ⟨henabled, hs⟩ := (legacyAccepted_iff_of_mode hmode hdev).mp hlegacy
        exact absurd hsigned (hguard.static hs henabled signed)

/-! ### An empty environment -/

def bareHost : Host where
  environ _ := none
  keysDir := []

theorem keyMade_iff_guarded_bareHost :
    (validSignature bareHost referenceLetters (str "x") [] = .ok true →
        KeyMade bareHost referenceLetters (str "x") []) ↔
      str "x" = [] ∨ Guarded bareHost referenceLetters (str "x") [] :=
  keyMade_iff_guarded bareHost referenceLetters (str "x") [] (str "prod") (by decide) (by decide)

/-- It stands for production, and a static signature is accepted. -/
theorem not_keyMade_bareHost :
    envMode reference bareHost = .ok (str "prod") ∧
      validSignature bareHost referenceLetters (str "cryovant-static-x") (str "abc") = .ok true ∧
      ¬ KeyMade bareHost referenceLetters (str "cryovant-static-x") (str "abc") := by
  have hstatic : staticPrefix <+: str "cryovant-static-x" := by decide
  refine ⟨by decide, by decide +kernel, ?_⟩
  rintro (⟨secret, -, -, payload, -, hk⟩ | hdir)
  · exact not_keyed_of_static referenceLetters hstatic hk
  · rw [verifySignature_of_static referenceLetters hstatic] at hdir
    cases hdir

end Adaad.Cryovant
