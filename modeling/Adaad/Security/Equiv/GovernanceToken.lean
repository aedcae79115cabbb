import Adaad.Security.Equiv.Signatures
import Mathlib.Tactic.NormNum

/-!
# Governance tokens

A token is signed with the secret of the key id as it was given and verified with that of the
stripped one, so it is accepted until it expires exactly where the two are the same
(`roundTrips_iff_sameSecret`).  A candidate that is accepted is a token that could be signed afresh,
but for blanks around it, the case of its digest and the spelling of its number
(`resigned_iff_live`).
-/

namespace Adaad.Cryovant

open Py

variable {P : Platform} {h : Host} {u : Letters P} {names : KeyNames}
variable {keyId nonce token : Str} {expiresAt : Int} {time : ℚ}

/-! ### Time -/

theorem truncate_lt_iff (hpos : 0 < expiresAt) : truncate time < expiresAt ↔ time < expiresAt := by
  unfold truncate
  split_ifs with hnonneg
  · exact Int.floor_lt
  · have hneg : time < 0 := not_le.mp hnonneg
    have hceil : ⌈time⌉ ≤ 0 := Int.ceil_le.mpr (by exact_mod_cast hneg.le)
    have hcast : (0 : ℚ) < expiresAt := by exact_mod_cast hpos
    exact iff_of_true (lt_of_le_of_lt hceil hpos) (hneg.trans hcast)

/-! ### Fields -/

theorem isValidField_iff {v : Str} :
    isValidGovernanceTokenField v = true ↔ strip v ≠ [] ∧ strip v = v ∧ 58 ∉ v := by
  unfold isValidGovernanceTokenField
  simp only [Bool.and_eq_true, decide_eq_true_eq, and_assoc]
  rw [eq_comm (a := v)]

theorem parse_eq_some {candidate : Str} {t : ParsedGovernanceToken}
    (ht : parseGovernanceToken u candidate = some t) :
    ∃ raw digest, strip candidate = tokenText t.keyId raw t.nonce (hmacSignaturePrefix ++ digest) ∧
      isValidGovernanceTokenField t.keyId = true ∧ isValidGovernanceTokenField t.nonce = true ∧
      intOf u raw = some t.expiresAt ∧ t.signature = hmacSignaturePrefix ++ digest := by
  unfold parseGovernanceToken at ht
  split at ht
  next tag keyId raw nonce sigPrefix digest hsplit =>
    split_ifs at ht with htag hfields
    obtain ⟨htag, hsig⟩ : tag = tokenTag ∧ sigPrefix = str "sha256" := by
      simpa only [not_or, not_not] using htag
    rw [Bool.and_eq_true] at hfields
    obtain ⟨expiresAt, hint, rfl⟩ := Option.map_eq_some_iff.mp ht
    obtain ⟨m, t₁, hm, htext, hsplit, -⟩ := splitMax_cons (List.cons_ne_nil _ _) hsplit
    obtain ⟨m, t₂, rfl, rfl, hsplit, -⟩ := splitMax_cons (List.cons_ne_nil _ _) hsplit
    obtain ⟨m, t₃, rfl, rfl, hsplit, -⟩ := splitMax_cons (List.cons_ne_nil _ _) hsplit
    obtain ⟨m, t₄, rfl, rfl, hsplit, -⟩ := splitMax_cons (List.cons_ne_nil _ _) hsplit
    obtain ⟨m, t₅, rfl, rfl, hsplit, -⟩ := splitMax_cons (List.cons_ne_nil _ _) hsplit
    obtain rfl : m = 0 := by omega
    obtain rfl : t₅ = digest := by
      rw [splitMax] at hsplit
      exact (List.cons.inj hsplit).1
    refine ⟨raw, t₅, ?_, hfields.1, hfields.2, hint, ?_⟩
    · rw [htext, htag, hsig]
      rfl
    · rw [hsig]
      rfl
  next => cases ht

theorem parse_tokenText {raw digest : Str} (hkey : isValidGovernanceTokenField keyId = true)
    (hnonce : isValidGovernanceTokenField nonce = true) (hraw : 58 ∉ raw)
    (hint : intOf u raw = some expiresAt)
    (hstrip : strip (tokenText keyId raw nonce (hmacSignaturePrefix ++ digest)) =
      tokenText keyId raw nonce (hmacSignaturePrefix ++ digest)) :
    parseGovernanceToken u (tokenText keyId raw nonce (hmacSignaturePrefix ++ digest)) =
      some ⟨keyId, expiresAt, nonce, hmacSignaturePrefix ++ digest⟩ := by
  have hsplit : splitMax 58 5 (tokenText keyId raw nonce (hmacSignaturePrefix ++ digest)) =
      [tokenTag, keyId, raw, nonce, str "sha256", digest] := by
    have hsig : hmacSignaturePrefix ++ digest = str "sha256" ++ 58 :: digest := rfl
    rw [tokenText, hsig, splitMax_field (by decide), splitMax_field (isValidField_iff.mp hkey).2.2,
      splitMax_field hraw, splitMax_field (isValidField_iff.mp hnonce).2.2,
      splitMax_field (by decide), splitMax]
  unfold parseGovernanceToken
  rw [hstrip, hsplit]
  dsimp only
  rw [if_neg (by simp), hkey, hnonce, if_pos (by decide), hint]
  rfl

/-! ### What is signed -/

theorem canonicalSignature_keyedDigest (u : Letters P) {secret signedDigest signature : Str}
    (hk : keyedDigest P secret signedDigest = .ok signature) :
    canonicalSignature P signature = signature := by
  obtain ⟨b, -, rfl⟩ := keyedDigest_eq_ok hk
  have hspace : ∀ c ∈ P.sha256 b, isSpace c = false := fun c hc => isSpace_of_isHexDigit
    (P.isHexDigit_sha256 b c hc)
  have hstrip : strip (hmacSignaturePrefix ++ P.sha256 b) = hmacSignaturePrefix ++ P.sha256 b := by
    rw [strip_append_of_stripped (by decide) (by decide), rdropWhile_of_not_space hspace]
  unfold canonicalSignature
  dsimp only
  rw [hstrip, if_neg (List.append_ne_nil_of_left_ne_nil (by decide) _),
    if_pos (List.prefix_append _ _), List.drop_left, u.lower_hex (P.isHexDigit_sha256 b)]

theorem sign_eq_ok (hsign : signGovernanceToken h u names keyId expiresAt nonce = .ok token) :
    0 < expiresAt ∧ isValidGovernanceTokenField (strip keyId) = true ∧
      isValidGovernanceTokenField (strip nonce) = true ∧ ∃ secret signature,
        resolveHmacSecret h u names keyId = .ok secret ∧
        keyedDigest P secret (tokenDigest (strip keyId) expiresAt (strip nonce)) = .ok signature ∧
        token = tokenText (strip keyId) (intText expiresAt) (strip nonce) signature := by
  unfold signGovernanceToken at hsign
  dsimp only at hsign
  split_ifs at hsign with hpos hkey hnonce
  obtain ⟨signature, hsig, htoken⟩ := bind_eq_ok.mp hsign
  obtain ⟨secret, hsecret, hkeyed⟩ := bind_eq_ok.mp hsig
  exact ⟨not_le.mp hpos, by simpa using hkey, by simpa using hnonce, secret, signature, hsecret, hkeyed,
    (Except.ok.inj htoken).symm⟩

theorem sign_of_verifyHmac {signature : Str} (hpos : 0 < expiresAt)
    (hkey : isValidGovernanceTokenField keyId = true)
    (hnonce : isValidGovernanceTokenField nonce = true)
    (hverify : verifyHmacDigestSignature h u names keyId (tokenDigest keyId expiresAt nonce) signature =
      .ok true) :
    signGovernanceToken h u names keyId expiresAt nonce =
      .ok (tokenText keyId (intText expiresAt) nonce (canonicalSignature P signature)) := by
  obtain ⟨secret, hsecret, hkeyed⟩ := verifyHmac_eq_true.mp hverify
  have hkeyStrip := (isValidField_iff.mp hkey).2.1
  have hnonceStrip := (isValidField_iff.mp hnonce).2.1
  have hsig : signHmacDigest h u names keyId (tokenDigest keyId expiresAt nonce) =
      .ok (canonicalSignature P signature) := by
    unfold signHmacDigest
    rw [hsecret]
    exact hkeyed
  unfold signGovernanceToken
  dsimp only
  rw [hkeyStrip, hnonceStrip, if_neg (not_le.mpr hpos), hkey, hnonce, if_neg (by decide),
    if_neg (by decide), hsig]
  rfl

/-! ### What is verified -/

section

variable (hdevToken : strip (h.env (str "CRYOVANT_DEV_TOKEN")) = [])
include hdevToken

theorem verify_eq {t : ParsedGovernanceToken} (ht : parseGovernanceToken u (strip token) = some t) :
    verifyGovernanceToken h u names token time =
      if t.expiresAt ≤ truncate time then .error (.tokenExpired t.keyId t.expiresAt)
      else verifyHmacDigestSignature h u names t.keyId (tokenDigest t.keyId t.expiresAt t.nonce)
        t.signature := by
  have hne : strip token ≠ [] := by
    intro hnil
    rw [hnil] at ht
    cases ht
  have hdev : ¬ (strip (h.env (str "CRYOVANT_DEV_TOKEN")) ≠ [] ∧
      strip token = strip (h.env (str "CRYOVANT_DEV_TOKEN"))) := fun hdev => hdev.1 hdevToken
  unfold verifyGovernanceToken
  dsimp only
  rw [if_neg hne, if_neg hdev, ht]

theorem verify_eq_true :
    verifyGovernanceToken h u names token time = .ok true ↔
      ∃ t, parseGovernanceToken u (strip token) = some t ∧ truncate time < t.expiresAt ∧
        verifyHmacDigestSignature h u names t.keyId (tokenDigest t.keyId t.expiresAt t.nonce)
          t.signature = .ok true := by
  cases ht : parseGovernanceToken u (strip token) with
  | none =>
    refine iff_of_false ?_ (by rintro ⟨t, heq, -⟩; cases heq)
    have hdev : ¬ (strip (h.env (str "CRYOVANT_DEV_TOKEN")) ≠ [] ∧
        strip token = strip (h.env (str "CRYOVANT_DEV_TOKEN"))) := fun hdev => hdev.1 hdevToken
    unfold verifyGovernanceToken
    dsimp only
    rw [if_neg hdev, ht]
    split_ifs <;> simp
  | some t =>
    rw [verify_eq hdevToken ht]
    constructor
    · intro hok
      split_ifs at hok with hle
      exact ⟨t, rfl, not_le.mp hle, hok⟩
    · rintro ⟨_, heq, hlt, hok⟩
      obtain rfl := Option.some.inj heq
      rw [if_neg (not_le.mpr hlt), hok]

end

/-! ### Round trips -/

variable (h u names token) in
/-- The token is accepted before it expires and raises from then on. -/
def LivesUntil (keyId : Str) (expiresAt : Int) : Prop :=
  ∀ time : ℚ, (time < expiresAt → verifyGovernanceToken h u names token time = .ok true) ∧
    (expiresAt ≤ time →
      verifyGovernanceToken h u names token time = .error (.tokenExpired keyId expiresAt))

variable (h u names) in
/-- The key id as it is given and the stripped one have one secret, or two that SHA-256 does not
tell apart on the signed text. -/
def SameSecret (keyId signedDigest : Str) : Prop :=
  ∃ secret secret', resolveHmacSecret h u names keyId = .ok secret ∧
    resolveHmacSecret h u names (strip keyId) = .ok secret' ∧
    (secret = secret' ∨ ∃ b b', encode (secret ++ 58 :: signedDigest) = some b ∧
      encode (secret' ++ 58 :: signedDigest) = some b' ∧ P.sha256 b = P.sha256 b')

variable (h u names) in
/-- The candidate is parsed into fields whose fresh token differs from it only in the blanks around
it, the case of the digest and the spelling of the number. -/
def Resigned (candidate : Str) : Prop :=
  ∃ t raw digest, parseGovernanceToken u (strip candidate) = some t ∧
    strip candidate = tokenText t.keyId raw t.nonce (hmacSignaturePrefix ++ digest) ∧
    intOf u raw = some t.expiresAt ∧
    signGovernanceToken h u names t.keyId t.expiresAt t.nonce =
      .ok (tokenText t.keyId (intText t.expiresAt) t.nonce (hmacSignaturePrefix ++ P.lower digest))

variable (h u names) in
/-- A candidate whose number is not positive is not accepted: the number has expired, which it has
on every clock that is later than 1969, or the digest is not the right one. -/
def Dated (candidate : Str) (time : ℚ) : Prop :=
  ∀ t, parseGovernanceToken u (strip candidate) = some t → t.expiresAt ≤ 0 →
    t.expiresAt ≤ truncate time ∨
      verifyHmacDigestSignature h u names t.keyId (tokenDigest t.keyId t.expiresAt t.nonce)
        t.signature ≠ .ok true

theorem not_mem_intText (hpos : 0 < expiresAt) : 58 ∉ intText expiresAt := by
  rw [intText_of_nonneg hpos.le]
  intro hmem
  exact absurd (isDigit_of_mem_natText hmem) (by decide)

theorem strip_tokenText {raw : Str} {b : Bytes} :
    strip (tokenText keyId raw nonce (hmacSignaturePrefix ++ P.sha256 b)) =
      tokenText keyId raw nonce (hmacSignaturePrefix ++ P.sha256 b) := by
  have hlast : (P.sha256 b).rdropWhile isSpace = P.sha256 b :=
    rdropWhile_of_not_space fun c hc => isSpace_of_isHexDigit (P.isHexDigit_sha256 b c hc)
  have hne : P.sha256 b ≠ [] := by
    intro hnil
    have := P.length_sha256 b
    rw [hnil] at this
    cases this
  have htext : tokenText keyId raw nonce (hmacSignaturePrefix ++ P.sha256 b) =
      tokenTag ++ (58 :: (keyId ++ 58 :: (raw ++ 58 :: (nonce ++ 58 :: hmacSignaturePrefix))) ++
        P.sha256 b) := by
    simp [tokenText]
  rw [htext, strip_append_of_stripped (by decide) (by decide), rdropWhile_append_of_ne_nil hlast hne]

theorem livesUntil_iff_sameSecret
    (hdevToken : strip (h.env (str "CRYOVANT_DEV_TOKEN")) = [])
    (hsign : signGovernanceToken h u names keyId expiresAt nonce = .ok token) :
    LivesUntil h u names token (strip keyId) expiresAt ↔
      SameSecret h u names keyId (tokenDigest (strip keyId) expiresAt (strip nonce)) := by
  obtain ⟨hpos, hkey, hnonce, secret, signature, hsecret, hkeyed, rfl⟩ := sign_eq_ok hsign
  have hcanonical := canonicalSignature_keyedDigest u hkeyed
  obtain ⟨b, hb, rfl⟩ := keyedDigest_eq_ok hkeyed
  have hparse : parseGovernanceToken u (strip (tokenText (strip keyId) (intText expiresAt)
      (strip nonce) (hmacSignaturePrefix ++ P.sha256 b))) =
        some ⟨strip keyId, expiresAt, strip nonce, hmacSignaturePrefix ++ P.sha256 b⟩ := by
    rw [strip_tokenText]
    exact parse_tokenText hkey hnonce (not_mem_intText hpos) (intOf_intText u hpos.le) strip_tokenText
  have hverify := fun time : ℚ => @verify_eq P h u names _ time hdevToken _ hparse
  have hlives : LivesUntil h u names (tokenText (strip keyId) (intText expiresAt) (strip nonce)
      (hmacSignaturePrefix ++ P.sha256 b)) (strip keyId) expiresAt ↔
        verifyHmacDigestSignature h u names (strip keyId)
          (tokenDigest (strip keyId) expiresAt (strip nonce)) (hmacSignaturePrefix ++ P.sha256 b) =
            .ok true := by
    constructor
    · intro hlives
      have hlt : (expiresAt : ℚ) - 1 < expiresAt := sub_one_lt _
      have hok := (hlives (expiresAt - 1)).1 hlt
      rw [hverify, if_neg (not_le.mpr ((truncate_lt_iff hpos).mpr hlt))] at hok
      exact hok
    · intro hok time
      constructor
      · intro hlt
        rw [hverify, if_neg (not_le.mpr ((truncate_lt_iff hpos).mpr hlt)), hok]
      · intro hle
        have hexpired : expiresAt ≤ truncate time :=
          not_lt.mp fun hlt => not_lt.mpr hle ((truncate_lt_iff hpos).mp hlt)
        rw [hverify, if_pos hexpired]
  rw [hlives, verifyHmac_eq_true, hcanonical]
  constructor
  · rintro ⟨secret', hsecret', hkeyed'⟩
    obtain ⟨b', hb', heq⟩ := keyedDigest_eq_ok hkeyed'
    exact ⟨secret, secret', hsecret, hsecret', .inr ⟨b, b', hb, hb', List.append_cancel_left heq⟩⟩
  · rintro ⟨secret₁, secret', hsecret₁, hsecret', hsame⟩
    have hfirst : secret₁ = secret := Except.ok.inj (hsecret₁.symm.trans hsecret)
    refine ⟨secret', hsecret', ?_⟩
    rcases hsame with rfl | ⟨b₁, b', hb₁, hb', heq⟩
    · rw [hfirst]
      exact hkeyed
    · rw [hfirst, hb] at hb₁
      obtain rfl := Option.some.inj hb₁
      unfold keyedDigest
      rw [hb', heq]

theorem resigned_iff_dated (hdevToken : strip (h.env (str "CRYOVANT_DEV_TOKEN")) = []) :
    (verifyGovernanceToken h u names token time = .ok true → Resigned h u names token) ↔
      Dated h u names token time := by
  constructor
  · intro hresigned t ht hnonpos
    by_contra hcon
    obtain ⟨hlive, hok⟩ := not_or.mp hcon
    have hverify := (verify_eq_true hdevToken).mpr ⟨t, ht, not_le.mp hlive, not_not.mp hok⟩
    obtain ⟨t', raw, digest, ht', -, -, hsign⟩ := hresigned hverify
    obtain rfl := Option.some.inj (ht.symm.trans ht')
    exact absurd (sign_eq_ok hsign).1 (not_lt.mpr hnonpos)
  · intro hdated hverify
    obtain ⟨t, ht, hlive, hok⟩ := (verify_eq_true hdevToken).mp hverify
    obtain ⟨raw, digest, htext, hkey, hnonce, hint, hsig⟩ := parse_eq_some ht
    rw [strip_strip] at htext
    have hpos : 0 < t.expiresAt := by
      by_contra hnonpos
      rcases hdated t ht (not_lt.mp hnonpos) with hle | hne
      · exact not_lt.mpr hle hlive
      · exact hne hok
    have hdigest : digest.rdropWhile isSpace = digest := by
      have hstripped : (strip token).rdropWhile isSpace = strip token := List.rdropWhile_idempotent _ _
      have happend : tokenText t.keyId raw t.nonce (hmacSignaturePrefix ++ digest) =
          tokenText t.keyId raw t.nonce hmacSignaturePrefix ++ digest := by
        simp [tokenText]
      rw [htext, happend] at hstripped
      exact rdropWhile_right hstripped
    have hcanonical : canonicalSignature P t.signature = hmacSignaturePrefix ++ P.lower digest := by
      have hstrip : strip (hmacSignaturePrefix ++ digest) = hmacSignaturePrefix ++ digest := by
        rw [strip_append_of_stripped (by decide) (by decide), hdigest]
      rw [hsig]
      unfold canonicalSignature
      dsimp only
      rw [hstrip, if_neg (List.append_ne_nil_of_left_ne_nil (by decide) _),
        if_pos (List.prefix_append _ _), List.drop_left]
    have hsign := sign_of_verifyHmac hpos hkey hnonce hok
    rw [hcanonical] at hsign
    exact ⟨t, raw, digest, ht, htext, hint, hsign⟩

/-- Without a development token: signed tokens live until they expire exactly where the key id has
one secret with and without its blanks, and an accepted candidate is a fresh token exactly where it
is dated. -/
theorem governanceToken_iff (h : Host) (u : Letters P) (names : KeyNames) (keyId nonce : Str)
    (expiresAt : Int) (candidate : Str) (time : ℚ)
    (hdevToken : strip (h.env (str "CRYOVANT_DEV_TOKEN")) = []) :
    ((∀ token, signGovernanceToken h u names keyId expiresAt nonce = .ok token →
        LivesUntil h u names token (strip keyId) expiresAt) ↔
      ∀ token, signGovernanceToken h u names keyId expiresAt nonce = .ok token →
        SameSecret h u names keyId (tokenDigest (strip keyId) expiresAt (strip nonce))) ∧
    ((verifyGovernanceToken h u names candidate time = .ok true → Resigned h u names candidate) ↔
      Dated h u names candidate time) :=
  ⟨forall₂_congr fun _ hsign => livesUntil_iff_sameSecret hdevToken hsign, resigned_iff_dated hdevToken⟩

/-! ### A key id with blanks -/

def devHost : Host where
  environ name := if name = str "ADAAD_ENV" then some (str "dev") else none
  keysDir := []

theorem governanceToken_iff_devHost :
    ((∀ token, signGovernanceToken devHost referenceLetters sessionKeyNames (str "k") 10 (str "n") =
          .ok token →
        LivesUntil devHost referenceLetters sessionKeyNames token (strip (str "k")) 10) ↔
      ∀ token, signGovernanceToken devHost referenceLetters sessionKeyNames (str "k") 10 (str "n") =
          .ok token →
        SameSecret devHost referenceLetters sessionKeyNames (str "k")
          (tokenDigest (strip (str "k")) 10 (strip (str "n")))) ∧
    ((verifyGovernanceToken devHost referenceLetters sessionKeyNames (str "x") 0 = .ok true →
        Resigned devHost referenceLetters sessionKeyNames (str "x")) ↔
      Dated devHost referenceLetters sessionKeyNames (str "x") 0) :=
  governanceToken_iff devHost referenceLetters sessionKeyNames (str "k") (str "n") 10 (str "x") 0
    (by decide)

/-- The token that is signed for the key id ` k`. -/
def blankToken : Str :=
  ((signGovernanceToken devHost referenceLetters sessionKeyNames (str " k") 10 (str "n")).toOption).getD
    []

/-- It is not accepted one second before it expires. -/
theorem not_livesUntil_blankToken :
    strip (devHost.env (str "CRYOVANT_DEV_TOKEN")) = [] ∧
      signGovernanceToken devHost referenceLetters sessionKeyNames (str " k") 10 (str "n") =
        .ok blankToken ∧
      ¬ LivesUntil devHost referenceLetters sessionKeyNames blankToken (strip (str " k")) 10 := by
  refine ⟨by decide, by decide +kernel, fun hlives => ?_⟩
  have hok := (hlives 9).1 (by norm_num)
  revert hok
  decide +kernel

end Adaad.Cryovant
