import Adaad.Py.TextFile
import Adaad.Security.Cryovant

/-!
# What a signature is checked against

A keyed digest is the only signature that the digest check accepts (`verifyHmac_eq_true`), and a
static signature is none (`not_keyed_of_static`, `verifySignature_of_static`).
-/

namespace Adaad.Cryovant

open Py

variable {P : Platform} {h : Host} {u : Letters P} {names : KeyNames}
variable {keyId signedDigest signature secret : Str}

/-! ### Digests -/

theorem keyedDigest_eq_ok {expected : Str} (hk : keyedDigest P secret signedDigest = .ok expected) :
    ∃ b, encode (secret ++ 58 :: signedDigest) = some b ∧
      expected = hmacSignaturePrefix ++ P.sha256 b := by
  unfold keyedDigest at hk
  cases hb : encode (secret ++ 58 :: signedDigest) with
  | none =>
    rw [hb] at hk
    cases hk
  | some b =>
    rw [hb] at hk
    exact ⟨b, rfl, (Except.ok.inj hk).symm⟩

theorem ascii_keyedDigest {expected : Str} (hk : keyedDigest P secret signedDigest = .ok expected) :
    ∀ c ∈ expected, c < 128 := by
  obtain ⟨b, -, rfl⟩ := keyedDigest_eq_ok hk
  exact ascii_prefixed_sha256 P b

theorem encodable_of_keyedDigest {expected : Str}
    (hk : keyedDigest P secret signedDigest = .ok expected) : Encodable signedDigest := by
  obtain ⟨b, hb, -⟩ := keyedDigest_eq_ok hk
  have hall : Encodable (secret ++ 58 :: signedDigest) := exists_encode_iff.mp ⟨b, hb⟩
  exact fun c hc => hall c (List.mem_append_right _ (List.mem_cons_of_mem _ hc))

theorem compareDigest_eq_true {a b : Str} (hb : ∀ c ∈ b, c < 128) :
    compareDigest a b = .ok true ↔ a = b := by
  unfold compareDigest
  constructor
  · intro heq
    split_ifs at heq
    exact of_decide_eq_true (Except.ok.inj heq)
  · rintro rfl
    have hall : (a ++ a).all (· < 128) = true := by
      rw [List.all_eq_true]
      intro c hc
      exact decide_eq_true ((List.mem_append.mp hc).elim (hb c) (hb c))
    rw [if_pos hall, decide_eq_true rfl]

theorem verifyHmac_eq_ok {b : Bool}
    (hv : verifyHmacDigestSignature h u names keyId signedDigest signature = .ok b) :
    ∃ secret expected, resolveHmacSecret h u names keyId = .ok secret ∧
      keyedDigest P secret signedDigest = .ok expected ∧
      (b = true ↔ canonicalSignature P signature = expected) := by
  obtain ⟨expected, hexpected, hcompare⟩ := bind_eq_ok.mp hv
  obtain ⟨secret, hsecret, hkeyed⟩ := bind_eq_ok.mp hexpected
  refine ⟨secret, expected, hsecret, hkeyed, ?_⟩
  rw [← compareDigest_eq_true (ascii_keyedDigest hkeyed), hcompare]
  exact ⟨congrArg _, Except.ok.inj⟩

theorem verifyHmac_eq_true :
    verifyHmacDigestSignature h u names keyId signedDigest signature = .ok true ↔
      ∃ secret, resolveHmacSecret h u names keyId = .ok secret ∧
        keyedDigest P secret signedDigest = .ok (canonicalSignature P signature) := by
  constructor
  · intro hv
    obtain ⟨secret, expected, hsecret, hkeyed, hiff⟩ := verifyHmac_eq_ok hv
    refine ⟨secret, hsecret, ?_⟩
    rw [hiff.mp rfl]
    exact hkeyed
  · rintro ⟨secret, hsecret, hkeyed⟩
    have hsign : signHmacDigest h u names keyId signedDigest = .ok (canonicalSignature P signature) := by
      unfold signHmacDigest
      rw [hsecret]
      exact hkeyed
    unfold verifyHmacDigestSignature
    rw [hsign]
    exact (compareDigest_eq_true (ascii_keyedDigest hkeyed)).mpr rfl

/-! ### Secrets -/

theorem resolve_eq_ok :
    resolveHmacSecret h u names keyId = .ok secret ↔
      isEnvName (specificEnv u names keyId) = true ∧
        (configuredSecret h u names keyId = some secret ∨
          configuredSecret h u names keyId = none ∧
            modeOf P h (str "ADAAD_ENV") ∉ strictEnvs ∧
            secret = names.fallbackNamespace ++ 58 :: keyId) := by
  unfold resolveHmacSecret
  cases isEnvName (specificEnv u names keyId) with
  | false => simp
  | true =>
    cases configuredSecret h u names keyId with
    | some s => simp
    | none =>
      by_cases hstrict : modeOf P h (str "ADAAD_ENV") ∈ strictEnvs
      · simp [hstrict]
      · simp [hstrict, eq_comm]

/-! ### Static signatures -/

theorem lower_static (u : Letters P) (hs : staticPrefix <+: signature) :
    ∃ t, P.lower (strip signature) = staticPrefix ++ t ∧
      ¬ hmacSignaturePrefix <+: strip signature := by
  obtain ⟨rest, rfl⟩ := hs
  have hrest := strip_append_of_stripped (l := staticPrefix) (by decide) (by decide) rest
  obtain ⟨t, ht⟩ := u.lower_append staticPrefix (rest.rdropWhile isSpace) (by decide)
  have hlower : asciiLower staticPrefix = staticPrefix := by decide
  refine ⟨t, ?_, ?_⟩
  · rw [hrest, ht, hlower]
  · rw [hrest]
    rintro ⟨r, hr⟩
    have := congrArg List.head? hr
    simp [hmacSignaturePrefix, staticPrefix, str] at this

theorem not_keyed_of_static (u : Letters P) (hs : staticPrefix <+: signature) :
    keyedDigest P secret signedDigest ≠ .ok (canonicalSignature P signature) := by
  intro hk
  obtain ⟨b, -, heq⟩ := keyedDigest_eq_ok hk
  obtain ⟨t, ht, hnot⟩ := lower_static u hs
  have hcanonical : canonicalSignature P signature = hmacSignaturePrefix ++ (staticPrefix ++ t) := by
    have hne : strip signature ≠ [] := by
      intro hnil
      rw [hnil] at ht
      have hascii : P.lower [] = [] := u.lower_ascii [] (by decide)
      rw [hascii] at ht
      exact absurd ht.symm (List.append_ne_nil_of_left_ne_nil (by decide) t)
    unfold canonicalSignature
    dsimp only
    rw [if_neg hne, if_neg hnot, ht]
  rw [hcanonical] at heq
  have hdigest : staticPrefix ++ t = P.sha256 b := List.append_cancel_left heq
  have hhex := P.isHexDigit_sha256 b 114 (by rw [← hdigest]; exact List.mem_append_left _ (by decide))
  exact absurd hhex (by decide)

theorem verifySignature_of_static (u : Letters P) (hs : staticPrefix <+: signature) :
    verifySignature P h signature = false := by
  obtain ⟨t, ht, -⟩ := lower_static u hs
  have hparse : parseSha256Signature P signature = [] := by
    unfold parseSha256Signature
    dsimp only
    rw [ht, if_neg]
    rintro ⟨r, hr⟩
    have := congrArg List.head? hr
    simp [hmacSignaturePrefix, staticPrefix, str] at this
  unfold verifySignature
  rw [hparse]
  rfl

end Adaad.Cryovant
