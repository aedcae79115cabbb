import Adaad.Py.Text

/-!
# UTF-8

`str.encode("utf-8")` and `bytes.decode("utf-8")`.  Encoding fails on a lone surrogate; decoding
is strict (`decode`, which says how far it got) or drops the bytes that begin no character
(`decodeIgnore`, the `errors="ignore"` handler).

`decode_encode` and `encode_of_decode` say that the two are inverse, and `decode_append` that
decoding works piece by piece from a character boundary.
-/

namespace Py

/-- A Python `bytes`. -/
abbrev Bytes := List UInt8

def isSurrogate (c : Nat) : Bool :=
  0xD800 ≤ c && c ≤ 0xDFFF

/-- The bytes of one character, if it has any. -/
def encodeChar (c : Nat) : Option Bytes :=
  if c < 0x80 then some [.ofNat c]
  else if c < 0x800 then some [.ofNat (0xC0 + c / 64), .ofNat (0x80 + c % 64)]
  else if c < 0x10000 then
    if isSurrogate c then none
    else some [.ofNat (0xE0 + c / 4096), .ofNat (0x80 + c / 64 % 64), .ofNat (0x80 + c % 64)]
  else if c < 0x110000 then
    some [.ofNat (0xF0 + c / 262144), .ofNat (0x80 + c / 4096 % 64), .ofNat (0x80 + c / 64 % 64),
      .ofNat (0x80 + c % 64)]
  else none

/-- `str.encode("utf-8")`; `none` is a `UnicodeEncodeError`. -/
def encode : Str → Option Bytes
  | [] => some []
  | c :: s => do
    let b ← encodeChar c
    let bs ← encode s
    return b ++ bs

def isCont (b : UInt8) : Bool :=
  0x80 ≤ b.toNat && b.toNat ≤ 0xBF

def value2 (b₀ b₁ : UInt8) : Nat :=
  (b₀.toNat - 0xC0) * 64 + (b₁.toNat - 0x80)

def value3 (b₀ b₁ b₂ : UInt8) : Nat :=
  (b₀.toNat - 0xE0) * 4096 + (b₁.toNat - 0x80) * 64 + (b₂.toNat - 0x80)

def value4 (b₀ b₁ b₂ b₃ : UInt8) : Nat :=
  (b₀.toNat - 0xF0) * 262144 + (b₁.toNat - 0x80) * 4096 + (b₂.toNat - 0x80) * 64 +
    (b₃.toNat - 0x80)

def isSeq2 (b₀ b₁ : UInt8) : Bool :=
  0xC2 ≤ b₀.toNat && b₀.toNat ≤ 0xDF && isCont b₁

/-- A well-formed three-byte sequence: not overlong and no surrogate. -/
def isSeq3 (b₀ b₁ b₂ : UInt8) : Bool :=
  0xE0 ≤ b₀.toNat && b₀.toNat ≤ 0xEF && isCont b₁ && isCont b₂ && 0x800 ≤ value3 b₀ b₁ b₂ &&
    !isSurrogate (value3 b₀ b₁ b₂)

/-- A well-formed four-byte sequence: not overlong and within Unicode. -/
def isSeq4 (b₀ b₁ b₂ b₃ : UInt8) : Bool :=
  0xF0 ≤ b₀.toNat && b₀.toNat ≤ 0xF4 && isCont b₁ && isCont b₂ && isCont b₃ &&
    0x10000 ≤ value4 b₀ b₁ b₂ b₃ && value4 b₀ b₁ b₂ b₃ < 0x110000

/-- Put a character in front of what the rest decodes to. -/
def push (c : Nat) (r : Str × Bool) : Str × Bool :=
  (c :: r.1, r.2)

/-- Decode from the left.  A byte that begins no character is dropped (`ignore`) or ends the
decoding; the flag says that nothing ended it. -/
def decodeGo (ignore : Bool) : Bytes → Str × Bool
  | [] => ([], true)
  | b₀ :: rest =>
    let skip := if ignore then decodeGo ignore rest else ([], false)
    if b₀.toNat < 0x80 then push b₀.toNat (decodeGo ignore rest)
    else
      match rest with
      | [] => skip
      | b₁ :: rest₁ =>
        if isSeq2 b₀ b₁ then push (value2 b₀ b₁) (decodeGo ignore rest₁)
        else
          match rest₁ with
          | [] => skip
          | b₂ :: rest₂ =>
            if isSeq3 b₀ b₁ b₂ then push (value3 b₀ b₁ b₂) (decodeGo ignore rest₂)
            else
              match rest₂ with
              | [] => skip
              | b₃ :: rest₃ =>
                if isSeq4 b₀ b₁ b₂ b₃ then push (value4 b₀ b₁ b₂ b₃) (decodeGo ignore rest₃)
                else skip

/-- The text before the first undecodable byte, and whether there is none. -/
def decodePrefix (b : Bytes) : Str × Bool :=
  decodeGo false b

/-- `bytes.decode("utf-8")`; `none` is a `UnicodeDecodeError`. -/
def decode (b : Bytes) : Option Str :=
  if (decodePrefix b).2 then some (decodePrefix b).1 else none

/-- `bytes.decode("utf-8", errors="ignore")` -/
def decodeIgnore (b : Bytes) : Str :=
  (decodeGo true b).1

/-! ### Encoding -/

@[simp] theorem encode_nil : encode [] = some [] := rfl

theorem encode_cons (c : Nat) (s : Str) :
    encode (c :: s) = (encodeChar c).bind fun b => (encode s).bind fun bs => some (b ++ bs) :=
  rfl

theorem encode_append (s t : Str) :
    encode (s ++ t) = (encode s).bind fun b => (encode t).bind fun b' => some (b ++ b') := by
  induction s with
  | nil => simp
  | cons c s ih =>
    rw [List.cons_append, encode_cons, encode_cons, ih]
    cases encodeChar c <;> cases encode s <;> cases encode t <;> simp

theorem encode_append_eq_some {s t : Str} {b : Bytes} :
    encode (s ++ t) = some b ↔ ∃ b₁ b₂, encode s = some b₁ ∧ encode t = some b₂ ∧ b = b₁ ++ b₂ := by
  rw [encode_append]
  cases encode s <;> cases encode t <;> simp [eq_comm]

theorem encode_eq_some_cons {c : Nat} {s : Str} {b : Bytes} :
    encode (c :: s) = some b ↔
      ∃ b₁ b₂, encodeChar c = some b₁ ∧ encode s = some b₂ ∧ b = b₁ ++ b₂ := by
  rw [encode_cons]
  cases encodeChar c <;> cases encode s <;> simp [eq_comm]

theorem encodeChar_ascii {c : Nat} (hc : c < 0x80) : encodeChar c = some [.ofNat c] := by
  simp [encodeChar, hc]

/-- The text has only characters that UTF-8 has bytes for. -/
def Encodable (s : Str) : Prop :=
  ∀ c ∈ s, ∃ b, encodeChar c = some b

theorem exists_encode_iff {s : Str} : (∃ b, encode s = some b) ↔ Encodable s := by
  induction s with
  | nil => simp [Encodable]
  | cons c s ih =>
    unfold Encodable at ih ⊢
    rw [List.forall_mem_cons, ← ih]
    simp only [encode_eq_some_cons]
    constructor
    · rintro ⟨_, b₁, b₂, h₁, h₂, rfl⟩
      exact ⟨⟨b₁, h₁⟩, b₂, h₂⟩
    · rintro ⟨⟨b₁, h₁⟩, b₂, h₂⟩
      exact ⟨_, b₁, b₂, h₁, h₂, rfl⟩

theorem encodable_nil : Encodable [] := fun _ hc => absurd hc List.not_mem_nil

theorem encodable_of_ascii {s : Str} (h : ∀ c ∈ s, c < 0x80) : Encodable s :=
  fun c hc => ⟨_, encodeChar_ascii (h c hc)⟩

theorem Encodable.append {s t : Str} (hs : Encodable s) (ht : Encodable t) : Encodable (s ++ t) :=
  fun c hc => (List.mem_append.mp hc).elim (hs c) (ht c)

/-! ### Decoding what was encoded -/

theorem decodeGo_seq1 (ignore : Bool) {b₀ : UInt8} (h : b₀.toNat < 0x80) (r : Bytes) :
    decodeGo ignore (b₀ :: r) = push b₀.toNat (decodeGo ignore r) := by
  rw [decodeGo.eq_def]
  simp only [h, ↓reduceIte]

theorem decodeGo_seq2 (ignore : Bool) {b₀ b₁ : UInt8} (h : isSeq2 b₀ b₁ = true) (r : Bytes) :
    decodeGo ignore (b₀ :: b₁ :: r) = push (value2 b₀ b₁) (decodeGo ignore r) := by
  have h0 : ¬ b₀.toNat < 0x80 := by
    simp only [isSeq2, Bool.and_eq_true, decide_eq_true_eq] at h
    omega
  rw [decodeGo.eq_def]
  simp only [h, h0, ↓reduceIte]

theorem decodeGo_seq3 (ignore : Bool) {b₀ b₁ b₂ : UInt8} (h : isSeq3 b₀ b₁ b₂ = true)
    (r : Bytes) :
    decodeGo ignore (b₀ :: b₁ :: b₂ :: r) = push (value3 b₀ b₁ b₂) (decodeGo ignore r) := by
  have h0 : 0xE0 ≤ b₀.toNat := by
    simp only [isSeq3, Bool.and_eq_true, decide_eq_true_eq] at h
    omega
  have h2 : isSeq2 b₀ b₁ = false := by
    simp only [isSeq2, Bool.and_eq_false_iff, decide_eq_false_iff_not]
    omega
  rw [decodeGo.eq_def]
  simp only [h, h2, if_neg (show ¬ b₀.toNat < 0x80 by omega), Bool.false_eq_true, ↓reduceIte]

theorem decodeGo_seq4 (ignore : Bool) {b₀ b₁ b₂ b₃ : UInt8} (h : isSeq4 b₀ b₁ b₂ b₃ = true)
    (r : Bytes) :
    decodeGo ignore (b₀ :: b₁ :: b₂ :: b₃ :: r) =
      push (value4 b₀ b₁ b₂ b₃) (decodeGo ignore r) := by
  have h0 : 0xF0 ≤ b₀.toNat := by
    simp only [isSeq4, Bool.and_eq_true, decide_eq_true_eq] at h
    omega
  have h2 : isSeq2 b₀ b₁ = false := by
    simp only [isSeq2, Bool.and_eq_false_iff, decide_eq_false_iff_not]
    omega
  have h3 : isSeq3 b₀ b₁ b₂ = false := by
    simp only [isSeq3, Bool.and_eq_false_iff, decide_eq_false_iff_not]
    omega
  rw [decodeGo.eq_def]
  simp only [h, h2, h3, if_neg (show ¬ b₀.toNat < 0x80 by omega), Bool.false_eq_true, ↓reduceIte]

theorem toNat_ofNat_of_lt {n : Nat} (h : n < 256) : (UInt8.ofNat n).toNat = n := by
  rw [UInt8.toNat_ofNat']
  exact Nat.mod_eq_of_lt h

theorem decodeGo_encodeChar (ignore : Bool) {c : Nat} {b : Bytes} (h : encodeChar c = some b)
    (r : Bytes) : decodeGo ignore (b ++ r) = push c (decodeGo ignore r) := by
  unfold encodeChar at h
  split_ifs at h with h1 h2 h3 h4 h5
  · obtain rfl := Option.some.inj h
    have e0 := toNat_ofNat_of_lt (n := c) (by omega)
    rw [List.singleton_append, decodeGo_seq1 ignore (by rw [e0]; exact h1), e0]
  · obtain rfl := Option.some.inj h
    have e0 := toNat_ofNat_of_lt (n := 0xC0 + c / 64) (by omega)
    have e1 := toNat_ofNat_of_lt (n := 0x80 + c % 64) (by omega)
    have hseq : isSeq2 (.ofNat (0xC0 + c / 64)) (.ofNat (0x80 + c % 64)) = true := by
      unfold isSeq2 isCont
      rw [e0, e1]
      simp only [Bool.and_eq_true, decide_eq_true_eq]
      omega
    have hv : value2 (.ofNat (0xC0 + c / 64)) (.ofNat (0x80 + c % 64)) = c := by
      unfold value2
      rw [e0, e1]
      omega
    rw [List.cons_append, List.singleton_append, decodeGo_seq2 ignore hseq, hv]
  · obtain rfl := Option.some.inj h
    have e0 := toNat_ofNat_of_lt (n := 0xE0 + c / 4096) (by omega)
    have e1 := toNat_ofNat_of_lt (n := 0x80 + c / 64 % 64) (by omega)
    have e2 := toNat_ofNat_of_lt (n := 0x80 + c % 64) (by omega)
    have hv : value3 (.ofNat (0xE0 + c / 4096)) (.ofNat (0x80 + c / 64 % 64))
        (.ofNat (0x80 + c % 64)) = c := by
      unfold value3
      rw [e0, e1, e2]
      omega
    have hseq : isSeq3 (.ofNat (0xE0 + c / 4096)) (.ofNat (0x80 + c / 64 % 64))
        (.ofNat (0x80 + c % 64)) = true := by
      unfold isSeq3 isCont
      rw [hv, e0, e1, e2, Bool.eq_false_iff.mpr h4]
      simp only [Bool.and_eq_true, decide_eq_true_eq, Bool.not_false, and_true]
      omega
    rw [List.cons_append, List.cons_append, List.singleton_append, decodeGo_seq3 ignore hseq, hv]
  · obtain rfl := Option.some.inj h
    have e0 := toNat_ofNat_of_lt (n := 0xF0 + c / 262144) (by omega)
    have e1 := toNat_ofNat_of_lt (n := 0x80 + c / 4096 % 64) (by omega)
    have e2 := toNat_ofNat_of_lt (n := 0x80 + c / 64 % 64) (by omega)
    have e3 := toNat_ofNat_of_lt (n := 0x80 + c % 64) (by omega)
    have hv : value4 (.ofNat (0xF0 + c / 262144)) (.ofNat (0x80 + c / 4096 % 64))
        (.ofNat (0x80 + c / 64 % 64)) (.ofNat (0x80 + c % 64)) = c := by
      unfold value4
      rw [e0, e1, e2, e3]
      omega
    have hseq : isSeq4 (.ofNat (0xF0 + c / 262144)) (.ofNat (0x80 + c / 4096 % 64))
        (.ofNat (0x80 + c / 64 % 64)) (.ofNat (0x80 + c % 64)) = true := by
      unfold isSeq4 isCont
      rw [hv, e0, e1, e2, e3]
      simp only [Bool.and_eq_true, decide_eq_true_eq]
      omega
    rw [List.cons_append, List.cons_append, List.cons_append, List.singleton_append,
      decodeGo_seq4 ignore hseq, hv]

theorem decodeGo_encode (ignore : Bool) {s : Str} {b : Bytes} (h : encode s = some b) (r : Bytes) :
    decodeGo ignore (b ++ r) = (s ++ (decodeGo ignore r).1, (decodeGo ignore r).2) := by
  induction s generalizing b with
  | nil =>
    obtain rfl := Option.some.inj h
    rfl
  | cons c s ih =>
    obtain ⟨b₁, b₂, h₁, h₂, rfl⟩ := encode_eq_some_cons.mp h
    rw [List.append_assoc, decodeGo_encodeChar ignore h₁, ih h₂]
    rfl

theorem decode_encode {s : Str} {b : Bytes} (h : encode s = some b) : decode b = some s := by
  have := decodeGo_encode false h []
  rw [List.append_nil] at this
  simp [decode, decodePrefix, this, decodeGo]

theorem decodeIgnore_encode {s : Str} {b : Bytes} (h : encode s = some b) :
    decodeIgnore b = s := by
  have := decodeGo_encode true h []
  rw [List.append_nil] at this
  simp [decodeIgnore, this, decodeGo]

/-! ### Encoding what was decoded -/

private theorem ofNat_eq_of_toNat {b : UInt8} {n : Nat} (h : n = b.toNat) : UInt8.ofNat n = b := by
  rw [h, UInt8.ofNat_toNat]

theorem encodeChar_value2 {b₀ b₁ : UInt8} (h : isSeq2 b₀ b₁ = true) :
    encodeChar (value2 b₀ b₁) = some [b₀, b₁] := by
  simp only [isSeq2, isCont, Bool.and_eq_true, decide_eq_true_eq] at h
  unfold encodeChar
  rw [if_neg (by unfold value2; omega), if_pos (by unfold value2; omega)]
  rw [ofNat_eq_of_toNat (b := b₀) (by unfold value2; omega),
    ofNat_eq_of_toNat (b := b₁) (by unfold value2; omega)]

theorem encodeChar_value3 {b₀ b₁ b₂ : UInt8} (h : isSeq3 b₀ b₁ b₂ = true) :
    encodeChar (value3 b₀ b₁ b₂) = some [b₀, b₁, b₂] := by
  simp only [isSeq3, isCont, Bool.and_eq_true, decide_eq_true_eq, Bool.not_eq_true'] at h
  obtain ⟨⟨⟨⟨⟨h0, h0'⟩, h1⟩, h2⟩, hlo⟩, hsur⟩ := h
  unfold encodeChar
  rw [if_neg (by unfold value3 at *; omega), if_neg (by omega),
    if_pos (by unfold value3 at *; omega), hsur, if_neg (by simp)]
  rw [ofNat_eq_of_toNat (b := b₀) (by unfold value3; omega),
    ofNat_eq_of_toNat (b := b₁) (by unfold value3; omega),
    ofNat_eq_of_toNat (b := b₂) (by unfold value3; omega)]

theorem encodeChar_value4 {b₀ b₁ b₂ b₃ : UInt8} (h : isSeq4 b₀ b₁ b₂ b₃ = true) :
    encodeChar (value4 b₀ b₁ b₂ b₃) = some [b₀, b₁, b₂, b₃] := by
  simp only [isSeq4, isCont, Bool.and_eq_true, decide_eq_true_eq] at h
  obtain ⟨⟨⟨⟨⟨⟨h0, h0'⟩, h1⟩, h2⟩, h3⟩, hlo⟩, hhi⟩ := h
  unfold encodeChar
  rw [if_neg (by omega), if_neg (by omega), if_neg (by omega), if_pos hhi]
  rw [ofNat_eq_of_toNat (b := b₀) (by unfold value4; omega),
    ofNat_eq_of_toNat (b := b₁) (by unfold value4; omega),
    ofNat_eq_of_toNat (b := b₂) (by unfold value4; omega),
    ofNat_eq_of_toNat (b := b₃) (by unfold value4; omega)]

theorem encode_of_decodePrefix {b : Bytes} (h : (decodePrefix b).2 = true) :
    encode (decodePrefix b).1 = some b := by
  unfold decodePrefix at *
  fun_induction decodeGo false b with
  | case1 => rfl
  | case2 b₀ rest hlt ih =>
    have hchar : encodeChar b₀.toNat = some [b₀] := by
      rw [encodeChar_ascii hlt, UInt8.ofNat_toNat]
    exact encode_eq_some_cons.mpr ⟨[b₀], rest, hchar, ih h, rfl⟩
  | case4 b₀ hlt b₁ rest hseq _ ih =>
    exact encode_eq_some_cons.mpr ⟨[b₀, b₁], rest, encodeChar_value2 hseq, ih h, rfl⟩
  | case6 b₀ hlt b₁ _ b₂ rest hseq _ ih =>
    exact encode_eq_some_cons.mpr ⟨[b₀, b₁, b₂], rest, encodeChar_value3 hseq, ih h, rfl⟩
  | case8 b₀ hlt b₁ _ b₂ _ b₃ rest hseq _ ih =>
    exact encode_eq_some_cons.mpr ⟨[b₀, b₁, b₂, b₃], rest, encodeChar_value4 hseq, ih h, rfl⟩
  | case3 | case5 | case7 | case9 => exact absurd h Bool.false_ne_true

theorem encode_of_decode {b : Bytes} {s : Str} (h : decode b = some s) : encode s = some b := by
  unfold decode at h
  split_ifs at h with hp
  obtain rfl := Option.some.inj h
  exact encode_of_decodePrefix hp

theorem decode_eq_some_iff {b : Bytes} {s : Str} : decode b = some s ↔ encode s = some b :=
  ⟨encode_of_decode, decode_encode⟩

theorem decode_append {b : Bytes} {s : Str} (h : encode s = some b) (r : Bytes) :
    decode (b ++ r) = (decode r).map (s ++ ·) := by
  unfold decode decodePrefix
  rw [decodeGo_encode false h]
  by_cases hr : (decodeGo false r).2 <;> simp [hr]

/-! ### Character boundaries -/

theorem decode_eq_none_of_isCont {b : UInt8} (hb : isCont b = true) (r : Bytes) :
    decode (b :: r) = none := by
  simp only [isCont, Bool.and_eq_true, decide_eq_true_eq] at hb
  have h1 : ¬ b.toNat < 0x80 := by omega
  have h2 : ∀ b₁, isSeq2 b b₁ = false := by
    intro b₁
    simp only [isSeq2, Bool.and_eq_false_iff, decide_eq_false_iff_not]
    omega
  have h3 : ∀ b₁ b₂, isSeq3 b b₁ b₂ = false := by
    intro b₁ b₂
    simp only [isSeq3, Bool.and_eq_false_iff, decide_eq_false_iff_not]
    omega
  have h4 : ∀ b₁ b₂ b₃, isSeq4 b b₁ b₂ b₃ = false := by
    intro b₁ b₂ b₃
    simp only [isSeq4, Bool.and_eq_false_iff, decide_eq_false_iff_not]
    omega
  have hfail : decodeGo false (b :: r) = ([], false) := by
    rw [decodeGo.eq_def]
    simp only [h1, h2, h3, h4, Bool.false_eq_true, ↓reduceIte]
    split
    · rfl
    · split
      · rfl
      · split <;> rfl
  simp [decode, decodePrefix, hfail]

theorem isCont_of_encodeChar {c : Nat} {b : UInt8} {bs : Bytes} (h : encodeChar c = some (b :: bs)) :
    ∀ x ∈ bs, isCont x = true := by
  have hcont : ∀ n, isCont (.ofNat (0x80 + n % 64)) = true := by
    intro n
    have := toNat_ofNat_of_lt (n := 0x80 + n % 64) (by omega)
    simp only [isCont, this, Bool.and_eq_true, decide_eq_true_eq]
    omega
  unfold encodeChar at h
  split_ifs at h
  all_goals
    obtain ⟨-, rfl⟩ := List.cons.inj (Option.some.inj h)
    simp only [List.forall_mem_cons, List.not_mem_nil, false_imp_iff, implies_true, hcont, and_self]

theorem exists_decode_left {a b : Bytes} {s t : Str} (h : decode (a ++ b) = some s)
    (hb : decode b = some t) : ∃ u, decode a = some u ∧ s = u ++ t := by
  have hs := encode_of_decode h
  clear h
  induction s generalizing a with
  | nil =>
    obtain ⟨rfl, rfl⟩ := List.append_eq_nil_iff.mp (Option.some.inj hs).symm
    obtain rfl := Option.some.inj hb
    exact ⟨[], rfl, rfl⟩
  | cons c s ih =>
    obtain ⟨b₁, b₂, hc, hs', heq⟩ := encode_eq_some_cons.mp hs
    have hone : encode [c] = some b₁ :=
      encode_eq_some_cons.mpr ⟨b₁, [], hc, rfl, by rw [List.append_nil]⟩
    rcases List.append_eq_append_iff.mp heq.symm with ⟨x, rfl, rfl⟩ | ⟨x, rfl, rfl⟩
    · obtain ⟨u, hu, rfl⟩ := ih hs'
      exact ⟨c :: u, by rw [decode_append hone, hu]; rfl, rfl⟩
    · cases a with
      | nil =>
        rw [List.nil_append] at hs
        obtain rfl := Option.some.inj (hb.symm.trans (decode_encode hs))
        exact ⟨[], rfl, rfl⟩
      | cons y a =>
        cases x with
        | nil =>
          rw [List.append_nil] at hone
          rw [List.nil_append] at hb
          obtain rfl := Option.some.inj (hb.symm.trans (decode_encode hs'))
          exact ⟨[c], decode_encode hone, rfl⟩
        | cons z x =>
          -- the end would begin within the character
          have hz := isCont_of_encodeChar hc z (by simp)
          rw [List.cons_append, decode_eq_none_of_isCont hz] at hb
          exact absurd hb (by simp)

/-! ### ASCII bytes -/

theorem encodeChar_of_mem_ascii {c : Nat} {b : Bytes} (h : encodeChar c = some b) {x : UInt8}
    (hx : x ∈ b) (hascii : x.toNat < 0x80) : b = [x] ∧ c = x.toNat := by
  by_cases hc : c < 0x80
  · rw [encodeChar_ascii hc] at h
    obtain rfl := Option.some.inj h
    obtain rfl := List.mem_singleton.mp hx
    exact ⟨rfl, (toNat_ofNat_of_lt (by omega)).symm⟩
  · -- the bytes of any other character are not ASCII
    exfalso
    have hlarge : ∀ n, 0x80 ≤ n → n < 256 → 0x80 ≤ (UInt8.ofNat n).toNat := by
      intro n hn hn'
      rwa [toNat_ofNat_of_lt hn']
    have hall : ∀ y ∈ b, 0x80 ≤ y.toNat := by
      unfold encodeChar at h
      split_ifs at h
      all_goals
        obtain rfl := Option.some.inj h
        simp only [List.forall_mem_cons, List.not_mem_nil, false_imp_iff, implies_true, and_true]
        and_intros <;> exact hlarge _ (by omega) (by omega)
    exact absurd (hall x hx) (by omega)

theorem notMem_of_encode {s : Str} {b : Bytes} (h : encode s = some b) {x : UInt8}
    (hx : x.toNat < 0x80) (hs : x.toNat ∉ s) : x ∉ b := by
  induction s generalizing b with
  | nil =>
    obtain rfl := Option.some.inj h
    exact List.not_mem_nil
  | cons c s ih =>
    obtain ⟨b₁, b₂, hc, hs', rfl⟩ := encode_eq_some_cons.mp h
    rw [List.mem_cons, not_or] at hs
    rw [List.mem_append, not_or]
    exact ⟨fun hmem => hs.1 (encodeChar_of_mem_ascii hc hmem hx).2.symm, ih hs' hs.2⟩

end Py

/-!
## Base64

`base64.urlsafe_b64encode` and `base64.urlsafe_b64decode`.  The decoder is the lenient one of
`binascii`: it skips what is no letter of the alphabet, and stops at a padding that completes a quad.
-/

namespace Py

/-! ### Encoding -/

def b64Letter (n : Nat) : Nat :=
  if n < 26 then 65 + n
  else if n < 52 then 97 + (n - 26)
  else if n < 62 then 48 + (n - 52)
  else if n = 62 then 45
  else 95

/-- `base64.urlsafe_b64encode(data).decode("utf-8")` -/
def urlsafeB64encode : Bytes → Str
  | [] => []
  | [a] =>
    [b64Letter (a.toNat / 4), b64Letter (a.toNat % 4 * 16), 61, 61]
  | [a, b] =>
    [b64Letter (a.toNat / 4), b64Letter (a.toNat % 4 * 16 + b.toNat / 16),
      b64Letter (b.toNat % 16 * 4), 61]
  | a :: b :: c :: rest =>
    b64Letter (a.toNat / 4) :: b64Letter (a.toNat % 4 * 16 + b.toNat / 16) ::
      b64Letter (b.toNat % 16 * 4 + c.toNat / 64) :: b64Letter (c.toNat % 64) :: urlsafeB64encode rest

/-! ### Decoding -/

/-- The six bits of a letter: either alphabet is read. -/
def b64Value (c : Nat) : Option Nat :=
  if 65 ≤ c ∧ c ≤ 90 then some (c - 65)
  else if 97 ≤ c ∧ c ≤ 122 then some (c - 71)
  else if 48 ≤ c ∧ c ≤ 57 then some (c + 4)
  else if c = 43 ∨ c = 45 then some 62
  else if c = 47 ∨ c = 95 then some 63
  else none

/-- `binascii.a2b_base64`, after so many letters of a quad with these bits left and so many signs of
padding; `none` is a `binascii.Error`. -/
def b64Go : Nat → Nat → Nat → Bytes → Option Bytes
  | 0, _, _, [] => some []
  | _ + 1, _, _, [] => none
  | quad, left, pads, c :: cs =>
    if c = 61 then
      if 2 ≤ quad ∧ 4 ≤ quad + (pads + 1) then some []
      else b64Go quad left (if 2 ≤ quad then pads + 1 else pads) cs
    else
      match b64Value c.toNat with
      | none => b64Go quad left pads cs
      | some v =>
        match quad with
        | 0 => b64Go 1 v 0 cs
        | 1 => (b64Go 2 (v % 16) 0 cs).map (.ofNat (left * 4 + v / 16) :: ·)
        | 2 => (b64Go 3 (v % 4) 0 cs).map (.ofNat (left * 16 + v / 4) :: ·)
        | _ => (b64Go 0 0 0 cs).map (.ofNat (left * 64 + v) :: ·)

/-- `base64.urlsafe_b64decode(value + padding)`, with the padding that the length asks for; `none` is a
`ValueError`. -/
def b64urlDecode (value : Str) : Option Bytes :=
  (encode (value ++ List.replicate ((4 - value.length % 4) % 4) 61)).bind (b64Go 0 0 0)

example : b64urlDecode (str "TWFu") = some [77, 97, 110] := by decide

example : b64urlDecode (str "!!!!") = some [] := by decide

end Py
