import Adaad.Py.Value
import Mathlib.Algebra.Group.Nat.Defs

/-!
# SHA-256

The digest that `hashlib.sha256` computes, on words that are natural numbers below `2 ^ 32`.
-/

namespace Py

namespace Sha256

def wordSize : Nat := 2 ^ 32

def rotr (x n : Nat) : Nat :=
  (x >>> n ||| x <<< (32 - n)) % wordSize

def bigSigma0 (x : Nat) : Nat := rotr x 2 ^^^ (rotr x 13 ^^^ rotr x 22)
def bigSigma1 (x : Nat) : Nat := rotr x 6 ^^^ (rotr x 11 ^^^ rotr x 25)
def smallSigma0 (x : Nat) : Nat := rotr x 7 ^^^ (rotr x 18 ^^^ x >>> 3)
def smallSigma1 (x : Nat) : Nat := rotr x 17 ^^^ (rotr x 19 ^^^ x >>> 10)

def choose (x y z : Nat) : Nat := x &&& y ^^^ (wordSize - 1 - x) &&& z
def majority (x y z : Nat) : Nat := x &&& y ^^^ (x &&& z ^^^ y &&& z)

/-- The eight working variables. -/
structure State where
  a : Nat
  b : Nat
  c : Nat
  d : Nat
  e : Nat
  f : Nat
  g : Nat
  h : Nat

def initial : State :=
  ⟨0x6a09e667, 0xbb67ae85, 0x3c6ef372, 0xa54ff53a, 0x510e527f, 0x9b05688c, 0x1f83d9ab, 0x5be0cd19⟩

def roundConstants : List Nat :=
  [0x428a2f98, 0x71374491, 0xb5c0fbcf, 0xe9b5dba5, 0x3956c25b, 0x59f111f1, 0x923f82a4, 0xab1c5ed5,
    0xd807aa98, 0x12835b01, 0x243185be, 0x550c7dc3, 0x72be5d74, 0x80deb1fe, 0x9bdc06a7, 0xc19bf174,
    0xe49b69c1, 0xefbe4786, 0x0fc19dc6, 0x240ca1cc, 0x2de92c6f, 0x4a7484aa, 0x5cb0a9dc, 0x76f988da,
    0x983e5152, 0xa831c66d, 0xb00327c8, 0xbf597fc7, 0xc6e00bf3, 0xd5a79147, 0x06ca6351, 0x14292967,
    0x27b70a85, 0x2e1b2138, 0x4d2c6dfc, 0x53380d13, 0x650a7354, 0x766a0abb, 0x81c2c92e, 0x92722c85,
    0xa2bfe8a1, 0xa81a664b, 0xc24b8b70, 0xc76c51a3, 0xd192e819, 0xd6990624, 0xf40e3585, 0x106aa070,
    0x19a4c116, 0x1e376c08, 0x2748774c, 0x34b0bcb5, 0x391c0cb3, 0x4ed8aa4a, 0x5b9cca4f, 0x682e6ff3,
    0x748f82ee, 0x78a5636f, 0x84c87814, 0x8cc70208, 0x90befffa, 0xa4506ceb, 0xbef9a3f7, 0xc67178f2]

/-- One round with its constant and its schedule word. -/
def round (k w : Nat) (s : State) : State :=
  let t := s.h + bigSigma1 s.e + choose s.e s.f s.g + k + w
  ⟨(t + bigSigma0 s.a + majority s.a s.b s.c) % wordSize, s.a, s.b, s.c, (s.d + t) % wordSize, s.e,
    s.f, s.g⟩

/-- The rounds; `ws` are the next sixteen words of the schedule. -/
def rounds : List Nat → List Nat → State → State
  | [], _, s => s
  | k :: ks, ws, s =>
    let w := (ws.getD 0 0 + smallSigma0 (ws.getD 1 0) + ws.getD 9 0 + smallSigma1 (ws.getD 14 0)) %
      wordSize
    rounds ks (ws.tail ++ [w]) (round k (ws.getD 0 0) s)

/-- The compression of one block of sixteen words. -/
def compress (s : State) (block : List Nat) : State :=
  let t := rounds roundConstants block s
  ⟨(s.a + t.a) % wordSize, (s.b + t.b) % wordSize, (s.c + t.c) % wordSize, (s.d + t.d) % wordSize,
    (s.e + t.e) % wordSize, (s.f + t.f) % wordSize, (s.g + t.g) % wordSize, (s.h + t.h) % wordSize⟩

def words : List Nat → List Nat
  | a :: b :: c :: d :: r => (a * 2 ^ 24 + b * 2 ^ 16 + c * 2 ^ 8 + d) :: words r
  | _ => []

def bytesOf : Nat → Nat → List Nat
  | 0, _ => []
  | n + 1, x => bytesOf n (x / 256) ++ [x % 256]

def pad (m : List Nat) : List Nat :=
  m ++ 0x80 :: (List.replicate ((119 - m.length % 64) % 64) 0 ++ bytesOf 8 (8 * m.length))

/-- The blocks of sixteen words; the fuel is at least their number. -/
def blocks : Nat → List Nat → List (List Nat)
  | 0, _ => []
  | n + 1, ws => if ws = [] then [] else ws.take 16 :: blocks n (ws.drop 16)

def digest (m : List Nat) : State :=
  let ws := words (pad m)
  (blocks ws.length ws).foldl compress initial

def hexDigits : Nat → Nat → Str
  | 0, _ => []
  | n + 1, x => hexDigits n (x / 16) ++ [if x % 16 < 10 then 48 + x % 16 else 87 + x % 16]

end Sha256

open Sha256 in
/-- `hashlib.sha256(data).hexdigest()` -/
def sha256Hex (data : Bytes) : Str :=
  let s := digest (data.map UInt8.toNat)
  [s.a, s.b, s.c, s.d, s.e, s.f, s.g, s.h].flatMap (hexDigits 8)

end Py

/-!
## A concrete runtime

The platform on which inputs are run: SHA-256 is the real one, text is lowered by its ASCII letters,
and a `float` is the literal it is written as.
-/

namespace Py

instance (l : NumLit) : Decidable l.WF :=
  decidable_of_iff
    (l.int ≠ [] ∧ (∀ c ∈ l.int, isDigit c = true) ∧ (l.int.head? = some 48 → l.int = [48]) ∧
      (∀ c ∈ l.frac, isDigit c = true) ∧ (∀ e ∈ l.exp, e.2 ≠ []) ∧
      ∀ e ∈ l.exp, ∀ c ∈ e.2, isDigit c = true)
    ⟨fun ⟨h₁, h₂, h₃, h₄, h₅, h₆⟩ => ⟨h₁, h₂, h₃, h₄, h₅, h₆⟩,
      fun ⟨h₁, h₂, h₃, h₄, h₅, h₆⟩ => ⟨h₁, h₂, h₃, h₄, h₅, h₆⟩⟩

/-- A text that is written for a `float`: a literal has to be one that is read as a `float`. -/
def IsFloatText (t : FloatText) : Prop :=
  ∀ l, t = .lit l → l.WF ∧ l.isFloat = true

instance : (t : FloatText) → Decidable (IsFloatText t)
  | .nan => isTrue nofun
  | .infinity => isTrue nofun
  | .negInfinity => isTrue nofun
  | .lit l => decidable_of_iff (l.WF ∧ l.isFloat = true)
      ⟨fun h _ he => FloatText.lit.inj he ▸ h, fun h => h l rfl⟩

/-- `float` as the text that it is written as. -/
abbrev LiteralFloat := { t : FloatText // IsFloatText t }

/-- The `float` of a text. -/
def LiteralFloat.ofText (t : FloatText) : LiteralFloat :=
  if h : IsFloatText t then ⟨t, h⟩ else ⟨.nan, nofun⟩

/-- `str.lower` on ASCII letters. -/
def asciiLower (s : Str) : Str :=
  s.map fun c => if 65 ≤ c ∧ c ≤ 90 then c + 32 else c

namespace Sha256

theorem isHexDigit_hexDigits (n x : Nat) : ∀ c ∈ hexDigits n x, isHexDigit c = true := by
  induction n generalizing x with
  | zero => simp [hexDigits]
  | succ n ih =>
    intro c hc
    rw [hexDigits, List.mem_append, List.mem_singleton] at hc
    rcases hc with hc | rfl
    · exact ih _ c hc
    · have : x % 16 < 16 := Nat.mod_lt _ (by decide)
      simp only [isHexDigit, isDigit, Bool.or_eq_true, Bool.and_eq_true, decide_eq_true_eq]
      split_ifs <;> omega

theorem length_hexDigits (n x : Nat) : (hexDigits n x).length = n := by
  induction n generalizing x with
  | zero => rfl
  | succ n ih => rw [hexDigits, List.length_append, ih, List.length_singleton]

end Sha256

def reference : Platform where
  Float := LiteralFloat
  floatText x := x.1
  floatOf := LiteralFloat.ofText
  floatText_wf x l h := x.2 l h
  floatOf_floatText x := by rw [LiteralFloat.ofText, dif_pos x.2]
  floatTruthy x := x.1 ≠ .lit ⟨false, [48], [48], none⟩
  numLt
    | .inl i, .inl j => i < j
    | _, _ => false
  repr _ := []
  lower := asciiLower
  sha256 := sha256Hex
  isHexDigit_sha256 b c hc := by
    unfold sha256Hex at hc
    obtain ⟨x, -, hx⟩ := List.mem_flatMap.mp hc
    exact Sha256.isHexDigit_hexDigits 8 x c hx
  length_sha256 b := by
    unfold sha256Hex
    simp [Sha256.length_hexDigits]
  jsonErrorText _ := []
  jsonBytes b := decode b
  jsonBytes_encode _ _ h _ _ := decode_encode h
  buffered _ := 0

def half : reference.Float := ⟨.lit ⟨false, [48], [53], none⟩, by decide⟩

/-- A literal without an exponent: its digits as an integer, and how many of them follow the
point. -/
def scaled : FloatText → Option (Int × Nat)
  | .lit ⟨negative, int, frac, none⟩ =>
    let digits : Nat := (int ++ frac).foldl (fun n c => 10 * n + (c - 48)) 0
    some (if negative then -(digits : Int) else digits, frac.length)
  | _ => none

/-- `<` on integers and such literals; nothing else compares. -/
def literalLt (x y : Int ⊕ LiteralFloat) : Bool :=
  let digitsOf : Int ⊕ LiteralFloat → Option (Int × Nat) := Sum.elim (fun i => some (i, 0))
    fun t => scaled t.1
  match digitsOf x, digitsOf y with
  | some (i, k), some (j, l) => i * 10 ^ l < j * 10 ^ k
  | _, _ => false

/-- The reference runtime with numbers that compare. -/
def comparingReference : Platform :=
  { reference with numLt := literalLt }

end Py
