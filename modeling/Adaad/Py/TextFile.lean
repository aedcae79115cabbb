import Adaad.Py.Value

/-!
# Text files

What `open(path, encoding="utf-8")` makes of the bytes of a file: the text it reads, and the lines
it iterates over.  `\r\n` and `\r` are read as `\n`.

A file that does not decode still yields some of its lines before the `UnicodeDecodeError`.
-/

namespace Py

/-- `\r\n` and `\r` as `\n`. -/
def universalNewlines : Str → Str
  | [] => []
  | c :: cs =>
    if c = cr then
      if cs.head? = some lf then universalNewlines cs else lf :: universalNewlines cs
    else c :: universalNewlines cs

/-- `handle.read()` -/
def readText (b : Bytes) : Except Exc Str :=
  match decode b with
  | some s => .ok (universalNewlines s)
  | none => .error .unicodeDecodeError

/-- `for line in handle`: the lines, without their ends, and whether the iteration runs to the end
of the file rather than into a `UnicodeDecodeError`. -/
def readLines (P : Platform) (b : Bytes) : List Str × Bool :=
  match decode b with
  | some s => (splitLines newline s, true)
  | none => ((cut newline (decodePrefix b).1).1.take (P.buffered b), false)

/-- `path.write_text(text, encoding="utf-8")` -/
def writeText (s : Str) : Except Exc Bytes :=
  match encode s with
  | some b => .ok b
  | none => .error .unicodeEncodeError

theorem universalNewlines_eq_self {s : Str} (h : ∀ c ∈ s, c ≠ cr) : universalNewlines s = s := by
  induction s with
  | nil => rfl
  | cons c s ih =>
    rw [universalNewlines, if_neg (h c (by simp)), ih fun x hx => h x (by simp [hx])]

theorem universalNewlines_append {s t : Str} (ht : t.head? ≠ some lf) :
    universalNewlines (s ++ t) = universalNewlines s ++ universalNewlines t := by
  induction s with
  | nil => rfl
  | cons c s ih =>
    rw [List.cons_append, universalNewlines, universalNewlines, ih]
    have hhead : (s ++ t).head? = some lf ↔ s.head? = some lf := by
      cases s with
      | nil => exact iff_of_false ht (by simp)
      | cons d s => exact Iff.rfl
    by_cases hlf : s.head? = some lf
    · rw [if_pos hlf, if_pos (hhead.mpr hlf)]
      split_ifs <;> rfl
    · rw [if_neg hlf, if_neg (hhead.not.mpr hlf)]
      split_ifs <;> rfl

theorem readText_of_encode {s : Str} {b : Bytes} (h : encode s = some b) (hs : ∀ c ∈ s, c ≠ cr) :
    readText b = .ok s := by
  rw [readText, decode_encode h]
  show Except.ok (universalNewlines s) = _
  rw [universalNewlines_eq_self hs]

theorem readLines_of_decode (P : Platform) {b : Bytes} {s : Str} (h : decode b = some s) :
    readLines P b = (splitLines newline s, true) := by
  rw [readLines, h]

theorem readLines_of_decode_eq_none (P : Platform) {b : Bytes} (h : decode b = none) :
    (readLines P b).2 = false := by
  rw [readLines, h]

theorem writeText_of_encode {s : Str} {b : Bytes} (h : encode s = some b) :
    writeText s = .ok b := by
  rw [writeText, h]

theorem decode_of_writeText {s : Str} {b : Bytes} (h : writeText s = .ok b) :
    decode b = some s := by
  unfold writeText at h
  split at h
  · next hb =>
    obtain rfl := Except.ok.inj h
    exact decode_encode hb
  · exact nomatch h

/-! ### Computations that may fail -/

theorem bind_eq_ok {ε α β : Type} {x : Except ε α} {f : α → Except ε β} {b : β} :
    (x >>= f) = .ok b ↔ ∃ a, x = .ok a ∧ f a = .ok b := by
  cases x with
  | error e => exact ⟨nofun, fun ⟨_, h, _⟩ => nomatch h⟩
  | ok a => exact ⟨fun h => ⟨a, rfl, h⟩, fun ⟨_, h, h'⟩ => by cases h; exact h'⟩

theorem map_eq_ok {ε α β : Type} {x : Except ε α} {f : α → β} {b : β} :
    x.map f = .ok b ↔ ∃ a, x = .ok a ∧ f a = b := by
  cases x with
  | error e => exact ⟨nofun, fun ⟨_, h, _⟩ => nomatch h⟩
  | ok a => exact ⟨fun h => ⟨a, rfl, Except.ok.inj h⟩, fun ⟨_, h, h'⟩ => by cases h; rw [← h']; rfl⟩

theorem mapError_eq_ok {ε ε' α : Type} {x : Except ε α} {f : ε → ε'} {a : α} :
    x.mapError f = .ok a ↔ x = .ok a := by
  cases x with
  | error e => exact ⟨nofun, nofun⟩
  | ok b => exact ⟨fun h => by cases h; rfl, fun h => by cases h; rfl⟩

theorem exists_of_isOk {ε α : Type} {x : Except ε α} (h : x.isOk = true) : ∃ a, x = .ok a := by
  cases x with
  | error e => exact Bool.noConfusion h
  | ok a => exact ⟨a, rfl⟩

end Py

/-!
## Loops that may raise

A loop over a list, whose body returns or raises: when it runs to its end, and with what.
-/

namespace Py

variable {ε α β : Type}

theorem mapM_eq_ok {f : α → Except ε β} {xs : List α} {ys : List β} :
    xs.mapM f = .ok ys ↔ List.Forall₂ (fun x y => f x = .ok y) xs ys := by
  induction xs generalizing ys with
  | nil =>
    rw [List.mapM_nil, List.forall₂_nil_left_iff]
    exact Except.ok.injEq .. |>.to_iff.trans eq_comm
  | cons x xs ih =>
    rw [List.mapM_cons, List.forall₂_cons_left_iff, bind_eq_ok]
    constructor
    · rintro ⟨y, hy, h⟩
      obtain ⟨zs, hzs, h⟩ := bind_eq_ok.mp h
      exact ⟨y, zs, hy, ih.mp hzs, (Except.ok.inj h).symm⟩
    · rintro ⟨y, zs, hy, hzs, rfl⟩
      exact ⟨y, hy, bind_eq_ok.mpr ⟨zs, ih.mpr hzs, rfl⟩⟩

private theorem mem_of_filterAuxM_eq_ok {f : α → Except ε Bool} {xs acc ys : List α}
    (h : xs.filterAuxM f acc = .ok ys) (y : α) : y ∈ ys ↔ (y ∈ xs ∧ f y = .ok true) ∨ y ∈ acc := by
  induction xs generalizing acc with
  | nil =>
    obtain rfl : acc = ys := Except.ok.inj h
    simp
  | cons x xs ih =>
    rw [List.filterAuxM] at h
    obtain ⟨b, hb, h⟩ := bind_eq_ok.mp h
    rw [ih h, List.mem_cons]
    cases b with
    | false =>
      constructor
      · rintro (⟨hy, htrue⟩ | hacc)
        · exact .inl ⟨.inr hy, htrue⟩
        · exact .inr hacc
      · rintro (⟨rfl | hy, htrue⟩ | hacc)
        · rw [hb] at htrue
          cases htrue
        · exact .inl ⟨hy, htrue⟩
        · exact .inr hacc
    | true =>
      rw [cond_true, List.mem_cons]
      constructor
      · rintro (⟨hy, htrue⟩ | rfl | hacc)
        · exact .inl ⟨.inr hy, htrue⟩
        · exact .inl ⟨.inl rfl, hb⟩
        · exact .inr hacc
      · rintro (⟨rfl | hy, htrue⟩ | hacc)
        · exact .inr (.inl rfl)
        · exact .inl ⟨hy, htrue⟩
        · exact .inr (.inr hacc)

theorem mem_of_filterM_eq_ok {f : α → Except ε Bool} {xs ys : List α} (h : xs.filterM f = .ok ys)
    (y : α) : y ∈ ys ↔ y ∈ xs ∧ f y = .ok true := by
  rw [List.filterM] at h
  obtain ⟨zs, hzs, h⟩ := bind_eq_ok.mp h
  obtain rfl : zs.reverse = ys := Except.ok.inj h
  rw [List.mem_reverse, mem_of_filterAuxM_eq_ok hzs]
  simp

theorem foldlM_isOk_iff {f : β → α → Except ε β} {Q : α → Prop}
    (h : ∀ b x, (∃ b', f b x = .ok b') ↔ Q x) {xs : List α} (b : β) :
    (∃ b', xs.foldlM f b = .ok b') ↔ ∀ x ∈ xs, Q x := by
  induction xs generalizing b with
  | nil => exact iff_of_true ⟨b, rfl⟩ (List.forall_mem_nil _)
  | cons x xs ih =>
    rw [List.forall_mem_cons, List.foldlM_cons]
    cases hx : f b x with
    | error e =>
      refine iff_of_false ?_ fun hQ => ?_
      · rintro ⟨b', hb'⟩
        cases hb'
      · obtain ⟨b', hb'⟩ := (h b x).mpr hQ.1
        rw [hx] at hb'
        cases hb'
    | ok b₁ => exact (ih b₁).trans (and_iff_right ((h b x).mp ⟨b₁, hx⟩)).symm

end Py
