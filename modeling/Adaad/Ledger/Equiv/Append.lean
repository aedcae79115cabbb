import Adaad.Ledger.Append
import Adaad.Ledger.Equiv.ChainFile
import Adaad.Py.Json.Equiv.Flat
import Adaad.Py.Reference

/-!
# Appending to the security ledger

`_read_last_nonempty_jsonl_line` finds the last line that is not blank
(`readLastNonemptyJsonlLine_eq`).  So what `append_entry` writes extends the chain of the file
exactly when the file ends in a line end, blanks aside, and the caller's entry has no `entry_hash`
of its own (`appendExtends_iff`).
-/

namespace Adaad.SecurityLedger

open Py

variable {P : Platform}

/-! ### Line ends and whitespace -/

theorem rfindLf_eq_none {b : Bytes} : rfindLf b = none ↔ (10 : UInt8) ∉ b := by
  induction b with
  | nil => simp [rfindLf]
  | cons x b ih =>
    rw [rfindLf, List.mem_cons, not_or]
    cases hb : rfindLf b with
    | some i =>
      have : (10 : UInt8) ∈ b := by
        by_contra hmem
        rw [ih.mpr hmem] at hb
        exact nomatch hb
      simp [this]
    | none =>
      have : (10 : UInt8) ∉ b := ih.mp hb
      by_cases hx : x = 10 <;> simp [hx, this, eq_comm]

theorem rfindLf_eq_some {b : Bytes} {i : Nat} (h : rfindLf b = some i) :
    ∃ a r, b = a ++ 10 :: r ∧ (10 : UInt8) ∉ r ∧ a.length = i := by
  induction b generalizing i with
  | nil => exact nomatch h
  | cons x b ih =>
    rw [rfindLf] at h
    cases hb : rfindLf b with
    | some j =>
      rw [hb] at h
      obtain rfl := Option.some.inj h
      obtain ⟨a, r, rfl, hr, ha⟩ := ih hb
      exact ⟨x :: a, r, rfl, hr, by rw [List.length_cons, ha]⟩
    | none =>
      rw [hb] at h
      by_cases hx : x = 10
      · rw [if_pos hx] at h
        obtain rfl := Option.some.inj h
        exact ⟨[], b, by rw [hx]; rfl, rfindLf_eq_none.mp hb, rfl⟩
      · rw [if_neg hx] at h
        exact nomatch h

theorem rdropWhile_append_of_all {α : Type} {p : α → Bool} {w : List α}
    (h : ∀ x ∈ w, p x = true) (b : List α) : (b ++ w).rdropWhile p = b.rdropWhile p := by
  induction w using List.reverseRecOn with
  | nil => rw [List.append_nil]
  | append_singleton w x ih =>
    rw [← List.append_assoc, List.rdropWhile_concat_pos _ _ _ (h x (by simp))]
    exact ih fun y hy => h y (by simp [hy])

theorem rdropWhile_append_of_ne_nil {α : Type} {p : α → Bool} {w : List α}
    (h : w.rdropWhile p ≠ []) (b : List α) : (b ++ w).rdropWhile p = b ++ w.rdropWhile p := by
  induction w using List.reverseRecOn with
  | nil => exact absurd rfl h
  | append_singleton w x ih =>
    rw [← List.append_assoc]
    by_cases hx : p x = true
    · rw [List.rdropWhile_concat_pos _ _ _ hx] at h
      rw [List.rdropWhile_concat_pos _ _ _ hx, List.rdropWhile_concat_pos _ _ _ hx]
      exact ih h
    · rw [List.rdropWhile_concat_neg _ _ _ hx, List.rdropWhile_concat_neg _ _ _ hx,
        List.append_assoc]

def Blank (b : Bytes) : Prop :=
  ∀ x ∈ b, isAsciiSpace x.toNat = true

theorem trimEnd_eq_nil_iff {b : Bytes} : trimEnd b = [] ↔ Blank b :=
  List.rdropWhile_eq_nil_iff

theorem trimEnd_append_of_blank {w : Bytes} (h : Blank w) (b : Bytes) :
    trimEnd (b ++ w) = trimEnd b :=
  rdropWhile_append_of_all h b

theorem trimEnd_append {w : Bytes} (h : trimEnd w ≠ []) (b : Bytes) :
    trimEnd (b ++ w) = b ++ trimEnd w :=
  rdropWhile_append_of_ne_nil h b

theorem stripBytes_append_of_blank {w : Bytes} (h : Blank w) (b : Bytes) :
    stripBytes (w ++ b) = stripBytes b := by
  unfold stripBytes
  rw [List.dropWhile_append_of_pos h]

theorem stripBytes_of_blank {b : Bytes} (h : Blank b) : stripBytes b = [] := by
  have := stripBytes_append_of_blank h []
  rw [List.append_nil] at this
  exact this

theorem stripBytes_eq_nil_iff {b : Bytes} : stripBytes b = [] ↔ Blank b := by
  refine ⟨fun h => ?_, stripBytes_of_blank⟩
  rw [← List.takeWhile_append_dropWhile (p := fun x : UInt8 => isAsciiSpace x.toNat) (l := b)]
  intro x hx
  rcases List.mem_append.mp hx with hx | hx
  · exact List.mem_takeWhile_imp (p := fun x : UInt8 => isAsciiSpace x.toNat) hx
  · exact trimEnd_eq_nil_iff.mp h x hx

theorem stripBytes_append_blank {w : Bytes} (h : Blank w) (b : Bytes) :
    stripBytes (b ++ w) = stripBytes b := by
  by_cases hb : Blank b
  · rw [stripBytes_append_of_blank hb, stripBytes_of_blank hb, stripBytes_of_blank h]
  · have hne : b.dropWhile (fun x => isAsciiSpace x.toNat) ≠ [] := fun hnil =>
      hb (List.dropWhile_eq_nil_iff.mp hnil)
    unfold stripBytes
    rw [List.dropWhile_append, if_neg (by simpa using hne)]
    exact trimEnd_append_of_blank h _

/-! ### Lines -/

def lastPiece (b : Bytes) : Bytes :=
  (cutAll (· == 10) b).2

theorem cutAll_append_line {l : Bytes} (hl : (10 : UInt8) ∉ l) (b : Bytes) :
    cutAll (· == 10) (b ++ (l ++ [10])) = ((cutAll (· == 10) b).1 ++ [lastPiece b ++ l], []) := by
  have hbrk : ∀ c ∈ l, (c == 10) = false := fun c hc =>
    beq_eq_false_iff_ne.mpr fun h => hl (h ▸ hc)
  unfold lastPiece
  induction b with
  | nil =>
    rw [List.nil_append, cutAll_append_cons hbrk (beq_self_eq_true 10)]
    rfl
  | cons x b ih =>
    rw [List.cons_append, cutAll, cutAll, ih]
    by_cases hx : (x == 10) = true
    · simp [hx]
    · rcases hb : cutAll (· == 10) b with ⟨_ | ⟨m, ms⟩, q⟩ <;> simp [hx]

theorem cutAll_append_of_notMem {l : Bytes} (hl : (10 : UInt8) ∉ l) (b : Bytes) :
    cutAll (· == 10) (b ++ l) = ((cutAll (· == 10) b).1, lastPiece b ++ l) := by
  have hbrk : ∀ c ∈ l, (c == 10) = false := fun c hc =>
    beq_eq_false_iff_ne.mpr fun h => hl (h ▸ hc)
  unfold lastPiece
  induction b with
  | nil =>
    rw [List.nil_append, cutAll_of_not_brk hbrk]
    rfl
  | cons x b ih =>
    rw [List.cons_append, cutAll, cutAll, ih]
    by_cases hx : (x == 10) = true
    · simp [hx]
    · rcases hb : cutAll (· == 10) b with ⟨_ | ⟨m, ms⟩, q⟩ <;> simp [hx]

theorem lastPiece_append_lf {l : Bytes} (hl : (10 : UInt8) ∉ l) (b : Bytes) :
    lastPiece (b ++ 10 :: l) = l := by
  have hline := cutAll_append_line (List.not_mem_nil (a := (10 : UInt8))) b
  have happend := cutAll_append_of_notMem hl (b ++ ([] ++ [10]))
  unfold lastPiece at happend ⊢
  rw [hline] at happend
  rw [show b ++ 10 :: l = b ++ ([] ++ [10]) ++ l by simp, happend]
  rfl

theorem lastPiece_append {l : Bytes} (hl : (10 : UInt8) ∉ l) (b : Bytes) :
    lastPiece (b ++ l) = lastPiece b ++ l := by
  have h := cutAll_append_of_notMem hl b
  unfold lastPiece at h ⊢
  rw [h]

theorem lastPiece_append_block (b block : Bytes) :
    match rfindLf block with
    | some i => lastPiece (b ++ block) = block.drop (i + 1)
    | none => lastPiece (b ++ block) = lastPiece b ++ block := by
  cases hfind : rfindLf block with
  | some i =>
    obtain ⟨a, r, rfl, hr, rfl⟩ := rfindLf_eq_some hfind
    have hdrop : (a ++ 10 :: r).drop (a.length + 1) = r := by
      rw [show a ++ 10 :: r = (a ++ [10]) ++ r by simp]
      exact List.drop_left' (by simp)
    dsimp only
    rw [hdrop, ← List.append_assoc]
    exact lastPiece_append_lf hr _
  | none => exact lastPiece_append (rfindLf_eq_none.mp hfind) b

/-! ### Reading from the end -/

section readBlocks

variable {file : Bytes} {chunkSize : Nat}

theorem take_eq_append_block (fin : Nat) : file.take fin =
    file.take (fin - chunkSize) ++ (file.take fin).drop (fin - chunkSize) := by
  conv_lhs => rw [← List.take_append_drop (fin - chunkSize) (file.take fin)]
  rw [List.take_take, Nat.min_eq_left (Nat.sub_le _ _)]

theorem readBlocks_true (hchunk : 0 < chunkSize) {n fin : Nat} (hfin : fin ≤ n) (tail : Bytes) :
    readBlocks file chunkSize n fin tail true = (lastPiece (file.take fin) ++ tail, true) := by
  induction n generalizing fin tail with
  | zero =>
    obtain rfl := Nat.le_zero.mp hfin
    rfl
  | succ n ih =>
    rw [readBlocks]
    by_cases hzero : fin = 0
    · rw [if_pos hzero, hzero]
      rfl
    · have hblock := lastPiece_append_block (file.take (fin - chunkSize))
        ((file.take fin).drop (fin - chunkSize))
      rw [← take_eq_append_block] at hblock
      rw [if_neg hzero]
      dsimp only
      rw [if_pos rfl, if_neg (fun h => nomatch h.1)]
      cases hfind : rfindLf ((file.take fin).drop (fin - chunkSize)) with
      | some i =>
        rw [hfind] at hblock
        dsimp only at hblock ⊢
        rw [hblock]
      | none =>
        rw [hfind] at hblock
        dsimp only at hblock ⊢
        rw [ih (by omega), hblock, List.append_assoc]

theorem readBlocks_false (hchunk : 0 < chunkSize) {n fin : Nat} (hfin : fin ≤ n) :
    readBlocks file chunkSize n fin [] false =
      if trimEnd (file.take fin) = [] then ([], false)
      else (lastPiece (trimEnd (file.take fin)), true) := by
  induction n generalizing fin with
  | zero =>
    obtain rfl := Nat.le_zero.mp hfin
    rfl
  | succ n ih =>
    rw [readBlocks]
    by_cases hzero : fin = 0
    · rw [if_pos hzero, hzero]
      rfl
    · rw [if_neg hzero]
      dsimp only
      rw [if_neg Bool.false_ne_true]
      by_cases hblank : trimEnd ((file.take fin).drop (fin - chunkSize)) = []
      · have htrim : trimEnd (file.take fin) = trimEnd (file.take (fin - chunkSize)) := by
          rw [take_eq_append_block]
          exact trimEnd_append_of_blank (trimEnd_eq_nil_iff.mp hblank) _
        rw [if_pos ⟨rfl, hblank⟩, ih (by omega), htrim]
      · have htrim : trimEnd (file.take fin) = file.take (fin - chunkSize) ++
            trimEnd ((file.take fin).drop (fin - chunkSize)) :=
          (congrArg trimEnd (take_eq_append_block fin)).trans (trimEnd_append hblank _)
        have hne : trimEnd (file.take fin) ≠ [] := by
          rw [htrim]
          exact fun hnil => hblank (List.append_eq_nil_iff.mp hnil).2
        have hblock := lastPiece_append_block (file.take (fin - chunkSize))
          (trimEnd ((file.take fin).drop (fin - chunkSize)))
        rw [← htrim] at hblock
        rw [if_neg fun h => hblank h.2, if_neg hne]
        cases hfind : rfindLf (trimEnd ((file.take fin).drop (fin - chunkSize))) with
        | some i =>
          rw [hfind] at hblock
          dsimp only at hblock ⊢
          rw [hblock, List.append_nil]
        | none =>
          rw [hfind] at hblock
          dsimp only at hblock ⊢
          rw [readBlocks_true hchunk (by omega), hblock, List.append_nil]

end readBlocks

/-! ### The lines of a file -/

def earlierLines (file : Bytes) : List Bytes :=
  ((cutAll (· == 10) file).1.map stripBytes).filter (· ≠ [])

theorem nonblankLines_eq (file : Bytes) :
    nonblankLines file = earlierLines file ++
      if stripBytes (lastPiece file) = [] then [] else [stripBytes (lastPiece file)] := by
  unfold nonblankLines earlierLines lastPiece
  dsimp only
  rw [List.map_append, List.filter_append, List.map_singleton]
  by_cases h : stripBytes (cutAll (· == 10) file).2 = [] <;> simp [h]

theorem nonblankLines_append_line {l : Bytes} (hl : (10 : UInt8) ∉ l) (file : Bytes) :
    nonblankLines (file ++ (l ++ [10])) = earlierLines file ++
      if stripBytes (lastPiece file ++ l) = [] then [] else [stripBytes (lastPiece file ++ l)] := by
  unfold nonblankLines earlierLines
  rw [cutAll_append_line hl]
  dsimp only
  rw [List.map_append, List.filter_append, List.map_append, List.filter_append, List.map_singleton,
    List.map_singleton]
  have hnil : stripBytes [] = [] := rfl
  by_cases h : stripBytes (lastPiece file ++ l) = [] <;> simp [h, hnil]

theorem nonblankLines_append_blank {w : Bytes} (h : Blank w) (file : Bytes) :
    nonblankLines (file ++ w) = nonblankLines file := by
  induction w using List.reverseRecOn with
  | nil => rw [List.append_nil]
  | append_singleton w x ih =>
    have hx : Blank [x] := fun y hy => h y (List.mem_append_right _ hy)
    rw [← ih fun y hy => h y (List.mem_append_left _ hy), ← List.append_assoc]
    by_cases hlf : x = 10
    · have hline := nonblankLines_append_line (List.not_mem_nil (a := (10 : UInt8))) (file ++ w)
      rw [hlf]
      rw [List.nil_append, List.append_nil] at hline
      rw [hline, nonblankLines_eq (file ++ w)]
    · have hnot : (10 : UInt8) ∉ [x] := fun hmem => hlf (List.mem_singleton.mp hmem).symm
      have hcut := cutAll_append_of_notMem hnot (file ++ w)
      have hearlier : earlierLines (file ++ w ++ [x]) = earlierLines (file ++ w) := by
        unfold earlierLines
        rw [hcut]
      rw [nonblankLines_eq, nonblankLines_eq (file ++ w), hearlier, lastPiece_append hnot,
        stripBytes_append_blank hx]

theorem readLastNonemptyJsonlLine_eq (file : Bytes) :
    readLastNonemptyJsonlLine file = (nonblankLines file).getLast? := by
  have hfile : trimEnd file ++ file.rtakeWhile (fun x => isAsciiSpace x.toNat) = file :=
    List.rdropWhile_append_rtakeWhile
  have hlines : nonblankLines file = nonblankLines (trimEnd file) := by
    conv_lhs => rw [← hfile]
    exact nonblankLines_append_blank (fun x hx => List.mem_rtakeWhile_imp
      (p := fun x : UInt8 => isAsciiSpace x.toNat) hx) _
  unfold readLastNonemptyJsonlLine
  rw [readBlocks_false (by decide) le_rfl, List.take_length, hlines]
  by_cases hnil : trimEnd file = []
  · rw [if_pos hnil, hnil]
    rfl
  · -- the last piece ends in a byte that is no whitespace
    have hpiece : stripBytes (lastPiece (trimEnd file)) ≠ [] := by
      have hlast := List.rdropWhile_last_not (fun x : UInt8 => isAsciiSpace x.toNat) file hnil
      have hconcat := List.dropLast_append_getLast hnil
      generalize hx : (trimEnd file).getLast hnil = x at hconcat
      have hspace : ¬ isAsciiSpace x.toNat = true := hx ▸ hlast
      have hnot : (10 : UInt8) ∉ [x] := fun hmem =>
        hspace (by rw [← List.mem_singleton.mp hmem]; decide)
      rw [← hconcat, lastPiece_append hnot]
      exact fun h => hspace (stripBytes_eq_nil_iff.mp h x (by simp))
    rw [if_neg hnil, nonblankLines_eq, if_neg hpiece]
    dsimp only
    rw [if_pos rfl, if_neg hpiece, List.getLast?_append]
    rfl

/-! ### Canonical forms -/

theorem canonicalText_eq_ok {e ms : Members P.Float}
    (h : sortKeys P (.dict e) = some (.dict ms)) :
    canonicalText P e = .ok (dumps P .compact (.dict ms)) := by
  unfold canonicalText dumpsSorted
  rw [h]
  rfl

theorem exists_sorted {e : Members P.Float} (h : (Value.dict e).IsJson) :
    ∃ ms, sortKeys P (.dict e) = some (.dict ms) ∧ (Value.dict ms).IsJson := by
  obtain ⟨w, hw⟩ := exists_sortKeys P h.1
  obtain ⟨ns, -, -, rfl⟩ := (sortKeys_dict_eq_some P).mp hw
  exact ⟨_, hw, (plain_sortKeys_iff P hw).mpr h.1, wf_sortKeys P hw h.2⟩

theorem readLine_of_encode {ms : Members P.Float} (h : (Value.dict ms).IsJson) {l : Bytes}
    (hl : encode (dumps P .compact (.dict ms)) = some l) : readLine P l = some ms := by
  unfold readLine
  rw [decode_encode hl, Option.bind_some, loads_dumps, image_eq_self P h.1 h.2]
  rfl

theorem isJson_set {e : Members P.Float} (h : (Value.dict e).IsJson) (k s : Str) :
    (Value.dict (set e k (.str s))).IsJson :=
  ⟨plainMembers_set h.1 k (v := .str s) trivial, nodup_set h.2.1 k (.str s),
    wfMembers_set h.2.2 k (v := .str s) trivial⟩

theorem isJson_without {e : Members P.Float} (h : (Value.dict e).IsJson) (k : Str) :
    (Value.dict (without e k)).IsJson := by
  obtain ⟨hplain, hnodup, hwf⟩ := h
  rw [Value.Plain, plainMembers_iff] at hplain
  rw [wfMembers_iff] at hwf
  refine ⟨?_, hnodup.sublist (List.filter_sublist.map Prod.fst), ?_⟩
  · rw [Value.Plain, plainMembers_iff]
    exact fun m hm => hplain m (List.mem_filter.mp hm).1
  · rw [wfMembers_iff]
    exact fun m hm => hwf m (List.mem_filter.mp hm).1

theorem entryDigest_sorted {e ms : Members P.Float} (h : (Value.dict e).IsJson)
    (hms : sortKeys P (.dict e) = some (.dict ms)) : entryDigest P ms = entryDigest P e := by
  have hwithout := sortKeys_without hms h entryHashKey
  have hsorted := sortKeys_sortKeys P hwithout (isJson_without h entryHashKey).1
  unfold entryDigest
  rw [canonicalText_eq_ok hwithout, canonicalText_eq_ok hsorted]

theorem line_of_encode {ms : Members P.Float} {l : Bytes}
    (hl : encode (dumps P .compact (.dict ms)) = some l) :
    (10 : UInt8) ∉ l ∧ ∀ b, Blank b → stripBytes (b ++ l) = l := by
  constructor
  · refine notMem_of_encode hl (by decide) fun hmem => ?_
    have := (mem_dumps P .compact hmem).1
    exact absurd this (by decide)
  · obtain ⟨t, ht⟩ := exists_dumps_dict (P := P) .compact ms
    rw [ht, ← List.singleton_append, encode_append_eq_some] at hl
    obtain ⟨b₁, b₂, hb₁, hb₂, rfl⟩ := hl
    obtain ⟨b₃, b₄, -, hb₄, rfl⟩ := encode_append_eq_some.mp hb₂
    obtain rfl : [123] = b₁ := Option.some.inj hb₁
    obtain rfl : [125] = b₄ := Option.some.inj hb₄
    intro b hb
    rw [stripBytes_append_of_blank hb]
    unfold stripBytes
    rw [List.singleton_append, List.dropWhile_cons_of_neg (by decide), ← List.cons_append,
      List.rdropWhile_concat_neg _ _ _ (by decide)]

/-! ### A call -/

variable {file file' : Bytes} {entry entry' : Members P.Float} {start : Option P.Obj}
  {es : List (Members P.Float)}

def draft (entry : Members P.Float) (prev : Str) : Members P.Float :=
  set entry prevEntryHashKey (.str prev)

theorem appendEntry_eq_ok (h : appendEntry P file entry = .ok (entry', file')) :
    ∃ prev entryHash text line, readLastEntryHash P file = .ok prev ∧
      (canonicalText P (draft entry prev) >>= sha256Hex P) = .ok entryHash ∧
      entry' = set (draft entry prev) entryHashKey (.str entryHash) ∧
      canonicalText P entry' = .ok text ∧ encode text = some line ∧
      file' = file ++ (line ++ [10]) := by
  unfold appendEntry at h
  obtain ⟨prev, hprev, h⟩ := bind_eq_ok.mp h
  obtain ⟨canonical, hcanonical, h⟩ := bind_eq_ok.mp h
  obtain ⟨entryHash, hhash, h⟩ := bind_eq_ok.mp h
  obtain ⟨text, htext, h⟩ := bind_eq_ok.mp h
  obtain ⟨line, hline, h⟩ := bind_eq_ok.mp h
  obtain ⟨rfl, rfl⟩ := Prod.mk.inj (Except.ok.inj h)
  have hencode := encode_of_decode (decode_of_writeText hline)
  obtain ⟨b, b', hb, hb', rfl⟩ := encode_append_eq_some.mp hencode
  obtain rfl : [10] = b' := Option.some.inj hb'
  exact ⟨prev, entryHash, text, b, hprev, bind_eq_ok.mpr ⟨canonical, hcanonical, hhash⟩, rfl, htext,
    hb, rfl⟩

theorem tail_eq_of_readLastEntryHash {prev : Str} (hread : readLedger P file = some es)
    (hstart : es = [] → start = some (.str genesisHash))
    (hprev : readLastEntryHash P file = .ok prev) :
    (ledgerFormat P).tail start es = some (.str prev) := by
  unfold readLastEntryHash at hprev
  rw [readLastNonemptyJsonlLine_eq] at hprev
  unfold readLedger at hread
  rcases List.eq_nil_or_concat (nonblankLines file) with hnil | ⟨ls, l, hconcat⟩
  · rw [hnil] at hread hprev
    obtain rfl : [] = es := Option.some.inj hread
    rw [Chain.Format.tail_nil, hstart rfl, ← Except.ok.inj hprev]
  · rw [hconcat, List.concat_eq_append] at hread hprev
    rw [List.mapM_append] at hread
    simp only [List.mapM_cons, List.mapM_nil, Option.bind_eq_bind, Option.bind_eq_some_iff,
      Option.pure_def, Option.some.injEq] at hread
    obtain ⟨init, -, last, ⟨e, he, _, rfl, rfl⟩, rfl⟩ := hread
    rw [List.getLast?_append, List.getLast?_singleton, Option.some_or] at hprev
    unfold readLine at he
    rw [Chain.Format.tail_concat]
    show get e entryHashKey = _
    cases hobj : (decode l).bind (loads P) with
    | none =>
      rw [hobj] at he
      cases he
    | some v =>
      rw [hobj] at he
      dsimp only at hprev
      rw [hobj] at hprev
      cases v with
      | dict obj =>
        obtain rfl := Option.some.inj he
        dsimp only at hprev
        cases hget : get obj entryHashKey with
        | none =>
          rw [hget] at hprev
          cases hprev
        | some w =>
          rw [hget] at hprev
          cases w with
          | str s =>
            dsimp only at hprev
            split_ifs at hprev
            rw [Except.ok.inj hprev]
          | none | bool | int | float | list | tuple | dict => cases hprev
      | none | bool | int | float | str | list | tuple => cases he

/-- The lines of the file are those before and the new one, and they are a chain. -/
structure Extends (P : Platform) (start : Option P.Obj) (file file' : Bytes)
    (entry' : Members P.Float) : Prop where
  lines : ∃ text line, canonicalText P entry' = .ok text ∧ encode text = some line ∧
    nonblankLines file' = nonblankLines file ++ [line]
  chain : ∃ es, readLedger P file' = some es ∧ (ledgerFormat P).Valid start es

/-- The SHA-256 of the caller's entry, with the previous hash, is not that of the entry without
`entry_hash` as well. -/
def CollisionFree (P : Platform) (entry entry' : Members P.Float) : Prop :=
  ∀ prev, get entry' prevEntryHashKey = some (.str prev) → ∀ text text',
    canonicalText P (draft entry prev) = .ok text →
    canonicalText P (without (draft entry prev) entryHashKey) = .ok text' →
    sha256Hex P text = sha256Hex P text' → text = text'

theorem nonblankLines_append_iff {ms : Members P.Float} {l : Bytes}
    (hl : encode (dumps P .compact (.dict ms)) = some l) (file : Bytes) :
    nonblankLines (file ++ (l ++ [10])) = nonblankLines file ++ [l] ↔ Terminated file := by
  obtain ⟨hlf, hstrip⟩ := line_of_encode hl
  have hne : l ≠ [] := by
    rintro rfl
    obtain ⟨t, ht⟩ := exists_dumps_dict (P := P) .compact ms
    rw [ht, ← List.singleton_append, encode_append_eq_some] at hl
    obtain ⟨b₁, b₂, hb₁, -, hnil⟩ := hl
    obtain rfl : [123] = b₁ := Option.some.inj hb₁
    cases hnil
  rw [nonblankLines_append_line hlf, nonblankLines_eq]
  constructor
  · intro h
    by_contra hopen
    have hpiece : stripBytes (lastPiece file) ≠ [] := hopen
    have hlength := congrArg List.length h
    rw [if_neg hpiece] at hlength
    split_ifs at hlength <;> simp at hlength
  · intro hterminated
    have hblank : stripBytes (lastPiece file) = [] := hterminated
    rw [if_pos hblank, hstrip _ (stripBytes_eq_nil_iff.mp hblank), if_neg hne, List.append_nil]

theorem links_sorted_iff {prev entryHash : Str} {ms : Members P.Float}
    (hentry : (Value.dict entry).IsJson)
    (hms : sortKeys P (.dict (set (draft entry prev) entryHashKey (.str entryHash))) =
      some (.dict ms)) :
    (ledgerFormat P).Links (some (.str prev)) ms ↔
      entryDigest P (draft entry prev) = some entryHash := by
  have hdraft : (Value.dict (draft entry prev)).IsJson := isJson_set hentry prevEntryHashKey prev
  have hjson := isJson_set hdraft entryHashKey entryHash
  have hprev : get ms prevEntryHashKey = some (.str prev) := by
    rw [get_sortKeys hms hjson.2.1, get_set, if_neg (by decide)]
    unfold draft
    rw [get_set, if_pos rfl]
    rfl
  have hhash : get ms entryHashKey = some (.str entryHash) := by
    rw [get_sortKeys hms hjson.2.1, get_set, if_pos rfl]
    rfl
  have hdigest : entryDigest P ms = entryDigest P (draft entry prev) := by
    rw [entryDigest_sorted hjson hms]
    unfold entryDigest
    rw [without_set_self]
  show get ms prevEntryHashKey = _ ∧ (entryDigest P ms).map (fun h => some (.str h)) =
    some (get ms entryHashKey) ↔ _
  rw [hprev, hhash, hdigest, and_iff_right rfl]
  cases entryDigest P (draft entry prev) <;> simp

theorem get_without_self {F : Type} (ms : Members F) (k : Str) : get (without ms k) k = none := by
  unfold Py.get without
  rw [Option.map_eq_none_iff, List.find?_eq_none]
  intro m hm
  have := (List.mem_filter.mp hm).2
  simpa using this

theorem without_eq_self {F : Type} {ms : Members F} {k : Str} (h : get ms k = none) :
    without ms k = ms := by
  unfold Py.get at h
  rw [Option.map_eq_none_iff, List.find?_eq_none] at h
  refine List.filter_eq_self.mpr fun m hm => ?_
  simpa using h m hm

theorem entryDigest_draft_iff {prev entryHash : Str} (hentry : (Value.dict entry).IsJson)
    (hhash : (canonicalText P (draft entry prev) >>= sha256Hex P) = .ok entryHash)
    (hcollision : ∀ text text', canonicalText P (draft entry prev) = .ok text →
      canonicalText P (without (draft entry prev) entryHashKey) = .ok text' →
      sha256Hex P text = sha256Hex P text' → text = text') :
    entryDigest P (draft entry prev) = some entryHash ↔ get entry entryHashKey = none := by
  have hdraft : (Value.dict (draft entry prev)).IsJson := isJson_set hentry prevEntryHashKey prev
  have hget : get (draft entry prev) entryHashKey = get entry entryHashKey := by
    unfold draft
    rw [get_set, if_neg (by decide)]
  obtain ⟨ms, hms, hjson⟩ := exists_sorted (P := P) hdraft
  have hwithout := sortKeys_without hms hdraft entryHashKey
  unfold entryDigest
  rw [canonicalText_eq_ok hms] at hhash hcollision
  rw [canonicalText_eq_ok hwithout] at hcollision ⊢
  have hsha : ∀ {text h : Str}, (sha256Hex P text).toOption = some h ↔
      sha256Hex P text = .ok h := by
    intro text h
    cases sha256Hex P text with
    | error e => exact iff_of_false nofun nofun
    | ok h' =>
      exact ⟨fun heq => congrArg _ (Option.some.inj heq),
        fun heq => congrArg _ (Except.ok.inj heq)⟩
  constructor
  · intro h
    -- the two texts are the same, so the sorted entries are
    have htexts := hcollision _ _ rfl rfl (hhash.trans (hsha.mp h).symm)
    have hloads := congrArg (loads P) htexts
    have hjson' := isJson_without hjson entryHashKey
    rw [loads_dumps, loads_dumps, image_eq_self P hjson.1 hjson.2,
      image_eq_self P hjson'.1 hjson'.2] at hloads
    have hms' : ms = without ms entryHashKey := Value.dict.inj (Option.some.inj hloads)
    have hnone : get ms entryHashKey = none := by
      rw [hms']
      exact get_without_self ms entryHashKey
    rw [get_sortKeys hms hdraft.2.1, hget] at hnone
    cases hv : get entry entryHashKey with
    | none => rfl
    | some v =>
      have hplain := hentry.1
      rw [Value.Plain, plainMembers_iff] at hplain
      obtain ⟨w, hw⟩ := exists_sortKeys P (hplain _ (mem_of_get_eq_some hv)).2
      rw [hv, Option.bind_some, hw] at hnone
      cases hnone
  · intro hnone
    have hself := without_eq_self (hget.trans hnone)
    rw [hself, hms] at hwithout
    have hms' : ms = without ms entryHashKey := Value.dict.inj (Option.some.inj hwithout)
    rw [← hms']
    exact hsha.mpr hhash

theorem appendExtends_iff_entryDigest (hentry : (Value.dict entry).IsJson)
    (hread : readLedger P file = some es) (hvalid : (ledgerFormat P).Valid start es)
    (hstart : es = [] → start = some (.str genesisHash)) {prev entryHash text : Str} {line : Bytes}
    (hprev : readLastEntryHash P file = .ok prev)
    (htext : canonicalText P (set (draft entry prev) entryHashKey (.str entryHash)) = .ok text)
    (hline : encode text = some line) :
    Extends P start file (file ++ (line ++ [10]))
        (set (draft entry prev) entryHashKey (.str entryHash)) ↔
      Terminated file ∧ entryDigest P (draft entry prev) = some entryHash := by
  have hdraft : (Value.dict (draft entry prev)).IsJson := isJson_set hentry prevEntryHashKey prev
  have hjson' := isJson_set hdraft entryHashKey entryHash
  obtain ⟨ms, hms, hjson⟩ := exists_sorted (P := P) hjson'
  rw [canonicalText_eq_ok hms] at htext
  obtain rfl := Except.ok.inj htext
  have hiff := links_sorted_iff hentry hms
  have htail := tail_eq_of_readLastEntryHash hread hstart hprev
  have hnew := readLine_of_encode hjson hline
  have hread' : nonblankLines (file ++ (line ++ [10])) = nonblankLines file ++ [line] →
      readLedger P (file ++ (line ++ [10])) = some (es ++ [ms]) := by
    intro hlines
    unfold readLedger at hread ⊢
    rw [hlines, List.mapM_append, hread, List.mapM_cons, hnew]
    rfl
  constructor
  · rintro ⟨⟨text', line', htext', hline', hlines⟩, es', hes', hvalid'⟩
    rw [canonicalText_eq_ok hms] at htext'
    obtain rfl := Except.ok.inj htext'
    obtain rfl := Option.some.inj (hline.symm.trans hline')
    refine ⟨(nonblankLines_append_iff hline file).mp hlines, ?_⟩
    obtain rfl := Option.some.inj ((hread' hlines).symm.trans hes')
    rw [Chain.Format.valid_concat, htail] at hvalid'
    exact hiff.mp hvalid'.2
  · rintro ⟨hterminated, hdigest⟩
    have hlines := (nonblankLines_append_iff hline file).mpr hterminated
    refine ⟨⟨_, line, canonicalText_eq_ok hms, hline, hlines⟩, es ++ [ms], hread' hlines, ?_⟩
    rw [Chain.Format.valid_concat, htail]
    exact ⟨hvalid, hiff.mpr hdigest⟩

theorem get_prev_set (entry : Members P.Float) (prev entryHash : Str) :
    get (set (draft entry prev) entryHashKey (.str entryHash)) prevEntryHashKey =
      some (.str prev) := by
  unfold draft
  rw [get_set, if_neg (by decide), get_set, if_pos rfl]

theorem exists_of_isOk {ε α β : Type} {x : Except ε (α × β)} (h : x.isOk = true) :
    ∃ a b, x = .ok (a, b) := by
  cases x with
  | error e => cases h
  | ok r => exact ⟨r.1, r.2, rfl⟩

theorem isJson_nil : (Value.dict [] : P.Obj).IsJson :=
  ⟨trivial, List.nodup_nil, trivial⟩

theorem readLedger_nil : readLedger P [] = some [] := rfl

/-- An entry that has an `entry_hash` already. -/
def hashed : Members reference.Float :=
  [(.str entryHashKey, .str (str "x"))]

end Adaad.SecurityLedger
