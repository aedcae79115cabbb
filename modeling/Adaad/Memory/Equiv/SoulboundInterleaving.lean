import Adaad.Memory.Equiv.SoulboundLedger
import Adaad.Py.Reference
import Adaad.Run

/-!
# Several ledger objects on one file

Every entry that is accepted is in the file, in order, whoever appends it.  The chain is verified as
long as only ledger objects append whose last hash is that of the file (`always_soundLedgers`).
-/

namespace Adaad.Memory

open Py

variable {P : Platform} (c : LedgerConfig P)

/-! ### Appending -/

variable {c}

theorem follows_of_signedEntry {tip : Str} {a : AppendCall P} {entry : LedgerEntry}
    (h : signedEntry c tip a = .ok entry) :
    Follows c tip entry ∧ ∃ w, sortKeys P (.dict a.payload) = some w := by
  unfold signedEntry at h
  obtain ⟨contextDigest, hdigest, h⟩ := bind_eq_ok.mp h
  obtain ⟨chainHash, hchain, h⟩ := bind_eq_ok.mp h
  obtain ⟨data, hdata, h⟩ := bind_eq_ok.mp h
  obtain ⟨signature, hsign, h⟩ := bind_eq_ok.mp h
  obtain rfl := Except.ok.inj h
  refine ⟨⟨mapError_eq_ok.mp hchain, ?_⟩, ?_⟩
  · unfold sign at hsign
    cases hkey : c.key with
    | none =>
      rw [hkey] at hsign
      cases hsign
    | some key =>
      rw [hkey] at hsign
      obtain rfl := Except.ok.inj hsign
      exact ⟨key, data, hkey, mapError_eq_ok.mp hdata, rfl⟩
  · unfold computeContextDigest canonicalJson dumpsSorted at hdigest
    cases hsort : sortKeys P (.dict a.payload) with
    | none =>
      rw [hsort] at hdigest
      cases hdigest
    | some w => exact ⟨w, rfl⟩

/-- What an append leaves: an accepted entry follows the last hash of the ledger object, which is now
that of the entry; otherwise nothing changes. -/
theorem append_cases (c : LedgerConfig P) (file : Option Bytes) (tip : Str) (a : AppendCall P) :
    (∃ entry file', c.evaluate a.payload a.contextType = .ok none ∧ Follows c tip entry ∧
      append c file tip a = (.ok ⟨entry, true, none⟩, some file', entry.chainHash) ∧
        ∀ accepted, Holds (P := P) file accepted → Holds (P := P) (some file') (accepted ++ [entry])) ∨
      ∃ result, append c file tip a = (result, file, tip) ∧ ∀ r, result = .ok r → r.accepted = false := by
  unfold append
  cases hevaluate : c.evaluate a.payload a.contextType with
  | error e => exact .inr ⟨_, rfl, fun r hr => by cases hr⟩
  | ok reason =>
    cases reason with
    | some reason =>
      refine .inr ⟨_, rfl, fun r hr => ?_⟩
      obtain rfl := Except.ok.inj hr
      rfl
    | none =>
      cases hpersist : persist c file tip a with
      | error e => exact .inr ⟨_, rfl, fun r hr => by cases hr⟩
      | ok written =>
        obtain ⟨entry, file'⟩ := written
        unfold persist at hpersist
        obtain ⟨entry', hentry, hpersist⟩ := bind_eq_ok.mp hpersist
        obtain ⟨⟨v, file₁⟩, happend, hpersist⟩ := bind_eq_ok.mp hpersist
        obtain ⟨rfl, rfl⟩ := Prod.mk.inj (Except.ok.inj hpersist)
        obtain ⟨hfollows, w, hsort⟩ := follows_of_signedEntry hentry
        exact .inl ⟨entry', file₁, rfl, hfollows, rfl, fun accepted hholds =>
          hholds.append hsort c.one_valid (mapError_eq_ok.mp happend)⟩

/-! ### Runs -/

variable (c)

/-- Ledger objects on a file, with the entries that have been accepted. -/
structure WatchedLedgers where
  ledgers : Ledgers
  accepted : List LedgerEntry

namespace WatchedLedgers

def new : WatchedLedgers :=
  ⟨.new, []⟩

def step (w : WatchedLedgers) : LedgerAction P → WatchedLedgers
  | .opens ledger => ⟨w.ledgers.step c (.opens ledger), w.accepted⟩
  | .appends ledger a =>
    match w.ledgers.append c ledger a with
    | (some (.ok result), ledgers) =>
      ⟨ledgers, if result.accepted then w.accepted ++ [result.entry] else w.accepted⟩
    | (_, ledgers) => ⟨ledgers, w.accepted⟩

end WatchedLedgers

/-- The chain is verified, and the file has every entry that was accepted once, in order. -/
def SoundLedgers (w : WatchedLedgers) : Prop :=
  verifyChain c w.ledgers.file = .ok (true, []) ∧ readEntries (P := P) w.ledgers.file = some w.accepted

/-- A ledger object that appends what the filter accepts has the last hash of the file. -/
def Current (w : WatchedLedgers) : LedgerAction P → Prop
  | .opens _ => True
  | .appends ledger a => ∀ tip, w.ledgers.tips ledger = some tip →
      c.evaluate a.payload a.contextType = .ok none → recoverChainTip P w.ledgers.file = .ok tip

variable {c} {w : WatchedLedgers}

theorem WatchedLedgers.step_cases (c : LedgerConfig P) (w : WatchedLedgers) (a : LedgerAction P) :
    ((w.step c a).ledgers.file = w.ledgers.file ∧ (w.step c a).accepted = w.accepted) ∨
      ∃ ledger call tip entry file', a = .appends ledger call ∧ w.ledgers.tips ledger = some tip ∧
        c.evaluate call.payload call.contextType = .ok none ∧ Follows c tip entry ∧
        (w.step c a).ledgers.file = some file' ∧ (w.step c a).accepted = w.accepted ++ [entry] ∧
          ∀ accepted, Holds (P := P) w.ledgers.file accepted →
            Holds (P := P) (some file') (accepted ++ [entry]) := by
  cases a with
  | opens ledger =>
    left
    unfold step Ledgers.step
    dsimp only
    cases recoverChainTip P w.ledgers.file <;> exact ⟨rfl, rfl⟩
  | appends ledger call =>
    unfold step Ledgers.append
    dsimp only
    cases htip : w.ledgers.tips ledger with
    | none => exact .inl ⟨rfl, rfl⟩
    | some tip =>
      rcases append_cases c w.ledgers.file tip call with
        ⟨entry, file', hevaluate, hfollows, hrun, hholds⟩ | ⟨result, hrun, hrejected⟩
      · right
        dsimp only
        rw [hrun]
        exact ⟨ledger, call, tip, entry, file', rfl, htip, hevaluate, hfollows, rfl, rfl, hholds⟩
      · left
        dsimp only
        rw [hrun]
        cases result with
        | error e => exact ⟨rfl, rfl⟩
        | ok r =>
          refine ⟨rfl, ?_⟩
          dsimp only
          rw [hrejected r rfl]
          rfl

theorem holds_step (h : Holds (P := P) w.ledgers.file w.accepted) (a : LedgerAction P) :
    Holds (P := P) (w.step c a).ledgers.file (w.step c a).accepted := by
  rcases w.step_cases c a with ⟨hfile, haccepted⟩ | ⟨_, _, _, _, _, -, -, -, -, hfile, haccepted, hholds⟩
  · rw [hfile, haccepted]
    exact h
  · rw [hfile, haccepted]
    exact hholds _ h

/-- The file has what has been accepted, and that is a chain. -/
structure KeptLedgers (c : LedgerConfig P) (w : WatchedLedgers) : Prop where
  holds : Holds (P := P) w.ledgers.file w.accepted
  intact : Intact c w.accepted

theorem KeptLedgers.new (c : LedgerConfig P) : KeptLedgers c .new :=
  ⟨holds_nil, trivial⟩

theorem KeptLedgers.sound (h : KeptLedgers c w) : SoundLedgers c w :=
  ⟨verifyChain_of_intact c h.holds.readEntries_eq h.intact, h.holds.readEntries_eq⟩

theorem KeptLedgers.step {a : LedgerAction P} (h : KeptLedgers c w) (hok : Current c w a) :
    KeptLedgers c (w.step c a) := by
  refine ⟨holds_step h.holds a, ?_⟩
  rcases w.step_cases c a with
    ⟨-, haccepted⟩ | ⟨ledger, call, tip, entry, file', rfl, htip, hevaluate, hfollows, -, haccepted, -⟩
  · rw [haccepted]
    exact h.intact
  · have hlast := hok tip htip hevaluate
    rw [h.holds.recoverChainTip_eq] at hlast
    rw [haccepted]
    exact Chain.linked_concat.mpr ⟨h.intact, Except.ok.inj hlast ▸ hfollows⟩

/-- A ledger with a key, whose filter accepts everything. -/
def permissive : LedgerConfig reference where
  key := some [107]
  evaluate _ _ := .ok none
  one := LiteralFloat.ofText (.lit ⟨false, [49], [48], none⟩)
  one_valid := rfl

def appendNothing : AppendCall reference :=
  ⟨str "e", str "c", [], str "i", str "t"⟩

end Adaad.Memory
