import Mocha.Macho.Header

/-!
# How opening a file ends, and thin files (`MochaDocument.swift`)

An initializer of `IO/` returns, throws an error, or ends the process. `Opening` has all three, and
`unfinished` for a run that is cut off by the bound the model sets on it: the archive loop and the
recursion through fat files may go on forever. `try?` catches thrown errors and nothing else.

`MachoMetaData` is one Mach-O file with its header.
-/

namespace Mocha

open Lib Data

/-- The errors thrown by the initializers. -/
inductive OpeningError where
  | unixArchiveError
  | fatBinaryError
  | machoMetaDataError
  | mochaDocumentError
  deriving DecidableEq, Repr

/-- Why an initializer has no value. -/
inductive Failure where
  | thrown (error : OpeningError)
  | trap (trap : Trap)
  | unfinished
  deriving DecidableEq, Repr

/-- The outcome of an initializer. -/
abbrev Opening (α : Type) := Except Failure α

section Opening

variable {α β : Type}

/-- A computation that cannot throw, in an initializer. -/
def ofRun : Run α → Opening α
  | .ok a => .ok a
  | .error t => .error (.trap t)

/-- `try? x`. -/
def attempt : Opening α → Opening (Option α)
  | .ok a => .ok (some a)
  | .error (.thrown _) => .ok none
  | .error (.trap t) => .error (.trap t)
  | .error .unfinished => .error .unfinished

@[simp] theorem ofRun_ok (a : α) : ofRun (.ok a) = .ok a := rfl

@[simp] theorem ofRun_error (t : Trap) : ofRun (.error t : Run α) = .error (.trap t) := rfl

theorem ofRun_eq_ok {x : Run α} {a : α} : ofRun x = .ok a ↔ x = .ok a := by
  cases x with
  | ok b => rw [ofRun_ok, Except.ok.injEq, Except.ok.injEq]
  | error t => exact iff_of_false (by intro h; cases h) (by intro h; cases h)

theorem ofRun_bind_eq_ok {x : Run α} {f : α → Opening β} {b : β} :
    (ofRun x >>= f) = .ok b ↔ ∃ a, x = .ok a ∧ f a = .ok b := by
  rw [bind_eq_ok]
  simp only [ofRun_eq_ok]

end Opening

/-! ## Thin files -/

/-- `magic64` and `magic32`. -/
def machoMagic (is64Bit : Bool) : List UInt8 :=
  if is64Bit then [0xcf, 0xfa, 0xed, 0xfe] else [0xce, 0xfa, 0xed, 0xfe]

/-- `MachoMetaData`. -/
structure MachoMetaData where
  fileName : String
  is64Bit : Bool
  machoData : Data
  machoHeader : MachoHeader
  deriving DecidableEq

/-- `MachoMetaData(fileName:machoData:)`. -/
def MachoMetaData.init (fileName : String) (machoData : Data) : Opening MachoMetaData :=
  if machoData.starts (machoMagic false) then do
    return ⟨fileName, false, machoData, ← ofRun (MachoHeader.init machoData false)⟩
  else if machoData.starts (machoMagic true) then do
    return ⟨fileName, true, machoData, ← ofRun (MachoHeader.init machoData true)⟩
  else .error (.thrown .machoMetaDataError)

/-- What a thin file is opened as. -/
def MachoMetaData.ofThin (fileName : String) (is64Bit : Bool) (d : Data) : MachoMetaData :=
  ⟨fileName, is64Bit, d, MachoHeader.layout is64Bit (d.window 0 (machoHeaderSize is64Bit))⟩

theorem machoMagic_ne {d : Data} (h : d.starts (machoMagic true) = true) :
    d.starts (machoMagic false) = false := by
  by_contra hboth
  rw [Bool.not_eq_false] at hboth
  unfold Data.starts at h hboth
  rw [List.isPrefixOf_iff_prefix] at h hboth
  have hsame := List.prefix_of_prefix_length_le h hboth (Nat.le_refl 4)
  exact absurd hsame (by decide)

theorem machoHeader_init_total {d : Data} {is64Bit : Bool} (h : machoHeaderSize is64Bit ≤ d.count) :
    MachoHeader.init d is64Bit =
      .ok (MachoHeader.layout is64Bit (d.window 0 (machoHeaderSize is64Bit))) :=
  machoHeader_init_eq_ok.mpr ⟨h, rfl⟩

/-- **A thin file is accepted iff it starts with a magic number and has a whole header.** -/
theorem machoMetaData_init_eq_ok {name : String} {d : Data} {m : MachoMetaData} :
    MachoMetaData.init name d = .ok m ↔ ∃ is64Bit, d.starts (machoMagic is64Bit) = true ∧
      machoHeaderSize is64Bit ≤ d.count ∧ m = MachoMetaData.ofThin name is64Bit d := by
  unfold MachoMetaData.init
  constructor
  · intro h
    split at h
    · rename_i hmagic
      rw [ofRun_bind_eq_ok] at h
      obtain ⟨header, hheader, h⟩ := h
      obtain ⟨hle, rfl⟩ := machoHeader_init_eq_ok.mp hheader
      cases h
      exact ⟨false, hmagic, hle, rfl⟩
    · split at h
      · rename_i hmagic
        rw [ofRun_bind_eq_ok] at h
        obtain ⟨header, hheader, h⟩ := h
        obtain ⟨hle, rfl⟩ := machoHeader_init_eq_ok.mp hheader
        cases h
        exact ⟨true, hmagic, hle, rfl⟩
      · cases h
  · rintro ⟨is64Bit, hmagic, hle, rfl⟩
    cases is64Bit with
    | false =>
      rw [if_pos hmagic, machoHeader_init_total hle]
      rfl
    | true =>
      rw [if_neg (by rw [machoMagic_ne hmagic]; exact Bool.false_ne_true), if_pos hmagic,
        machoHeader_init_total hle]
      rfl

end Mocha
