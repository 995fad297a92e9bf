import Mocha.Helpers.DataShifter
import Mocha.Helpers.Text

/-!
# Written layouts

`d.Holds k bs` says that `d` contains the bytes `bs` at offset `k`. A layout written as a
concatenation is held piece by piece (`holds_append`), and each piece reads back as the number or
the name it was written from (`Holds.word`, `Holds.quad`, `Holds.address`, `Holds.name`,
`Holds.text`). The decoding of an encoded record is a conjunction of such facts.
-/

namespace Mocha

open Lib DataShifter

/-- A little-endian 32-bit word. -/
def word (x : UInt32) : List UInt8 := leBytes 4 x.toNat

/-- A little-endian 64-bit word. -/
def quad (x : UInt64) : List UInt8 := leBytes 8 x.toNat

/-- A word of the width `shiftAddress` reads. -/
def address (is64Bit : Bool) (x : UInt64) : List UInt8 := leBytes (addressSize is64Bit) x.toNat

/-- The UTF-8 bytes of a name, NUL-padded to `n` bytes. -/
def paddedName (n : Nat) (s : String) : List UInt8 :=
  utf8 s ++ List.replicate (n - (utf8 s).length) 0

/-- The UTF-8 bytes of a text, filled up to `n` bytes with spaces. -/
def textField (n : Nat) (s : String) : List UInt8 :=
  utf8 s ++ List.replicate (n - (utf8 s).length) 0x20

@[simp] theorem length_word (x : UInt32) : (word x).length = 4 := length_leBytes 4 _

theorem length_paddedName {n : Nat} {s : String} (h : (utf8 s).length ≤ n) :
    (paddedName n s).length = n := by
  rw [paddedName, List.length_append, List.length_replicate]
  omega

theorem length_textField {n : Nat} {s : String} (h : (utf8 s).length ≤ n) :
    (textField n s).length = n := by
  rw [textField, List.length_append, List.length_replicate]
  omega

/-- A field that starts with a text is that text and the field of the rest. -/
theorem textField_append (n : Nat) (s t : String) :
    textField n (s ++ t) = utf8 s ++ textField (n - (utf8 s).length) t := by
  unfold textField
  rw [utf8_append, List.length_append, List.append_assoc, Nat.sub_sub]

namespace Data

/-- `d` contains `bs` at offset `k`. -/
def Holds (d : Data) (k : Nat) (bs : List UInt8) : Prop :=
  k + bs.length ≤ d.count ∧ (d.window k bs.length).bytes = bs

instance (d : Data) (k : Nat) (bs : List UInt8) : Decidable (d.Holds k bs) :=
  inferInstanceAs (Decidable (_ ∧ _))

theorem holds_self (d : Data) : d.Holds 0 d.bytes := by
  refine ⟨Nat.le_of_eq (Nat.zero_add _), ?_⟩
  exact congrArg Data.bytes d.window_all

theorem holds_of_eq {d : Data} {bs : List UInt8} (h : d.bytes = bs) : d.Holds 0 bs :=
  h ▸ d.holds_self

theorem window_append (d : Data) (k n m : Nat) :
    (d.window k (n + m)).bytes = (d.window k n).bytes ++ (d.window (k + n) m).bytes := by
  unfold window
  rw [List.take_add, List.drop_drop]

/-- **A concatenation is held piece by piece.** -/
theorem holds_append {d : Data} {k : Nat} {as bs : List UInt8} :
    d.Holds k (as ++ bs) ↔ d.Holds k as ∧ d.Holds (k + as.length) bs := by
  unfold Holds
  rw [List.length_append, window_append, ← Nat.add_assoc]
  constructor
  · rintro ⟨hle, heq⟩
    have hlen : (d.window k as.length).bytes.length = as.length := d.window_count (by omega)
    obtain ⟨ha, hb⟩ := List.append_inj heq hlen
    exact ⟨⟨by omega, ha⟩, hle, hb⟩
  · rintro ⟨⟨_, ha⟩, hle, hb⟩
    exact ⟨hle, by rw [ha, hb]⟩

theorem Holds.window {d : Data} {k : Nat} {bs : List UInt8} (h : d.Holds k bs) :
    (d.window k bs.length).Holds 0 bs :=
  holds_of_eq h.2

section Reads

variable {d : Data} {k : Nat}

theorem Holds.numAt {w n : Nat} (h : d.Holds k (leBytes w n)) (hn : n < 256 ^ w) :
    (d.numAt k w).value = n := by
  have hbytes := h.2
  rw [length_leBytes] at hbytes
  unfold Data.numAt
  rw [hbytes, leNat_leBytes hn]

theorem Holds.word {x : UInt32} (h : d.Holds k (word x)) : (d.uint32At k).value = x := by
  have hval := h.numAt (Nat.lt_of_lt_of_le x.toNat_lt (by decide))
  unfold uint32At
  rw [Field.map_value, hval, UInt32.ofNat_toNat]

theorem Holds.quad {x : UInt64} (h : d.Holds k (quad x)) : (d.uint64At k).value = x := by
  have hval := h.numAt (Nat.lt_of_lt_of_le x.toNat_lt (by decide))
  unfold uint64At
  rw [Field.map_value, hval, UInt64.ofNat_toNat]

/-- An address of 32 bits has to fit. -/
theorem Holds.address {is64Bit : Bool} {x : UInt64} (h : d.Holds k (address is64Bit x))
    (hx : is64Bit = false → x.toNat < 2 ^ 32) : (addressAt is64Bit d k).value = x := by
  cases is64Bit with
  | true => exact Holds.quad h
  | false =>
    have hlt := hx rfl
    have hval : (d.numAt k 4).value = x.toNat := h.numAt (Nat.lt_of_lt_of_le hlt (by decide))
    unfold addressAt uint32At
    rw [if_neg Bool.false_ne_true, Field.map_value, Field.map_value, hval]
    apply UInt64.toNat_inj.mp
    rw [UInt32.toNat_toUInt64, UInt32.toNat_ofNat', Nat.mod_eq_of_lt hlt]

/-- A padded name decodes, and `spaceRemoved` gives the name. -/
theorem Holds.name {n : Nat} {s : String} (h : d.Holds k (paddedName n s))
    (hlen : (utf8 s).length ≤ n) (hs : PlainName s) :
    ∃ name, (d.window k n).utf8String = some name ∧ spaceRemoved name = s := by
  have hbytes := h.2
  rw [length_paddedName hlen] at hbytes
  exact ⟨_, utf8String_padded hbytes, spaceRemoved_padded hs _⟩

/-- A text field decodes to the text followed by spaces. -/
theorem Holds.text {n : Nat} {s : String} (h : d.Holds k (textField n s))
    (hlen : (utf8 s).length ≤ n) :
    (d.window k n).utf8String = some (s ++ spaces (n - (utf8 s).length)) := by
  have hbytes := h.2
  rw [length_textField hlen] at hbytes
  rw [utf8String_eq_some, utf8_append, utf8_spaces, hbytes, textField]

end Reads

end Data

end Mocha
