import Mocha.Helpers.Data
import Mathlib.Data.List.Basic

/-!
# Strings (`Helpers/Extensions.swift`, `Helpers/Log.swift`)

Swift strings are Lean strings. `Data.utf8String` is `String(data:encoding:.utf8)`: `nil` on bytes
that are not well-formed UTF-8. `utf8` is the encoding, so `d.utf8String = some s` exactly when `d`
holds the bytes `utf8 s` (`utf8String_eq_some`).

* `spaceRemoved` trims `CharacterSet.whitespaces` (the separators `Zs` and the tab) at both ends,
  then drops every NUL.
* `hex` is `String(format: "0x%0X", …)`; on an `Int` the format reads 32 bits (`intHex`).
* `parseInt` is `Int(String)`: an optional sign and decimal digits, within 64 bits.
* `hasPrefix` compares grapheme clusters. Which scalars continue a cluster is a table of the standard
  library; `Segmentation` stands for it.

**`spaceRemoved_padded`**, **`spaceRemoved_spaced`**: a name without NUL and without surrounding
blanks survives padding with NULs or with spaces and `spaceRemoved`. **`parseInt_decimal`**: so does
a number in decimal, read back.
-/

namespace Mocha

/-- The UTF-8 bytes of a string. -/
def utf8 (s : String) : List UInt8 := s.toByteArray.data.toList

/-- `data.utf8String`. -/
def Data.utf8String (d : Data) : Option String := String.fromUTF8? ⟨d.bytes.toArray⟩

/-- `CharacterSet.whitespaces`: Unicode category `Zs` and the tab. -/
def isWhitespace (c : Char) : Bool :=
  c == '\t' || c == ' ' || c.toNat == 0xA0 || c.toNat == 0x1680 ||
    (decide (0x2000 ≤ c.toNat) && decide (c.toNat ≤ 0x200A)) ||
    c.toNat == 0x202F || c.toNat == 0x205F || c.toNat == 0x3000

/-- `trimmingCharacters(in:)` on the scalars. -/
def trim (p : Char → Bool) (l : List Char) : List Char :=
  ((l.dropWhile p).reverse.dropWhile p).reverse

/-- `spaceRemoved`. -/
def spaceRemoved (s : String) : String :=
  String.ofList ((trim isWhitespace s.toList).filter fun c => c != '\x00')

/-- Which scalars continue the grapheme cluster of an ASCII character before them: combining marks
and joiners, no ASCII character. -/
structure Segmentation where
  joins : Char → Bool
  ascii : ∀ c, c.toNat < 128 → joins c = false

/-- No scalar continues a cluster: a segmentation that is right for ASCII names. -/
def asciiSegmentation : Segmentation := ⟨fun _ => false, fun _ _ => rfl⟩

/-- `s.hasPrefix(p)` for printable ASCII `p`: the scalars of `p`, up to the end of a cluster. -/
def Segmentation.hasPrefix (g : Segmentation) (s p : String) : Bool :=
  p.toList.isPrefixOf s.toList && !s.toList[p.toList.length]?.any g.joins

/-- `String(format: "0x%0X", n)` for an unsigned `n`. -/
def hex (n : Nat) : String := "0x" ++ String.ofList ((Nat.toDigits 16 n).map Char.toUpper)

/-- `Int.hex` and `Int32.hex`: the format reads the low 32 bits. -/
def intHex (n : Int) : String := hex (n % 2 ^ 32).toNat

/-- `"\(n)"`. -/
def decimal (n : Nat) : String := toString n

/-- `Log.warning(_:)`: the text it prints and returns. -/
def warning (s : String) : String := "⚠️ " ++ s

/-- The last of `components(separatedBy: "/")`. -/
def lastPathComponent (s : String) : String :=
  String.ofList ((s.toList.reverse.takeWhile fun c => c != '/').reverse)

/-- The value of a list of decimal digits, `none` if it is empty or has another character. -/
def parseDigits (l : List Char) : Option Nat :=
  if !l.isEmpty && l.all Char.isDigit then
    some (l.foldl (fun n c => 10 * n + (c.toNat - '0'.toNat)) 0)
  else none

/-- `Int(s)`. -/
def parseInt (s : String) : Option Int :=
  let value : Option Int :=
    match s.toList with
    | '-' :: l => (parseDigits l).map fun n => -Int.ofNat n
    | '+' :: l => (parseDigits l).map Int.ofNat
    | l => (parseDigits l).map Int.ofNat
  value.filter fun n => decide (-2 ^ 63 ≤ n) && decide (n < 2 ^ 63)

/-- `String(format: "%d.%d.%d", v >> 16, (v >> 8) & 0xff, v & 0xff)`. -/
def versionString (v : UInt32) : String :=
  decimal (v >>> 16).toNat ++ "." ++ decimal ((v >>> 8) &&& 0xff).toNat ++ "." ++
    decimal (v &&& 0xff).toNat

/-- `joined(separator:)`. -/
def joined (sep : String) (ss : List String) : String := sep.intercalate ss

/-! ## Encoding and decoding -/

theorem utf8String_eq_some {d : Data} {s : String} :
    d.utf8String = some s ↔ d.bytes = utf8 s := by
  unfold Data.utf8String String.fromUTF8? utf8
  constructor
  · intro h
    split at h
    · cases h
      rfl
    · cases h
  · intro h
    have hb : (⟨d.bytes.toArray⟩ : ByteArray) = s.toByteArray := by
      apply ByteArray.ext
      rw [h]
    rw [dif_pos (hb ▸ s.isValidUTF8)]
    congr 1
    exact String.toByteArray_inj.mp hb

theorem utf8_append (s t : String) : utf8 (s ++ t) = utf8 s ++ utf8 t := by
  unfold utf8
  rw [String.toByteArray_append, ByteArray.toList_data_append]

theorem utf8_ofList (l : List Char) :
    utf8 (String.ofList l) = l.flatMap String.utf8EncodeChar := by
  unfold utf8
  rw [String.toByteArray_ofList, List.utf8Encode, List.toList_data_toByteArray]

theorem utf8_eq_flatMap (s : String) : utf8 s = s.toList.flatMap String.utf8EncodeChar := by
  rw [← utf8_ofList, String.ofList_toList]

theorem utf8_inj {s t : String} (h : utf8 s = utf8 t) : s = t := by
  have hd : s.toByteArray = t.toByteArray := by
    apply ByteArray.ext
    exact Array.toList_inj.mp h
  exact String.toByteArray_inj.mp hd

theorem utf8_length_pos {s : String} (h : s ≠ "") : 0 < (utf8 s).length := by
  by_contra hzero
  have hnil : utf8 s = [] := List.length_eq_zero_iff.mp (Nat.eq_zero_of_not_pos hzero)
  exact h (utf8_inj hnil)

/-- `n` NUL characters. -/
def nuls (n : Nat) : String := String.ofList (List.replicate n '\x00')

theorem utf8_nuls (n : Nat) : utf8 (nuls n) = List.replicate n 0 := by
  unfold nuls
  rw [utf8_ofList]
  induction n with
  | zero => rfl
  | succ n ih =>
    rw [List.replicate_succ, List.flatMap_cons, ih]
    rfl

/-- A NUL-padded name decodes to the name followed by NULs. -/
theorem utf8String_padded {d : Data} {s : String} {n : Nat}
    (h : d.bytes = utf8 s ++ List.replicate n 0) : d.utf8String = some (s ++ nuls n) := by
  rw [utf8String_eq_some, utf8_append, utf8_nuls, h]

theorem zero_ne_ofNat {n : Nat} (hpos : 0 < n) (hlt : n < 256) : (0 : UInt8) ≠ UInt8.ofNat n := by
  intro h
  have hn := congrArg UInt8.toNat h
  rw [UInt8.toNat_ofNat', Nat.mod_eq_of_lt hlt] at hn
  exact absurd hn.symm (Nat.ne_of_gt hpos)

theorem zero_not_mem_utf8EncodeChar {c : Char} (h : c ≠ '\x00') :
    (0 : UInt8) ∉ String.utf8EncodeChar c := by
  have hv : c.val.toNat ≠ 0 := fun hz => h (Char.ext (UInt32.toNat_inj.mp hz))
  unfold String.utf8EncodeChar
  dsimp only
  -- one case for each length of the encoding; every byte of each is between 1 and 255
  repeat' split
  all_goals
    simp only [List.mem_cons, List.not_mem_nil, or_false, not_or]
  · exact zero_ne_ofNat (by omega) (by omega)
  · exact ⟨zero_ne_ofNat (by omega) (by omega), zero_ne_ofNat (by omega) (by omega)⟩
  · exact ⟨zero_ne_ofNat (by omega) (by omega), zero_ne_ofNat (by omega) (by omega),
      zero_ne_ofNat (by omega) (by omega)⟩
  · exact ⟨zero_ne_ofNat (by omega) (by omega), zero_ne_ofNat (by omega) (by omega),
      zero_ne_ofNat (by omega) (by omega), zero_ne_ofNat (by omega) (by omega)⟩

/-- A string without NUL has no zero byte. -/
theorem zero_not_mem_utf8 {s : String} (h : '\x00' ∉ s.toList) : (0 : UInt8) ∉ utf8 s := by
  rw [utf8_eq_flatMap, List.mem_flatMap]
  rintro ⟨c, hc, hmem⟩
  exact zero_not_mem_utf8EncodeChar (fun e => h (e ▸ hc)) hmem

/-! ## Trimming -/

/-- Neither end of `l` satisfies `p`. -/
def NoEnds (p : Char → Bool) (l : List Char) : Prop :=
  (∀ c ∈ l.head?, p c = false) ∧ ∀ c ∈ l.getLast?, p c = false

instance (p : Char → Bool) (l : List Char) : Decidable (NoEnds p l) :=
  decidable_of_iff ((l.head?.all fun c => !p c) = true ∧ (l.getLast?.all fun c => !p c) = true)
    (by simp [NoEnds, Option.all_eq_true])

theorem dropWhile_of_head {p : Char → Bool} {l : List Char} (h : ∀ c ∈ l.head?, p c = false) :
    l.dropWhile p = l := by
  cases l with
  | nil => rfl
  | cons c l =>
    rw [List.dropWhile_cons, h c rfl]
    rfl

theorem trim_of_noEnds {p : Char → Bool} {l : List Char} (h : NoEnds p l) : trim p l = l := by
  unfold trim
  rw [dropWhile_of_head h.1, dropWhile_of_head, List.reverse_reverse]
  intro c hc
  rw [List.head?_reverse] at hc
  exact h.2 c hc

/-- Padding with characters outside `p` keeps the ends outside `p`. -/
theorem NoEnds.append_replicate {p : Char → Bool} {l : List Char} (h : NoEnds p l) {c : Char}
    (hc : p c = false) (n : Nat) : NoEnds p (l ++ List.replicate n c) := by
  cases n with
  | zero =>
    rw [List.replicate_zero, List.append_nil]
    exact h
  | succ n =>
    constructor
    · intro x hx
      cases l with
      | nil =>
        rw [List.nil_append, List.replicate_succ, List.head?_cons, Option.mem_some_iff] at hx
        exact hx ▸ hc
      | cons y l =>
        rw [List.cons_append, List.head?_cons, Option.mem_some_iff] at hx
        exact hx ▸ h.1 y rfl
    · intro x hx
      rw [List.replicate_succ', ← List.append_assoc, List.getLast?_append, List.getLast?_singleton,
        Option.some_or, Option.mem_some_iff] at hx
      exact hx ▸ hc

/-- A name as the headers store it: no NUL inside, no blank at either end. -/
structure PlainName (s : String) : Prop where
  noNul : '\x00' ∉ s.toList
  noEnds : NoEnds isWhitespace s.toList

theorem filter_nul_padded {l : List Char} (h : '\x00' ∉ l) (n : Nat) :
    (l ++ List.replicate n '\x00').filter (fun c => c != '\x00') = l := by
  rw [List.filter_append]
  have h1 : l.filter (fun c => c != '\x00') = l := by
    rw [List.filter_eq_self]
    intro c hc
    have hne : c ≠ '\x00' := fun e => h (e ▸ hc)
    simpa using hne
  have h2 : (List.replicate n '\x00').filter (fun c => c != '\x00') = [] := by
    rw [List.filter_eq_nil_iff]
    intro c hc
    rw [List.eq_of_mem_replicate hc]
    decide
  rw [h1, h2, List.append_nil]

/-- **A plain name survives NUL padding and `spaceRemoved`.** -/
theorem spaceRemoved_padded {s : String} (h : PlainName s) (n : Nat) :
    spaceRemoved (s ++ nuls n) = s := by
  unfold spaceRemoved nuls
  rw [String.toList_append, String.toList_ofList,
    trim_of_noEnds (h.noEnds.append_replicate (by decide) n), filter_nul_padded h.noNul,
    String.ofList_toList]

/-- `n` spaces. -/
def spaces (n : Nat) : String := String.ofList (List.replicate n ' ')

theorem utf8_spaces (n : Nat) : utf8 (spaces n) = List.replicate n 0x20 := by
  unfold spaces
  rw [utf8_ofList]
  induction n with
  | zero => rfl
  | succ n ih =>
    rw [List.replicate_succ, List.flatMap_cons, ih]
    rfl

theorem toList_spaces (n : Nat) : (spaces n).toList = List.replicate n ' ' := String.toList_ofList

theorem dropWhile_replicate_append {p : Char → Bool} {c : Char} (hc : p c = true) (n : Nat)
    (l : List Char) : (List.replicate n c ++ l).dropWhile p = l.dropWhile p := by
  induction n with
  | zero => rfl
  | succ n ih => rw [List.replicate_succ, List.cons_append, List.dropWhile_cons, if_pos hc, ih]

theorem trim_append_replicate {p : Char → Bool} {l : List Char} (h : NoEnds p l) {c : Char}
    (hc : p c = true) (n : Nat) : trim p (l ++ List.replicate n c) = l := by
  have hfront : (l ++ List.replicate n c).dropWhile p = l ++ List.replicate n c ∨ l = [] := by
    cases l with
    | nil => exact .inr rfl
    | cons x l => exact .inl (dropWhile_of_head h.1)
  rcases hfront with hfront | rfl
  · have hlast := trim_of_noEnds h
    unfold trim at hlast ⊢
    rw [dropWhile_of_head h.1] at hlast
    rw [hfront, List.reverse_append, List.reverse_replicate, dropWhile_replicate_append hc, hlast]
  · unfold trim
    have hnil := dropWhile_replicate_append hc n []
    rw [List.append_nil] at hnil
    rw [List.nil_append, hnil]
    rfl

/-- **A plain name survives padding with spaces and `spaceRemoved`.** -/
theorem spaceRemoved_spaced {s : String} (h : PlainName s) (n : Nat) :
    spaceRemoved (s ++ spaces n) = s := by
  have hnul := filter_nul_padded h.noNul 0
  rw [List.replicate_zero, List.append_nil] at hnul
  unfold spaceRemoved spaces
  rw [String.toList_append, String.toList_ofList, trim_append_replicate h.noEnds (by decide), hnul,
    String.ofList_toList]

/-! ## Prefixes -/

theorem hasPrefix_eq_false (g : Segmentation) {s p : String} (h : ¬ p.toList <+: s.toList) :
    g.hasPrefix s p = false := by
  unfold Segmentation.hasPrefix
  rw [Bool.and_eq_false_iff, ← Bool.not_eq_true, List.isPrefixOf_iff_prefix]
  exact .inl h

/-- A string of ASCII characters after the prefix starts a new cluster. -/
theorem hasPrefix_append (g : Segmentation) {p t : String} (h : ∀ c ∈ t.toList, c.toNat < 128) :
    g.hasPrefix (p ++ t) p = true := by
  unfold Segmentation.hasPrefix
  rw [String.toList_append, Bool.and_eq_true, List.isPrefixOf_iff_prefix,
    List.getElem?_append_right (Nat.le_refl _), Nat.sub_self]
  refine ⟨List.prefix_append _ _, ?_⟩
  cases ht : t.toList with
  | nil => rfl
  | cons c l =>
    have hc := g.ascii c (h c (by rw [ht]; exact List.mem_cons_self))
    rw [List.getElem?_cons_zero, Option.any_some, hc]
    rfl

/-- A prefix without a space cannot end in the padding. -/
theorem prefix_of_prefix_spaced {p l : List Char} {n : Nat} (hp : ' ' ∉ p)
    (h : p <+: l ++ List.replicate n ' ') : p <+: l := by
  by_cases hle : p.length ≤ l.length
  · exact List.prefix_of_prefix_length_le h (List.prefix_append _ _) hle
  · have hlen := h.length_le
    rw [List.length_append, List.length_replicate] at hlen
    have hspace : p[l.length]? = some ' ' := by
      rw [List.getElem?_eq_getElem (by omega), h.getElem, List.getElem_append_right (Nat.le_refl _),
        List.getElem_replicate]
    exact absurd (List.mem_of_getElem? hspace) hp

/-! ## Numbers -/

theorem parseDigits_toDigits (n : Nat) : parseDigits (Nat.toDigits 10 n) = some n := by
  have hdigits : ((Nat.toDigits 10 n).all Char.isDigit) = true := by
    rw [List.all_eq_true]
    intro c hc
    exact Nat.isDigit_of_mem_toDigits (by decide) (by decide) hc
  have hne : (Nat.toDigits 10 n).isEmpty = false := List.isEmpty_eq_false_iff.mpr Nat.toDigits_ne_nil
  unfold parseDigits
  rw [hdigits, hne]
  exact congrArg some Nat.ofDigitChars_ten_toDigits

theorem toList_decimal (n : Nat) : (decimal n).toList = Nat.toDigits 10 n := Nat.toList_repr

theorem decimal_digits {n : Nat} {c : Char} (h : c ∈ (decimal n).toList) : c.isDigit = true := by
  rw [toList_decimal] at h
  exact Nat.isDigit_of_mem_toDigits (by decide) (by decide) h

/-- Numbers have different digits, also when the digits are written in other characters. -/
theorem toDigits_map_injective {b : Nat} (hb : 1 < b) {g : Char → Char}
    (hg : ∀ i < b, ∀ j < b, g (Nat.digitChar i) = g (Nat.digitChar j) → i = j) :
    Function.Injective fun n => (Nat.toDigits b n).map g := by
  have hlong : ∀ {n : Nat}, ¬ n < b → (Nat.toDigits b n).length ≠ 1 := by
    intro n hn
    have hpos := Nat.length_toDigits_pos (b := b) (n := n / b)
    rw [Nat.toDigits_of_base_le hb (Nat.le_of_not_lt hn), List.length_append, List.length_singleton]
    omega
  intro m
  induction m using Nat.strongRecOn with
  | ind m ih =>
    intro n h
    simp only at h
    have hlength := congrArg List.length h
    rw [List.length_map, List.length_map] at hlength
    by_cases hm : m < b
    · by_cases hn : n < b
      · rw [Nat.toDigits_of_lt_base hm, Nat.toDigits_of_lt_base hn] at h
        exact hg m hm n hn (List.singleton_inj.mp h)
      · rw [Nat.toDigits_of_lt_base hm] at hlength
        exact absurd hlength.symm (hlong hn)
    · by_cases hn : n < b
      · rw [Nat.toDigits_of_lt_base hn] at hlength
        exact absurd hlength (hlong hm)
      · rw [Nat.toDigits_of_base_le hb (Nat.le_of_not_lt hm),
          Nat.toDigits_of_base_le hb (Nat.le_of_not_lt hn), List.map_append, List.map_append] at h
        obtain ⟨hhead, hlast⟩ := List.append_inj' h rfl
        have hdiv := ih (m / b) (Nat.div_lt_self (by omega) hb) hhead
        have hmod := hg _ (Nat.mod_lt m (by omega)) _ (Nat.mod_lt n (by omega))
          (List.singleton_inj.mp hlast)
        rw [← Nat.div_add_mod m b, ← Nat.div_add_mod n b, hdiv, hmod]

theorem hex_injective : Function.Injective hex := by
  intro m n h
  have hlist := congrArg String.toList h
  simp only [hex, String.toList_append, String.toList_ofList] at hlist
  exact toDigits_map_injective (b := 16) (g := Char.toUpper) (by decide) (by decide)
    (List.append_cancel_left hlist)

theorem decimal_injective : Function.Injective decimal := by
  intro m n h
  have hlist := congrArg String.toList h
  rw [toList_decimal, toList_decimal] at hlist
  refine toDigits_map_injective (b := 10) (g := id) (by decide) (by decide) ?_
  simpa using hlist

/-- **A number in decimal reads back.** -/
theorem parseInt_decimal {n : Nat} (h : n < 2 ^ 63) : parseInt (decimal n) = some (n : Int) := by
  have hsign : ∀ c, c.isDigit = false → ∀ l, Nat.toDigits 10 n ≠ c :: l := by
    intro c hc l hl
    have hmem : c ∈ (decimal n).toList := by
      rw [toList_decimal, hl]
      exact List.mem_cons_self
    rw [decimal_digits hmem] at hc
    cases hc
  have hbound : (decide (-2 ^ 63 ≤ (n : Int)) && decide ((n : Int) < 2 ^ 63)) = true := by
    rw [Bool.and_eq_true, decide_eq_true_eq, decide_eq_true_eq]
    omega
  unfold parseInt
  rw [toList_decimal]
  split
  · exact absurd (by assumption) (hsign '-' rfl _)
  · exact absurd (by assumption) (hsign '+' rfl _)
  · simp only [parseDigits_toDigits, Option.map_some, Option.filter_some, Int.ofNat_eq_natCast, hbound,
      if_true]

theorem digit_bounds {c : Char} (h : c.isDigit = true) : 48 ≤ c.toNat ∧ c.toNat ≤ 57 := by
  unfold Char.isDigit at h
  rw [Bool.and_eq_true, decide_eq_true_eq, decide_eq_true_eq] at h
  exact h

/-- Digits are neither blank nor NUL. -/
theorem plainName_decimal (n : Nat) : PlainName (decimal n) := by
  have hblank : ∀ c, c.isDigit = true → isWhitespace c = false := by
    intro c hc
    have hbounds := digit_bounds hc
    have htab : c ≠ '\t' := by
      rintro rfl
      cases hc
    have hspace : c ≠ ' ' := by
      rintro rfl
      cases hc
    simp only [isWhitespace, Bool.or_eq_false_iff, beq_eq_false_iff_ne, Bool.and_eq_false_iff,
      decide_eq_false_iff_not]
    refine ⟨⟨⟨⟨⟨⟨⟨htab, hspace⟩, ?_⟩, ?_⟩, ?_⟩, ?_⟩, ?_⟩, ?_⟩ <;> omega
  refine ⟨?_, ?_, ?_⟩
  · intro hmem
    have hdigit := decimal_digits hmem
    cases hdigit
  · intro c hc
    exact hblank c (decimal_digits (List.mem_of_mem_head? hc))
  · intro c hc
    exact hblank c (decimal_digits (List.mem_of_mem_getLast? hc))

/-- ASCII characters take one byte each. -/
theorem length_utf8_ascii {s : String} (h : ∀ c ∈ s.toList, c.toNat < 128) :
    (utf8 s).length = s.toList.length := by
  have hone : s.toList.map (fun c => (String.utf8EncodeChar c).length) =
      s.toList.map fun _ => 1 := by
    refine List.map_congr_left ?_
    intro c hc
    rw [String.length_utf8EncodeChar, Char.utf8Size_eq_one_iff]
    exact Nat.le_of_lt_succ (h c hc)
  rw [utf8_eq_flatMap, List.length_flatMap, hone, List.map_const', List.sum_replicate_nat, Nat.mul_one]

theorem decimal_ascii {n : Nat} : ∀ c ∈ (decimal n).toList, c.toNat < 128 := by
  intro c hc
  have hbounds := digit_bounds (decimal_digits hc)
  omega

/-- The width of a number in decimal. -/
theorem length_decimal_le_iff {n k : Nat} (hk : 0 < k) :
    (utf8 (decimal n)).length ≤ k ↔ n < 10 ^ k := by
  rw [length_utf8_ascii decimal_ascii, toList_decimal]
  exact Nat.length_toDigits_le_iff (by decide) hk

end Mocha
