import Mathlib.Data.List.Basic
import Mathlib.Tactic.Ring

/-!
# Self-delimiting runs of bytes and LEB128

`Terminated stop as` says that `as` ends at its first element satisfying `stop`: a NUL-terminated
string, or a LEB128 number, whose last byte is the first one below `0x80`. Such runs are
prefix-free (`Terminated.unique`), which is why a stream of them has one reading.

`lebNat` is the value of a LEB128 run, seven bits a byte, lowest first. `or_lebShift` is the step of
an accumulating decoder in 64 bits: or-ing the next seven bits, shifted, onto what was read so far
adds their place value modulo `2 ^ 64`, also when the shift is past the width.

`slebInt` is the value of a signed run, negative when bit 6 of its last byte is set. A decoder that
sets every bit above the run, whatever its sign, is right as far as `or_onesFrom_eq_iff` says.
-/

namespace Mocha.Lib

/-- `as` ends at its first element that satisfies `stop`. -/
inductive Terminated {α : Type} (stop : α → Bool) : List α → Prop
  | last {a : α} (ha : stop a = true) : Terminated stop [a]
  | more {a : α} {as : List α} (ha : stop a = false) (has : Terminated stop as) :
      Terminated stop (a :: as)

namespace Terminated

variable {α : Type} {stop : α → Bool}

theorem ne_nil {as : List α} (h : Terminated stop as) : as ≠ [] := by
  cases h <;> exact List.cons_ne_nil _ _

theorem length_pos {as : List α} (h : Terminated stop as) : 0 < as.length :=
  List.length_pos_of_ne_nil h.ne_nil

/-- **Terminated runs are prefix-free.** -/
theorem unique {as bs : List α} (ha : Terminated stop as) (hb : Terminated stop bs) :
    ∀ {x y : List α}, as ++ x = bs ++ y → as = bs ∧ x = y := by
  induction ha generalizing bs with
  | last hstop =>
    intro x y h
    cases hb with
    | last _ =>
      obtain ⟨rfl, hxy⟩ := List.cons_eq_cons.mp h
      exact ⟨rfl, hxy⟩
    | more hmore _ =>
      obtain ⟨rfl, _⟩ := List.cons_eq_cons.mp h
      rw [hmore] at hstop
      cases hstop
  | more hmore _ ih =>
    intro x y h
    cases hb with
    | last hstop =>
      obtain ⟨rfl, _⟩ := List.cons_eq_cons.mp h
      rw [hmore] at hstop
      cases hstop
    | more _ hbs =>
      obtain ⟨rfl, htail⟩ := List.cons_eq_cons.mp h
      obtain ⟨rfl, hxy⟩ := ih hbs htail
      exact ⟨rfl, hxy⟩

end Terminated

/-- The last byte of a LEB128 number: its high bit is clear. -/
def lebStop (b : UInt8) : Bool := decide (b < 0x80)

/-- A complete LEB128 byte run. -/
abbrev IsLeb (bs : List UInt8) : Prop := Terminated lebStop bs

/-- The number a LEB128 run stands for. -/
def lebNat : List UInt8 → Nat
  | [] => 0
  | b :: bs => b.toNat % 128 + 128 * lebNat bs

theorem lebNat_lt : ∀ bs : List UInt8, lebNat bs < 2 ^ (7 * bs.length)
  | [] => Nat.one_pos
  | b :: bs => by
    have ih := lebNat_lt bs
    have hb : b.toNat % 128 < 128 := Nat.mod_lt _ (by decide)
    rw [lebNat, List.length_cons, Nat.mul_succ, Nat.pow_add]
    omega

/-- The sign of a signed LEB128 run: bit 6 of its last byte. -/
def slebNegative (bs : List UInt8) : Bool := bs.getLast?.any fun b => b &&& 0x40 != 0

/-- The number a signed LEB128 run stands for. -/
def slebInt (bs : List UInt8) : Int :=
  lebNat bs - if slebNegative bs then 2 ^ (7 * bs.length) else 0

theorem slebInt_neg_iff (bs : List UInt8) : slebInt bs < 0 ↔ slebNegative bs = true := by
  have hlt : (lebNat bs : Int) < 2 ^ (7 * bs.length) := by exact_mod_cast lebNat_lt bs
  unfold slebInt
  by_cases hneg : slebNegative bs = true
  · rw [if_pos hneg]
    exact iff_of_true (by omega) hneg
  · rw [if_neg hneg]
    exact iff_of_false (by omega) hneg

/-- The seven low bits of `b` as a 64-bit number, shifted left; a shift of 64 or more leaves `0`. -/
def lebShift (b : UInt8) (shift : Nat) : UInt64 :=
  UInt64.ofNat ((b.toUInt64 &&& 0x7f).toNat * 2 ^ shift)

theorem toUInt64_and_127 (b : UInt8) : (b.toUInt64 &&& 0x7f).toNat = b.toNat % 128 := by
  have hmask : (0x7f : UInt64).toNat = 2 ^ 7 - 1 := rfl
  rw [UInt64.toNat_and, hmask, Nat.and_two_pow_sub_one_eq_mod, UInt8.toNat_toUInt64]

/-- **One step of the accumulating decoder**: `v` is the value of the bits read so far. -/
theorem or_lebShift (b : UInt8) {v s : Nat} (hv : v < 2 ^ s) :
    UInt64.ofNat v ||| lebShift b s = UInt64.ofNat (v + b.toNat % 128 * 2 ^ s) := by
  apply UInt64.toNat_inj.mp
  unfold lebShift
  rw [UInt64.toNat_or, toUInt64_and_127, UInt64.toNat_ofNat', UInt64.toNat_ofNat',
    UInt64.toNat_ofNat']
  generalize b.toNat % 128 = c
  by_cases hs : s < 64
  · -- the low `s` bits are `v`, the shifted ones lie above
    obtain ⟨m, hm⟩ : ∃ m, 64 = s + m := ⟨64 - s, by omega⟩
    rw [hm]
    have hle : 2 ^ s ≤ 2 ^ (s + m) := Nat.pow_le_pow_right (by decide) (by omega)
    have hshift : c * 2 ^ s % 2 ^ (s + m) = 2 ^ s * (c % 2 ^ m) := by
      rw [Nat.pow_add, Nat.mul_comm c, Nat.mul_mod_mul_left]
    have hsum : (v + c * 2 ^ s) % 2 ^ (s + m) = 2 ^ s * (c % 2 ^ m) + v := by
      have hlt : 2 ^ s * (c % 2 ^ m) + v < 2 ^ (s + m) := by
        have hc : c % 2 ^ m + 1 ≤ 2 ^ m := Nat.mod_lt c (Nat.two_pow_pos m)
        calc 2 ^ s * (c % 2 ^ m) + v < 2 ^ s * (c % 2 ^ m) + 2 ^ s := by omega
          _ = 2 ^ s * (c % 2 ^ m + 1) := by ring
          _ ≤ 2 ^ s * 2 ^ m := Nat.mul_le_mul_left _ hc
          _ = 2 ^ (s + m) := (Nat.pow_add 2 s m).symm
      have hmod : (v + c * 2 ^ s) % 2 ^ (s + m) = (c * 2 ^ s % 2 ^ (s + m) + v) % 2 ^ (s + m) := by
        rw [Nat.add_comm v, Nat.add_mod, Nat.mod_eq_of_lt (Nat.lt_of_lt_of_le hv hle)]
      rw [hmod, hshift, Nat.mod_eq_of_lt hlt]
    rw [Nat.mod_eq_of_lt (Nat.lt_of_lt_of_le hv hle), hshift, hsum,
      Nat.two_pow_add_eq_or_of_lt hv, Nat.or_comm]
  · -- everything shifted is past bit 63
    obtain ⟨m, rfl⟩ : ∃ m, s = 64 + m := ⟨s - 64, by omega⟩
    have hdiv : c * 2 ^ (64 + m) = 2 ^ 64 * (c * 2 ^ m) := by
      rw [Nat.pow_add]
      ring
    rw [hdiv, Nat.mul_mod_right, Nat.or_zero, Nat.add_mul_mod_self_left]

/-- All bits from `s` on. -/
def onesFrom (s : Nat) : UInt64 := UInt64.ofNat ((2 ^ 64 - 1) * 2 ^ s)

theorem toNat_onesFrom {s m : Nat} (h : s + m = 64) : (onesFrom s).toNat = 2 ^ s * (2 ^ m - 1) := by
  obtain ⟨a, ha⟩ : ∃ a, 2 ^ s = a + 1 := ⟨2 ^ s - 1, (Nat.sub_add_cancel Nat.one_le_two_pow).symm⟩
  obtain ⟨b, hb⟩ : ∃ b, 2 ^ m = b + 1 := ⟨2 ^ m - 1, (Nat.sub_add_cancel Nat.one_le_two_pow).symm⟩
  have hpow : 2 ^ 64 = (a + 1) * (b + 1) := by rw [← ha, ← hb, ← Nat.pow_add, h]
  have hones : 2 ^ 64 - 1 = a * b + a + b := by
    rw [hpow]
    have hexpand : (a + 1) * (b + 1) = a * b + a + b + 1 := by ring
    omega
  have hsplit : (a * b + a + b) * (a + 1) = (a + 1) * b + (a + 1) * (b + 1) * a := by ring
  have hlt : (a + 1) * b < (a + 1) * (b + 1) :=
    Nat.mul_lt_mul_of_pos_left (Nat.lt_succ_self b) (Nat.succ_pos a)
  rw [onesFrom, UInt64.toNat_ofNat', hones, ha, hb, hpow, hsplit, Nat.add_mul_mod_self_left,
    Nat.mod_eq_of_lt hlt, Nat.add_sub_cancel]

theorem onesFrom_eq_zero {s : Nat} (h : 64 ≤ s) : onesFrom s = 0 := by
  obtain ⟨m, rfl⟩ := Nat.exists_eq_add_of_le h
  apply UInt64.toNat_inj.mp
  rw [onesFrom, UInt64.toNat_ofNat', Nat.pow_add, ← Nat.mul_assoc, Nat.mul_comm _ (2 ^ 64),
    Nat.mul_assoc, Nat.mul_mod_right]
  rfl

theorem toNat_ofInt (v : Int) : ((UInt64.ofInt v).toNat : Int) = v % 2 ^ 64 := by
  rw [UInt64.ofInt, UInt64.toNat_ofNat']
  omega

/-- A run shorter than 64 bits with every bit above it set. -/
theorem toNat_or_onesFrom {v s m : Nat} (hv : v < 2 ^ s) (h : s + m = 64) :
    (UInt64.ofNat v ||| onesFrom s).toNat = 2 ^ s * (2 ^ m - 1) + v := by
  have hle : 2 ^ s ≤ 2 ^ 64 := Nat.pow_le_pow_right (by decide) (by omega)
  rw [UInt64.toNat_or, UInt64.toNat_ofNat', Nat.mod_eq_of_lt (Nat.lt_of_lt_of_le hv hle),
    toNat_onesFrom h, Nat.or_comm, Nat.two_pow_add_eq_or_of_lt hv]

/-- **Setting every bit above a run** gives its signed value exactly when the value is negative or
the run fills the 64 bits. -/
theorem or_onesFrom_eq_iff (bs : List UInt8) :
    UInt64.ofNat (lebNat bs) ||| onesFrom (7 * bs.length) = UInt64.ofInt (slebInt bs) ↔
      slebInt bs < 0 ∨ 64 ≤ 7 * bs.length := by
  have hlt := lebNat_lt bs
  rw [slebInt_neg_iff, ← UInt64.toNat_inj, ← Int.natCast_inj, toNat_ofInt]
  unfold slebInt
  by_cases hfull : 64 ≤ 7 * bs.length
  · -- the sign weighs a multiple of `2 ^ 64`
    obtain ⟨m, hm⟩ := Nat.exists_eq_add_of_le hfull
    refine iff_of_true ?_ (.inr hfull)
    rw [onesFrom_eq_zero hfull, UInt64.or_zero, UInt64.toNat_ofNat', hm, Int.pow_add]
    by_cases hneg : slebNegative bs = true
    · rw [if_pos hneg, Int.sub_mul_emod_self_left]
      rfl
    · rw [if_neg hneg, Int.sub_zero]
      rfl
  · obtain ⟨m, hm⟩ : ∃ m, 7 * bs.length + m = 64 := ⟨64 - 7 * bs.length, by omega⟩
    have hones : 2 ^ (7 * bs.length) * (2 ^ m - 1) + 2 ^ (7 * bs.length) = 2 ^ 64 := by
      rw [Nat.mul_sub_one, Nat.sub_add_cancel (Nat.le_mul_of_pos_right _ (Nat.two_pow_pos m)),
        ← Nat.pow_add, hm]
    have hpos : 0 < 2 ^ (7 * bs.length) * (2 ^ m - 1) := by
      have hm' : 1 < 2 ^ m := Nat.one_lt_two_pow (by omega)
      exact Nat.mul_pos (Nat.two_pow_pos _) (by omega)
    have hcast : (2 : Int) ^ (7 * bs.length) = ((2 ^ (7 * bs.length) : Nat) : Int) := by simp
    rw [toNat_or_onesFrom hlt hm, hcast]
    generalize 2 ^ (7 * bs.length) * (2 ^ m - 1) = ones at *
    generalize 2 ^ (7 * bs.length) = width at *
    by_cases hneg : slebNegative bs = true
    · refine iff_of_true ?_ (.inl hneg)
      rw [if_pos hneg]
      omega
    · refine iff_of_false ?_ (by simp [hneg, hfull])
      rw [if_neg hneg]
      omega

end Mocha.Lib
