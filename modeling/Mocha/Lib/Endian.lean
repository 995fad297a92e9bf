import Mathlib.Data.List.Basic
import Mathlib.Tactic.Ring

/-!
# Fixed-width integers as bytes

`leNat` reads a byte list as a little-endian number of any width and `leBytes w` writes the `w`
low bytes of a number; `beNat` and `beBytes` are the same most significant byte first. The two
round trips (`leNat_leBytes`, `leBytes_leNat`) say that on `w` bytes reading and writing are
inverse.
-/

namespace Mocha.Lib

/-- A little-endian number. -/
def leNat : List UInt8 → Nat
  | [] => 0
  | b :: bs => b.toNat + 256 * leNat bs

/-- The `w` low bytes of `n`, least significant first. -/
def leBytes : Nat → Nat → List UInt8
  | 0, _ => []
  | w + 1, n => UInt8.ofNat n :: leBytes w (n / 256)

/-- A big-endian number. -/
def beNat (bs : List UInt8) : Nat := leNat bs.reverse

/-- The `w` low bytes of `n`, most significant first. -/
def beBytes (w n : Nat) : List UInt8 := (leBytes w n).reverse

@[simp] theorem length_leBytes : ∀ w n, (leBytes w n).length = w
  | 0, _ => rfl
  | w + 1, n => by rw [leBytes, List.length_cons, length_leBytes w]

@[simp] theorem length_beBytes (w n : Nat) : (beBytes w n).length = w := by
  rw [beBytes, List.length_reverse, length_leBytes]

theorem leNat_lt : ∀ bs : List UInt8, leNat bs < 256 ^ bs.length
  | [] => by simp [leNat]
  | b :: bs => by
    have ih := leNat_lt bs
    have hb := b.toNat_lt
    rw [leNat, List.length_cons, pow_succ]
    omega

/-- What is left of a number when only its `w` low bytes are written. -/
theorem leNat_leBytes_mod (w n : Nat) : leNat (leBytes w n) = n % 256 ^ w := by
  induction w generalizing n with
  | zero => rw [leBytes, leNat, pow_zero, Nat.mod_one]
  | succ w ih =>
    rw [leBytes, leNat, ih, UInt8.toNat_ofNat', pow_succ' 256 w, Nat.mod_mul]

theorem leNat_leBytes {w n : Nat} (h : n < 256 ^ w) : leNat (leBytes w n) = n := by
  rw [leNat_leBytes_mod, Nat.mod_eq_of_lt h]

theorem leBytes_leNat : ∀ bs : List UInt8, leBytes bs.length (leNat bs) = bs
  | [] => rfl
  | b :: bs => by
    have hb := b.toNat_lt
    have hhead : UInt8.ofNat (b.toNat + 256 * leNat bs) = b := by
      apply UInt8.toNat_inj.mp
      rw [UInt8.toNat_ofNat']
      omega
    have htail : (b.toNat + 256 * leNat bs) / 256 = leNat bs := by omega
    rw [leNat, List.length_cons, leBytes, hhead, htail, leBytes_leNat bs]

theorem leNat_append : ∀ as bs : List UInt8,
    leNat (as ++ bs) = leNat as + 256 ^ as.length * leNat bs
  | [], bs => by simp [leNat]
  | a :: as, bs => by
    rw [List.cons_append, leNat, leNat_append as bs, leNat, List.length_cons, pow_succ]
    ring

theorem beNat_beBytes {w n : Nat} (h : n < 256 ^ w) : beNat (beBytes w n) = n := by
  rw [beNat, beBytes, List.reverse_reverse, leNat_leBytes h]

theorem beNat_lt (bs : List UInt8) : beNat bs < 256 ^ bs.length := by
  rw [beNat, ← List.length_reverse]
  exact leNat_lt _

end Mocha.Lib
