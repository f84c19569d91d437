import Mathlib.Logic.Function.Basic

/-!
# Decimal digits

A number can be read back from its digits, and no character but a digit stands among
them.  So the text of an integer tells its sign as well.
-/

namespace Storyboard

theorem toDigits_injective : Function.Injective (Nat.toDigits 10) :=
  Function.LeftInverse.injective (g := fun digits => Nat.ofDigitChars 10 digits 0) fun _ =>
    Nat.ofDigitChars_ten_toDigits

theorem notMem_toDigits {c : Char} (h : c.isDigit = false) (n : Nat) :
    c ∉ Nat.toDigits 10 n := by
  intro hmem
  have hdigit := Nat.isDigit_of_mem_toDigits (by decide) (by decide) hmem
  exact Bool.false_ne_true (h.symm.trans hdigit)

theorem toList_repr_ofNat (n : Nat) : (Int.ofNat n).repr.toList = Nat.toDigits 10 n :=
  Nat.toList_repr

theorem toList_repr_negSucc (n : Nat) :
    (Int.negSucc n).repr.toList = '-' :: Nat.toDigits 10 (n + 1) := by
  simp [Int.repr]

theorem toList_repr_injective : Function.Injective fun n : Int => n.repr.toList := by
  intro i j h
  change i.repr.toList = j.repr.toList at h
  match i, j with
  | .ofNat m, .ofNat k =>
      rw [toList_repr_ofNat, toList_repr_ofNat] at h
      rw [toDigits_injective h]
  | .negSucc m, .negSucc k =>
      rw [toList_repr_negSucc, toList_repr_negSucc] at h
      rw [Nat.succ.inj (toDigits_injective (List.cons.inj h).2)]
  | .ofNat m, .negSucc k =>
      rw [toList_repr_ofNat, toList_repr_negSucc] at h
      exact absurd (h ▸ List.mem_cons_self) (notMem_toDigits rfl m)
  | .negSucc m, .ofNat k =>
      rw [toList_repr_negSucc, toList_repr_ofNat] at h
      exact absurd (h ▸ List.mem_cons_self) (notMem_toDigits rfl k)

end Storyboard
