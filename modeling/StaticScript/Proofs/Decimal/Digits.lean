import Mathlib.Data.List.Basic

/-!
# Decimal digits

A natural number is read back from its digits, of which the first is a zero only for zero itself,
and the last only for a multiple of ten.  So a whole number is determined by its text
(`toString_injective`), with its sign if it has one.
-/

namespace StaticScript.Decimal

theorem isDigit_of_mem_toDigits {n : Nat} : ∀ c ∈ Nat.toDigits 10 n, c.isDigit = true :=
  fun _ hc => Nat.isDigit_of_mem_toDigits (by decide) (by decide) hc

theorem toDigits_injective : Function.Injective (Nat.toDigits 10) := by
  intro m n h
  rw [← @Nat.ofDigitChars_ten_toDigits m, h, Nat.ofDigitChars_ten_toDigits]

theorem head?_toDigits {n : Nat} (hn : 0 < n) : (Nat.toDigits 10 n).head? ≠ some '0' := by
  induction n using Nat.strongRecOn with
  | ind n ih =>
    rw [Nat.toDigits_eq_if (by decide)]
    split
    · rename_i hlt
      have hdigit : ∀ d < 10, 0 < d → Nat.digitChar d ≠ '0' := by decide
      simpa using hdigit n hlt hn
    · have hfirst := ih (n / 10) (by omega) (by omega)
      obtain ⟨d, ds, hds⟩ := List.exists_cons_of_ne_nil (@Nat.toDigits_ne_nil (n / 10) 10)
      rw [hds] at hfirst ⊢
      exact hfirst

theorem getLast?_toDigits {n : Nat} (hn : n % 10 ≠ 0) :
    (Nat.toDigits 10 n).getLast? ≠ some '0' := by
  have hdigit : ∀ d < 10, d ≠ 0 → Nat.digitChar d ≠ '0' := by decide
  have hlast := hdigit (n % 10) (Nat.mod_lt _ (by decide)) hn
  rw [Nat.toDigits_eq_if (by decide)]
  split
  · rename_i hlt
    rw [Nat.mod_eq_of_lt hlt] at hlast
    simpa using hlast
  · simpa using hlast

/-! ### Whole numbers with a sign -/

/-- A whole number is written as its sign and the digits of its magnitude. -/
theorem toList_toString (z : Int) :
    (toString z).toList = (if z < 0 then ['-'] else []) ++ Nat.toDigits 10 z.natAbs := by
  have hrepr : ∀ n : Nat, (Nat.repr n).toList = Nat.toDigits 10 n := fun n =>
    (congrArg String.toList Nat.repr_eq_ofList_toDigits).trans String.toList_ofList
  cases z with
  | ofNat n =>
    rw [if_neg (by simp)]
    exact hrepr n
  | negSucc n =>
    rw [if_pos (Int.negSucc_lt_zero n)]
    change ("-" ++ Nat.repr n.succ).toList = _
    rw [String.toList_append, hrepr]
    rfl

/-- **A whole number is determined by its text.** -/
theorem toString_injective : Function.Injective (toString : Int → String) := by
  have hminus : ∀ m n : Nat, '-' :: Nat.toDigits 10 m ≠ Nat.toDigits 10 n := by
    intro m n h
    cases isDigit_of_mem_toDigits '-' (h ▸ List.mem_cons_self)
  intro y z h
  have hlist := congrArg String.toList h
  rw [toList_toString, toList_toString] at hlist
  by_cases hy : y < 0 <;> by_cases hz : z < 0
  · rw [if_pos hy, if_pos hz] at hlist
    have habs := toDigits_injective (List.append_cancel_left hlist)
    omega
  · rw [if_pos hy, if_neg hz] at hlist
    exact absurd hlist (hminus _ _)
  · rw [if_neg hy, if_pos hz] at hlist
    exact absurd hlist.symm (hminus _ _)
  · rw [if_neg hy, if_neg hz] at hlist
    have habs := toDigits_injective (List.append_cancel_left hlist)
    omega

end StaticScript.Decimal
