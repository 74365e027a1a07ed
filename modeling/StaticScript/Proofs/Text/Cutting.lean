import Mathlib.Data.List.Basic

/-!
# Texts joined and cut apart

A text that is put together of two parts is cut in one way only where a class of characters ends
(`append_inj_of_all`).  Texts with a separator between them are the first one and then each of the
others behind a separator (`toList_intercalate_cons`).
-/

namespace StaticScript.Text

/-- **A text is cut in one way where a class of characters ends.** -/
theorem append_inj_of_all {p : Char → Bool} {a a' r r' : List Char}
    (ha : ∀ c ∈ a, p c = true) (ha' : ∀ c ∈ a', p c = true) (hr : ∀ c ∈ r.head?, p c = false)
    (hr' : ∀ c ∈ r'.head?, p c = false) (h : a ++ r = a' ++ r') : a = a' ∧ r = r' := by
  have hcut : ∀ {b s : List Char}, (∀ c ∈ b, p c = true) → (∀ c ∈ s.head?, p c = false) →
      (b ++ s).takeWhile p = b := by
    intro b s hb hs
    rw [List.takeWhile_append_of_pos hb]
    cases s with
    | nil => exact List.append_nil b
    | cons c s =>
      have hc : ¬ p c = true := Bool.eq_false_iff.1 (hs c rfl)
      rw [List.takeWhile_cons_of_neg hc, List.append_nil]
  have heq : a = a' := by rw [← hcut ha hr, h, hcut ha' hr']
  exact ⟨heq, List.append_cancel_left (heq ▸ h)⟩

theorem toList_intercalate_cons (separator x : String) (xs : List String) :
    (separator.intercalate (x :: xs)).toList =
      x.toList ++ xs.flatMap fun y => separator.toList ++ y.toList := by
  have hchars : ∀ (sep cs : List Char) (l : List (List Char)),
      sep.intercalate (cs :: l) = cs ++ l.flatMap (sep ++ ·) := by
    intro sep cs l
    induction l generalizing cs with
    | nil => simp [List.intercalate]
    | cons ds l ih => rw [List.intercalate_cons_cons, ih]; simp
  rw [String.toList_intercalate, List.map_cons, hchars, List.flatMap_map]

end StaticScript.Text
