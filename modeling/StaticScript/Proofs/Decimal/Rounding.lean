import StaticScript.Decimal.Scaled
import Mathlib.Data.Nat.Cast.Field
import Mathlib.Data.Rat.Floor
import Mathlib.Tactic.Ring
import Mathlib.Tactic.Linarith
import Mathlib.Tactic.Positivity

/-!
# Rounding a quotient keeps its floor

A double-precision number has 53 bits.  A quotient `n / d` with `n < 2 ^ 53` that is not whole stays
at least `1 / d` away from the whole numbers, which is more than the half step that rounding moves
it.  So `Double.nearest`, the double nearest to a rational number, has the floor of the number
(`Double.floor_nearest`).
-/

namespace StaticScript.Double

/-! ### Rounded division -/

theorem roundDiv_of_dvd {n d : Nat} (hd : 0 < d) (h : d ∣ n) : roundDiv n d = n / d := by
  simp [roundDiv, Nat.mod_eq_zero_of_dvd h, hd]

theorem div_le_roundDiv (n d : Nat) : n / d ≤ roundDiv n d ∧ roundDiv n d ≤ n / d + 1 := by
  simp only [roundDiv]
  split <;> omega

/-- The rounded quotient is at most half of the divisor off. -/
theorem roundDiv_near {n d : Nat} (hd : 0 < d) :
    2 * n ≤ 2 * (roundDiv n d * d) + d ∧ 2 * (roundDiv n d * d) ≤ 2 * n + d := by
  have hn := Nat.div_add_mod' n d
  have hr := Nat.mod_lt n hd
  simp only [roundDiv]
  split
  · omega
  · have hnext := Nat.add_one_mul (n / d) d
    omega

/-! ### The nearest double -/

/-- The number of units in one is two to this.  It is not unfolded, lest that number be formed. -/
@[irreducible] def bias : Nat := 1074

/-- The exponent of the step at `n / d`, in units of `2 ^ (-1074)`. -/
def step (n d : Nat) : Nat := Nat.log2 (n * 2 ^ bias / d) - 52

theorem step_spec {n d : Nat} (hd : 0 < d) :
    n * 2 ^ bias / d < 2 ^ (step n d + 53) ∧
      (step n d ≠ 0 → 2 ^ (step n d + 52) * d ≤ n * 2 ^ bias) := by
  unfold step
  generalize n * 2 ^ bias = u
  have hlt : u / d < 2 ^ (Nat.log2 (u / d) + 1) := Nat.lt_log2_self
  refine ⟨hlt.trans_le (Nat.pow_le_pow_right (by decide) (by omega)), fun hstep => ?_⟩
  have hne : u / d ≠ 0 := by
    intro h
    simp [h] at hstep
  rw [Nat.sub_add_cancel (by omega)]
  exact (Nat.le_div_iff_mul_le hd).1 (Nat.log2_self_le hne)

/-- The significand of the double nearest to `n / d`, before a carry. -/
def rounded (n d : Nat) : Nat := roundDiv (n * 2 ^ bias) (d * 2 ^ step n d)

theorem nearestRank_eq (n d : Nat) : nearestRank n d = step n d * block + rounded n d := by
  unfold nearestRank rounded step bias
  generalize (1074 : Nat) = e
  rfl

theorem rounded_bounds {n d : Nat} (hd : 0 < d) :
    rounded n d ≤ 2 * block ∧ (step n d ≠ 0 → block ≤ rounded n d) := by
  obtain ⟨hlt, hle⟩ := step_spec (n := n) hd
  obtain ⟨hlow, hhigh⟩ := div_le_roundDiv (n * 2 ^ bias) (d * 2 ^ step n d)
  have hpos : 0 < 2 ^ step n d := Nat.pow_pos (by decide)
  constructor
  · have hquot : n * 2 ^ bias / (d * 2 ^ step n d) < 2 * block := by
      rw [← Nat.div_div_eq_div_mul, Nat.div_lt_iff_lt_mul hpos]
      refine hlt.trans_eq ?_
      rw [Nat.add_comm, Nat.pow_add]
      rfl
    exact hhigh.trans hquot
  · intro hstep
    refine le_trans ?_ hlow
    rw [Nat.le_div_iff_mul_le (Nat.mul_pos hd hpos)]
    refine le_trans (le_of_eq ?_) (hle hstep)
    rw [Nat.add_comm, Nat.pow_add, Nat.mul_comm d, ← Nat.mul_assoc]
    rfl

theorem units_of_shift {x : Double} {s q : Nat} (hs : x.shift = s)
    (h : x.rank = s * block + q) : x.units = q * 2 ^ s := by
  rw [units, significand, hs, h, Nat.add_sub_cancel_left]
  rfl

/-- The magnitude of a rank that is given by a step and a significand, which may carry. -/
theorem units_of_rank {x : Double} {s q : Nat} (h : x.rank = s * block + q) (hq : q ≤ 2 * block)
    (hs : s ≠ 0 → block ≤ q) : x.units = q * 2 ^ s := by
  have hblock : 0 < block := by decide
  have hshift : x.shift = s + q / block - 1 := by
    rw [shift, h, Nat.add_comm, Nat.add_mul_div_right _ _ hblock, Nat.add_comm]
  rcases Nat.lt_or_ge q block with hsmall | hlarge
  · obtain rfl : s = 0 := by
      by_contra hne
      exact absurd (hs hne) (by omega)
    rw [Nat.div_eq_of_lt hsmall] at hshift
    exact units_of_shift hshift h
  rcases Nat.lt_or_ge q (2 * block) with hone | htwo
  · rw [Nat.div_eq_of_lt_le (by omega) (by omega : q < (1 + 1) * block)] at hshift
    exact units_of_shift hshift h
  · obtain rfl : q = 2 * block := by omega
    rw [Nat.mul_div_cancel _ hblock] at hshift
    replace hshift : x.shift = s + 1 := hshift
    have hcarry : x.rank = (s + 1) * block + block := by
      rw [h]
      ring
    rw [units_of_shift hshift hcarry]
    ring

theorem units_nearestRank {x : Double} {n d : Nat} (hd : 0 < d) (h : x.rank = nearestRank n d) :
    x.units = rounded n d * 2 ^ step n d :=
  units_of_rank (nearestRank_eq n d ▸ h) (rounded_bounds hd).1 (rounded_bounds hd).2

section

variable {x : Double} {n d : Nat}

theorem step_le (hd : 0 < d) (hn : n < 2 ^ 53) : step n d ≤ bias := by
  by_contra hlarge
  have hle := (step_spec (n := n) hd).2 (by omega)
  have hpow : 2 ^ (53 + bias) ≤ 2 ^ (step n d + 52) :=
    Nat.pow_le_pow_right (by decide) (by omega)
  have hunits : n * 2 ^ bias < 2 ^ (53 + bias) := by
    rw [Nat.pow_add]
    exact (Nat.mul_lt_mul_right (Nat.two_pow_pos bias)).2 hn
  have hself := Nat.le_mul_of_pos_right (2 ^ (step n d + 52)) hd
  exact absurd (hpow.trans (hself.trans hle)) (Nat.not_le_of_lt hunits)

/-- A step at `n / d` is less than two parts in `d`. -/
theorem step_mul_lt (hd : 0 < d) (hn : n < 2 ^ 53) (hdn : d < 2 ^ 53) :
    2 ^ step n d * d < 2 * 2 ^ bias := by
  by_cases hstep : step n d = 0
  · rw [hstep, Nat.pow_zero, Nat.one_mul]
    have hbias : 2 ^ 53 ≤ 2 ^ bias := Nat.pow_le_pow_right (by decide) (by simp [bias])
    omega
  · have hle := (step_spec (n := n) hd).2 hstep
    have hunits := (Nat.mul_lt_mul_right (Nat.two_pow_pos bias)).2 hn
    rw [Nat.pow_add, Nat.mul_right_comm] at hle
    omega

theorem units_of_dvd (hd : 0 < d) (hn : n < 2 ^ 53) (h : x.rank = nearestRank n d)
    (hdvd : d ∣ n) : x.units = n / d * 2 ^ bias := by
  have hpow : 2 ^ step n d ∣ 2 ^ bias := Nat.pow_dvd_pow 2 (step_le hd hn)
  have hexact : d * 2 ^ step n d ∣ n * 2 ^ bias := Nat.mul_dvd_mul hdvd hpow
  rw [units_nearestRank hd h, rounded, roundDiv_of_dvd (by positivity) hexact,
    Nat.mul_div_mul_comm hdvd hpow, Nat.mul_assoc, Nat.div_mul_cancel hpow]

theorem units_between (hd : 0 < d) (hn : n < 2 ^ 53) (hdn : d < 2 ^ 53)
    (h : x.rank = nearestRank n d) (hdvd : ¬ d ∣ n) :
    n / d * 2 ^ bias < x.units ∧ x.units < (n / d + 1) * 2 ^ bias := by
  have hstep := step_mul_lt hd hn hdn
  obtain ⟨hlow, hhigh⟩ := roundDiv_near (n := n * 2 ^ bias) (d := d * 2 ^ step n d) (by positivity)
  have hunits : roundDiv (n * 2 ^ bias) (d * 2 ^ step n d) * (d * 2 ^ step n d) = x.units * d := by
    rw [units_nearestRank hd h, rounded]
    ring
  rw [hunits, Nat.mul_comm d] at hlow hhigh
  -- The remainder keeps `n / d` off both whole numbers by `1 / d`, more than half a step.
  have hdiv := Nat.div_add_mod' n d
  have hmod : 0 < n % d := Nat.pos_of_ne_zero fun h => hdvd (Nat.dvd_of_mod_eq_zero h)
  have hlt := Nat.mod_lt n hd
  have hbelow : n / d * 2 ^ bias * d + 2 ^ bias ≤ n * 2 ^ bias :=
    calc n / d * 2 ^ bias * d + 2 ^ bias = (n / d * d + 1) * 2 ^ bias := by ring
      _ ≤ n * 2 ^ bias := Nat.mul_le_mul_right _ (by omega)
  have habove : n * 2 ^ bias + 2 ^ bias ≤ (n / d + 1) * 2 ^ bias * d :=
    calc n * 2 ^ bias + 2 ^ bias = (n + 1) * 2 ^ bias := by ring
      _ ≤ (n / d * d + d) * 2 ^ bias := Nat.mul_le_mul_right _ (by omega)
      _ = (n / d + 1) * 2 ^ bias * d := by ring
  exact ⟨Nat.lt_of_mul_lt_mul_right (a := d) (by omega),
    Nat.lt_of_mul_lt_mul_right (a := d) (by omega)⟩

theorem nearestRank_lt (hd : 0 < d) (hn : n < 2 ^ 53) : nearestRank n d < ranks := by
  have hstep := Nat.mul_le_mul_right block (step_le hd hn)
  have hrounded := (rounded_bounds (n := n) hd).1
  have hbias : bias * block + 2 * block < ranks := by
    unfold bias
    decide
  rw [nearestRank_eq]
  omega

end

/-! ### Rational numbers -/

/-- A magnitude with its sign. -/
def signed (negative : Bool) (r : ℚ) : ℚ := if negative then -r else r

/-- The number that a double stands for. -/
def toRat (x : Double) : ℚ := signed x.negative (x.units / (2 ^ bias : Nat))

/-- The double nearest to a number.  A number too large for a double stays as it is. -/
def nearest (q : ℚ) : ℚ :=
  ((ofRank? (q < 0) (nearestRank q.num.natAbs q.den)).map toRat).getD q

theorem signed_abs (q : ℚ) : signed (q < 0) |q| = q := by
  rcases lt_or_ge q 0 with h | h
  · simp [signed, h, abs_of_neg h]
  · simp [signed, not_lt.2 h, abs_of_nonneg h]

theorem floor_signed_of_between {a b : ℚ} {k : Nat} (ha : k < a ∧ a < k + 1)
    (hb : k < b ∧ b < k + 1) (negative : Bool) : ⌊signed negative a⌋ = ⌊signed negative b⌋ := by
  have hfloor : ∀ c : ℚ, k < c ∧ c < k + 1 →
      ⌊signed negative c⌋ = if negative then -(k + 1 : Int) else k := by
    rintro c ⟨hlow, hhigh⟩
    rw [Int.floor_eq_iff, signed]
    split <;> push_cast <;> constructor <;> linarith
  rw [hfloor a ha, hfloor b hb]

/-- **Rounding a quotient of numbers below `2 ^ 53` keeps its floor.** -/
theorem floor_nearest {q : ℚ} (hnum : q.num.natAbs < 2 ^ 53) (hden : q.den < 2 ^ 53) :
    ⌊nearest q⌋ = ⌊q⌋ := by
  have hd : 0 < q.den := q.den_pos
  have hrank := nearestRank_lt hd hnum
  have hdq : (0 : ℚ) < q.den := Nat.cast_pos.2 hd
  have hone : (0 : ℚ) < (2 ^ bias : Nat) := Nat.cast_pos.2 (Nat.two_pow_pos bias)
  have habs : |q| = q.num.natAbs / q.den := by rw [Rat.abs_def, Rat.divInt_eq_div]; simp
  generalize hx : (⟨q < 0, nearestRank q.num.natAbs q.den, hrank⟩ : Double) = x
  have hxrank : x.rank = nearestRank q.num.natAbs q.den := by rw [← hx]
  have hnearest : nearest q = signed (q < 0) (x.units / (2 ^ bias : Nat)) := by
    simp only [nearest, ofRank?, hrank, ← hx, toRat, dite_true, Option.map_some, Option.getD_some]
  rw [hnearest]
  conv_rhs => rw [← signed_abs q, habs]
  by_cases hdvd : q.den ∣ q.num.natAbs
  · rw [units_of_dvd hd hnum hxrank hdvd, Nat.cast_mul, mul_div_cancel_right₀ _ hone.ne',
      Nat.cast_div hdvd hdq.ne']
  · obtain ⟨hlow, hhigh⟩ := units_between hd hnum hden hxrank hdvd
    refine floor_signed_of_between (k := q.num.natAbs / q.den) ⟨?_, ?_⟩ ⟨?_, ?_⟩ _
    · rw [lt_div_iff₀ hone]
      exact_mod_cast hlow
    · rw [div_lt_iff₀ hone]
      exact_mod_cast hhigh
    · rw [lt_div_iff₀ hdq]
      exact_mod_cast (Nat.div_mul_le_self _ _).lt_of_ne fun h => hdvd (Dvd.intro_left _ h)
    · rw [div_lt_iff₀ hdq]
      exact_mod_cast Nat.lt_mul_of_div_lt (Nat.lt_succ_self _) hd

end StaticScript.Double
