import StaticScript.Decimal.Shortest
import StaticScript.Proofs.Decimal.Digits
import StaticScript.Proofs.Decimal.Rounding
import StaticScript.Proofs.Text.Cutting

/-!
# The text of a double determines it

`Double.text` lays out decimal digits that read back as the double, so that two doubles with the
same text are the same (`Double.text_injective`).

There are two steps.  The layout can be undone: digits that neither begin nor end in a zero, and the
power of ten at which they begin, are found again in what is made of them (`LaidOut.inj`).  And the
digits stand for a number to which the double is the nearest one (`shortest_spec`), whether they
come from a grid or are all digits that the double has.  The nearest double depends on the number
only and not on the fraction by which it is given (`nearestRank_congr`).
-/

namespace StaticScript.Double

/-! ### The nearest double to a fraction -/

theorem roundDiv_mul {k : Nat} (hk : 0 < k) (n d : Nat) :
    roundDiv (n * k) (d * k) = roundDiv n d := by
  have hlt : 2 * (n % d * k) < d * k ↔ 2 * (n % d) < d := by
    rw [← Nat.mul_assoc]
    exact Nat.mul_lt_mul_right hk
  have heq : 2 * (n % d * k) = d * k ↔ 2 * (n % d) = d := by
    rw [← Nat.mul_assoc]
    exact Nat.mul_left_inj hk.ne'
  simp only [roundDiv, Nat.mul_div_mul_right _ _ hk, Nat.mul_mod_mul_right, hlt, heq]

theorem nearestRank_mul {k : Nat} (hk : 0 < k) (n d : Nat) :
    nearestRank (n * k) (d * k) = nearestRank n d := by
  have hstep : step (n * k) (d * k) = step n d := by
    rw [step, step, Nat.mul_right_comm, Nat.mul_div_mul_right _ _ hk]
  rw [nearestRank_eq, nearestRank_eq, rounded, rounded, hstep, Nat.mul_right_comm n,
    Nat.mul_right_comm d, roundDiv_mul hk]

/-- **The nearest double depends on the number only**, not on the fraction that gives it. -/
theorem nearestRank_congr {n d n' d' : Nat} (hd : 0 < d) (hd' : 0 < d')
    (h : (n / d : ℚ) = n' / d') : nearestRank n d = nearestRank n' d' := by
  have hcross : n * d' = n' * d := by
    rw [div_eq_div_iff (Nat.cast_pos.2 hd).ne' (Nat.cast_pos.2 hd').ne'] at h
    exact_mod_cast h
  calc nearestRank n d = nearestRank (n * d') (d * d') := (nearestRank_mul hd' n d).symm
    _ = nearestRank (n' * d) (d' * d) := by rw [hcross, Nat.mul_comm d]
    _ = nearestRank n' d' := nearestRank_mul hd n' d'

/-- The magnitude of `x` is the one nearest to `q`. -/
def IsNearest (x : Double) (q : ℚ) : Prop :=
  ∃ n d : Nat, 0 < d ∧ (n / d : ℚ) = q ∧ x.rank = nearestRank n d

theorem IsNearest.rank_eq {x y : Double} {q : ℚ} (hx : x.IsNearest q) (hy : y.IsNearest q) :
    x.rank = y.rank := by
  obtain ⟨n, d, hd, hq, hrank⟩ := hx
  obtain ⟨n', d', hd', hq', hrank'⟩ := hy
  rw [hrank, hrank', nearestRank_congr hd hd' (hq.trans hq'.symm)]

/-- Only zero is nearest to zero. -/
theorem IsNearest.ne_zero {x : Double} {q : ℚ} (hx : x.IsNearest q) (hrank : x.rank ≠ 0) :
    q ≠ 0 := by
  rintro rfl
  obtain ⟨n, d, hd, hq, hn⟩ := hx
  obtain rfl : n = 0 := by simpa [hd.ne'] using hq
  apply hrank
  rw [hn, nearestRank_eq, step, rounded, roundDiv_of_dvd (by positivity) (by simp)]
  simp [Nat.log2]

/-- The rank of a double by its step and its significand, which has 53 bits from the first full step
on. -/
theorem significand_spec (x : Double) : x.rank = x.shift * block + x.significand ∧
    x.significand < 2 * block ∧ (x.shift ≠ 0 → block ≤ x.significand) := by
  have hdiv := Nat.div_add_mod' x.rank block
  have hmod := Nat.mod_lt x.rank (show 0 < block by decide)
  rw [significand, shift]
  cases hq : x.rank / block with
  | zero =>
    rw [hq] at hdiv
    omega
  | succ q =>
    rw [hq, Nat.add_one_mul] at hdiv
    rw [Nat.add_sub_cancel]
    omega

/-- **A double is the nearest one to its own magnitude.** -/
theorem nearestRank_units (x : Double) : nearestRank x.units (2 ^ bias) = x.rank := by
  have hpow : 0 < 2 ^ bias := Nat.two_pow_pos bias
  obtain ⟨hrank, hlt, hle⟩ := significand_spec x
  obtain ⟨hstep, hfull⟩ := step_spec (n := x.units) hpow
  rw [Nat.mul_div_cancel _ hpow] at hstep
  have hunits : x.units = x.significand * 2 ^ x.shift := rfl
  have hupper : x.units < 2 ^ (x.shift + 53) := by
    rw [hunits, Nat.add_comm, Nat.pow_add]
    exact Nat.mul_lt_mul_of_pos_right hlt (Nat.two_pow_pos _)
  -- Both exponents are the number of bits of the magnitude less 53, or zero.
  have hshift : step x.units (2 ^ bias) = x.shift := by
    apply Nat.le_antisymm
    · by_contra hgt
      have hlower := Nat.le_of_mul_le_mul_right (hfull (by omega)) hpow
      have hexp := (Nat.pow_lt_pow_iff_right (by decide)).1 (hlower.trans_lt hupper)
      omega
    · by_contra hgt
      have hlower : 2 ^ (x.shift + 52) ≤ x.units := by
        rw [hunits, Nat.add_comm, Nat.pow_add]
        exact Nat.mul_le_mul_right _ (hle (by omega))
      have hexp := (Nat.pow_lt_pow_iff_right (by decide)).1 (hlower.trans_lt hstep)
      omega
  rw [nearestRank_eq, rounded, hshift, Nat.mul_comm (2 ^ bias), roundDiv_mul hpow, hunits,
    roundDiv_of_dvd (Nat.two_pow_pos _) (Nat.dvd_mul_left _ _),
    Nat.mul_div_cancel _ (Nat.two_pow_pos _), ← hrank]

/-! ### Decimal numbers -/

/-- The number that digits and a power of ten stand for. -/
def decimal (p : Nat × Int) : ℚ := p.1 * 10 ^ p.2

theorem isNearest_of_readsBack {x : Double} {digits : Nat} {exponent : Int}
    (h : x.readsBack digits exponent = true) (hrank : x.rank ≠ 0) :
    x.IsNearest (decimal (digits, exponent)) := by
  have hzero : ∀ negative, some (zero negative) ≠ some x := by
    intro negative heq
    rw [← Option.some.inj heq] at hrank
    exact hrank rfl
  have hread : ofDecimal? x.negative digits exponent = some x := by
    simpa [readsBack] using h
  unfold ofDecimal? at hread
  split_ifs at hread
  · exact absurd hread (hzero _)
  · exact absurd hread (hzero _)
  · have hof : ∀ {r : Nat}, ofRank? x.negative r = some x → x.rank = r := by
      intro r hr
      unfold ofRank? at hr
      split at hr
      · rw [← Option.some.inj hr]
      · cases hr
    cases exponent with
    | ofNat e =>
      refine ⟨digits * 10 ^ e, 1, one_pos, ?_, hof hread⟩
      simp [decimal]
    | negSucc e =>
      refine ⟨digits, 10 ^ (e + 1), by positivity, ?_, hof hread⟩
      rw [decimal, zpow_negSucc, div_eq_mul_inv]
      push_cast
      rfl

/-- All digits of a double stand for its magnitude. -/
theorem decimal_exactDecimal (x : Double) :
    decimal x.exactDecimal = (x.units / (2 ^ bias : Nat) : ℚ) := by
  have hbias : bias = 1074 := by
    unfold bias
    rfl
  have htwo : (2 : ℚ) ≠ 0 := two_ne_zero
  have hunits : x.units = x.significand * 2 ^ x.shift := rfl
  rw [exactDecimal, ← hbias, hunits]
  split
  · rename_i hle
    obtain ⟨k, hk⟩ := Nat.exists_eq_add_of_le hle
    rw [hk, Nat.add_sub_cancel_left, decimal, Nat.pow_eq, zpow_zero, mul_one, pow_add]
    push_cast
    field_simp
  · rename_i hlt
    obtain ⟨k, hk⟩ := Nat.exists_eq_add_of_le (Nat.le_of_not_le hlt)
    have hten : (10 : ℚ) ^ k = 5 ^ k * 2 ^ k := by rw [← mul_pow]; norm_num
    rw [hk, Nat.add_sub_cancel_left, decimal, Nat.pow_eq, zpow_neg, zpow_natCast, hten, pow_add]
    push_cast
    field_simp

/-- Moving zeros into the exponent does not change the number. -/
theorem decimal_stripZeros (fuel digits : Nat) (exponent : Int) :
    decimal (stripZeros fuel digits exponent) = decimal (digits, exponent) := by
  induction fuel generalizing digits exponent with
  | zero => rfl
  | succ fuel ih =>
    rw [stripZeros]
    split
    · rename_i h
      obtain ⟨k, rfl⟩ := Nat.dvd_of_mod_eq_zero h.1
      rw [ih, Nat.mul_div_cancel_left k (by decide), decimal, decimal, zpow_add_one₀ (by norm_num)]
      push_cast
      ring
    · rfl

theorem mod_ten_stripZeros {fuel digits : Nat} (hdigits : digits ≠ 0) (h : digits < 10 ^ fuel)
    (exponent : Int) : (stripZeros fuel digits exponent).1 % 10 ≠ 0 := by
  induction fuel generalizing digits exponent with
  | zero => omega
  | succ fuel ih =>
    rw [stripZeros]
    split
    · rename_i hzero
      exact ih (by omega) (by rw [Nat.pow_succ] at h; omega) _
    · rename_i hzero
      exact fun hmod => hzero ⟨hmod, hdigits⟩

theorem lt_pow_digitCount (n : Nat) : n < 10 ^ digitCount n :=
  (Nat.length_toDigits_le_iff (by decide) Nat.length_toDigits_pos).1 (Nat.le_refl _)

theorem readsBack_of_onGrid? {x : Double} {digits count n : Nat} {exponent : Int} {p : Nat × Int}
    (h : x.onGrid? digits exponent count n = some p) : x.readsBack p.1 p.2 = true := by
  unfold onGrid? at h
  dsimp only at h
  split_ifs at h with hlow hhigh
  · rw [← Option.some.inj h]
    exact (Bool.and_eq_true_iff.1 hlow).1
  · rw [← Option.some.inj h]
    exact hhigh

/-- **The fewest digits stand for a number to which the double is the nearest one**, and the last of
them is not a zero. -/
theorem shortest_spec {x : Double} (hrank : x.rank ≠ 0) :
    x.IsNearest (decimal x.shortest) ∧ x.shortest.1 % 10 ≠ 0 := by
  obtain ⟨hit, hfound, hshortest⟩ : ∃ hit : Option (Nat × Int),
      (∀ p ∈ hit, x.readsBack p.1 p.2 = true) ∧ x.shortest =
        stripZeros (digitCount (hit.getD x.exactDecimal).1) (hit.getD x.exactDecimal).1
          (hit.getD x.exactDecimal).2 := by
    refine ⟨_, fun p hp => ?_, rfl⟩
    obtain ⟨n, -, hgrid⟩ := List.exists_of_findSome?_eq_some hp
    exact readsBack_of_onGrid? hgrid
  -- The digits come from a grid, or they are all digits of the double.
  have hnearest : x.IsNearest (decimal (hit.getD x.exactDecimal)) := by
    cases hit with
    | none =>
      exact ⟨x.units, 2 ^ bias, Nat.two_pow_pos bias, (decimal_exactDecimal x).symm,
        (nearestRank_units x).symm⟩
    | some p => exact isNearest_of_readsBack (hfound p rfl) hrank
  rw [hshortest]
  refine ⟨by rwa [decimal_stripZeros], mod_ten_stripZeros ?_ (lt_pow_digitCount _) _⟩
  intro hzero
  apply hnearest.ne_zero hrank
  rw [decimal, hzero, Nat.cast_zero, zero_mul]

/-! ### Layouts -/

/-- Digits of which neither the first nor the last is a zero. -/
structure Proper (ds : List Char) : Prop where
  digits : ∀ c ∈ ds, c.isDigit = true
  first : ds.head? ≠ some '0'
  last : ds.getLast? ≠ some '0'
  nonempty : ds ≠ []

theorem proper_toDigits {n : Nat} (h : n % 10 ≠ 0) : Proper (Nat.toDigits 10 n) :=
  ⟨Decimal.isDigit_of_mem_toDigits, Decimal.head?_toDigits (by omega),
    Decimal.getLast?_toDigits h, Nat.toDigits_ne_nil⟩

/-- The mantissa of a number that is written with an exponent. -/
def mantissa (d : Char) (rest : List Char) : List Char :=
  d :: if rest.isEmpty then [] else '.' :: rest

/-- The text of digits of which the first stands for a multiple of `10 ^ lead`. -/
inductive LaidOut (ds : List Char) (lead : Int) (t : List Char) : Prop
  /-- With an exponent, and with a point if there are several digits. -/
  | scientific (d : Char) (rest : List Char) (hds : ds = d :: rest)
      (ht : t = mantissa d rest ++ 'e' :: (toString lead).toList)
  /-- Written out, with zeros before or behind the digits so that there are some on both sides of
  the point. -/
  | plain (j k : Nat) (front part : List Char) (hfront : front ≠ [])
      (hlead : (front.length : Int) = lead + 1 + j)
      (hdigits : front ++ part = List.replicate j '0' ++ (ds ++ List.replicate k '0'))
      (ht : t = front ++ '.' :: part)

theorem laidOut_layOut (layout : Layout) {ds : List Char} (hds : ds ≠ []) (lead : Int) :
    LaidOut ds lead (layOut layout ds lead) := by
  unfold layOut
  split
  · obtain ⟨d, rest, rfl⟩ := List.exists_cons_of_ne_nil hds
    exact .scientific d rest rfl rfl
  cases lead with
  | negSucc n =>
    -- One zero stands before the point and `n` behind it.
    refine .plain (n + 1) 0 ['0'] _ (List.cons_ne_nil _ _) ?_ ?_ rfl
    · rw [List.length_singleton]
      omega
    · rw [List.replicate_succ, List.replicate_zero, List.append_nil]
      rfl
  | ofNat n =>
    have hlen : (ds.take (n + 1) ++ List.replicate (n + 1 - (ds.take (n + 1)).length) '0').length =
        n + 1 := by
      rw [List.length_append, List.length_replicate, List.length_take]
      omega
    have hfront := List.ne_nil_of_length_eq_add_one hlen
    have hlead : ((n + 1 : Nat) : Int) = Int.ofNat n + 1 + (0 : Nat) := by simp
    by_cases hle : ds.length ≤ n + 1
    · refine .plain 0 (n + 1 - ds.length + 1) _ _ hfront (by rw [hlen, hlead]) ?_ rfl
      rw [List.drop_eq_nil_of_le hle, List.take_of_length_le hle, List.append_assoc,
        List.replicate_succ']
      rfl
    · refine .plain 0 0 _ _ hfront (by rw [hlen, hlead]) ?_ rfl
      rw [if_neg (by simpa using hle), List.length_take, Nat.min_eq_left (by omega), Nat.sub_self,
        List.replicate_zero, List.append_nil, List.take_append_drop, List.append_nil]
      rfl

/-- Digits with zeros before and behind them are digits. -/
theorem Proper.isDigit_padded {ds : List Char} (hds : Proper ds) (j k : Nat) :
    ∀ c ∈ List.replicate j '0' ++ (ds ++ List.replicate k '0'), c.isDigit = true := by
  intro c hc
  rcases List.mem_append.1 hc with hzero | hc
  · rw [List.eq_of_mem_replicate hzero]
    rfl
  rcases List.mem_append.1 hc with hc | hzero
  · exact hds.digits c hc
  · rw [List.eq_of_mem_replicate hzero]
    rfl

/-- **Digits are found again among zeros before and behind them.** -/
theorem Proper.padded_inj {ds ds' : List Char} (hds : Proper ds) (hds' : Proper ds')
    {j k j' k' : Nat} (h : List.replicate j '0' ++ (ds ++ List.replicate k '0') =
      List.replicate j' '0' ++ (ds' ++ List.replicate k' '0')) : j = j' ∧ ds = ds' := by
  have hzeros : ∀ {n : Nat}, ∀ c ∈ List.replicate n '0', (c == '0') = true := by
    intro n c hc
    rw [List.eq_of_mem_replicate hc]
    rfl
  have hfirst : ∀ {ds : List Char} {k : Nat}, Proper ds →
      ∀ c ∈ (ds ++ List.replicate k '0').head?, (c == '0') = false := by
    intro ds k hds c hc
    obtain ⟨d, rest, rfl⟩ := List.exists_cons_of_ne_nil hds.nonempty
    obtain rfl : d = c := Option.some.inj hc
    exact beq_false_of_ne fun heq => hds.first (heq ▸ rfl)
  have hlast : ∀ {ds : List Char}, Proper ds → ∀ c ∈ ds.reverse.head?, (c == '0') = false := by
    intro ds hds c hc
    rw [List.head?_reverse] at hc
    exact beq_false_of_ne fun heq => hds.last (heq ▸ hc)
  obtain ⟨hj, h⟩ := Text.append_inj_of_all hzeros hzeros (hfirst hds) (hfirst hds') h
  -- Seen from behind, the zeros at the end stand in front.
  have hrev := congrArg List.reverse h
  rw [List.reverse_append, List.reverse_append, List.reverse_replicate, List.reverse_replicate]
    at hrev
  obtain ⟨-, hrev⟩ := Text.append_inj_of_all hzeros hzeros (hlast hds) (hlast hds') hrev
  exact ⟨by simpa using congrArg List.length hj, List.reverse_injective hrev⟩

/-- The characters that occur in the text of a number without a sign. -/
def isNumeral (c : Char) : Bool := c.isDigit || c == '.' || c == 'e' || c == '-'

theorem mantissa_inj {d d' : Char} {rest rest' : List Char}
    (h : mantissa d rest = mantissa d' rest') : d :: rest = d' :: rest' := by
  obtain ⟨hd, h⟩ := List.cons.inj h
  rw [hd]
  cases rest <;> cases rest' <;> simp_all

theorem isDigit_or_of_mem_mantissa {d : Char} {rest : List Char}
    (h : ∀ c ∈ d :: rest, c.isDigit = true) {c : Char} (hc : c ∈ mantissa d rest) :
    c.isDigit = true ∨ c = '.' := by
  rcases List.mem_cons.1 hc with rfl | hc
  · exact .inl (h _ List.mem_cons_self)
  · split at hc
    · cases hc
    · exact (List.mem_cons.1 hc).symm.imp_left fun hc => h c (List.mem_cons_of_mem _ hc)

section

variable {ds ds' t : List Char} {lead lead' : Int}

/-- There is no exponent where the digits are written out. -/
theorem notMem_plain {front part : List Char} {j k : Nat} (hds : Proper ds)
    (hdigits : front ++ part = List.replicate j '0' ++ (ds ++ List.replicate k '0')) :
    'e' ∉ front ++ '.' :: part := by
  have he : 'e' ∉ front ++ part := by
    intro hmem
    rw [hdigits] at hmem
    cases hds.isDigit_padded j k 'e' hmem
  simpa using he

/-- **A layout can be undone.** -/
theorem LaidOut.inj (hds : Proper ds) (hds' : Proper ds') (h : LaidOut ds lead t)
    (h' : LaidOut ds' lead' t) : ds = ds' ∧ lead = lead' := by
  cases h with
  | scientific d rest heq ht =>
    cases h' with
    | scientific d' rest' heq' ht' =>
      subst heq heq'
      -- The text is cut at the exponent.
      have hmantissa : ∀ {d : Char} {rest : List Char}, Proper (d :: rest) →
          ∀ c ∈ mantissa d rest, (c != 'e') = true := by
        intro d rest hds c hc
        rw [bne_iff_ne]
        rintro rfl
        cases isDigit_or_of_mem_mantissa hds.digits hc <;> contradiction
      have hcut := Text.append_inj_of_all (hmantissa hds) (hmantissa hds')
        (by simp) (by simp) (ht.symm.trans ht')
      refine ⟨mantissa_inj hcut.1, Decimal.toString_injective ?_⟩
      exact String.toList_injective (List.cons.inj hcut.2).2
    | plain j' k' front' part' _ _ hdigits' ht' =>
      refine absurd ?_ (notMem_plain hds' hdigits')
      rw [← ht', ht]
      simp
  | plain j k front part _ hlead hdigits ht =>
    cases h' with
    | scientific d' rest' _ ht' =>
      refine absurd ?_ (notMem_plain hds hdigits)
      rw [← ht, ht']
      simp
    | plain j' k' front' part' _ hlead' hdigits' ht' =>
      -- The text is cut at the point.
      have hcut : front = front' ∧ '.' :: part = '.' :: part' := by
        refine Text.append_inj_of_all (p := Char.isDigit) ?_ ?_ ?_ ?_ (ht.symm.trans ht')
        · exact fun c hc => hds.isDigit_padded j k c (hdigits ▸ List.mem_append_left _ hc)
        · exact fun c hc => hds'.isDigit_padded j' k' c (hdigits' ▸ List.mem_append_left _ hc)
        · simp
        · simp
      obtain ⟨rfl, hpart⟩ := hcut
      obtain rfl := (List.cons.inj hpart).2
      obtain ⟨rfl, hsame⟩ := hds.padded_inj hds' (hdigits.symm.trans hdigits')
      exact ⟨hsame, by omega⟩

/-- What is laid out begins with a digit, and a point or an exponent tells it from a whole
number. -/
theorem LaidOut.form (hds : Proper ds) (h : LaidOut ds lead t) :
    (∃ d cs, t = d :: cs ∧ d.isDigit = true) ∧ (∀ c ∈ t, isNumeral c = true) ∧
      ∃ c ∈ t, c.isDigit = false := by
  have hdigit : ∀ {c : Char}, c.isDigit = true → isNumeral c = true := by
    intro c hc
    rw [isNumeral, hc]
    rfl
  cases h with
  | scientific d rest heq ht =>
    subst heq
    refine ⟨⟨d, _, ht, hds.digits d List.mem_cons_self⟩, fun c hc => ?_, 'e', by simp [ht], rfl⟩
    rw [ht, List.mem_append, List.mem_cons, Decimal.toList_toString] at hc
    rcases hc with hc | rfl | hc
    · rcases isDigit_or_of_mem_mantissa hds.digits hc with hc | rfl
      · exact hdigit hc
      · rfl
    · rfl
    · rcases List.mem_append.1 hc with hc | hc
      · split at hc
        · rw [List.mem_singleton.1 hc]
          rfl
        · cases hc
      · exact hdigit (Decimal.isDigit_of_mem_toDigits c hc)
  | plain j k front part hfront _ hdigits ht =>
    have hpadded := hds.isDigit_padded j k
    rw [← hdigits] at hpadded
    obtain ⟨d, cs, rfl⟩ := List.exists_cons_of_ne_nil hfront
    refine ⟨⟨d, _, ht, hpadded d List.mem_cons_self⟩, fun c hc => ?_, '.', by simp [ht], rfl⟩
    rcases List.mem_append.1 (ht ▸ hc) with hc | hc
    · exact hdigit (hpadded c (List.mem_append_left _ hc))
    rcases List.mem_cons.1 hc with rfl | hc
    · rfl
    · exact hdigit (hpadded c (List.mem_append_right _ hc))

/-- The text of zero is not that of any digits. -/
theorem LaidOut.ne_zero (hds : Proper ds) (h : LaidOut ds lead t) : t ≠ ['0', '.', '0'] := by
  rintro rfl
  cases h with
  | scientific d rest _ ht =>
    have he : 'e' ∈ ['0', '.', '0'] := by
      rw [ht]
      simp
    contradiction
  | plain j k front part _ _ hdigits ht =>
    have hpadded := hds.isDigit_padded j k
    rw [← hdigits] at hpadded
    have hcut : ['0'] = front ∧ ['.', '0'] = '.' :: part := by
      refine Text.append_inj_of_all (p := Char.isDigit) ?_ ?_ (by simp) (by simp) ht
      · exact List.all_eq_true.1 rfl
      · exact fun c hc => hpadded c (List.mem_append_left _ hc)
    obtain ⟨rfl, hpart⟩ := hcut
    obtain rfl := (List.cons.inj hpart).2
    obtain ⟨d, rest, rfl⟩ := List.exists_cons_of_ne_nil hds.nonempty
    have hd : d ∈ ['0'] ++ ['0'] := by
      rw [hdigits]
      simp
    obtain rfl : d = '0' := by simpa using hd
    exact hds.first rfl

end

/-! ### Texts -/

/-- The text of a double without its sign. -/
def unsigned (x : Double) : List Char :=
  if x.rank = 0 then ['0', '.', '0']
  else layOut plainLayout (Nat.toDigits 10 x.shortest.1)
    (x.shortest.2 + (Nat.toDigits 10 x.shortest.1).length - 1)

theorem toList_text (x : Double) :
    x.text.toList = (if x.negative then ['-'] else []) ++ x.unsigned := by
  rw [text, String.toList_ofList]
  rfl

theorem laidOut_unsigned {x : Double} (hrank : x.rank ≠ 0) :
    Proper (Nat.toDigits 10 x.shortest.1) ∧ LaidOut (Nat.toDigits 10 x.shortest.1)
      (x.shortest.2 + (Nat.toDigits 10 x.shortest.1).length - 1) x.unsigned := by
  have hds := proper_toDigits (shortest_spec hrank).2
  rw [unsigned, if_neg hrank]
  exact ⟨hds, laidOut_layOut _ hds.nonempty _⟩

/-- The text of a double begins with a digit, and is never that of a whole number. -/
theorem unsigned_form (x : Double) :
    (∃ d cs, x.unsigned = d :: cs ∧ d.isDigit = true) ∧ (∀ c ∈ x.unsigned, isNumeral c = true) ∧
      ∃ c ∈ x.unsigned, c.isDigit = false := by
  by_cases hrank : x.rank = 0
  · rw [unsigned, if_pos hrank]
    exact ⟨⟨_, _, rfl, rfl⟩, List.all_eq_true.1 rfl, '.', by simp, rfl⟩
  · obtain ⟨hds, hlaid⟩ := laidOut_unsigned hrank
    exact hlaid.form hds

theorem rank_eq_of_unsigned {x y : Double} (h : x.unsigned = y.unsigned) : x.rank = y.rank := by
  by_cases hx : x.rank = 0 <;> by_cases hy : y.rank = 0
  · rw [hx, hy]
  · obtain ⟨hds, hlaid⟩ := laidOut_unsigned hy
    exact absurd (h ▸ if_pos hx) (hlaid.ne_zero hds)
  · obtain ⟨hds, hlaid⟩ := laidOut_unsigned hx
    exact absurd (h ▸ if_pos hy) (hlaid.ne_zero hds)
  · obtain ⟨hds, hlaid⟩ := laidOut_unsigned hx
    obtain ⟨hds', hlaid'⟩ := laidOut_unsigned hy
    rw [← h] at hlaid'
    obtain ⟨hsame, hlead⟩ := hlaid.inj hds hds' hlaid'
    have hshortest : x.shortest = y.shortest := by
      refine Prod.ext (Decimal.toDigits_injective hsame) ?_
      rw [hsame] at hlead
      omega
    have hnearest := (shortest_spec hx).1
    rw [hshortest] at hnearest
    exact hnearest.rank_eq (shortest_spec hy).1

/-- **A double is determined by its text.** -/
theorem text_injective : Function.Injective text := by
  intro x y h
  have hlist := congrArg String.toList h
  rw [toList_text, toList_text] at hlist
  have hminus : ∀ z : Double, ∀ cs, '-' :: cs ≠ z.unsigned := by
    rintro z cs heq
    obtain ⟨d, ds, hz, hd⟩ := (unsigned_form z).1
    obtain ⟨rfl, -⟩ := List.cons.inj (heq.trans hz)
    cases hd
  obtain ⟨hsign, hunsigned⟩ : x.negative = y.negative ∧ x.unsigned = y.unsigned := by
    cases hx : x.negative <;> cases hy : y.negative <;> rw [hx, hy] at hlist
    · exact ⟨rfl, hlist⟩
    · exact absurd hlist.symm (hminus x _)
    · exact absurd hlist (hminus y _)
    · exact ⟨rfl, List.append_cancel_left hlist⟩
  have hrank := rank_eq_of_unsigned hunsigned
  cases x
  cases y
  simp_all

end StaticScript.Double
