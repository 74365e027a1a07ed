import StaticScript.Source.Location
import Mathlib.Data.List.DropRight

/-!
# Spans give their text back

Every byte offset of a script has a place: the line counts the line feeds before it, the column the
bytes since the last of them (`Location.ofOffset`).  Both are said about bytes, so an offset inside
a character has a place, too.

The offset of the place of an offset is that offset (`Location.offset?_ofOffset`).  The one
exception is the end of a text that is empty or ends with a line feed: the line that would start
there is no line of the text (`isOpenEnd`).  Along the text this is an induction in which a line
feed in front moves all lines down, and any other character makes the first line longer.  What is
then cut out between two offsets is what stands between them, if no character is cut in two
(`bytes_slice?`).

**Main theorem** (`Span.extract_between_offsets`): the span between the places of two offsets gives
back the bytes between them, or nothing if an offset is inside a character or on no line.
-/

namespace StaticScript

namespace Text

/-! ### Bytes -/

/-- The bytes of a text in UTF-8. -/
def bytes (cs : List Char) : List UInt8 := cs.flatMap String.utf8EncodeChar

/-- The byte that ends a line. -/
def feed : UInt8 := 10

theorem bytes_cons (c : Char) (cs : List Char) :
    bytes (c :: cs) = String.utf8EncodeChar c ++ bytes cs := List.flatMap_cons

theorem bytes_append (a b : List Char) : bytes (a ++ b) = bytes a ++ bytes b :=
  List.flatMap_append

theorem length_bytes (cs : List Char) : (bytes cs).length = byteCount cs := by
  induction cs with
  | nil => rfl
  | cons c cs ih => rw [bytes_cons, List.length_append, String.length_utf8EncodeChar, ih, byteCount]

theorem byteCount_append (a b : List Char) : byteCount (a ++ b) = byteCount a + byteCount b := by
  simp only [← length_bytes, bytes_append, List.length_append]

theorem feed_eq_ofNat_iff {n : Nat} : feed = UInt8.ofNat n ↔ n % 256 = 10 := by
  rw [feed, ← UInt8.toNat_inj, UInt8.toNat_ofNat', eq_comm]
  rfl

/-- **Only a line feed has the byte of one.** -/
theorem feed_mem_utf8EncodeChar {c : Char} : feed ∈ String.utf8EncodeChar c ↔ c = '\n' := by
  have hfeed : c = '\n' ↔ c.val.toNat = 10 := by
    rw [← Char.toNat_inj]
    rfl
  rw [hfeed]
  unfold String.utf8EncodeChar
  dsimp only
  split_ifs <;> simp only [List.mem_cons, List.not_mem_nil, or_false, feed_eq_ofNat_iff] <;> omega

/-! ### Lines -/

/-- The text is empty or ends with a line feed, so that no line holds its end. -/
def endsLine (cs : List Char) : Bool := cs.getLast?.all (· == '\n')

/-- The number of bytes behind the last line feed. -/
def sinceFeed (bs : List UInt8) : Nat := (bs.rtakeWhile (· != feed)).length

theorem sinceFeed_of_notMem {bs : List UInt8} (h : feed ∉ bs) : sinceFeed bs = bs.length := by
  rw [sinceFeed, List.rtakeWhile_eq_self_iff.2]
  intro b hb
  rw [bne_iff_ne]
  rintro rfl
  exact h hb

theorem sinceFeed_append (as bs : List UInt8) :
    sinceFeed (as ++ bs) = if feed ∈ bs then sinceFeed bs else sinceFeed as + bs.length := by
  induction bs using List.reverseRecOn with
  | nil => simp
  | append_singleton bs b ih =>
    simp only [sinceFeed] at ih ⊢
    rw [← List.append_assoc, List.rtakeWhile_concat, List.rtakeWhile_concat]
    by_cases hb : b = feed
    · simp [hb]
    · have hbne : (b != feed) = true := bne_iff_ne.2 hb
      rw [if_pos hbne, if_pos hbne, List.length_append, ih]
      simp only [List.mem_append, List.mem_singleton, Ne.symm hb, or_false, List.length_append]
      split <;> simp [Nat.add_assoc]

/-! ### Offsets -/

/-- The offset of the byte `col` of the line `k`, both counted from zero. -/
def offsetAt (cs : List Char) (k col : Nat) : Option Nat :=
  match (pieces cs)[k]? with
  | none => none
  | some p =>
    if col ≤ byteCount p then some (byteCount ((pieces cs).take k).flatten + col) else none

variable {c : Char} {cs : List Char}

/-- The first line starts with the first character. -/
theorem offsetAt_first (cs : List Char) {col : Nat} (h : col ≤ c.utf8Size) :
    offsetAt (c :: cs) 0 col = some col := by
  have hfirst : ∃ p ps, pieces (c :: cs) = (c :: p) :: ps := by
    rw [pieces]
    split
    · rename_i hc
      exact ⟨[], pieces cs, by rw [hc]⟩
    · split
      · exact ⟨[], [], rfl⟩
      · exact ⟨_, _, rfl⟩
  obtain ⟨p, ps, hp⟩ := hfirst
  have hle : col ≤ c.utf8Size + byteCount p := h.trans (Nat.le_add_right _ _)
  simp [offsetAt, hp, hle, byteCount]

/-- A line feed in front moves all lines down. -/
theorem offsetAt_feed (cs : List Char) (k col : Nat) :
    offsetAt ('\n' :: cs) (k + 1) col = (offsetAt cs k col).map (1 + ·) := by
  have hp : pieces ('\n' :: cs) = ['\n'] :: pieces cs := by rw [pieces, if_pos rfl]
  rw [offsetAt, offsetAt, hp, List.getElem?_cons_succ]
  split
  · rfl
  · rw [List.take_succ_cons, List.flatten_cons, byteCount_append]
    split
    · simp [byteCount, Nat.add_assoc, show '\n'.utf8Size = 1 from rfl]
    · rfl

/-- Any other character in front makes the first line longer. -/
theorem pieces_cons (hc : c ≠ '\n') (hcs : cs ≠ []) :
    ∃ p ps, pieces cs = p :: ps ∧ pieces (c :: cs) = (c :: p) :: ps := by
  cases hp : pieces cs with
  | nil =>
    have hflat := flatten_pieces cs
    rw [hp] at hflat
    exact absurd hflat.symm hcs
  | cons p ps => exact ⟨p, ps, rfl, by rw [pieces, if_neg hc, hp]⟩

theorem offsetAt_zero (hc : c ≠ '\n') (hcs : cs ≠ []) (col : Nat) :
    offsetAt (c :: cs) 0 (c.utf8Size + col) = (offsetAt cs 0 col).map (c.utf8Size + ·) := by
  obtain ⟨p, ps, hp, hcons⟩ := pieces_cons hc hcs
  simp only [offsetAt, hp, hcons, List.getElem?_cons_zero, byteCount, Nat.add_le_add_iff_left,
    List.take_zero, List.flatten_nil, Nat.zero_add]
  split <;> rfl

theorem offsetAt_succ (hc : c ≠ '\n') (hcs : cs ≠ []) (k col : Nat) :
    offsetAt (c :: cs) (k + 1) col = (offsetAt cs (k + 1) col).map (c.utf8Size + ·) := by
  obtain ⟨p, ps, hp, hcons⟩ := pieces_cons hc hcs
  rw [offsetAt, offsetAt, hp, hcons, List.getElem?_cons_succ, List.getElem?_cons_succ]
  split
  · rfl
  · split
    · simp [byteCount, byteCount_append, Nat.add_assoc]
    · rfl

/-- The offset is the end of a text that is empty or ends with a line feed, so that no line holds
it. -/
def isOpenEnd (cs : List Char) (o : Nat) : Bool := o == (bytes cs).length && endsLine cs

theorem isOpenEnd_cons (h : c = '\n' ∨ cs ≠ []) (o : Nat) :
    isOpenEnd (c :: cs) (c.utf8Size + o) = isOpenEnd cs o := by
  have hends : endsLine (c :: cs) = endsLine cs := by
    cases cs with
    | nil =>
      obtain rfl := h.resolve_right (· rfl)
      rfl
    | cons d cs => rfl
  rw [isOpenEnd, isOpenEnd, hends, bytes_cons, List.length_append, String.length_utf8EncodeChar,
    Bool.eq_iff_iff]
  simp only [Bool.and_eq_true, beq_iff_eq, Nat.add_left_cancel_iff]

/-- As long as no line feed has been passed, the column is the offset. -/
theorem offsetAt_take_first (cs : List Char) {o : Nat} (hle : o ≤ c.utf8Size)
    (hfeed : feed ∉ (String.utf8EncodeChar c).take o) :
    offsetAt (c :: cs) (((bytes (c :: cs)).take o).count feed)
      (sinceFeed ((bytes (c :: cs)).take o)) = some o := by
  have hlength := String.length_utf8EncodeChar c
  rw [bytes_cons, List.take_append_of_le_length (by omega), List.count_eq_zero_of_not_mem hfeed,
    sinceFeed_of_notMem hfeed, List.length_take, hlength, Nat.min_eq_left hle,
    offsetAt_first cs hle]

/-- A character in front moves what is behind it by its bytes. -/
theorem offsetAt_cons (h : c = '\n' ∨ cs ≠ []) (before : List UInt8) :
    offsetAt (c :: cs) ((String.utf8EncodeChar c ++ before).count feed)
        (sinceFeed (String.utf8EncodeChar c ++ before)) =
      (offsetAt cs (before.count feed) (sinceFeed before)).map (c.utf8Size + ·) := by
  rw [List.count_append, sinceFeed_append]
  by_cases hc : c = '\n'
  · subst hc
    have hsince : (if feed ∈ before then sinceFeed before else
        sinceFeed (String.utf8EncodeChar '\n') + before.length) = sinceFeed before := by
      split
      · rfl
      · rename_i hfeed
        rw [sinceFeed_of_notMem hfeed]
        exact Nat.zero_add _
    rw [hsince, show (String.utf8EncodeChar '\n').count feed = 1 from rfl, Nat.add_comm 1,
      offsetAt_feed]
    rfl
  · have hcs := h.resolve_left hc
    have hfeed := mt feed_mem_utf8EncodeChar.1 hc
    rw [List.count_eq_zero_of_not_mem hfeed, Nat.zero_add]
    -- Only on the first line does the character move the column.
    split
    · rename_i hmem
      obtain ⟨k, hk⟩ : ∃ k, before.count feed = k + 1 :=
        Nat.exists_eq_succ_of_ne_zero (mt List.count_eq_zero.1 (not_not.2 hmem))
      rw [hk, offsetAt_succ hc hcs]
    · rename_i hmem
      rw [List.count_eq_zero_of_not_mem hmem, sinceFeed_of_notMem hfeed,
        sinceFeed_of_notMem hmem, String.length_utf8EncodeChar, offsetAt_zero hc hcs]

/-- **The offset of the place of an offset is that offset**, unless no line holds it. -/
theorem offsetAt_take {o : Nat} (ho : o ≤ (bytes cs).length) :
    offsetAt cs (((bytes cs).take o).count feed) (sinceFeed ((bytes cs).take o)) =
      if isOpenEnd cs o then none else some o := by
  induction cs generalizing o with
  | nil =>
    obtain rfl : o = 0 := Nat.le_zero.1 ho
    rfl
  | cons c cs ih =>
    have hlength := String.length_utf8EncodeChar c
    rw [bytes_cons, List.length_append, hlength] at ho
    by_cases hlt : o < c.utf8Size
    · have hopen : isOpenEnd (c :: cs) o = false := by
        rw [isOpenEnd, bytes_cons, List.length_append, hlength, Bool.and_eq_false_iff,
          beq_eq_false_iff_ne]
        exact .inl (by omega)
      rw [hopen]
      refine offsetAt_take_first cs hlt.le fun hmem => ?_
      -- A line feed has one byte, so the offset would be the start of the text.
      obtain rfl := feed_mem_utf8EncodeChar.1 (List.mem_of_mem_take hmem)
      obtain rfl : o = 0 := Nat.lt_one_iff.1 hlt
      cases hmem
    by_cases hrest : c = '\n' ∨ cs ≠ []
    · obtain ⟨o, rfl⟩ := Nat.exists_eq_add_of_le (Nat.le_of_not_lt hlt)
      rw [isOpenEnd_cons hrest, bytes_cons, List.take_append, hlength,
        List.take_of_length_le (by omega), Nat.add_sub_cancel_left, offsetAt_cons hrest,
        ih (by omega)]
      split <;> rfl
    · -- Behind the last character, if it ends no line, its line goes on.
      obtain ⟨hc, hcs⟩ := not_or.1 hrest
      obtain rfl := not_not.1 hcs
      have hopen : isOpenEnd [c] o = false := by
        rw [isOpenEnd, show endsLine [c] = false from beq_false_of_ne hc, Bool.and_false]
      rw [hopen]
      exact offsetAt_take_first [] ho fun hmem =>
        hc (feed_mem_utf8EncodeChar.1 (List.mem_of_mem_take hmem))

/-! ### Cuts -/

theorem byteCount_eq_zero_iff : byteCount cs = 0 ↔ cs = [] := by
  cases cs with
  | nil => simp [byteCount]
  | cons c cs =>
    have := c.utf8Size_pos
    simp only [byteCount, reduceCtorEq, iff_false]
    omega

theorem splitAtByte?_eq_some_iff {n : Nat} {front back : List Char} :
    splitAtByte? n cs = some (front, back) ↔ cs = front ++ back ∧ byteCount front = n := by
  fun_induction splitAtByte? n cs generalizing front back with
  | case1 cs =>
    simp only [Option.some.injEq, Prod.mk.injEq, byteCount_eq_zero_iff]
    constructor
    · rintro ⟨rfl, rfl⟩
      exact ⟨rfl, rfl⟩
    · rintro ⟨rfl, rfl⟩
      exact ⟨rfl, rfl⟩
  | case2 n =>
    simp only [reduceCtorEq, List.nil_eq_append_iff, false_iff]
    rintro ⟨⟨rfl, -⟩, h⟩
    cases h
  | case3 n c cs hle ih =>
    simp only [Option.map_eq_some_iff, Prod.exists, Prod.mk.injEq, ih]
    constructor
    · rintro ⟨front, back, ⟨rfl, h⟩, rfl, rfl⟩
      exact ⟨rfl, by rw [byteCount]; omega⟩
    · rintro ⟨hcs, h⟩
      cases front with
      | nil => cases h
      | cons d front =>
        obtain ⟨rfl, rfl⟩ := List.cons.inj hcs
        rw [byteCount] at h
        exact ⟨front, back, ⟨rfl, by omega⟩, rfl, rfl⟩
  | case4 n c cs hlt =>
    simp only [reduceCtorEq, false_iff]
    rintro ⟨hcs, h⟩
    cases front with
    | nil => cases h
    | cons d front =>
      obtain ⟨rfl, -⟩ := List.cons.inj hcs
      rw [byteCount] at h
      omega

/-- A cut gives what stands between the offsets, and only between characters. -/
theorem slice?_eq_some_iff {a b : Nat} {t : List Char} :
    slice? cs a b = some t ↔
      ∃ front back, cs = front ++ (t ++ back) ∧ byteCount front = a ∧ byteCount t = b - a := by
  simp only [slice?, Option.bind_eq_bind, Option.bind_eq_some_iff, Prod.exists,
    splitAtByte?_eq_some_iff, Option.pure_def, Option.some.injEq]
  constructor
  · rintro ⟨front, rest, ⟨rfl, hfront⟩, middle, back, ⟨rfl, hmiddle⟩, rfl⟩
    exact ⟨front, back, rfl, hfront, hmiddle⟩
  · rintro ⟨front, back, rfl, hfront, hmiddle⟩
    exact ⟨front, t ++ back, ⟨rfl, hfront⟩, t, back, ⟨rfl, hmiddle⟩, rfl⟩

/-- Characters end and start at the offset. -/
def IsBoundary (cs : List Char) (o : Nat) : Prop :=
  ∃ front, front <+: cs ∧ (bytes front).length = o

/-- **A text is cut between characters, and gives the bytes between the offsets.** -/
theorem bytes_slice? (cs : List Char) {a b : Nat} (hab : a ≤ b) :
    (IsBoundary cs a ∧ IsBoundary cs b →
      ∃ t, slice? cs a b = some t ∧ bytes t = ((bytes cs).drop a).take (b - a)) ∧
    (¬ (IsBoundary cs a ∧ IsBoundary cs b) → slice? cs a b = none) := by
  constructor
  · rintro ⟨⟨front, hfront, ha⟩, upto, hupto, hb⟩
    have hle : front <+: upto := by
      rcases List.prefix_or_prefix_of_prefix hfront hupto with h | ⟨rest, rfl⟩
      · exact h
      · -- The longer text has no more bytes, so the texts are the same.
        rw [bytes_append, List.length_append] at ha
        have hrest : byteCount rest = 0 := by
          rw [← length_bytes]
          omega
        obtain rfl := byteCount_eq_zero_iff.1 hrest
        exact ⟨[], by simp⟩
    obtain ⟨t, rfl⟩ := hle
    obtain ⟨back, rfl⟩ := hupto
    rw [bytes_append, List.length_append] at hb
    refine ⟨t, slice?_eq_some_iff.2 ⟨front, back, by simp, ?_, ?_⟩, ?_⟩
    · rw [← length_bytes, ha]
    · rw [← length_bytes]
      omega
    · rw [bytes_append, bytes_append, List.append_assoc, ← ha, List.drop_left,
        List.take_left' (by omega)]
  · intro h
    rw [Option.eq_none_iff_forall_ne_some]
    intro t ht
    obtain ⟨front, back, rfl, hfront, ht⟩ := slice?_eq_some_iff.1 ht
    refine h ⟨⟨front, List.prefix_append _ _, by rw [length_bytes, hfront]⟩, front ++ t, ?_, ?_⟩
    · rw [← List.append_assoc]
      exact List.prefix_append _ _
    · rw [length_bytes, byteCount_append]
      omega

end Text

namespace Source

open Text (bytes feed sinceFeed IsBoundary isOpenEnd)

/-- The place of a byte offset: its line counts the line feeds before it, its column the bytes since
the last of them. -/
def Location.ofOffset (file : String) (source : List Char) (o : Nat) : Location :=
  let before := (bytes source).take o
  ⟨file, .ofNat (1 + before.count feed), .ofNat (1 + sinceFeed before)⟩

theorem Location.offset?_ofOffset (file : String) {source : List Char} {o : Nat}
    (hsize : (bytes source).length < UInt32.size - 1) (ho : o ≤ (bytes source).length) :
    (ofOffset file source o).offset? source =
      if isOpenEnd source o then none else some o := by
  have hcount := ((bytes source).take o).count_le_length (a := feed)
  have hsince : sinceFeed ((bytes source).take o) ≤ ((bytes source).take o).length :=
    (List.rtakeWhile_suffix _ _).length_le
  have hlength := (bytes source).length_take_le o
  have hline : (UInt32.ofNat (1 + ((bytes source).take o).count feed)).toNat =
      1 + ((bytes source).take o).count feed := UInt32.toNat_ofNat_of_lt' (by omega)
  have hcolumn : (UInt32.ofNat (1 + sinceFeed ((bytes source).take o))).toNat =
      1 + sinceFeed ((bytes source).take o) := UInt32.toNat_ofNat_of_lt' (by omega)
  have hone : ∀ n : UInt32, n.toNat ≠ 0 → n ≠ 0 := by
    rintro n hn rfl
    exact hn rfl
  rw [← Text.offsetAt_take ho, offset?, ofOffset]
  dsimp only
  rw [if_neg (not_or.2 ⟨hone _ (by omega), hone _ (by omega)⟩), hline, hcolumn,
    Nat.add_sub_cancel_left, Nat.add_sub_cancel_left]
  rfl

/-- **Spans give their text back.**  The span between the places of two offsets covers the bytes
between the offsets.  It covers nothing if an offset is inside a character or is the end of a text
whose last line is complete. -/
theorem Span.extract_between_offsets (source : List Char) (file file' : String) {a b : Nat}
    (hsize : (bytes source).length < UInt32.size - 1) (hab : a ≤ b)
    (hb : b ≤ (bytes source).length) :
    let span : Span := ⟨.ofOffset file source a, .ofOffset file' source b⟩
    let inside := IsBoundary source a ∧ IsBoundary source b ∧
      isOpenEnd source a = false ∧ isOpenEnd source b = false
    (inside → ∃ t, span.extract? source = some t ∧
      bytes t.toList = ((bytes source).drop a).take (b - a)) ∧
    (¬ inside → span.extract? source = none) := by
  intro span inside
  have hspan : span.extract? source =
      if isOpenEnd source a || isOpenEnd source b then none
      else (Text.slice? source a b).map String.ofList := by
    simp only [span, extract?, Location.offset?_ofOffset _ hsize (hab.trans hb),
      Location.offset?_ofOffset _ hsize hb]
    cases isOpenEnd source a <;> cases isOpenEnd source b <;> simp [hab]
  obtain ⟨hcut, hnone⟩ := Text.bytes_slice? source hab
  rw [hspan]
  constructor
  · rintro ⟨ha, hb, hopen, hopen'⟩
    obtain ⟨t, ht, hbytes⟩ := hcut ⟨ha, hb⟩
    rw [hopen, hopen', ht]
    exact ⟨String.ofList t, rfl, by rw [String.toList_ofList, hbytes]⟩
  · intro h
    split
    · rfl
    · rename_i hopen
      rw [Bool.not_eq_true, Bool.or_eq_false_iff] at hopen
      rw [hnone fun hcut => h ⟨hcut.1, hcut.2, hopen⟩]
      rfl

/-- A script with a character of two bytes, an empty line and no line feed at its end. -/
def accented : List Char := "é = 1\n\nx".toList

/-- The span starts behind the character of two bytes and ends behind the empty line. -/
theorem Span.extract_over_emptyLine :
    (bytes accented).length < UInt32.size - 1 ∧ 2 ≤ 8 ∧ 8 ≤ (bytes accented).length ∧
    Location.ofOffset "a.py" accented 2 = ⟨"a.py", 1, 3⟩ ∧
    Location.ofOffset "a.py" accented 8 = ⟨"a.py", 3, 1⟩ ∧
    ∃ t, Span.extract? accented ⟨.ofOffset "a.py" accented 2, .ofOffset "a.py" accented 8⟩ =
      some t ∧ bytes t.toList = ((bytes accented).drop 2).take 6 := by
  have hlength : (bytes accented).length = 9 := by decide
  have hsize : (bytes accented).length < UInt32.size - 1 := by
    rw [hlength]
    decide
  refine ⟨hsize, by decide, by rw [hlength]; decide, by decide, by decide, ?_⟩
  refine (Span.extract_between_offsets accented "a.py" "a.py" hsize (by decide)
    (by rw [hlength]; decide)).1 ⟨⟨"é".toList, ?_, ?_⟩, ⟨"é = 1\n\n".toList, ?_, ?_⟩, ?_, ?_⟩
  all_goals decide

-- Inside the character there is nothing to give back.
example : Span.extract? accented ⟨.ofOffset "a.py" accented 1, .ofOffset "a.py" accented 8⟩ =
    none := by decide

end Source

end StaticScript
