import Mathlib.Algebra.Order.Floor.Defs
import Mathlib.Data.Rat.Floor
import Mathlib.Tactic.FieldSimp
import Mathlib.Tactic.Linarith
import Mathlib.Tactic.Positivity
import StateFork.Lib.Text

/-!
# Numerals

`int` and `float` of a text that has no white space around it, and the formats `d` and `.f` that print numbers. Reading
a printed number gives the number, up to the number of digits that `int` converts (`int_toDigits`), and rounded to the
places that were printed (`float_fixed`).
-/

namespace Text

/-- The code points of the digit zero in every script. -/
def decimalZeros : List Nat := [
    0x30, 0x660, 0x6f0, 0x7c0, 0x966, 0x9e6, 0xa66, 0xae6, 0xb66, 0xbe6, 0xc66, 0xce6, 0xd66, 0xde6, 0xe50, 0xed0,
    0xf20, 0x1040, 0x1090, 0x17e0, 0x1810, 0x1946, 0x19d0, 0x1a80, 0x1a90, 0x1b50, 0x1bb0, 0x1c40, 0x1c50, 0xa620,
    0xa8d0, 0xa900, 0xa9d0, 0xa9f0, 0xaa50, 0xabf0, 0xff10, 0x104a0, 0x10d30, 0x11066, 0x110f0, 0x11136, 0x111d0,
    0x112f0, 0x11450, 0x114d0, 0x11650, 0x116c0, 0x11730, 0x118e0, 0x11950, 0x11c50, 0x11d50, 0x11da0, 0x16a60,
    0x16ac0, 0x16b50, 0x1d7ce, 0x1d7d8, 0x1d7e2, 0x1d7ec, 0x1d7f6, 0x1e140, 0x1e2f0, 0x1e950, 0x1fbf0]

/-- The value of a decimal digit. -/
def digitValue (c : Char) : Option Nat :=
  (decimalZeros.find? fun z => z ≤ c.toNat && c.toNat ≤ z + 9).map fun z => c.toNat - z

/-- The digits that are not decimal ones: superscripts, circled digits and the like. -/
def otherDigits : List (Nat × Nat) := [
    (0xb2, 0xb3), (0xb9, 0xb9), (0x1369, 0x1371), (0x19da, 0x19da), (0x2070, 0x2070), (0x2074, 0x2079),
    (0x2080, 0x2089), (0x2460, 0x2468), (0x2474, 0x247c), (0x2488, 0x2490), (0x24ea, 0x24ea), (0x24f5, 0x24fd),
    (0x24ff, 0x24ff), (0x2776, 0x277e), (0x2780, 0x2788), (0x278a, 0x2792), (0x10a40, 0x10a43), (0x10e60, 0x10e68),
    (0x11052, 0x1105a), (0x1f100, 0x1f10a)]

/-- `str.isdigit` -/
def isDigits (l : List Char) : Bool :=
  l ≠ [] && l.all fun c => (digitValue c).isSome || otherDigits.any fun r => r.1 ≤ c.toNat && c.toNat ≤ r.2

/-- Digits, with an underscore between two of them at most. -/
def digitPart : List Char → Option (List Nat)
  | [] => none
  | c :: l =>
    match digitValue c with
    | none => none
    | some d =>
      match l with
      | [] => some [d]
      | '_' :: l => (digitPart l).map (d :: ·)
      | e :: l => (digitPart (e :: l)).map (d :: ·)

def ofDigits (digits : List Nat) : Nat := digits.foldl (fun n d => 10 * n + d) 0

/-- The sign in front of a number, and whether it is a minus. -/
def sign : List Char → Bool × List Char
  | '-' :: l => (true, l)
  | '+' :: l => (false, l)
  | l => (false, l)

/-- An integer of any number of digits. -/
def integer (l : List Char) : Option Int :=
  (digitPart (sign l).2).map fun digits => if (sign l).1 then -(ofDigits digits : Int) else ofDigits digits

/-- `sys.int_info.default_max_str_digits` -/
def maxStrDigits : Nat := 4300

/-- `int` of a text, which raises `ValueError` where there are more digits than the interpreter converts. -/
def int (l : List Char) : Option Int :=
  match digitPart (sign l).2 with
  | none => none
  | some digits => if maxStrDigits < digits.length then none else integer l

/-- `float` of a text, without the names of the infinities and of NaN. -/
def float (l : List Char) : Option ℚ := do
  let number := (sign l).2.map fun c => if c = 'E' then 'e' else c
  let (mantissa, exponent) := (partition 'e' number).elim (number, some 0) fun p => (p.1, integer p.2)
  let (whole, fraction) := (partition '.' mantissa).getD (mantissa, [])
  if whole = [] ∧ fraction = [] then none else
  let exponent ← exponent
  let whole ← if whole = [] then some [] else digitPart whole
  let fraction ← if fraction = [] then some [] else digitPart fraction
  let value : ℚ := ofDigits (whole ++ fraction) / 10 ^ fraction.length * 10 ^ exponent
  return if (sign l).1 then -value else value

/-- `int` of a number -/
def truncate (q : ℚ) : Int := if 0 ≤ q then ⌊q⌋ else ⌈q⌉

/-- `str` of an integer -/
def decimal (n : Int) : List Char := (if n < 0 then ['-'] else []) ++ Nat.toDigits 10 n.natAbs

/-- The nearest integer, and of two the even one. -/
def roundHalfEven (q : ℚ) : Int :=
  if q - ⌊q⌋ < 1 / 2 then ⌊q⌋
  else if 1 / 2 < q - ⌊q⌋ then ⌊q⌋ + 1
  else if ⌊q⌋ % 2 = 0 then ⌊q⌋ else ⌊q⌋ + 1

/-- A number with as many places behind the point. -/
def roundTo (places : Nat) (q : ℚ) : ℚ := roundHalfEven (q * 10 ^ places) / 10 ^ places

/-- `str.zfill` of a natural number. -/
def zeroPadded (width n : Nat) : List Char :=
  List.replicate (width - (Nat.toDigits 10 n).length) '0' ++ Nat.toDigits 10 n

/-- The format `.f` with a number of places. -/
def fixed (places : Nat) (q : ℚ) : List Char :=
  let n := (roundHalfEven (|q| * 10 ^ places)).toNat
  (if q < 0 then ['-'] else []) ++ Nat.toDigits 10 (n / 10 ^ places) ++ '.' :: zeroPadded places (n % 10 ^ places)

/-! ### Digits -/

theorem toNat_of_isDigit {c : Char} (h : c.isDigit = true) : 48 ≤ c.toNat ∧ c.toNat ≤ 57 := by
  simp only [Char.isDigit, Bool.and_eq_true, decide_eq_true_eq, ge_iff_le] at h
  exact ⟨h.1, h.2⟩

theorem digitValue_of_isDigit {c : Char} (h : c.isDigit = true) : digitValue c = some (c.toNat - '0'.toNat) := by
  simp [digitValue, decimalZeros, toNat_of_isDigit h]

theorem isSpace_of_isDigit {c : Char} (h : c.isDigit = true) : isSpace c = false := by
  have hbounds := toNat_of_isDigit h
  simp only [isSpace, Bool.or_eq_false_iff, Bool.and_eq_false_iff, decide_eq_false_iff_not]
  omega

theorem digitPart_of_isDigit {l : List Char} (hne : l ≠ []) (h : ∀ c ∈ l, c.isDigit = true) :
    digitPart l = some (l.map fun c => c.toNat - '0'.toNat) := by
  induction l with
  | nil => exact absurd rfl hne
  | cons c l ih =>
    have hc := digitValue_of_isDigit (h c List.mem_cons_self)
    cases l with
    | nil => simp [digitPart, hc]
    | cons d l =>
      have hd : d ≠ '_' := fun he => by
        have := h d (List.mem_cons_of_mem _ List.mem_cons_self)
        rw [he] at this
        cases this
      have hrest := ih (List.cons_ne_nil _ _) fun e he => h e (List.mem_cons_of_mem _ he)
      rw [digitPart, hc]
      simp only [hrest]
      rfl

theorem ofDigits_map (l : List Char) : ofDigits (l.map fun c => c.toNat - '0'.toNat) = Nat.ofDigitChars 10 l 0 := by
  rw [ofDigits, List.foldl_map, Nat.ofDigitChars_eq_foldl]

theorem isDigit_toDigits {n : Nat} {c : Char} (hc : c ∈ Nat.toDigits 10 n) : c.isDigit = true :=
  Nat.isDigit_of_mem_toDigits (by decide) (by decide) hc

theorem sign_of_isDigit {c : Char} (hc : c.isDigit = true) (l : List Char) : sign (c :: l) = (false, c :: l) := by
  unfold sign
  split
  · rename_i h
    cases h
    cases hc
  · rename_i h
    cases h
    cases hc
  · rfl

theorem sign_toDigits (n : Nat) : sign (Nat.toDigits 10 n) = (false, Nat.toDigits 10 n) := by
  obtain ⟨c, l, hcons⟩ := List.exists_cons_of_ne_nil (Nat.toDigits_ne_nil (n := n) (b := 10))
  rw [hcons]
  exact sign_of_isDigit (isDigit_toDigits (hcons ▸ List.mem_cons_self)) l

/-! ### Reading what was printed -/

theorem digitPart_sign_toDigits (n : Nat) :
    digitPart (sign (Nat.toDigits 10 n)).2 = some ((Nat.toDigits 10 n).map fun c => c.toNat - '0'.toNat) := by
  rw [sign_toDigits]
  exact digitPart_of_isDigit Nat.toDigits_ne_nil fun _ => isDigit_toDigits

theorem integer_toDigits (n : Nat) : integer (Nat.toDigits 10 n) = some (n : Int) := by
  rw [integer, digitPart_sign_toDigits, Option.map_some, ofDigits_map, sign_toDigits,
    Nat.ofDigitChars_toDigits (by decide) (by decide)]
  rfl

theorem toDigits_inj {n n' : Nat} (h : Nat.toDigits 10 n = Nat.toDigits 10 n') : n = n' := by
  have hread := integer_toDigits n
  rw [h, integer_toDigits] at hread
  exact (Int.ofNat_inj.mp (Option.some.inj hread)).symm

/-- What `int` makes of a printed number: the number, unless it has more digits than are converted. -/
theorem int_toDigits (n : Nat) :
    int (Nat.toDigits 10 n) = if (Nat.toDigits 10 n).length ≤ maxStrDigits then some (n : Int) else none := by
  unfold int
  rw [digitPart_sign_toDigits]
  dsimp only
  rw [List.length_map, integer_toDigits]
  split_ifs with hlong hshort
  · exact absurd hshort (not_le.mpr hlong)
  · rfl
  · rfl
  · rename_i hlong
    exact absurd (not_lt.mp ‹_›) hlong

/-- An integer that is nearest to a number, and even if another one is as near. -/
def Nearest (n : Int) (q : ℚ) : Prop := |q - n| < 1 / 2 ∨ |q - n| = 1 / 2 ∧ Even n

theorem nearest_roundHalfEven (q : ℚ) : Nearest (roundHalfEven q) q := by
  have hle : (⌊q⌋ : ℚ) ≤ q := Int.floor_le q
  have hlt : q < ⌊q⌋ + 1 := Int.lt_floor_add_one q
  have hdown : |q - ⌊q⌋| = q - ⌊q⌋ := abs_of_nonneg (by linarith)
  have hup : |q - (⌊q⌋ + 1 : Int)| = 1 - (q - ⌊q⌋) := by
    push_cast
    rw [abs_of_neg (by linarith)]
    ring
  unfold Nearest roundHalfEven
  split_ifs with hfirst hsecond heven
  · exact .inl (by rwa [hdown])
  · exact .inl (by rw [hup]; linarith)
  · exact .inr ⟨by rw [hdown]; linarith, Int.even_iff.mpr heven⟩
  · exact .inr ⟨by rw [hup]; linarith, Int.even_iff.mpr (by omega)⟩

theorem Nearest.unique {n m : Int} {q : ℚ} (hn : Nearest n q) (hm : Nearest m q) : n = m := by
  have hbound {k : Int} (h : Nearest k q) : |q - k| ≤ 1 / 2 := h.elim le_of_lt fun h => h.1.le
  have htri : |(n - m : ℚ)| ≤ |q - m| + |q - n| := by
    have h := abs_sub (q - m) (q - n)
    rwa [show q - m - (q - n) = (n - m : ℚ) by ring] at h
  by_contra hne
  have hone : (1 : ℚ) ≤ |(n - m : ℚ)| := by exact_mod_cast Int.one_le_abs (sub_ne_zero.mpr hne)
  have hn' := hbound hn
  have hm' := hbound hm
  -- Both are one half away, on both sides of the number, and so not both even.
  have heven : Even n ∧ Even m := by
    refine ⟨?_, ?_⟩
    · rcases hn with h | h
      · linarith
      · exact h.2
    · rcases hm with h | h
      · linarith
      · exact h.2
  have hdist : |n - m| ≤ 1 := by
    have h : |(n - m : ℚ)| ≤ 1 := by linarith
    exact_mod_cast h
  have hparity := heven.1.sub heven.2
  rw [Int.even_iff] at hparity
  have hdist' := abs_le.mp hdist
  have hsub : n - m ≠ 0 := sub_ne_zero.mpr hne
  omega

theorem roundHalfEven_neg (q : ℚ) : roundHalfEven (-q) = -roundHalfEven q := by
  refine (nearest_roundHalfEven (-q)).unique ?_
  have habs : |-q - ((-roundHalfEven q : Int) : ℚ)| = |q - roundHalfEven q| := by
    rw [← abs_neg]
    push_cast
    ring_nf
  unfold Nearest
  rw [habs, even_neg]
  exact nearest_roundHalfEven q

theorem roundHalfEven_nonneg {q : ℚ} (h : 0 ≤ q) : 0 ≤ roundHalfEven q := by
  have hfloor : 0 ≤ ⌊q⌋ := Int.floor_nonneg.mpr h
  unfold roundHalfEven
  split_ifs <;> omega

theorem isDigit_zeroPadded {width n : Nat} {c : Char} (hc : c ∈ zeroPadded width n) : c.isDigit = true := by
  rcases List.mem_append.mp hc with hc | hc
  · rw [(List.mem_replicate.mp hc).2]
    rfl
  · exact isDigit_toDigits hc

theorem length_zeroPadded {width n : Nat} (hwidth : 0 < width) (h : n < 10 ^ width) :
    (zeroPadded width n).length = width := by
  have hle := (Nat.length_toDigits_le_iff (b := 10) (by decide) hwidth).mpr h
  rw [zeroPadded, List.length_append, List.length_replicate]
  omega

theorem ofDigitChars_zeroPadded (width n init : Nat) :
    Nat.ofDigitChars 10 (zeroPadded width n) init = 10 ^ (zeroPadded width n).length * init + n := by
  rw [Nat.ofDigitChars_eq_ofDigitChars_zero, zeroPadded, Nat.ofDigitChars_append, Nat.ofDigitChars_replicate_zero,
    Nat.mul_zero, Nat.ofDigitChars_toDigits (by decide) (by decide)]

theorem mem_fixed {places : Nat} {q : ℚ} {c : Char} (hc : c ∈ fixed places q) :
    c = '-' ∨ c = '.' ∨ c.isDigit = true := by
  rcases List.mem_append.mp hc with hc | hc
  · rcases List.mem_append.mp hc with hc | hc
    · split_ifs at hc
      · exact .inl (List.mem_singleton.mp hc)
      · cases hc
    · exact .inr (.inr (isDigit_toDigits hc))
  · exact .inr ((List.mem_cons.mp hc).imp_right isDigit_zeroPadded)

/-- A plain decimal number, with digits before and behind the point. -/
theorem float_decimal (negative : Bool) {whole fraction : List Char} (hwhole : whole ≠ []) (hfraction : fraction ≠ [])
    (hdigits : ∀ c ∈ whole ++ fraction, c.isDigit = true) :
    float ((if negative then ['-'] else []) ++ whole ++ '.' :: fraction) =
      some (let value : ℚ := Nat.ofDigitChars 10 (whole ++ fraction) 0 / 10 ^ fraction.length
        if negative then -value else value) := by
  have hchars : ∀ c ∈ whole ++ '.' :: fraction, c = '.' ∨ c.isDigit = true := by
    intro c hc
    rcases List.mem_append.mp hc with hc | hc
    · exact .inr (hdigits c (List.mem_append_left _ hc))
    · exact (List.mem_cons.mp hc).imp_right fun hc => hdigits c (List.mem_append_right _ hc)
  have hnot {d : Char} (hd : d ≠ '.') (hdigit : d.isDigit = false) : d ∉ whole ++ '.' :: fraction := by
    intro hmem
    rcases hchars d hmem with h | h
    · exact hd h
    · rw [hdigit] at h
      cases h
  have hsign : sign ((if negative then ['-'] else []) ++ whole ++ '.' :: fraction) =
      (negative, whole ++ '.' :: fraction) := by
    cases negative with
    | true => rfl
    | false =>
      obtain ⟨c, l, rfl⟩ := List.exists_cons_of_ne_nil hwhole
      exact sign_of_isDigit (hdigits c List.mem_cons_self) _
  have hlower : (whole ++ '.' :: fraction).map (fun c => if c = 'E' then 'e' else c) = whole ++ '.' :: fraction := by
    refine (List.map_congr_left fun c hc => ?_).trans (List.map_id' _)
    exact if_neg fun h : c = 'E' => hnot (d := 'E') (by decide) rfl (h ▸ hc)
  have hmantissa : partition 'e' (whole ++ '.' :: fraction) = none :=
    partition_eq_none_iff.mpr (hnot (by decide) rfl)
  have hpoint : partition '.' (whole ++ '.' :: fraction) = some (whole, fraction) := by
    refine partition_append_cons (fun h => ?_) fraction
    have := hdigits '.' (List.mem_append_left _ h)
    cases this
  have hw := digitPart_of_isDigit hwhole fun c hc => hdigits c (List.mem_append_left _ hc)
  have hf := digitPart_of_isDigit hfraction fun c hc => hdigits c (List.mem_append_right _ hc)
  unfold float
  rw [hsign]
  simp only [hlower, hmantissa, hpoint, Option.elim_none, Option.getD_some, hwhole, hfraction, hw, hf, false_and,
    if_false, Option.bind_eq_bind, Option.bind_some, Option.pure_def, List.length_map, zpow_zero, mul_one,
    ← List.map_append, ofDigits_map]

theorem float_fixed {places : Nat} (hplaces : 0 < places) (q : ℚ) :
    float (fixed places q) = some (roundTo places q) := by
  let n := (roundHalfEven (|q| * 10 ^ places)).toNat
  have hpow : 0 < 10 ^ places := Nat.pow_pos (by decide)
  have hlength := length_zeroPadded hplaces (Nat.mod_lt n hpow)
  have hne : zeroPadded places (n % 10 ^ places) ≠ [] := by
    intro h
    rw [h] at hlength
    exact hplaces.ne hlength
  have hdigits : ∀ c ∈ Nat.toDigits 10 (n / 10 ^ places) ++ zeroPadded places (n % 10 ^ places), c.isDigit = true := by
    intro c hc
    exact (List.mem_append.mp hc).elim isDigit_toDigits isDigit_zeroPadded
  have hvalue : Nat.ofDigitChars 10 (Nat.toDigits 10 (n / 10 ^ places) ++ zeroPadded places (n % 10 ^ places)) 0 = n := by
    rw [Nat.ofDigitChars_append, ofDigitChars_zeroPadded, hlength, Nat.ofDigitChars_toDigits (by decide) (by decide),
      Nat.div_add_mod]
  have hn : (n : ℚ) = roundHalfEven (|q| * 10 ^ places) := by
    have h : (n : Int) = roundHalfEven (|q| * 10 ^ places) := Int.toNat_of_nonneg (roundHalfEven_nonneg (by positivity))
    rw [← h, Int.cast_natCast]
  have hread := float_decimal (decide (q < 0)) Nat.toDigits_ne_nil hne hdigits
  rw [hvalue, hlength] at hread
  simp only [decide_eq_true_eq] at hread
  refine hread.trans (congrArg some ?_)
  unfold roundTo
  rw [hn]
  split_ifs with hneg
  · rw [abs_of_neg hneg, neg_mul, roundHalfEven_neg]
    push_cast
    ring
  · rw [abs_of_nonneg (not_lt.mp hneg)]

/-! ### Numbers on a line -/

theorem oneLine_of_isDigit {l : List Char} (h : ∀ c ∈ l, c.isDigit = true) : OneLine l :=
  fun c hc => isNewline_of_isSpace (isSpace_of_isDigit (h c hc))

@[simp] theorem oneLine_toDigits (n : Nat) : OneLine (Nat.toDigits 10 n) := oneLine_of_isDigit fun _ => isDigit_toDigits

@[simp] theorem oneLine_zeroPadded (width n : Nat) : OneLine (zeroPadded width n) :=
  oneLine_of_isDigit fun _ => isDigit_zeroPadded

@[simp] theorem oneLine_decimal (n : Int) : OneLine (decimal n) := by
  unfold decimal
  split_ifs <;> simp [isNewline]

@[simp] theorem oneLine_fixed (places : Nat) (q : ℚ) : OneLine (fixed places q) := by
  unfold fixed
  split_ifs <;> simp [isNewline]

end Text
