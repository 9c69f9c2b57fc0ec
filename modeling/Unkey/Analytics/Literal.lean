import Unkey.Base.GoInt
import Unkey.Base.GoString

/-!
# Number literals as ClickHouse reads them

The syntax tree keeps the text of a number literal.
-/

namespace Unkey.Analytics

open Unkey.Base

def natural (cs : List Char) : Option Nat := if cs.isEmpty then none else digitsVal cs 0

def integer : List Char → Option Int
  | '-' :: cs => (natural cs).map fun n : Nat => -(n : Int)
  | '+' :: cs => (natural cs).map fun n : Nat => (n : Int)
  | cs => (natural cs).map fun n : Nat => (n : Int)

def hexDigit (c : Char) : Option Nat :=
  if c.isDigit then some (c.toNat - '0'.toNat)
  else if 'a' ≤ c ∧ c ≤ 'f' then some (c.toNat - 'a'.toNat + 10)
  else if 'A' ≤ c ∧ c ≤ 'F' then some (c.toNat - 'A'.toNat + 10)
  else none

def hexVal : List Char → Nat → Option Nat
  | [], acc => some acc
  | c :: cs, acc => (hexDigit c).bind fun d => hexVal cs (acc * 16 + d)

/-- What stands behind the digits of a mantissa: nothing, or `e` and the exponent. -/
def exponentPart : List Char → Option Int
  | [] => some 0
  | c :: cs => if c = 'e' ∨ c = 'E' then integer cs else none

/-- `12.5e3` as the number `125` and the power of ten that it is to be multiplied by. -/
def scientific (cs : List Char) : Option (Nat × Int) :=
  let whole := cs.takeWhile Char.isDigit
  match cs.dropWhile Char.isDigit with
  | '.' :: rest => do
    let fraction := rest.takeWhile Char.isDigit
    let mantissa ← natural (whole ++ fraction)
    let exponent ← exponentPart (rest.dropWhile Char.isDigit)
    return (mantissa, exponent - fraction.length)
  | rest => do
    let mantissa ← natural whole
    let exponent ← exponentPart rest
    return (mantissa, exponent)

def scale (mantissa : Nat) (exponent : Int) : Rat :=
  mkRat (mantissa * Nat.pow 10 exponent.toNat) (Nat.pow 10 (-exponent).toNat)

section Reading

-- how ClickHouse rounds the value of a literal that is not the text of an integer
variable (float64 : Rat → Rat)

def magnitude (cs : List Char) : Option Rat :=
  match cs with
  | '0' :: 'x' :: ds => if ds.isEmpty then none else (hexVal ds 0).map fun n : Nat => (n : Rat)
  | '0' :: 'X' :: ds => if ds.isEmpty then none else (hexVal ds 0).map fun n : Nat => (n : Rat)
  | cs =>
    match natural cs with
    | some n => some (n : Rat)
    | none => (scientific cs).map fun m => float64 (scale m.1 m.2)

def literalValue (literal : String) : Option Rat :=
  match literal.toList.dropWhile isSpaceRune with
  | '-' :: cs => (magnitude float64 cs).map fun v => -v
  | '+' :: cs => magnitude float64 cs
  | cs => magnitude float64 cs

end Reading

/-! ## Integer texts -/

variable {cs : List Char}

theorem digitsVal_eq_some (h : ∀ c ∈ cs, c.isDigit = true) (acc : Nat) :
    digitsVal cs acc = some (Nat.ofDigitChars 10 cs acc) := by
  induction cs generalizing acc with
  | nil => rfl
  | cons c cs ih =>
    have hc := h c List.mem_cons_self
    rw [digitsVal, if_pos hc, ih fun d hd => h d (List.mem_cons_of_mem _ hd), Nat.ofDigitChars,
      Nat.ofDigitChars, List.foldl_cons, Nat.mul_comm]

variable {n : Nat}

theorem isDigit_of_digitsVal {acc : Nat} (h : digitsVal cs acc = some n) :
    ∀ c ∈ cs, c.isDigit = true := by
  induction cs generalizing acc with
  | nil => simp
  | cons c cs ih =>
    rw [digitsVal] at h
    split at h
    · rename_i hc
      exact List.forall_mem_cons.mpr ⟨hc, ih h⟩
    · cases h

theorem natural_eq_some :
    natural cs = some n ↔ cs ≠ [] ∧ digitsVal cs 0 = some n := by
  cases cs <;> simp [natural]

theorem isDigit_of_natural (h : natural cs = some n) :
    ∀ c ∈ cs, c.isDigit = true :=
  isDigit_of_digitsVal (natural_eq_some.mp h).2

theorem magnitude_natural (float64 : Rat → Rat)
    (h : natural cs = some n) : magnitude float64 cs = some (n : Rat) := by
  have hdigit := isDigit_of_natural h
  rw [magnitude]
  · rw [h]
  · rintro ds rfl
    exact absurd (hdigit 'x' (by simp)) (by decide)
  · rintro ds rfl
    exact absurd (hdigit 'X' (by simp)) (by decide)

theorem isSpaceRune_digit {c : Char} (h : c.isDigit = true) : isSpaceRune c = false := by
  have hbounds := Char.isDigit_iff_toNat.mp h
  have h0 : '0'.toNat = 48 := rfl
  have h9 : '9'.toNat = 57 := rfl
  simp only [isSpaceRune, Bool.or_eq_false_iff, Bool.and_eq_false_iff, decide_eq_false_iff_not,
    beq_eq_false_iff_ne]
  omega

theorem natural_head (h : natural cs = some n) :
    ∃ d ds, cs = d :: ds ∧ d ≠ '-' ∧ d ≠ '+' ∧ isSpaceRune d = false := by
  cases cs with
  | nil => cases h
  | cons d ds =>
    have hd := isDigit_of_natural h d List.mem_cons_self
    refine ⟨d, ds, rfl, ?_, ?_, isSpaceRune_digit hd⟩
    · rintro rfl
      exact absurd hd (by decide)
    · rintro rfl
      exact absurd hd (by decide)

inductive IntegerText : List Char → Int → Prop
  | minus {ds : List Char} {n : Nat} : natural ds = some n → IntegerText ('-' :: ds) (-n)
  | plus {ds : List Char} {n : Nat} : natural ds = some n → IntegerText ('+' :: ds) n
  | plain {d : Char} {ds : List Char} {n : Nat} : natural (d :: ds) = some n → d ≠ '-' →
      d ≠ '+' → isSpaceRune d = false → IntegerText (d :: ds) n

theorem integerText_of_integer {z : Int} (h : integer cs = some z) :
    IntegerText cs z := by
  rw [integer.eq_def] at h
  split at h
  · obtain ⟨n, hn, rfl⟩ := Option.map_eq_some_iff.mp h
    exact .minus hn
  · obtain ⟨n, hn, rfl⟩ := Option.map_eq_some_iff.mp h
    exact .plus hn
  · obtain ⟨n, hn, rfl⟩ := Option.map_eq_some_iff.mp h
    obtain ⟨d, ds, rfl, hminus, hplus, hblank⟩ := natural_head hn
    exact .plain hn hminus hplus hblank

theorem literalValue_integer (float64 : Rat → Rat) {s : String} {z : Int}
    (h : integer s.toList = some z) : literalValue float64 s = some (z : Rat) := by
  have htext := integerText_of_integer h
  rw [literalValue]
  generalize s.toList = cs at htext ⊢
  cases htext with
  | minus hn =>
    rw [Rat.intCast_neg, Rat.intCast_natCast]
    simp [isSpaceRune, magnitude_natural float64 hn]
  | plus hn =>
    rw [Rat.intCast_natCast]
    simp [isSpaceRune, magnitude_natural float64 hn]
  | plain hn hminus hplus hblank =>
    rw [List.dropWhile_cons_of_neg (by simp [hblank]), Rat.intCast_natCast]
    simp [hminus, hplus, magnitude_natural float64 hn]

theorem signed_natural {ds : List Char} (h : natural ds = some n)
    (k : Nat → Option Int) : scanInt.signed ds k = k n := by
  obtain ⟨hne, hval⟩ := natural_eq_some.mp h
  rw [scanInt.signed, List.takeWhile_eq_self_iff.mpr (isDigit_of_natural h)]
  cases ds with
  | nil => exact absurd rfl hne
  | cons d ds => simp [hval]

theorem isInt64_natCast (n : Nat) : IsInt64 (n : Int) ↔ n < 9223372036854775808 := by
  rw [IsInt64]
  omega

theorem isInt64_neg_natCast (n : Nat) : IsInt64 (-(n : Int)) ↔ n ≤ 9223372036854775808 := by
  rw [IsInt64]
  omega

theorem scanInt_integer {s : String} {z : Int} (h : integer s.toList = some z) :
    scanInt s = if IsInt64 z then some z else none := by
  have htext := integerText_of_integer h
  rw [scanInt]
  generalize s.toList = cs at htext ⊢
  cases htext with
  | minus hn =>
    simp [isSpaceRune, signed_natural hn, isInt64_neg_natCast]
  | plus hn => simp [isSpaceRune, signed_natural hn, isInt64_natCast]
  | plain hn hminus hplus hblank =>
    rw [List.dropWhile_cons_of_neg (by simp [hblank])]
    simp [hminus, hplus, signed_natural hn, isInt64_natCast]

theorem atoi_integer {s : String} {z : Int} (h : integer s.toList = some z) :
    atoi s = if IsInt64 z then some z else none := by
  have htext := integerText_of_integer h
  rw [atoi]
  generalize s.toList = cs at htext ⊢
  cases htext with
  | minus hn =>
    obtain ⟨d, ds, rfl, -⟩ := natural_head hn
    simp [(natural_eq_some.mp hn).2, isInt64_neg_natCast]
  | plus hn =>
    obtain ⟨d, ds, rfl, -⟩ := natural_head hn
    simp [(natural_eq_some.mp hn).2, isInt64_natCast]
  | plain hn hminus hplus hblank =>
    simp [hminus, hplus, (natural_eq_some.mp hn).2, isInt64_natCast]

theorem integer_of_natural (h : natural cs = some n) :
    integer cs = some n := by
  obtain ⟨d, ds, rfl, hminus, hplus, -⟩ := natural_head h
  simp [integer, hminus, hplus, h]

theorem integer_itoa {z : Int} (h : 0 ≤ z) : integer (itoa z).toList = some z := by
  obtain ⟨n, rfl⟩ := Int.eq_ofNat_of_zero_le h
  have hdigit : ∀ c ∈ (itoa n).toList, c.isDigit = true := fun c hc =>
    isDigit_of_mem_itoa (Int.natCast_nonneg n) hc
  refine integer_of_natural (natural_eq_some.mpr ⟨?_, ?_⟩)
  · rw [toList_itoa_natCast]
    exact Nat.toDigits_ne_nil
  · rw [digitsVal_eq_some hdigit, toList_itoa_natCast,
      Nat.ofDigitChars_toDigits (by decide) (by decide)]

end Unkey.Analytics
