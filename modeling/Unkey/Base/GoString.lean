import Mathlib.Data.List.TakeWhile

/-!
# Strings as the Go standard library treats them

The few functions of packages `strings` and `strconv` that the modelled code calls, on the
characters of a string.
-/

namespace Unkey.Base

def hasPrefix (s p : String) : Bool := p.toList.isPrefixOf s.toList

variable {s : String}

theorem hasPrefix_iff {p : String} : hasPrefix s p = true ↔ p.toList <+: s.toList :=
  List.isPrefixOf_iff_prefix

def hasSuffix (s p : String) : Bool := p.toList.isSuffixOf s.toList

variable {c : Char}

theorem append_cons_inj {a b x y : List Char} (ha : c ∉ a) (hb : c ∉ b)
    (h : a ++ c :: x = b ++ c :: y) : a = b ∧ x = y := by
  rcases List.append_eq_append_iff.mp h with ⟨zs, hzs, hc⟩ | ⟨zs, hzs, hc⟩
  · cases zs with
    | nil => exact ⟨by simpa using hzs.symm, by simpa using hc⟩
    | cons z zs =>
      obtain ⟨rfl, -⟩ := List.cons.inj hc
      exact absurd (by simp [hzs]) hb
  · cases zs with
    | nil => exact ⟨by simpa using hzs, by simpa using hc.symm⟩
    | cons z zs =>
      obtain ⟨rfl, -⟩ := List.cons.inj hc
      exact absurd (by simp [hzs]) ha

theorem glue_inj (sep : String) {a b x y : String} (hsep : sep.toList = [c])
    (hx : c ∉ x.toList) (hy : c ∉ y.toList) (h : a ++ sep ++ x = b ++ sep ++ y) :
    a = b ∧ x = y := by
  have hl : a.toList ++ c :: x.toList = b.toList ++ c :: y.toList := by
    simpa [hsep] using congrArg String.toList h
  rw [← String.toList_inj, ← String.toList_inj]
  rcases List.append_eq_append_iff.mp hl with ⟨zs, hb, hc⟩ | ⟨zs, ha, hc⟩
  · cases zs with
    | nil => exact ⟨by simpa using hb.symm, by simpa using hc⟩
    | cons z zs =>
      obtain ⟨-, hx'⟩ := List.cons.inj hc
      exact absurd (by simp [hx']) hx
  · cases zs with
    | nil => exact ⟨by simpa using ha, by simpa using hc.symm⟩
    | cons z zs =>
      obtain ⟨-, hy'⟩ := List.cons.inj hc
      exact absurd (by simp [hy']) hy

theorem glue_inj_of_free (sep : String) {a b x y : String} (hsep : sep.toList = [c])
    (hb : c ∉ b.toList) (hy : c ∉ y.toList) (h : a ++ sep ++ x = b ++ sep ++ y) :
    a = b ∧ x = y := by
  have hl : a.toList ++ c :: x.toList = b.toList ++ c :: y.toList := by
    simpa [hsep] using congrArg String.toList h
  have hx : c ∉ x.toList := by
    intro hmem
    have hcount := congrArg (List.count c) hl
    rw [List.count_append, List.count_append, List.count_cons_self, List.count_cons_self,
      List.count_eq_zero_of_not_mem hb, List.count_eq_zero_of_not_mem hy] at hcount
    have hpos := List.count_pos_iff.mpr hmem
    omega
  exact glue_inj sep hsep hx hy h

def digitsVal : List Char → Nat → Option Nat
  | [], acc => some acc
  | c :: cs, acc => if c.isDigit then digitsVal cs (acc * 10 + (c.toNat - '0'.toNat)) else none

def atoi (s : String) : Option Int :=
  match s.toList with
  | [] => none
  | '-' :: [] => none
  | '+' :: [] => none
  | '-' :: ds => (digitsVal ds 0).bind fun n => if n ≤ 9223372036854775808 then some (-(n : Int)) else none
  | '+' :: ds => (digitsVal ds 0).bind fun n => if n < 9223372036854775808 then some (n : Int) else none
  | ds => (digitsVal ds 0).bind fun n => if n < 9223372036854775808 then some (n : Int) else none

def isSpaceRune (c : Char) : Bool :=
  let n := c.toNat
  (9 ≤ n && n ≤ 13) || n == 0x20 || n == 0x85 || n == 0xA0 || n == 0x1680 ||
    (0x2000 ≤ n && n ≤ 0x200A) || n == 0x2028 || n == 0x2029 || n == 0x202F || n == 0x205F ||
    n == 0x3000

/-- `fmt.Sscanf` with the verb `%d`: blanks, but no newline, then an optional sign and the
longest run of digits; what follows the digits is left unread. -/
def scanInt (s : String) : Option Int :=
  match s.toList.dropWhile fun c => isSpaceRune c && c != '\n' with
  | '-' :: ds => signed ds fun n => if n ≤ 9223372036854775808 then some (-(n : Int)) else none
  | '+' :: ds => signed ds fun n => if n < 9223372036854775808 then some (n : Int) else none
  | ds => signed ds fun n => if n < 9223372036854775808 then some (n : Int) else none
where
  signed (ds : List Char) (k : Nat → Option Int) : Option Int :=
    match ds.takeWhile Char.isDigit with
    | [] => none
    | digits => (digitsVal digits 0).bind k

def split (c : Char) (s : String) : List String := (s.toList.splitOn c).map String.ofList

def join (c : Char) (parts : List String) : String :=
  String.ofList ([c].intercalate (parts.map String.toList))

def trimSpace (s : String) : String :=
  String.ofList ((s.toList.dropWhile isSpaceRune).reverse.dropWhile isSpaceRune).reverse

def containsAny (s chars : String) : Bool := s.toList.any fun c => decide (c ∈ chars.toList)

def cut (c : Char) (s : String) : Option (String × String) :=
  if c ∈ s.toList then
    some (String.ofList (s.toList.takeWhile (· ≠ c)),
      String.ofList ((s.toList.dropWhile (· ≠ c)).drop 1))
  else none

def splitN (c : Char) : (n : Nat) → String → List String
  | 0, _ => []
  | 1, s => [s]
  | n + 2, s =>
    match cut c s with
    | none => [s]
    | some (before, after) => before :: splitN c (n + 1) after

theorem containsAny_eq_false {chars : String} :
    containsAny s chars = false ↔ ∀ c ∈ chars.toList, c ∉ s.toList := by
  simp only [containsAny, List.any_eq_false, decide_eq_true_eq]
  exact ⟨fun h c hc hs => h c hs hc, fun h c hs hc => h c hc hs⟩

/-! ### Parts of a string -/

theorem split_ne_nil (c : Char) (s : String) : split c s ≠ [] := by
  unfold split
  rw [Ne, List.map_eq_nil_iff]
  exact List.splitOn_ne_nil c s.toList

theorem not_mem_of_mem_split {part : String} (h : part ∈ split c s) :
    c ∉ part.toList := by
  have hlist : ∀ (l : List Char), ∀ part ∈ l.splitOn c, c ∉ part := by
    intro l
    induction l with
    | nil => simp
    | cons x l ih =>
      rw [List.splitOn_cons_eq_if_modifyHead]
      split
      · grind
      · rename_i hx
        cases hsplit : l.splitOn c with
        | nil => exact absurd hsplit (List.splitOn_ne_nil c l)
        | cons first rest =>
          rw [hsplit] at ih
          intro part hpart
          rcases List.mem_cons.mp hpart with rfl | hpart
          · rw [List.mem_cons, not_or]
            exact ⟨fun hc => hx (by simp [hc]), ih first List.mem_cons_self⟩
          · exact ih part (List.mem_cons_of_mem _ hpart)
  obtain ⟨l, hl, rfl⟩ := List.mem_map.mp h
  rw [String.toList_ofList]
  exact hlist s.toList l hl

theorem join_split (c : Char) (s : String) : join c (split c s) = s := by
  unfold join split
  rw [List.map_map]
  have hid : String.toList ∘ String.ofList = id := funext fun l => String.toList_ofList
  rw [hid, List.map_id, List.intercalate_splitOn, String.ofList_toList]

theorem split_join {parts : List String} (hne : parts ≠ [])
    (hc : ∀ s ∈ parts, c ∉ s.toList) : split c (join c parts) = parts := by
  unfold join split
  rw [String.toList_ofList, List.splitOn_intercalate]
  · simp_all
  · simpa using hc
  · simpa using hne

theorem mem_join {a : Char} {parts : List String} (ha : a ∈ (join c parts).toList) :
    a = c ∨ ∃ s ∈ parts, a ∈ s.toList := by
  unfold join at ha
  rw [String.toList_ofList] at ha
  induction parts with
  | nil => cases ha
  | cons s parts ih =>
    cases parts with
    | nil => exact .inr ⟨s, List.mem_cons_self, by simpa using ha⟩
    | cons s' parts =>
      rw [List.map_cons, List.map_cons, List.intercalate_cons_cons, List.mem_append,
        List.mem_append, List.mem_singleton] at ha
      rcases ha with (hs | hsep) | hrest
      · exact .inr ⟨s, List.mem_cons_self, hs⟩
      · exact .inl hsep
      · grind

theorem cut_eq_some {a b : String} :
    cut c s = some (a, b) ↔ s.toList = a.toList ++ c :: b.toList ∧ c ∉ a.toList := by
  unfold cut
  constructor
  · intro h
    split at h
    · rename_i hmem
      cases h
      rw [String.toList_ofList, String.toList_ofList]
      refine ⟨?_, fun hc => ?_⟩
      · -- the rest begins with the first separator
        have hdrop : s.toList.dropWhile (· ≠ c) = c :: (s.toList.dropWhile (· ≠ c)).drop 1 := by
          cases hrest : s.toList.dropWhile (· ≠ c) with
          | nil =>
            rw [List.dropWhile_eq_nil_iff] at hrest
            exact absurd (hrest c hmem) (by simp)
          | cons x xs => grind [List.head?_dropWhile_not]
        rw [← hdrop, List.takeWhile_append_dropWhile]
      · have hne := List.mem_takeWhile_imp hc
        simp at hne
    · cases h
  · rintro ⟨hs, hc⟩
    have hpos : ∀ x ∈ a.toList, decide (x ≠ c) = true := by
      intro x hx
      exact decide_eq_true fun hxc => hc (hxc ▸ hx)
    rw [if_pos (by rw [hs]; simp), hs, List.takeWhile_append_of_pos hpos,
      List.dropWhile_append_of_pos hpos]
    simp

theorem splitN_eq_cons_cons {n : Nat} {a b : String} {rest : List String} :
    splitN c (n + 2) s = a :: b :: rest ↔
      ∃ after, cut c s = some (a, after) ∧ splitN c (n + 1) after = b :: rest := by
  rw [splitN]
  cases cut c s with
  | none => simp
  | some parts => simp [and_assoc, Prod.ext_iff]

def itoa (n : Int) : String := toString n

theorem toList_itoa_natCast (n : Nat) : (itoa n).toList = Nat.toDigits 10 n := String.toList_ofList

theorem itoa_inj {m n : Int} (hm : 0 ≤ m) (hn : 0 ≤ n) (h : itoa m = itoa n) : m = n := by
  obtain ⟨m, rfl⟩ := Int.eq_ofNat_of_zero_le hm
  obtain ⟨n, rfl⟩ := Int.eq_ofNat_of_zero_le hn
  have hdigits := congrArg (fun s => Nat.ofDigitChars 10 s.toList 0) h
  have hread : ∀ n : Nat, Nat.ofDigitChars 10 (itoa n).toList 0 = n := by
    intro n
    rw [toList_itoa_natCast, Nat.ofDigitChars_toDigits (by decide) (by decide)]
  rw [hread, hread] at hdigits
  rw [hdigits]

theorem isDigit_of_mem_itoa {n : Int} (hn : 0 ≤ n) (hc : c ∈ (itoa n).toList) :
    c.isDigit = true := by
  obtain ⟨n, rfl⟩ := Int.eq_ofNat_of_zero_le hn
  rw [toList_itoa_natCast] at hc
  exact Nat.isDigit_of_mem_toDigits (by decide) (by decide) hc

end Unkey.Base
