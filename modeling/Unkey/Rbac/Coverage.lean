import Unkey.Rbac.Grammar

/-!
# Nothing of a query is ignored

The lexer takes a NUL for the end of the input and classifies single bytes as Unicode letters.
-/

namespace Unkey.Rbac

def ofBytes (bytes : List UInt8) : String := String.ofList (bytes.map fun b => Char.ofNat b.toNat)

/-- The text is made of blanks, parentheses and words, with these lexemes. -/
inductive Covered : List Char → List Lexeme → Prop
  | nil : Covered [] []
  | blank {c : Char} {cs : List Char} {ls : List Lexeme} (hc : isBlank c = true)
      (hcs : Covered cs ls) : Covered (c :: cs) ls
  | lparen {cs : List Char} {ls : List Lexeme} (hcs : Covered cs ls) :
      Covered ('(' :: cs) (.lparen :: ls)
  | rparen {cs : List Char} {ls : List Lexeme} (hcs : Covered cs ls) :
      Covered (')' :: cs) (.rparen :: ls)
  | word {word cs : List Char} {ls : List Lexeme} (hne : word ≠ []) (hcs : Covered cs ls) :
      Covered (word ++ cs) (Lexeme.ofRun word :: ls)

/-- The whole text went into the tree: its words are the permissions and the operators that the
tree was derived from, and every permission has the documented characters. -/
structure Faithful (cs : List Char) (q : PermissionQuery) : Prop where
  covered : ∃ ls f, Covered cs ls ∧ Derives .expression ls f ∧ f.query = q
  documented : ∀ x ∈ q.leaves, x.1 ≠ "" ∧ ∀ c ∈ x.1.toList, isWordChar c = true

/-! ### Words -/

variable {c : Char}

theorem toUpper_eq_self (h : ¬ c.toNat < 128) : c.toUpper = c := by
  have hval : ¬ c.val.toNat < 128 := h
  delta Char.toUpper
  rw [dif_neg]
  rintro ⟨-, hz⟩
  rw [UInt32.le_iff_toNat_le] at hz
  exact hval (Nat.lt_of_le_of_lt hz (by decide))

theorem ascii_of_toUpper (h : c.toUpper.toNat < 128 ∧ c.toUpper ≠ nul) :
    c.toNat < 128 ∧ c ≠ nul := by
  by_cases hascii : c.toNat < 128
  · refine ⟨hascii, ?_⟩
    rintro rfl
    exact h.2 (by decide)
  · rw [toUpper_eq_self hascii] at h
    exact absurd h.1 hascii

theorem ascii_of_isWordChar (h : isWordChar c = true) : c.toNat < 128 ∧ c ≠ nul := by
  constructor
  · show c.val.toNat < 128
    unfold isWordChar at h
    delta Char.isAlphanum Char.isAlpha Char.isUpper Char.isLower Char.isDigit at h
    simp only [Bool.or_eq_true, Bool.and_eq_true, decide_eq_true_eq, ge_iff_le,
      UInt32.le_iff_toNat_le, List.mem_cons, List.not_mem_nil, or_false] at h
    rcases h with (((⟨-, h⟩ | ⟨-, h⟩) | ⟨-, h⟩) | rfl | rfl | rfl | rfl | rfl | rfl)
    · exact Nat.lt_of_le_of_lt h (by decide)
    · exact Nat.lt_of_le_of_lt h (by decide)
    · exact Nat.lt_of_le_of_lt h (by decide)
    all_goals decide
  · rintro rfl
    exact absurd h (by decide)

theorem Lexeme.ofRun_cases (word : List Char) :
    Ascii word ∨ Lexeme.ofRun word = .permission (String.ofList word) := by
  have hoperator : ∀ op : List Char, Ascii op → word.map Char.toUpper = op → Ascii word := by
    rintro op hop rfl c hc
    exact ascii_of_toUpper (hop _ (List.mem_map_of_mem hc))
  rw [Lexeme.ofRun]
  split
  · rename_i hand
    exact .inl (hoperator _ (by decide) hand)
  · split
    · rename_i hor
      exact .inl (hoperator _ (by decide) hor)
    · exact .inr rfl

variable {ls : List Lexeme}

theorem Derives.mem_leaves {sym : Symbol} {f : Formula} (h : Derives sym ls f)
    (hne : ∀ value, .permission value ∈ ls → value ≠ "") (x : String × Bool) :
    x ∈ f.query.leaves ↔ x.2 = false ∧ .permission x.1 ∈ ls := by
  induction h with
  | permission =>
    rename_i value
    rw [Formula.query, PermissionQuery.S, PermissionQuery.leaves, if_pos (hne value (by simp))]
    obtain ⟨v, m⟩ := x
    simp [and_comm]
  | group _ ih => simpa using ih fun value hvalue => hne value (by simp [hvalue])
  | primary _ ih => exact ih hne
  | and _ ih => exact ih hne
  | conj _ _ ihl ihr =>
    have hl := ihl fun value hvalue => hne value (by simp [hvalue])
    have hr := ihr fun value hvalue => hne value (by simp [hvalue])
    simp [Formula.query, PermissionQuery.and, PermissionQuery.leaves, PermissionQuery.leavesOf_eq,
      hl, hr, and_or_left]
  | disj _ _ ihl ihr =>
    have hl := ihl fun value hvalue => hne value (by simp [hvalue])
    have hr := ihr fun value hvalue => hne value (by simp [hvalue])
    simp [Formula.query, PermissionQuery.or, PermissionQuery.leaves, PermissionQuery.leavesOf_eq,
      hl, hr, and_or_left]

/-! ### Faithful texts are ASCII -/

variable {cs : List Char}

theorem Covered.permission_ne (h : Covered cs ls)
    {value : String} (hmem : .permission value ∈ ls) : value ≠ "" := by
  induction h with
  | nil => cases hmem
  | blank _ _ ih => exact ih hmem
  | lparen _ ih => exact ih (by simpa using hmem)
  | rparen _ ih => exact ih (by simpa using hmem)
  | word hne _ ih => grind [Lexeme.value_ne]

theorem Ascii.cons (hc : c.toNat < 128 ∧ c ≠ nul) (hcs : Ascii cs) :
    Ascii (c :: cs) := by
  intro d hd
  rcases List.mem_cons.mp hd with rfl | hd
  · exact hc
  · exact hcs d hd

theorem Ascii.append {ds : List Char} (hcs : Ascii cs) (hds : Ascii ds) : Ascii (cs ++ ds) := by
  intro d hd
  rcases List.mem_append.mp hd with hd | hd
  · exact hcs d hd
  · exact hds d hd

theorem ascii_of_isBlank (h : isBlank c = true) : c.toNat < 128 ∧ c ≠ nul := by
  simp only [isBlank, Bool.or_eq_true, decide_eq_true_eq] at h
  rcases h with ((rfl | rfl) | rfl) | rfl <;> decide

theorem Covered.ascii (h : Covered cs ls)
    (hvalues : ∀ value, .permission value ∈ ls → ∀ c ∈ value.toList, isWordChar c = true) :
    Ascii cs := by
  induction h with
  | nil =>
    intro c hc
    cases hc
  | blank hc _ ih => exact (ih hvalues).cons (ascii_of_isBlank hc)
  | lparen _ ih =>
    exact (ih fun value hmem => hvalues value (List.mem_cons_of_mem _ hmem)).cons (by decide)
  | rparen _ ih =>
    exact (ih fun value hmem => hvalues value (List.mem_cons_of_mem _ hmem)).cons (by decide)
  | @word word cs ls hne _ ih =>
    refine Ascii.append ?_ (ih fun value hmem => hvalues value (List.mem_cons_of_mem _ hmem))
    rcases Lexeme.ofRun_cases word with hascii | hvalue
    · exact hascii
    · intro c hc
      refine ascii_of_isWordChar (hvalues _ (by rw [hvalue]; exact List.mem_cons_self) c ?_)
      rwa [String.toList_ofList]

theorem Faithful.ascii {q : PermissionQuery} (h : Faithful cs q) : Ascii cs := by
  obtain ⟨ls, f, hcovered, hderives, rfl⟩ := h.covered
  refine hcovered.ascii fun value hmem => ?_
  have hleaf := (hderives.mem_leaves (fun _ => hcovered.permission_ne) (value, false)).mpr
    ⟨rfl, hmem⟩
  exact (h.documented _ hleaf).2

/-! ### ASCII texts are read faithfully -/

theorem Derives.other_not_mem {sym : Symbol} {f : Formula}
    (h : Derives sym ls f) (c : Char) : .other c ∉ ls := by
  induction h with
  | permission => simp
  | group _ ih => simpa using ih
  | primary _ ih => exact ih
  | and _ ih => exact ih
  | conj _ _ ihl ihr => simp [ihl, ihr]
  | disj _ _ ihl ihr => simp [ihl, ihr]

theorem Splits.covered (h : Splits cs ls) (hother : ∀ c, .other c ∉ ls) : Covered cs ls := by
  induction h with
  | nil => exact .nil
  | blank hc _ ih => exact .blank hc (ih hother)
  | lparen _ ih => exact .lparen (ih fun c hmem => hother c (List.mem_cons_of_mem _ hmem))
  | rparen _ ih => exact .rparen (ih fun c hmem => hother c (List.mem_cons_of_mem _ hmem))
  | run hne _ _ _ ih => exact .word hne (ih fun c hmem => hother c (List.mem_cons_of_mem _ hmem))
  | other => exact absurd List.mem_cons_self (hother _)

theorem Splits.documented (h : Splits cs ls) {value : String}
    (hmem : .permission value ∈ ls) : ∀ c ∈ value.toList, isWordChar c = true := by
  induction h with
  | nil => cases hmem
  | blank _ _ ih => exact ih hmem
  | lparen _ ih => exact ih (by simpa using hmem)
  | rparen _ ih => exact ih (by simpa using hmem)
  | run _ hrun _ _ ih => grind [Lexeme.value_eq]
  | other _ _ _ _ ih => exact ih (by simpa using hmem)

theorem faithful_of_ascii {s : String} (hs : Ascii s.toList) {q : PermissionQuery}
    (hq : parseQuery s = some (.ok q)) : Faithful s.toList q := by
  obtain ⟨ls, hls⟩ := Splits.total s.toList
  have hlen := hls.length_le
  rcases parse_error_or_derives (.new hs hls)
    (show 3 * ls.length + 3 ≤ 3 * s.toList.length + 3 by omega) with ⟨err, h⟩ | ⟨f, hf, h⟩
  · rw [parseQuery, h] at hq
    cases hq
  · rw [parseQuery, h] at hq
    cases hq
    refine ⟨⟨ls, f, hls.covered hf.other_not_mem, hf, rfl⟩, fun x hx => ?_⟩
    obtain ⟨-, hmem⟩ := (hf.mem_leaves (fun _ => hls.permission_ne) x).mp hx
    exact ⟨hls.permission_ne hmem, hls.documented hmem⟩

theorem ascii_ofBytes (bytes : List UInt8) :
    Ascii (ofBytes bytes).toList ↔ ∀ b ∈ bytes, b ≠ 0 ∧ b < 128 := by
  have hbyte (b : UInt8) : (Char.ofNat b.toNat).toNat = b.toNat := by
    have hvalid : b.toNat.isValidChar := .inl (by have := b.toNat_lt; omega)
    rw [Char.ofNat, dif_pos hvalid]
    rfl
  have hnul (b : UInt8) : Char.ofNat b.toNat ≠ nul ↔ b ≠ 0 := by
    rw [ne_eq, ne_eq, ← Char.toNat_inj, hbyte, ← UInt8.toNat_inj]
    rfl
  rw [ofBytes, String.toList_ofList, Ascii, List.forall_mem_map]
  refine forall₂_congr fun b _ => ?_
  rw [hbyte, hnul, UInt8.lt_iff_toNat_lt, and_comm]
  rfl

/-- A query that parses was read faithfully exactly if its bytes are ASCII and none of them is
NUL. -/
theorem parseQuery_faithful_iff {bytes : List UInt8} {q : PermissionQuery}
    (hq : parseQuery (ofBytes bytes) = some (.ok q)) :
    Faithful (ofBytes bytes).toList q ↔ ∀ b ∈ bytes, b ≠ 0 ∧ b < 128 := by
  rw [← ascii_ofBytes]
  exact ⟨Faithful.ascii, fun hascii => faithful_of_ascii hascii hq⟩

theorem parseQuery_faithful_conjunction :
    ∃ q, parseQuery (ofBytes [97, 32, 65, 78, 68, 32, 98]) = some (.ok q) ∧
      Faithful (ofBytes [97, 32, 65, 78, 68, 32, 98]).toList q := by
  have hq : parseQuery (ofBytes [97, 32, 65, 78, 68, 32, 98]) =
      some (.ok (.and [.S "a", .S "b"])) := by rfl
  exact ⟨_, hq, (parseQuery_faithful_iff hq).mpr (by simp)⟩

/-- `admin`, NUL and `AND revoked` is read as `admin`, and `ê` in UTF-8 as the name of a
permission. -/
theorem parseQuery_unfaithful :
    (∃ q, parseQuery (ofBytes [97, 100, 109, 105, 110, 0, 32, 65, 78, 68, 32, 114, 101, 118, 111,
        107, 101, 100]) = some (.ok q) ∧ q.leaves = [("admin", false)]) ∧
      ∃ q, parseQuery (ofBytes [195, 170]) = some (.ok q) ∧
        ∃ x ∈ q.leaves, ¬ ∀ c ∈ x.1.toList, isWordChar c = true := by
  refine ⟨⟨.S "admin", by rfl, by decide⟩, .S (ofBytes [195, 170]), by rfl, ?_⟩
  refine ⟨(ofBytes [195, 170], false), by decide, fun hall => ?_⟩
  exact absurd (hall 'Ã' (by decide)) (by decide)

end Unkey.Rbac
