import Mathlib.Data.List.Basic

/-!
# Lists joined with an escaped separator

An escape character stands before every separator and every escape character of a part, so the
first separator without one ends the part.
-/

namespace Unkey.Base.Escaped

variable {α : Type*} [DecidableEq α] (sep esc : α)

def escape (part : List α) : List α :=
  part.flatMap fun c => if c = esc ∨ c = sep then [esc, c] else [c]

def joined : List (List α) → List α
  | [] => []
  | [part] => escape sep esc part
  | part :: parts => escape sep esc part ++ sep :: joined parts

/-- Reads a part up to the first separator that is not escaped, and what comes after it; `escaped`
right after an escape character. -/
def readPart (escaped : Bool) : List α → List α × Option (List α)
  | [] => ([], none)
  | c :: cs =>
    if escaped then (readPart false cs).map (c :: ·) id
    else if c = sep then ([], some cs)
    else if c = esc then readPart true cs
    else (readPart false cs).map (c :: ·) id

variable {sep esc} {ps qs : List (List α)}

theorem readPart_escape (hne : sep ≠ esc) (part rest : List α) :
    readPart sep esc false (escape sep esc part ++ rest) =
      (readPart sep esc false rest).map (part ++ ·) id := by
  induction part with
  | nil => rfl
  | cons c part ih =>
    have hcons : escape sep esc (c :: part) ++ rest =
        (if c = esc ∨ c = sep then [esc, c] else [c]) ++ (escape sep esc part ++ rest) := by
      simp [escape]
    rw [hcons]
    by_cases hc : c = esc ∨ c = sep
    · simp only [if_pos hc, List.cons_append, List.nil_append, readPart, if_neg (Ne.symm hne), ih,
        Bool.false_eq_true, if_false, if_true]
      rfl
    · obtain ⟨hesc, hsep⟩ := not_or.mp hc
      simp only [if_neg hc, List.cons_append, List.nil_append, readPart, if_neg hsep, if_neg hesc,
        ih, Bool.false_eq_true, if_false]
      rfl

theorem readPart_joined (hne : sep ≠ esc) (part : List α) (ps : List (List α)) :
    readPart sep esc false (joined sep esc (part :: ps)) =
      (part, if ps = [] then none else some (joined sep esc ps)) := by
  cases ps with
  | nil =>
    have hread := readPart_escape hne part []
    rw [List.append_nil] at hread
    simpa [joined, readPart] using hread
  | cons p ps => grind [readPart_escape, joined, readPart]

theorem joined_inj (hne : sep ≠ esc) (hps : ps ≠ []) (hqs : qs ≠ [])
    (h : joined sep esc ps = joined sep esc qs) : ps = qs := by
  induction ps generalizing qs with
  | nil => exact absurd rfl hps
  | cons p ps ih =>
    obtain ⟨q, qs, rfl⟩ := List.exists_cons_of_ne_nil hqs
    have hread := congrArg (readPart sep esc false) h
    rw [readPart_joined hne, readPart_joined hne] at hread
    obtain ⟨rfl, hrest⟩ := Prod.mk.inj hread
    by_cases hp : ps = [] <;> by_cases hq : qs = []
    · rw [hp, hq]
    · simp [hp, hq] at hrest
    · simp [hp, hq] at hrest
    · rw [if_neg hp, if_neg hq] at hrest
      rw [ih hp hq (Option.some.inj hrest)]

end Unkey.Base.Escaped
