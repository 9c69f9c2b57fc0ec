import Mathlib.Data.List.Basic
import Mathlib.Tactic.Common

/-!
# Waiting lines

A line is joined at its end and served at its head; anyone in it may leave.
-/

namespace Unkey.Base

inductive LineEvent (α : Type*) where
  | joins (a : α)
  | served (a : α)
  deriving DecidableEq

variable {α : Type*}

/-- `Line h l`: the line may be `l` after the events of `h`. -/
inductive Line : List (LineEvent α) → List α → Prop
  | empty : Line [] []
  | join {h : List (LineEvent α)} {l : List α} {a : α} :
      Line h l → a ∉ l → Line (.joins a :: h) (l ++ [a])
  | leave {h : List (LineEvent α)} {l l' : List α} : Line h l → l'.Sublist l → Line h l'
  | serve {h : List (LineEvent α)} {a : α} {l : List α} :
      Line h (a :: l) → Line (.served a :: h) l

variable [DecidableEq α]

def ticket : List (LineEvent α) → α → Option Nat
  | [], _ => none
  | .joins b :: h, a => if a = b then some h.length else ticket h a
  | .served _ :: h, a => ticket h a

def ServedAt (h : List (LineEvent α)) (a : α) (i t : Nat) : Prop :=
  ∃ new past, h = new ++ .served a :: past ∧ ticket past a = some i ∧ past.length = t

def FirstComeFirstServed (h : List (LineEvent α)) : Prop :=
  ∀ a b i j t u, ServedAt h a i t → ServedAt h b j u → i < j → t < u

variable {h : List (LineEvent α)} {l : List α} {a b : α} {i t : Nat}

@[simp] theorem ticket_joins_self : ticket (.joins a :: h) a = some h.length := by
  simp [ticket]

theorem ticket_joins_of_ne (hne : b ≠ a) : ticket (.joins a :: h) b = ticket h b := by
  simp [ticket, hne]

theorem ticket_lt_length (hi : ticket h a = some i) : i < h.length := by
  induction h with
  | nil => simp [ticket] at hi
  | cons ev h ih =>
    cases ev with
    | served b => exact Nat.lt_succ_of_lt (ih hi)
    | joins b =>
      by_cases hab : a = b
      · subst b
        rw [ticket_joins_self, Option.some.injEq] at hi
        simp [← hi]
      · rw [ticket_joins_of_ne hab] at hi
        exact Nat.lt_succ_of_lt (ih hi)

@[simp] theorem not_servedAt_nil : ¬ ServedAt [] a i t := by
  rintro ⟨new, past, heq, -⟩
  simp at heq

@[simp] theorem servedAt_joins : ServedAt (.joins b :: h) a i t ↔ ServedAt h a i t := by
  constructor
  · rintro ⟨new, past, heq, hrest⟩
    cases new with
    | nil => simp at heq
    | cons ev new => exact ⟨new, past, (List.cons.inj heq).2, hrest⟩
  · rintro ⟨new, past, rfl, hrest⟩
    exact ⟨.joins b :: new, past, rfl, hrest⟩

theorem servedAt_served :
    ServedAt (.served b :: h) a i t
      ↔ (a = b ∧ ticket h a = some i ∧ h.length = t) ∨ ServedAt h a i t := by
  constructor
  · rintro ⟨new, past, heq, hrest⟩
    cases new with
    | nil => grind
    | cons ev new => exact .inr ⟨new, past, (List.cons.inj heq).2, hrest⟩
  · rintro (⟨rfl, hrest⟩ | ⟨new, past, rfl, hrest⟩)
    · exact ⟨[], h, rfl, hrest⟩
    · exact ⟨.served b :: new, past, rfl, hrest⟩

theorem ServedAt.lt_length (hs : ServedAt h a i t) : t < h.length := by
  obtain ⟨new, past, rfl, -, rfl⟩ := hs
  simp only [List.length_append, List.length_cons]
  omega

structure Ticketed (h : List (LineEvent α)) (l : List α) : Prop where
  held : ∀ a ∈ l, ∃ i, ticket h a = some i
  sorted : l.Pairwise fun a b => ∀ i j, ticket h a = some i → ticket h b = some j → i < j
  beyond : ∀ a ∈ l, ∀ i b j t, ticket h a = some i → ServedAt h b j t → j < i
  fair : FirstComeFirstServed h

theorem Ticketed.join (ht : Ticketed h l) (ha : a ∉ l) :
    Ticketed (.joins a :: h) (l ++ [a]) := by
  -- those already in the line keep their tickets, and `a` takes the latest one
  have hold : ∀ b ∈ l, ticket (.joins a :: h) b = ticket h b := fun b hb =>
    ticket_joins_of_ne (ne_of_mem_of_not_mem hb ha)
  refine ⟨?_, ?_, ?_, ?_⟩
  · intro b hb
    obtain hb | rfl := List.mem_append.mp hb |>.imp_right List.mem_singleton.mp
    · rw [hold b hb]
      exact ht.held b hb
    · exact ⟨_, ticket_joins_self⟩
  · rw [List.pairwise_append]
    refine ⟨?_, List.pairwise_singleton _ _, ?_⟩
    · refine ht.sorted.imp_of_mem ?_
      intro b c hb hc hlt
      rw [hold b hb, hold c hc]
      exact hlt
    · intro b hb c hc i j hi hj
      obtain rfl := List.mem_singleton.mp hc
      rw [hold b hb] at hi
      rw [ticket_joins_self, Option.some.injEq] at hj
      rw [← hj]
      exact ticket_lt_length hi
  · intro b hb i c j t hi hs
    rw [servedAt_joins] at hs
    obtain hb | rfl := List.mem_append.mp hb |>.imp_right List.mem_singleton.mp
    · rw [hold b hb] at hi
      exact ht.beyond b hb i c j t hi hs
    · rw [ticket_joins_self, Option.some.injEq] at hi
      obtain ⟨new, past, rfl, htic, -⟩ := hs
      have hlt := ticket_lt_length htic
      simp only [List.length_append, List.length_cons] at hi
      omega
  · intro b c i j t u hb hc
    rw [servedAt_joins] at hb hc
    exact ht.fair b c i j t u hb hc

theorem Ticketed.leave {l' : List α} (ht : Ticketed h l) (hl : l'.Sublist l) : Ticketed h l' where
  held := fun a ha => ht.held a (hl.subset ha)
  sorted := ht.sorted.sublist hl
  beyond := fun a ha => ht.beyond a (hl.subset ha)
  fair := ht.fair

theorem Ticketed.serve (ht : Ticketed h (a :: l)) : Ticketed (.served a :: h) l := by
  have hsorted := List.pairwise_cons.mp ht.sorted
  refine ⟨fun b hb => ht.held b (List.mem_cons_of_mem _ hb), hsorted.2, ?_, ?_⟩
  · intro b hb i c j t hi hs
    obtain ⟨rfl, hj, -⟩ | hs := servedAt_served.mp hs
    · exact hsorted.1 b hb j i hj hi
    · exact ht.beyond b (List.mem_cons_of_mem _ hb) i c j t hi hs
  · intro b c i j t u hb hc hij
    obtain ⟨rfl, hi, rfl⟩ | hb := servedAt_served.mp hb
    · -- the head is served now, so whoever was served before had an earlier ticket
      obtain ⟨rfl, hj, rfl⟩ | hc := servedAt_served.mp hc
      · rw [hi, Option.some.injEq] at hj
        omega
      · have := ht.beyond b List.mem_cons_self i c j u hi hc
        omega
    · obtain ⟨-, -, rfl⟩ | hc := servedAt_served.mp hc
      · exact hb.lt_length
      · exact ht.fair b c i j t u hb hc hij

theorem Line.ticketed (hl : Line h l) : Ticketed h l := by
  induction hl with
  | empty => exact ⟨by simp, .nil, by simp, by intro a b i j t u ha; simp at ha⟩
  | join _ ha ih => exact ih.join ha
  | leave _ hl ih => exact ih.leave hl
  | serve _ ih => exact ih.serve

theorem Line.firstComeFirstServed (hl : Line h l) : FirstComeFirstServed h :=
  hl.ticketed.fair

end Unkey.Base
