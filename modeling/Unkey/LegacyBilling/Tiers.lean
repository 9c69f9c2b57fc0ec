import Mathlib.Algebra.BigOperators.Intervals
import Mathlib.Algebra.Order.Field.Rat
import Unkey.LegacyBilling.Items

/-!
# Every unit at the price of its tier

Tiers that pass `validateTieredSubscription` follow each other without a gap, and the last one has
no end, so that every unit lies in one tier.
-/

namespace Unkey.LegacyBilling

open Unkey.Base

def BillingTier.Contains (tier : BillingTier) (unit : Int) : Prop :=
  tier.firstUnit ≤ unit ∧ tier.lastUnit.all (unit ≤ ·) = true

instance (tier : BillingTier) (unit : Int) : Decidable (tier.Contains unit) :=
  inferInstanceAs (Decidable (_ ∧ _))

def BillingTier.price (tier : BillingTier) : Rat :=
  (tier.centsPerUnit.bind ratOfString).getD 0

def InvoiceItem.amount (item : InvoiceItem) : Rat :=
  item.quantity * (ratOfString item.unitAmountDecimal).getD 0

def unitPrice (tiers : List BillingTier) (unit : Int) : Rat :=
  ((tiers.find? fun tier => tier.Contains unit).map (·.price)).getD 0

def tierOperations (remaining : Int) : List BillingTier → List Int
  | [] => []
  | tier :: rest =>
    (tier.lastUnit.elim [] fun last =>
      [last + 1, last - tier.firstUnit, int64 (last - tier.firstUnit) + 1]) ++
    (remaining - tier.quantity remaining) ::
      tierOperations (int64 (remaining - tier.quantity remaining)) rest

/-! ### Validated tiers -/

/-- The tiers begin at a unit, follow each other without a gap and end with one that has no end. -/
inductive Contiguous : Int → List BillingTier → Prop
  | final {tier : BillingTier} (hfirst : 1 ≤ tier.firstUnit) (hlast : tier.lastUnit = none) :
      Contiguous tier.firstUnit [tier]
  | next {tier : BillingTier} {last : Int} {rest : List BillingTier} (hfirst : 1 ≤ tier.firstUnit)
      (hlast : tier.lastUnit = some last) (hle : tier.firstUnit ≤ last) (hfits : IsInt64 (last + 1))
      (hrest : Contiguous (last + 1) rest) : Contiguous tier.firstUnit (tier :: rest)

variable {L : Lib} {name key productID : String} {count i : Nat} {previous : Option BillingTier}
  {tier : BillingTier} {tiers : List BillingTier} {start : Int}

theorem validateTier_eq_ok (h : validateTier L key count i previous tier = .ok ()) :
    (∀ p, previous = some p → ∃ last, p.lastUnit = some last ∧ tier.firstUnit = int64 (last + 1)) ∧
      1 ≤ tier.firstUnit ∧ (∀ last, tier.lastUnit = some last → tier.firstUnit ≤ last) ∧
      (tier.lastUnit = none → i + 1 = count) := by
  unfold validateTier at h
  split_ifs at h with hgap hfirst hends hopen
  refine ⟨?_, by omega, ?_, fun hnone => not_not.mp fun hne => hopen ⟨hnone, hne⟩⟩
  · rintro p rfl
    cases hlast : p.lastUnit with
    | none => simp [hlast] at hgap
    | some last => grind
  · intro last hlast
    simpa [hlast] using hends

theorem contiguous_of_validateTiers
    (hbounds : ∀ t ∈ tier :: tiers, ∀ last ∈ t.lastUnit, IsInt64 last)
    (hcount : i + (tier :: tiers).length = count)
    (hfinal : ((tier :: tiers).getLast (List.cons_ne_nil _ _)).lastUnit = none)
    (h : validateTiers L key count i previous (tier :: tiers) = .ok ()) :
    Contiguous tier.firstUnit (tier :: tiers) := by
  induction tiers generalizing tier i previous with
  | nil =>
    obtain ⟨_, htier, -⟩ := bind_eq_ok h
    exact .final (validateTier_eq_ok htier).2.1 hfinal
  | cons next rest ih =>
    obtain ⟨_, htier, hrest⟩ := bind_eq_ok h
    obtain ⟨_, hnext, -⟩ := bind_eq_ok hrest
    obtain ⟨-, hfirst, hends, -⟩ := validateTier_eq_ok htier
    obtain ⟨hgap, hpos, -⟩ := validateTier_eq_ok hnext
    obtain ⟨last, hlast, heq⟩ := hgap tier rfl
    obtain ⟨hlow, hhigh⟩ := hbounds tier List.mem_cons_self last hlast
    -- the successor of the largest integer is negative, and no tier begins there
    have hfits : IsInt64 (last + 1) := by
      by_contra hnot
      have : last = 9223372036854775807 := by rw [IsInt64] at hnot; omega
      rw [heq, this] at hpos
      exact absurd hpos (by decide)
    rw [int64_of_isInt64 hfits] at heq
    refine .next hfirst hlast (hends last hlast) hfits ?_
    rw [← heq]
    exact ih (fun t ht => hbounds t (List.mem_cons_of_mem _ ht))
      (by simp only [List.length_cons] at hcount ⊢; omega) hfinal hrest

theorem contiguous_of_validate {sub : TieredSubscription}
    (hbounds : ∀ tier ∈ sub.tiers, ∀ last ∈ tier.lastUnit, IsInt64 last)
    (h : validateTieredSubscription L key sub = .ok ()) : Contiguous 1 sub.tiers := by
  unfold validateTieredSubscription at h
  split at h
  · cases h
  · split at h
    · cases h
    · rename_i first rest htiers
      rw [htiers] at h hbounds ⊢
      split at h
      · cases h
      · rename_i hfirst
        obtain ⟨_, hall, h⟩ := bind_eq_ok h
        split at h
        · cases h
        · grind [contiguous_of_validateTiers]

namespace Contiguous

theorem le_of_contains (hc : Contiguous start tiers) (ht : tier ∈ tiers) {unit : Int}
    (hu : tier.Contains unit) : start ≤ unit := by
  induction hc with
  | final =>
    rw [← List.mem_singleton.mp ht]
    exact hu.1
  | next _ _ hle _ _ ih =>
    rcases List.mem_cons.mp ht with rfl | ht
    · exact hu.1
    · have := ih ht
      omega

theorem existsUnique (hc : Contiguous start tiers) {unit : Int} (hu : start ≤ unit) :
    ∃! i : Nat, ∃ tier, tiers[i]? = some tier ∧ tier.Contains unit := by
  induction hc with
  | @final tier _ hlast =>
    refine ⟨0, ⟨tier, rfl, hu, by simp [hlast]⟩, ?_⟩
    rintro (_ | j) ⟨t, ht, -⟩
    · rfl
    · simp at ht
  | @next tier last rest _ hlast _ _ hrest ih =>
    by_cases hlt : last < unit
    · obtain ⟨j, ⟨t, ht, hin⟩, hunique⟩ := ih hlt
      refine ⟨j + 1, ⟨t, ht, hin⟩, ?_⟩
      rintro (_ | k) ⟨t', ht', hin'⟩
      · cases ht'
        have hle := hin'.2
        rw [hlast] at hle
        simp only [Option.all_some, decide_eq_true_eq] at hle
        omega
      · rw [hunique k ⟨t', ht', hin'⟩]
    · refine ⟨0, ⟨tier, rfl, hu, by simp [hlast]; omega⟩, ?_⟩
      rintro (_ | k) ⟨t', ht', hin'⟩
      · rfl
      · have := hrest.le_of_contains (List.mem_of_getElem? ht') hin'
        omega

end Contiguous

/-! ### The loop -/

theorem quantity_next {last : Int} (hfirst : 1 ≤ tier.firstUnit) (hlast : tier.lastUnit = some last)
    (hle : tier.firstUnit ≤ last) (hfits : IsInt64 (last + 1)) (remaining : Nat) :
    ∃ q : Nat, tier.quantity remaining = q ∧ q ≤ remaining ∧ tier.firstUnit + q ≤ last + 1 ∧
      (q < remaining → tier.firstUnit + q = last + 1) := by
  rw [IsInt64] at hfits
  have hwidth : int64 (int64 (last - tier.firstUnit) + 1) = last - tier.firstUnit + 1 := by
    grind [int64_of_isInt64, IsInt64]
  unfold BillingTier.quantity
  simp only [hlast, hwidth]
  split
  · exact ⟨(last - tier.firstUnit + 1).toNat, by omega, by omega, by omega, by omega⟩
  · exact ⟨remaining, rfl, Nat.le_refl _, by omega, by omega⟩

theorem chargeTiers_cons (name key productID : String) (i : Nat) (tiers : List BillingTier)
    {remaining : Int} (q : Nat) (hq : tier.quantity remaining = q) :
    let later := chargeTiers name key productID (i + 1) (int64 (remaining - q)) tiers
    let charged := chargeTiers name key productID i remaining (tier :: tiers)
    charged.2 = later.2 ∧
      (charged.1.map (·.amount)).sum = q * tier.price + (later.1.map (·.amount)).sum := by
  rw [chargeTiers, hq, BillingTier.price]
  cases tier.centsPerUnit with
  | none => simp
  | some cents =>
    rcases Nat.eq_zero_or_pos q with rfl | hpos
    · simp
    · simp [hpos, InvoiceItem.amount]

theorem sum_unitPrice_cons {q n : Nat} (hin : ∀ u : Nat, u < q + n →
    (tier.Contains (start + u) ↔ u < q)) :
    ∑ u ∈ Finset.range (q + n), unitPrice (tier :: tiers) (start + u) =
      q * tier.price + ∑ u ∈ Finset.range n, unitPrice tiers (start + q + u) := by
  rw [Finset.sum_range_add]
  congr 1
  · rw [Finset.sum_congr rfl (g := fun _ => tier.price), Finset.sum_const, Finset.card_range,
      nsmul_eq_mul]
    intro u hu
    have hu := Finset.mem_range.mp hu
    simp [unitPrice, (hin u (by omega)).mpr hu]
  · refine Finset.sum_congr rfl fun u hu => ?_
    have hu := Finset.mem_range.mp hu
    have hnot := mt (hin (q + u) (by omega)).mp (by omega)
    rw [show start + (q + u : Nat) = start + q + u by omega] at hnot ⊢
    simp [unitPrice, hnot]

theorem Contiguous.charged (hc : Contiguous start tiers) (name key productID : String)
    (i remaining : Nat) (hrem : IsInt64 remaining) :
    (chargeTiers name key productID i remaining tiers).2 = 0 ∧
      ((chargeTiers name key productID i remaining tiers).1.map (·.amount)).sum =
        ∑ u ∈ Finset.range remaining, unitPrice tiers (start + u) ∧
      ∀ x ∈ tierOperations remaining tiers, IsInt64 x := by
  induction hc generalizing i remaining with
  | @final tier hfirst hlast =>
    have hq : tier.quantity remaining = remaining := by simp [BillingTier.quantity, hlast]
    have hzero : int64 ((remaining : Int) - remaining) = 0 := by
      rw [Int.sub_self]
      decide
    obtain ⟨hrest, hsum⟩ := chargeTiers_cons name key productID i [] remaining hq
    rw [hrest, hsum, hzero]
    refine ⟨rfl, ?_, ?_⟩
    · exact (sum_unitPrice_cons (n := 0) fun u hu =>
        iff_of_true ⟨by omega, by simp [hlast]⟩ hu).symm
    · simp [tierOperations, hlast, hq]
      decide
  | @next tier last rest hfirst hlast hle hfits hrest ih =>
    obtain ⟨q, hq, hqle, hwithin, hfull⟩ := quantity_next hfirst hlast hle hfits remaining
    obtain ⟨n, rfl⟩ := Nat.exists_eq_add_of_le hqle
    rw [IsInt64] at hrem hfits
    have hleft : int64 (((q + n : Nat) : Int) - q) = n := by
      rw [int64_of_isInt64 (by rw [IsInt64]; omega)]
      omega
    obtain ⟨hnone, hsum, hops⟩ := ih (i + 1) n (by rw [IsInt64]; omega)
    obtain ⟨hrest', hsum'⟩ := chargeTiers_cons name key productID i rest q hq
    rw [hrest', hsum', hleft, hsum]
    refine ⟨hnone, ?_, ?_⟩
    · rw [sum_unitPrice_cons]
      · -- only a tier that is filled leaves units for the next one
        congr 1
        refine Finset.sum_congr rfl fun u hu => ?_
        have := Finset.mem_range.mp hu
        rw [hfull (by omega)]
      · grind [BillingTier.Contains]
    · rw [tierOperations, hq, hleft, hlast]
      have hwidth : int64 (last - tier.firstUnit) = last - tier.firstUnit :=
        int64_of_isInt64 (by rw [IsInt64]; omega)
      refine List.forall_mem_append.mpr ⟨?_, List.forall_mem_cons.mpr ⟨?_, hops⟩⟩
      · simp only [Option.elim_some, List.forall_mem_cons, hwidth, IsInt64]
        exact ⟨by omega, by omega, by omega, fun _ h => by cases h⟩
      · rw [IsInt64]
        omega

theorem isSome_ratOfString {cents : String} (h : matchDecimal cents = true) :
    (ratOfString cents).isSome = true := by
  have hdigits : ∀ (cs : List Char) (n : Nat), cs.all Char.isDigit = true →
      ∃ m, digitsVal cs n = some m := by
    intro cs
    induction cs with
    | nil => exact fun n _ => ⟨n, rfl⟩
    | cons c cs ih =>
      intro n hall
      rw [List.all_cons, Bool.and_eq_true] at hall
      rw [digitsVal, if_pos hall.1]
      exact ih _ hall.2
  unfold matchDecimal at h
  unfold ratOfString
  split at h
  · rw [digitsUpTo, Bool.and_eq_true] at h
    obtain ⟨m, hm⟩ := hdigits _ 0 h.2
    rw [hm]
    rfl
  · rw [Bool.and_eq_true, digitsUpTo, digitsUpTo, Bool.and_eq_true, Bool.and_eq_true] at h
    obtain ⟨m, hm⟩ := hdigits _ 0
      ((List.all_append ..).trans (Bool.and_eq_true_iff.mpr ⟨h.1.2, h.2.2⟩))
    rw [hm]
    rfl

/-! ### The bill -/

/-- For tiers that pass validation, with bounds and a usage of 64 bits: every unit lies in one
tier, no operation leaves 64 bits, and the lines are made, with prices that can be read. They
charge the sum of the exact prices of the units. -/
theorem tieredInvoiceItems_exact (L : Lib) (name key : String) (sub : TieredSubscription)
    (hbounds : ∀ tier ∈ sub.tiers, ∀ last ∈ tier.lastUnit, IsInt64 last)
    (hvalid : validateTieredSubscription L key sub = .ok ()) (usage : Nat)
    (husage : IsInt64 usage) :
    (∀ unit : Int, 1 ≤ unit → ∃! i : Nat, ∃ tier, sub.tiers[i]? = some tier ∧ tier.Contains unit) ∧
    (∀ x ∈ tierOperations usage sub.tiers, IsInt64 x) ∧
    ∃ items, tieredInvoiceItems L name key sub usage = .ok items ∧
      (∀ item ∈ items, (ratOfString item.unitAmountDecimal).isSome = true) ∧
      (items.map (·.amount)).sum = ∑ u ∈ Finset.range usage, unitPrice sub.tiers (1 + u) := by
  have hc := contiguous_of_validate hbounds hvalid
  obtain ⟨hrest, htotal, hops⟩ := hc.charged name key sub.productID 0 usage husage
  refine ⟨fun unit => hc.existsUnique, hops, _, ?_, ?_, htotal⟩
  · rw [tieredInvoiceItems, if_neg (by omega), hvalid]
    show (if _ then _ else _) = _
    rw [if_neg (by rw [hrest]; decide)]
  · intro item hitem
    obtain ⟨-, -, tier, htier, hcents⟩ := exists_tier_of_mem_chargeTiers hitem
    exact isSome_ratOfString (decimal_of_validateTieredSubscription hvalid tier htier _ hcents)

def threeTiers : TieredSubscription :=
  ⟨"prod_1", [⟨1, some 2, none⟩, ⟨3, some 5, some "0.5"⟩, ⟨6, none, some "0.1"⟩]⟩

theorem tieredInvoiceItems_exact_seven :
    ∃ items, tieredInvoiceItems ⟨id⟩ "Verifications" "verifications" threeTiers 7 = .ok items ∧
      (items.map (·.amount)).sum = ∑ u ∈ Finset.range 7, unitPrice threeTiers.tiers (1 + u) := by
  obtain ⟨-, -, items, hitems, -, htotal⟩ := tieredInvoiceItems_exact ⟨id⟩ "Verifications"
    "verifications" threeTiers (by decide) (by decide) 7 (by decide)
  exact ⟨items, hitems, htotal⟩

end Unkey.LegacyBilling
