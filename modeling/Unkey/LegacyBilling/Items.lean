import Mathlib.Data.List.Nodup
import Unkey.Base.Fallible
import Unkey.Base.GoInt
import Unkey.Base.GoString

/-!
# The charges of a legacy bill

`tieredInvoiceItems` of `svc/ctrl/worker/legacybilling`: the priced tiers of a workspace's
subscription as invoice items.
-/

namespace Unkey.LegacyBilling

open Unkey.Base

structure Lib where
  quote : String → String

structure BillingTier where
  firstUnit : Int
  lastUnit : Option Int
  centsPerUnit : Option String
  deriving DecidableEq

structure TieredSubscription where
  productID : String
  tiers : List BillingTier
  deriving DecidableEq

structure InvoiceItem where
  description : String
  productID : String
  quantity : Int
  unitAmountDecimal : String
  key : String
  deriving DecidableEq

/-! ### Decimal prices -/

def digitsUpTo (most : Nat) (s : String) : Bool :=
  decide (1 ≤ s.toList.length ∧ s.toList.length ≤ most) && s.toList.all Char.isDigit

def matchDecimal (s : String) : Bool :=
  match cut '.' s with
  | none => digitsUpTo 15 s
  | some (whole, fraction) => digitsUpTo 15 whole && digitsUpTo 12 fraction

def ratOfString (s : String) : Option Rat :=
  match cut '.' s with
  | none => (digitsVal s.toList 0).map fun n => mkRat n 1
  | some (whole, fraction) =>
    (digitsVal (whole.toList ++ fraction.toList) 0).map fun n =>
      mkRat n (Nat.pow 10 fraction.toList.length)

variable (L : Lib)

/-! ### Building the items -/

/-- The checks of one tier; `i` is its index and `previous` the tier before it. -/
def validateTier (key : String) (count i : Nat) (previous : Option BillingTier)
    (tier : BillingTier) : Except String Unit :=
  if previous.any (fun p => p.lastUnit.all fun last => tier.firstUnit ≠ int64 (last + 1)) then
    .error (key ++ " tier " ++ itoa (i + 1) ++ " is not contiguous")
  else if tier.firstUnit < 1 then
    .error (key ++ " tier " ++ itoa (i + 1) ++ " has an invalid first unit")
  else if tier.lastUnit.any (· < tier.firstUnit) then
    .error (key ++ " tier " ++ itoa (i + 1) ++ " ends before it starts")
  else if tier.lastUnit = none ∧ i + 1 ≠ count then
    .error (key ++ " only the final tier may be unbounded")
  else
    match tier.centsPerUnit with
    | none => .ok ()
    | some cents =>
      if matchDecimal cents = false then
        .error (key ++ " tier " ++ itoa (i + 1) ++ " cents " ++ L.quote cents
          ++ " is not a valid Stripe decimal")
      else .ok ()

def validateTiers (key : String) (count : Nat) :
    (i : Nat) → (previous : Option BillingTier) → List BillingTier → Except String Unit
  | _, _, [] => .ok ()
  | i, previous, tier :: rest => do
    validateTier L key count i previous tier
    validateTiers key count (i + 1) (some tier) rest

def validateTieredSubscription (key : String) (sub : TieredSubscription) : Except String Unit :=
  if trimSpace sub.productID = "" then .error (key ++ " product ID is empty")
  else
    match sub.tiers with
    | [] => .error (key ++ " tiers are empty")
    | first :: rest =>
      if first.firstUnit ≠ 1 then .error (key ++ " first tier must start at unit 1")
      else do
        validateTiers L key sub.tiers.length 0 none sub.tiers
        if ((first :: rest).getLast (List.cons_ne_nil _ _)).lastUnit ≠ none then
          .error (key ++ " final tier must be unbounded")
        else .ok ()

def BillingTier.quantity (tier : BillingTier) (remaining : Int) : Int :=
  match tier.lastUnit with
  | none => remaining
  | some last =>
    if int64 (int64 (last - tier.firstUnit) + 1) < remaining
    then int64 (int64 (last - tier.firstUnit) + 1) else remaining

def BillingTier.range (tier : BillingTier) : String :=
  itoa tier.firstUnit ++
    match tier.lastUnit with
    | none => "+"
    | some last => "-" ++ itoa last

def tierKey (key : String) (i : Nat) : String := key ++ "-tier-" ++ itoa (i + 1)

def chargeTiers (name key productID : String) :
    (i : Nat) → (remaining : Int) → List BillingTier → List InvoiceItem × Int
  | _, remaining, [] => ([], remaining)
  | i, remaining, tier :: rest =>
    let quantity := tier.quantity remaining
    let later := chargeTiers name key productID (i + 1) (int64 (remaining - quantity)) rest
    match tier.centsPerUnit with
    | none => later
    | some cents =>
      if 0 < quantity then
        (⟨name ++ " " ++ tier.range, productID, quantity, cents, tierKey key i⟩ :: later.1, later.2)
      else later

def tieredInvoiceItems (name key : String) (sub : TieredSubscription) (usage : Int) :
    Except String (List InvoiceItem) :=
  if usage < 0 then .error (key ++ " usage cannot be negative")
  else do
    validateTieredSubscription L key sub
    let charged := chargeTiers name key sub.productID 0 usage sub.tiers
    if 0 < charged.2 then .error (key ++ " has " ++ itoa charged.2 ++ " unpriced units")
    else .ok charged.1

/-! ### What is built -/

variable {key : String}

variable {L}

theorem decimal_of_validateTiers {count i : Nat} {previous : Option BillingTier}
    {tiers : List BillingTier} (h : validateTiers L key count i previous tiers = .ok ()) :
    ∀ tier ∈ tiers, ∀ cents, tier.centsPerUnit = some cents → matchDecimal cents = true := by
  induction tiers generalizing i previous with
  | nil => exact fun tier htier => absurd htier List.not_mem_nil
  | cons tier tiers ih =>
    obtain ⟨_, htier, hrest⟩ := bind_eq_ok h
    refine List.forall_mem_cons.mpr ⟨?_, ih hrest⟩
    intro cents hcents
    by_contra hinvalid
    rw [Bool.not_eq_true] at hinvalid
    unfold validateTier at htier
    rw [hcents] at htier
    simp only [hinvalid, if_true] at htier
    split_ifs at htier

theorem decimal_of_validateTieredSubscription {sub : TieredSubscription}
    (h : validateTieredSubscription L key sub = .ok ()) :
    ∀ tier ∈ sub.tiers, ∀ cents, tier.centsPerUnit = some cents → matchDecimal cents = true := by
  unfold validateTieredSubscription at h
  split at h
  · cases h
  · split at h
    · cases h
    · split at h
      · cases h
      · obtain ⟨_, htiers, -⟩ := bind_eq_ok h
        exact decimal_of_validateTiers htiers

theorem exists_tier_of_mem_chargeTiers {name productID : String} {i : Nat} {remaining : Int}
    {tiers : List BillingTier} {item : InvoiceItem}
    (h : item ∈ (chargeTiers name key productID i remaining tiers).1) :
    (∃ j, i ≤ j ∧ item.key = tierKey key j) ∧ 0 < item.quantity ∧
      ∃ tier ∈ tiers, tier.centsPerUnit = some item.unitAmountDecimal := by
  induction tiers generalizing i remaining with
  | nil => exact absurd h List.not_mem_nil
  | cons tier tiers ih =>
    have hlater : ∀ {remaining : Int},
        item ∈ (chargeTiers name key productID (i + 1) remaining tiers).1 →
        (∃ j, i ≤ j ∧ item.key = tierKey key j) ∧ 0 < item.quantity ∧
          ∃ t ∈ tier :: tiers, t.centsPerUnit = some item.unitAmountDecimal := by
      intro remaining h
      obtain ⟨⟨j, hj, hkey⟩, hquantity, t, ht, hcents⟩ := ih h
      exact ⟨⟨j, by omega, hkey⟩, hquantity, t, List.mem_cons_of_mem _ ht, hcents⟩
    unfold chargeTiers at h
    dsimp only at h
    split at h
    · exact hlater h
    · grind

end Unkey.LegacyBilling
