import Mathlib.Data.Finset.Card
import Mathlib.Data.Finset.Insert
import Mathlib.Data.Finset.Range
import Mathlib.Logic.Relation

/-!
# The rules of a matching game

Cards are indices of any type, each with a value of any type. A player turns one
card, then a second one; a pair of equal value is found and leaves the game,
any other pair is turned back. On a deck in which every card has exactly one
partner, what has been found is always made of whole pairs.
-/
namespace Pairs

open Relation (ReflTransGen)

variable {ι V : Type}

/-- The cards turned so far: at most two, and never one card twice. -/
inductive Hand (ι : Type) where
  | empty
  | one (i : ι)
  | two (i j : ι) (distinct : i ≠ j)

namespace Hand

def Mem (k : ι) : Hand ι → Prop
  | .empty => False
  | .one i => k = i
  | .two i j _ => k = i ∨ k = j

instance : Membership ι (Hand ι) := ⟨fun h k => Mem k h⟩

@[simp] theorem not_mem_empty (k : ι) : k ∉ (.empty : Hand ι) := id
@[simp] theorem mem_one (k i : ι) : k ∈ (.one i : Hand ι) ↔ k = i := Iff.rfl
@[simp] theorem mem_two (k i j : ι) (h : i ≠ j) :
    k ∈ (.two i j h : Hand ι) ↔ k = i ∨ k = j := Iff.rfl

end Hand

/-- A game in progress. -/
structure Table (ι : Type) where
  found : Finset ι
  hand : Hand ι
  matched : Nat
  missed : Nat

def Table.initial : Table ι := ⟨∅, .empty, 0, 0⟩

section Rules

variable (deck : Finset ι) (value : ι → V)

/-- Every card has exactly one partner. -/
def Paired : Prop :=
  ∀ i ∈ deck, ∃ j ∈ deck, j ≠ i ∧ value j = value i ∧ ∀ k ∈ deck, value k = value i → k = i ∨ k = j

/-- What the rules keep true of a game that began with nothing found. -/
structure Sound (τ : Table ι) : Prop where
  within : τ.found ⊆ deck
  whole : ∀ i ∈ deck, ∀ j ∈ deck, value i = value j → i ∈ τ.found → j ∈ τ.found
  count : τ.found.card = 2 * τ.matched
  hand : ∀ k ∈ τ.hand, k ∈ deck ∧ k ∉ τ.found

/-- The moves of the game. -/
inductive Step [DecidableEq ι] (τ : Table ι) : Table ι → Prop where
  | first {i : ι} : τ.hand = .empty → i ∈ deck → i ∉ τ.found → Step τ { τ with hand := .one i }
  | second {i j : ι} (h : i ≠ j) :
      τ.hand = .one i → j ∈ deck → j ∉ τ.found → Step τ { τ with hand := .two i j h }
  | hit {i j : ι} {h : i ≠ j} : τ.hand = .two i j h → value i = value j →
      Step τ ⟨insert i (insert j τ.found), .empty, τ.matched + 1, τ.missed⟩
  | miss {i j : ι} {h : i ≠ j} : τ.hand = .two i j h → value i ≠ value j →
      Step τ { τ with hand := .empty, missed := τ.missed + 1 }

variable {deck value}

theorem sound_initial : Sound deck value Table.initial where
  within := Finset.empty_subset deck
  whole := by
    intro i _ j _ _ hi
    exact absurd hi (Finset.notMem_empty i)
  count := rfl
  hand := by
    intro k hk
    exact absurd hk (Hand.not_mem_empty k)

/-- Everything is found exactly when the pairs found are as many as the deck has. -/
theorem Sound.complete_iff {τ : Table ι} (hsound : Sound deck value τ) {n : Nat}
    (hcard : deck.card = 2 * n) : τ.found = deck ↔ τ.matched = n := by
  constructor
  · intro heq
    have hcount := hsound.count
    rw [heq, hcard] at hcount
    omega
  · intro hmatched
    apply Finset.eq_of_subset_of_card_le hsound.within
    rw [hsound.count, hcard, hmatched]

theorem Sound.matched_le {τ : Table ι} (hsound : Sound deck value τ) {n : Nat}
    (hcard : deck.card = 2 * n) : τ.matched ≤ n := by
  have hle := Finset.card_le_card hsound.within
  rw [hsound.count, hcard] at hle
  omega

/-- The partner of a card that has not been found has not been found either. -/
theorem Sound.partner {τ : Table ι} (hpaired : Paired deck value) (hsound : Sound deck value τ)
    {i : ι} (hi : i ∈ deck) (hfound : i ∉ τ.found) :
    ∃ j ∈ deck, j ∉ τ.found ∧ i ≠ j ∧ value i = value j := by
  obtain ⟨j, hj, hne, hvalue, -⟩ := hpaired i hi
  refine ⟨j, hj, ?_, hne.symm, hvalue.symm⟩
  intro hjfound
  exact hfound (hsound.whole j hj i hi hvalue hjfound)

variable [DecidableEq ι]

/-- Finding a pair keeps the found cards closed under equal values, since no third
card shares the value. -/
theorem Sound.hit {τ : Table ι} (hpaired : Paired deck value) (hsound : Sound deck value τ)
    {i j : ι} {h : i ≠ j} (hhand : τ.hand = .two i j h) (hvalue : value i = value j) :
    Sound deck value ⟨insert i (insert j τ.found), .empty, τ.matched + 1, τ.missed⟩ := by
  obtain ⟨hi, hifound⟩ := hsound.hand i (by rw [hhand]; exact .inl rfl)
  obtain ⟨hj, hjfound⟩ := hsound.hand j (by rw [hhand]; exact .inr rfl)
  have honly : ∀ k ∈ deck, value k = value i → k = i ∨ k = j := by
    obtain ⟨p, -, -, -, huniq⟩ := hpaired i hi
    intro k hk hvk
    have hjp := huniq j hj hvalue.symm
    have hkp := huniq k hk hvk
    cases hjp with
    | inl hji => exact absurd hji.symm h
    | inr hjp => rw [hjp]; exact hkp
  constructor
  · intro k hk
    simp only [Finset.mem_insert] at hk
    obtain rfl | rfl | hk := hk
    · exact hi
    · exact hj
    · exact hsound.within hk
  · intro a ha b hb hab hafound
    simp only [Finset.mem_insert] at hafound ⊢
    have hpair : value a = value i → b = i ∨ b = j := fun hai => honly b hb (hab ▸ hai)
    obtain rfl | rfl | hafound := hafound
    · have := hpair rfl
      tauto
    · have := hpair hvalue.symm
      tauto
    · exact .inr (.inr (hsound.whole a ha b hb hab hafound))
  · have hinot : i ∉ insert j τ.found := by simp [h, hifound]
    change (insert i (insert j τ.found)).card = _
    rw [Finset.card_insert_of_notMem hinot, Finset.card_insert_of_notMem hjfound, hsound.count]
    change _ = 2 * (τ.matched + 1)
    omega
  · intro k hk
    exact absurd hk (Hand.not_mem_empty k)

theorem Sound.step {τ υ : Table ι} (hpaired : Paired deck value) (hsound : Sound deck value τ)
    (hstep : Step deck value τ υ) : Sound deck value υ := by
  cases hstep with
  | @first i _ hi hfound =>
    refine ⟨hsound.within, hsound.whole, hsound.count, ?_⟩
    intro k hk
    cases hk
    exact ⟨hi, hfound⟩
  | @second i j hne hhand hj hfound =>
    refine ⟨hsound.within, hsound.whole, hsound.count, ?_⟩
    intro k hk
    obtain rfl | rfl := hk
    · exact hsound.hand k (by rw [hhand]; rfl)
    · exact ⟨hj, hfound⟩
  | hit hhand hvalue => exact hsound.hit hpaired hhand hvalue
  | miss hhand hvalue =>
    refine ⟨hsound.within, hsound.whole, hsound.count, ?_⟩
    intro k hk
    exact absurd hk (Hand.not_mem_empty k)

/-- What has been found stays found. -/
theorem Step.found_mono {τ υ : Table ι} (hstep : Step deck value τ υ) : τ.found ⊆ υ.found := by
  cases hstep with
  | first | second | miss => exact Finset.Subset.refl _
  | hit =>
    intro k hk
    simp [hk]

end Rules

section Lists

variable [DecidableEq V]

/-- How often a value occurs in a list is the number of indices that carry it. -/
theorem card_indices (values : List V) (d v : V) :
    ((Finset.range values.length).filter fun k => values[k]?.getD d = v).card = values.count v := by
  have hmap : values = (List.range values.length).map fun k => values[k]?.getD d := by
    apply List.ext_getElem (by simp)
    intro k h1 h2
    simp [h1]
  conv_rhs => rw [hmap, List.count, List.countP_map, List.countP_eq_length_filter]
  simp only [Finset.card_def, Finset.filter_val, Finset.range_val, Multiset.range,
    Multiset.filter_coe, Multiset.coe_card]
  congr 1

/-- When every value of a list occurs twice, the indices are paired. -/
theorem paired_of_count {values : List V} (d : V) (h : ∀ v ∈ values, values.count v = 2) :
    Paired (Finset.range values.length) fun k => values[k]?.getD d := by
  intro i hi
  have hlt : i < values.length := Finset.mem_range.mp hi
  have hmem : values[i]?.getD d ∈ values := by
    rw [List.getElem?_eq_getElem hlt, Option.getD_some]
    exact List.getElem_mem hlt
  have hcard := (card_indices values d (values[i]?.getD d)).trans (h _ hmem)
  obtain ⟨a, b, hab, hset⟩ := Finset.card_eq_two.mp hcard
  have hin : ∀ k, k = a ∨ k = b ↔ k < values.length ∧ values[k]?.getD d = values[i]?.getD d := by
    intro k
    have := Finset.ext_iff.mp hset k
    simp only [Finset.mem_filter, Finset.mem_range, Finset.mem_insert, Finset.mem_singleton] at this
    exact this.symm
  obtain rfl | rfl := (hin i).mpr ⟨hlt, rfl⟩
  · obtain ⟨hb, hvalue⟩ := (hin b).mp (.inr rfl)
    refine ⟨b, Finset.mem_range.mpr hb, hab.symm, hvalue, ?_⟩
    intro k hk hv
    exact (hin k).mpr ⟨Finset.mem_range.mp hk, hv⟩
  · obtain ⟨ha, hvalue⟩ := (hin a).mp (.inl rfl)
    refine ⟨a, Finset.mem_range.mpr ha, hab, hvalue, ?_⟩
    intro k hk hv
    exact ((hin k).mpr ⟨Finset.mem_range.mp hk, hv⟩).symm
end Lists

end Pairs
