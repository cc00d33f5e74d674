import Mathlib.Data.Int.Log
import Mathlib.Data.Nat.Digits.Defs
import Mathlib.Data.Rat.Defs
import Mathlib.Data.Rat.Floor
import Mathlib.Data.List.Basic

/-!
# Swift's checked operations

Array subscripts, closed ranges, forced unwrapping, integer conversions and
forced casts either return a value or stop the process. `Int` is the unbounded
integer and `Double` the exact rational throughout, and `Float` what is left of
it in single precision. Integer literals in text follow `Int.init?(_: String)`:
an optional sign, then at least one digit.
-/
namespace Swift

/-- The run-time failures that end the process. -/
inductive Trap where
  | indexOutOfRange | emptyRange | nilUnwrapped | badCast | notRepresentable
  deriving DecidableEq, Repr

abbrev Checked (α : Type) := Except Trap α

variable {α β : Type}

@[simp] theorem ok_bind (a : α) (f : α → Checked β) :
    ((Except.ok a : Checked α) >>= f) = f a := rfl

@[simp] theorem error_bind (t : Trap) (f : α → Checked β) :
    ((Except.error t : Checked α) >>= f) = .error t := rfl

/-- A sequence succeeds exactly when both of its halves do. -/
theorem bind_eq_ok {x : Checked α} {f : α → Checked β} {b : β} :
    (x >>= f) = .ok b ↔ ∃ a, x = .ok a ∧ f a = .ok b := by
  cases x <;> simp

/-- `value!` -/
def unwrap : Option α → Checked α
  | some a => .ok a
  | none => .error .nilUnwrapped

@[simp] theorem unwrap_some (a : α) : unwrap (some a) = .ok a := rfl
@[simp] theorem unwrap_none : unwrap (none : Option α) = .error .nilUnwrapped := rfl

theorem unwrap_eq_ok {o : Option α} {a : α} : unwrap o = .ok a ↔ o = some a := by
  cases o <;> simp

/-- `xs[i]` -/
def subscript (xs : List α) : Int → Checked α
  | .ofNat k => match xs[k]? with
    | some a => .ok a
    | none => .error .indexOutOfRange
  | .negSucc _ => .error .indexOutOfRange

theorem subscript_natCast {xs : List α} {k : Nat} {a : α} (h : xs[k]? = some a) :
    subscript xs (k : Int) = .ok a := by
  change (match xs[k]? with | some a => _ | none => _) = _
  rw [h]

@[simp] theorem subscript_lt {xs : List α} {k : Nat} (h : k < xs.length) :
    subscript xs (k : Int) = .ok xs[k] :=
  subscript_natCast (List.getElem?_eq_getElem h)

theorem subscript_ge {xs : List α} {k : Nat} (h : xs.length ≤ k) :
    subscript xs (k : Int) = .error .indexOutOfRange := by
  change (match xs[k]? with | some a => _ | none => _) = _
  rw [List.getElem?_eq_none h]

/-- `xs[i] = a` -/
def setAt (xs : List α) (i : Int) (a : α) : Checked (List α) :=
  match i with
  | .ofNat k => if k < xs.length then .ok (xs.set k a) else .error .indexOutOfRange
  | .negSucc _ => .error .indexOutOfRange

@[simp] theorem setAt_lt {xs : List α} {k : Nat} (a : α) (h : k < xs.length) :
    setAt xs (k : Int) a = .ok (xs.set k a) := by
  change (if k < xs.length then _ else _) = _
  rw [if_pos h]

@[simp] theorem setAt_neg_one (xs : List α) (a : α) :
    setAt xs (-1) a = .error .indexOutOfRange := rfl

/-- `lo...hi`, which stops the process when `hi < lo`. -/
def closedRange (lo hi : Int) : Checked (List Int) :=
  if hi < lo then .error .emptyRange
  else .ok ((List.range (hi - lo + 1).toNat).map fun k : Nat => lo + (k : Int))

theorem closedRange_empty {lo hi : Int} (h : hi < lo) :
    closedRange lo hi = .error .emptyRange := by
  simp [closedRange, h]

/-- `0...(n - 1)` for a positive count. -/
theorem closedRange_zero {n : Nat} (h : 0 < n) :
    closedRange 0 ((n : Int) - 1) = .ok ((List.range n).map fun k : Nat => (k : Int)) := by
  have hn : ((n : Int) - 1 - 0 + 1).toNat = n := by omega
  rw [closedRange, if_neg (by omega), hn]
  simp

/-- `1...n` for a positive count. -/
theorem closedRange_one {n : Nat} (h : 0 < n) :
    closedRange 1 (n : Int) = .ok ((List.range n).map fun k : Nat => 1 + (k : Int)) := by
  have hn : ((n : Int) - 1 + 1).toNat = n := by omega
  rw [closedRange, if_neg (by omega), hn]

/-- A loop over `0...(n - 1)` whose k-th pass takes the k-th state to the next. -/
theorem foldlM_range {σ : Type} {f : σ → Int → Checked σ} {state : Nat → σ} {n : Nat}
    (h : ∀ k, k < n → f (state k) (k : Int) = .ok (state (k + 1))) :
    ((List.range n).map fun k : Nat => (k : Int)).foldlM f (state 0) = .ok (state n) := by
  induction n with
  | zero => rfl
  | succ n ih =>
    rw [List.range_succ, List.map_append, List.foldlM_append,
      ih (fun k hk => h k (Nat.lt_succ_of_lt hk)), ok_bind]
    simp [h n (Nat.lt_succ_self n)]

/-- The same loop when its last pass stops the process. -/
theorem foldlM_range_error {σ : Type} {f : σ → Int → Checked σ} {state : Nat → σ} {n : Nat}
    {t : Trap} (h : ∀ k, k < n → f (state k) (k : Int) = .ok (state (k + 1)))
    (hlast : f (state n) (n : Int) = .error t) :
    ((List.range (n + 1)).map fun k : Nat => (k : Int)).foldlM f (state 0) = .error t := by
  rw [List.range_succ, List.map_append, List.foldlM_append, foldlM_range h, ok_bind]
  simp [hlast]

/-- A map over a list succeeds when it does for every element. -/
theorem mapM_ok {f : α → Checked β} {as : List α} (h : ∀ a ∈ as, ∃ b, f a = .ok b) :
    ∃ bs, as.mapM f = .ok bs := by
  induction as with
  | nil => exact ⟨[], rfl⟩
  | cons a as ih =>
    obtain ⟨hfirst, hrest⟩ := List.forall_mem_cons.mp h
    obtain ⟨b, hb⟩ := hfirst
    obtain ⟨bs, hbs⟩ := ih hrest
    refine ⟨b :: bs, ?_⟩
    rw [List.mapM_cons, hb, ok_bind, hbs, ok_bind]
    rfl

theorem mem_of_mapM {f : α → Checked β} {as : List α} {bs : List β} (h : as.mapM f = .ok bs)
    {b : β} (hb : b ∈ bs) : ∃ a ∈ as, f a = .ok b := by
  induction as generalizing bs with
  | nil =>
    cases h
    cases hb
  | cons a as ih =>
    rw [List.mapM_cons] at h
    obtain ⟨b', hfirst, h⟩ := bind_eq_ok.mp h
    obtain ⟨bs', hrest, h⟩ := bind_eq_ok.mp h
    cases h
    obtain rfl | hb := List.mem_cons.mp hb
    · exact ⟨a, List.mem_cons_self, hfirst⟩
    · obtain ⟨a', ha', hf⟩ := ih hrest hb
      exact ⟨a', List.mem_cons_of_mem a ha', hf⟩

theorem nil_of_mapM {f : α → Checked β} {as : List α} (h : as.mapM f = .ok []) : as = [] := by
  cases as with
  | nil => rfl
  | cons a as =>
    rw [List.mapM_cons] at h
    obtain ⟨b, -, h⟩ := bind_eq_ok.mp h
    obtain ⟨bs, -, h⟩ := bind_eq_ok.mp h
    cases h

/-- `UInt32(n)` -/
def toUInt32 (n : Int) : Checked Nat :=
  if 0 ≤ n ∧ n < 2 ^ 32 then .ok n.toNat else .error .notRepresentable

/-- `Int(x)` of a `Double`: the fraction is dropped, towards zero. -/
def truncate (x : ℚ) : Int := x.num.tdiv x.den

theorem truncate_of_nonneg {x : ℚ} (h : 0 ≤ x) : truncate x = ⌊x⌋ := by
  rw [truncate, Int.tdiv_eq_ediv_of_nonneg (Rat.num_nonneg.mpr h), Rat.floor_def']

theorem truncate_le {x : ℚ} {m : Int} (h : 0 ≤ x) (hm : x ≤ m) : truncate x ≤ m := by
  rw [truncate_of_nonneg h]
  exact_mod_cast (Int.floor_le x).trans hm

/-- Rounding to the nearest integer, a half to the even one. -/
def roundEven (x : ℚ) : Int :=
  if x - ⌊x⌋ < 1 / 2 ∨ x - ⌊x⌋ = 1 / 2 ∧ Even ⌊x⌋ then ⌊x⌋ else ⌊x⌋ + 1

/-- `Float(x)` of a `Double` that does not overflow: 24 bits of it, or what is left of them
below the least exponent. -/
def float (x : ℚ) : ℚ :=
  let quantum := (2 : ℚ) ^ (max (Int.log 2 |x|) (-126) - 23)
  roundEven (x / quantum) * quantum

theorem roundEven_nonneg {x : ℚ} (h : 0 ≤ x) : 0 ≤ roundEven x := by
  have hfloor := Int.floor_nonneg.mpr h
  unfold roundEven
  split <;> omega

theorem roundEven_le {x : ℚ} {n : Int} (h : x ≤ n) : roundEven x ≤ n := by
  have hfloor : ⌊x⌋ ≤ n := by exact_mod_cast (Int.floor_le x).trans h
  unfold roundEven
  split
  · exact hfloor
  · next hup =>
    obtain rfl | hlt := eq_or_lt_of_le hfloor
    · exact absurd (.inl (by linarith)) hup
    · omega

/-- Rounding to single precision stays between 0 and 1. -/
theorem float_mem_unit {x : ℚ} (hlower : 0 ≤ x) (hupper : x ≤ 1) : 0 ≤ float x ∧ float x ≤ 1 := by
  obtain ⟨k, hk⟩ : ∃ k : Nat, max (Int.log 2 |x|) (-126) - 23 = -(k : Int) := by
    have hlog : Int.log 2 |x| ≤ 0 := by
      obtain rfl | hpos := hlower.eq_or_lt
      · simp
      · rw [abs_of_pos hpos, ← Int.log_one_right (R := ℚ) 2]
        exact Int.log_mono_right hpos hupper
    exact ⟨(23 - max (Int.log 2 |x|) (-126)).toNat, by omega⟩
  have hpower : (0 : ℚ) < 2 ^ k := by positivity
  have hfloat : float x = roundEven (x * 2 ^ k) / 2 ^ k := by
    rw [float, hk, zpow_neg, zpow_natCast, div_inv_eq_mul, ← div_eq_mul_inv]
  rw [hfloat]
  constructor
  · have hround := roundEven_nonneg (mul_nonneg hlower hpower.le)
    exact div_nonneg (by exact_mod_cast hround) hpower.le
  · have hround : roundEven (x * 2 ^ k) ≤ ((2 ^ k : Nat) : Int) := by
      apply roundEven_le
      push_cast
      exact mul_le_of_le_one_left hpower.le hupper
    rw [div_le_one hpower]
    exact_mod_cast hround

example : float (1 / 10) = 13421773 / 2 ^ 27 := by decide +kernel

/-- The value of a nonempty run of decimal digits. -/
def digitsValue (ds : List Char) : Option Int :=
  if ds ≠ [] ∧ ds.all Char.isDigit then some (Nat.ofDigitChars 10 ds 0 : Nat) else none

/-- `Int(text)` of a `String`: `nil` unless the text is an integer literal. -/
def intOfString (text : String) : Option Int :=
  match text.toList with
  | '-' :: ds => (digitsValue ds).map (- ·)
  | '+' :: ds => digitsValue ds
  | ds => digitsValue ds

theorem digitsValue_toDigits (n : Nat) : digitsValue (Nat.toDigits 10 n) = some (n : Int) := by
  have hdigits : (Nat.toDigits 10 n).all Char.isDigit := by
    rw [List.all_eq_true]
    intro c hc
    exact Nat.isDigit_of_mem_toDigits (by decide) (by decide) hc
  rw [digitsValue, if_pos ⟨Nat.toDigits_ne_nil, hdigits⟩, Nat.ofDigitChars_ten_toDigits]

/-- Printing a natural number with `%i` and reading it back loses nothing. -/
theorem intOfString_toString (n : Nat) : intOfString (toString (n : Int)) = some (n : Int) := by
  have hlist : (toString (n : Int)).toList = Nat.toDigits 10 n := by
    change (Nat.repr n).toList = _
    exact Nat.toList_repr
  have hread := digitsValue_toDigits n
  rw [intOfString, hlist]
  cases hd : Nat.toDigits 10 n with
  | nil => exact absurd hd Nat.toDigits_ne_nil
  | cons c ds =>
    have hc : c.isDigit := by
      apply Nat.isDigit_of_mem_toDigits (b := 10) (n := n) (by decide) (by decide)
      rw [hd]
      exact List.mem_cons_self
    rw [hd] at hread
    split
    · next h => cases h; simp at hc
    · next h => cases h; simp at hc
    · exact hread

theorem toString_natCast_injective {m n : Nat}
    (h : toString (m : Int) = toString (n : Int)) : m = n := by
  have hm := intOfString_toString m
  rw [h, intOfString_toString n] at hm
  simpa using hm.symm

example : intOfString "GameBack" = none := by decide
example : intOfString "-12" = some (-12) := by decide

end Swift
