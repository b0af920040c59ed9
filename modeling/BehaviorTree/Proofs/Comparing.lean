import BehaviorTree.Value
import Mathlib.Logic.ExistsUnique
import Mathlib.Order.Defs.Unbundled

/-!
The laws of the comparisons. Two values on one scale, neither of which is not a number, stand in
exactly one of less, equal and greater, and the weak comparisons go with it. Any other two values
are unequal and nothing else. Among the truth values, the integers and the texts, equal values are
the same and less is a strict total order.
-/

namespace BehaviorTree

open Float.Model (Format UnpackedFloat)

/-! The order of doubles. Turning a comparison round reverses it, and nothing is compared with what
is not a number. -/

theorem sign_compare_swap (left right : UnpackedFloat.Sign) :
    compare right left = (compare left right).swap := by
  cases left <;> cases right <;> rfl

theorem unpacked_compare_swap (left right : UnpackedFloat) :
    right.compare left = (left.compare right).map Ordering.swap := by
  cases left with
  | notANumber =>
      cases right with
      | notANumber | zero other => rfl
      | infinity other | finite other mantissa exponent positive => cases other <;> rfl
  | infinity sign =>
      cases right with
      | infinity other => exact congrArg some (sign_compare_swap sign other)
      | notANumber | zero other | finite other mantissa exponent positive => cases sign <;> rfl
  | zero sign =>
      cases right with
      | notANumber | zero other => rfl
      | infinity other | finite other mantissa exponent positive => cases other <;> rfl
  | finite sign mantissa exponent positive =>
      cases right with
      | notANumber => rfl
      | infinity other => cases other <;> rfl
      | zero other => cases sign <;> rfl
      | finite other digits power nonzero =>
          -- The exponents decide before the mantissas, and a negative sign reverses both.
          have turned : (compare power exponent).then (compare digits mantissa) =
              ((compare exponent power).then (compare mantissa digits)).swap := by
            rw [Ordering.swap_then, ← Std.OrientedCmp.eq_swap, ← Std.OrientedCmp.eq_swap]
          cases sign with
          | negative =>
              cases other with
              | negative => exact congrArg (fun ordering => some ordering.swap) turned
              | positive => rfl
          | positive =>
              cases other with
              | negative => rfl
              | positive => exact congrArg some turned

theorem unpacked_compare_of_numbers {left right : UnpackedFloat} (first : left.isNaN = false)
    (second : right.isNaN = false) : ∃ ordering, left.compare right = some ordering := by
  cases left with
  | notANumber => cases first
  | infinity sign =>
      cases right with
      | notANumber => cases second
      | infinity other => exact ⟨_, rfl⟩
      | zero other | finite other mantissa exponent positive => cases sign <;> exact ⟨_, rfl⟩
  | zero sign =>
      cases right with
      | notANumber => cases second
      | zero other => exact ⟨_, rfl⟩
      | infinity other | finite other mantissa exponent positive =>
          cases other <;> exact ⟨_, rfl⟩
  | finite sign mantissa exponent positive =>
      cases right with
      | notANumber => cases second
      | infinity other => cases other <;> exact ⟨_, rfl⟩
      | zero other => cases sign <;> exact ⟨_, rfl⟩
      | finite other digits power nonzero => cases sign <;> cases other <;> exact ⟨_, rfl⟩

theorem unpacked_compare_of_nan {left right : UnpackedFloat}
    (unknown : left.isNaN = true ∨ right.isNaN = true) : left.compare right = none := by
  cases left with
  | notANumber => rfl
  | infinity sign | zero sign | finite sign mantissa exponent positive =>
      cases right with
      | notANumber => rfl
      | infinity other | zero other | finite other digits power nonzero =>
          rcases unknown with first | second
          · cases first
          · cases second

theorem unpacked_compare_eq_none_iff (left right : UnpackedFloat) :
    left.compare right = none ↔ left.isNaN = true ∨ right.isNaN = true := by
  refine ⟨?_, unpacked_compare_of_nan⟩
  intro nothing
  cases first : left.isNaN with
  | true => exact .inl rfl
  | false =>
      cases second : right.isNaN with
      | true => exact .inr rfl
      | false =>
          obtain ⟨ordering, found⟩ := unpacked_compare_of_numbers first second
          cases nothing.symm.trans found

theorem float_lt_iff (left right : Float) :
    left < right ↔ left.toModel.unpack.compare right.toModel.unpack = some .lt := by
  change decide ((left.toModel.unpack.compare right.toModel.unpack == some .lt) = true) = true ↔ _
  rw [decide_eq_true_iff, beq_iff_eq]

theorem float_beq_iff (left right : Float) :
    (left == right) = true ↔ left.toModel.unpack.compare right.toModel.unpack = some .eq := by
  change (left.toModel.unpack.compare right.toModel.unpack == some .eq) = true ↔ _
  rw [beq_iff_eq]

theorem float_order_eq_compare (left right : Float) :
    floatOrder? left right = left.toModel.unpack.compare right.toModel.unpack := by
  simp only [floatOrder?, float_lt_iff, float_beq_iff,
    unpacked_compare_swap left.toModel.unpack right.toModel.unpack]
  cases left.toModel.unpack.compare right.toModel.unpack with
  | none => rfl
  | some ordering => cases ordering <;> rfl

theorem float_order_swap (left right : Float) :
    floatOrder? right left = (floatOrder? left right).map Ordering.swap := by
  rw [float_order_eq_compare, float_order_eq_compare]
  exact unpacked_compare_swap _ _

theorem float_order_eq_none_iff (left right : Float) :
    floatOrder? left right = none ↔ left.isNaN = true ∨ right.isNaN = true := by
  rw [float_order_eq_compare]
  exact unpacked_compare_eq_none_iff _ _

/-! An integer as a double is a number. -/

theorem dite_is_number {condition : Prop} [Decidable condition]
    {first : condition → UnpackedFloat} {second : ¬condition → UnpackedFloat}
    (one : ∀ holds, (first holds).isNaN = false) (other : ∀ fails, (second fails).isNaN = false) :
    (dite condition first second).isNaN = false := by
  by_cases holds : condition
  · rw [dif_pos holds]
    exact one holds
  · rw [dif_neg holds]
    exact other holds

/-- What is not a number has the highest exponent, and some digit beside it. -/
theorem unpack_is_number {format : Format} {packed : BitVec format.numBits}
    (apart : UnpackedFloat.unpackExponent packed ≠ BitVec.allOnes _ ∨
      UnpackedFloat.unpackMantissa packed = BitVec.ofNat _ 0) :
    (UnpackedFloat.unpack format packed).isNaN = false := by
  delta UnpackedFloat.unpack
  dsimp only
  by_cases highest : UnpackedFloat.unpackExponent packed = -BitVec.ofNat _ 1
  · have blank := apart.resolve_left fun lower => lower (highest.trans BitVec.neg_one_eq_allOnes)
    rw [if_pos highest, if_pos blank]
    rfl
  · rw [if_neg highest]
    by_cases lowest : UnpackedFloat.unpackExponent packed = BitVec.ofNat _ 0
    · rw [if_pos lowest]
      exact dite_is_number (fun _ => rfl) fun _ => rfl
    · rw [if_neg lowest]
      rfl

theorem components_are_number (format : Format) (sign : UnpackedFloat.Sign)
    (exponent : BitVec format.exponentBits) (mantissa : BitVec format.mantissaBitsWithoutImplicit)
    (apart : exponent ≠ BitVec.allOnes _ ∨ mantissa = BitVec.ofNat _ 0) :
    (UnpackedFloat.unpack format
      (UnpackedFloat.packComponents format sign exponent mantissa)).isNaN = false := by
  apply unpack_is_number
  rwa [UnpackedFloat.unpackExponent_packComponents, UnpackedFloat.unpackMantissa_packComponents]

theorem exponent_ne_highest {bits exponent : Nat} (below : exponent + 1 < Nat.pow 2 bits) :
    BitVec.ofNat bits exponent ≠ BitVec.allOnes bits := by
  intro highest
  rw [Nat.pow_eq] at below
  have numbers := congrArg BitVec.toNat highest
  rw [BitVec.toNat_ofNat, Nat.mod_eq_of_lt (by omega), BitVec.toNat_allOnes] at numbers
  omega

theorem pack_is_number {value : UnpackedFloat} (number : value.isNaN = false) :
    (Float.Model.pack value).isNaN = false := by
  change (UnpackedFloat.unpack .binary64 (UnpackedFloat.pack .binary64 value)).isNaN = false
  cases value with
  | notANumber => cases number
  | infinity sign => exact components_are_number _ sign _ _ (.inr rfl)
  | zero sign => exact components_are_number _ sign _ _ (.inr rfl)
  | finite sign mantissa exponent positive =>
      delta UnpackedFloat.pack
      dsimp only
      split
      · exact components_are_number _ sign _ _ (.inr rfl)
      next below =>
        split
        · apply components_are_number
          left
          exact exponent_ne_highest (Nat.lt_of_not_le below)
        · exact components_are_number _ sign _ _ (.inl (by decide))

theorem round_is_number (format : Format) (sign : UnpackedFloat.Sign) (mantissa : Nat)
    (exponent : Int) :
    (UnpackedFloat.round format sign mantissa exponent).isNaN = false := by
  delta UnpackedFloat.round UnpackedFloat.roundWithAccuracy
  exact dite_is_number (fun _ => rfl) fun _ => rfl

theorem unsigned_is_number (number : UInt64) : number.toFloat.isNaN = false := by
  apply pack_is_number
  simp only [UnpackedFloat.ofUInt64, UnpackedFloat.ofNat, UnpackedFloat.ofInt,
    UnpackedFloat.normalize]
  split
  · apply round_is_number
  · rfl
  · apply round_is_number

theorem neg_is_number {number : Float} (known : number.isNaN = false) :
    (-number).isNaN = false := by
  apply pack_is_number
  change number.toModel.unpack.isNaN = false at known
  generalize number.toModel.unpack = value at known ⊢
  cases value with
  | notANumber => cases known
  | infinity sign | zero sign | finite sign mantissa exponent positive => rfl

theorem nearest_is_number (number : Int64) : (nearestFloat number).isNaN = false := by
  rw [nearestFloat]
  split
  · exact neg_is_number (unsigned_is_number _)
  · exact unsigned_is_number _

/-! The order of values. -/

/-- What values are compared on. -/
inductive Scale where
  | truth
  | number
  | text
  deriving DecidableEq, Repr

namespace Value

def scale : Value → Scale
  | .bool _ => .truth
  | .int _ | .float _ => .number
  | .text _ => .text

def isNaN : Value → Bool
  | .float number => number.isNaN
  | .bool _ | .int _ | .text _ => false

/-- The scales of two values differ, or one of them is not a number. -/
def Incomparable (left right : Value) : Prop :=
  left.scale ≠ right.scale ∨ left.isNaN = true ∨ right.isNaN = true

theorem bool_order_eq_compare (left right : Bool) : boolOrder left right = compare left right := by
  cases left <;> cases right <;> rfl

theorem order_bool (left right : Bool) :
    order? (.bool left) (.bool right) = some (compare left right) := by
  rw [order?, bool_order_eq_compare]

theorem order_int (left right : Int64) :
    order? (.int left) (.int right) = some (compare left right) := rfl

theorem order_text (left right : String) :
    order? (.text left) (.text right) = some (compare left right) := rfl

theorem order_swap (left right : Value) :
    right.order? left = (left.order? right).map Ordering.swap := by
  cases left with
  | bool holds =>
      cases right with
      | bool other =>
          rw [order_bool, order_bool, Option.map_some, ← Std.OrientedCmp.eq_swap]
      | int | float | text => rfl
  | int number =>
      cases right with
      | int other => rw [order_int, order_int, Option.map_some, ← Std.OrientedCmp.eq_swap]
      | float other => exact float_order_swap (nearestFloat number) other
      | bool | text => rfl
  | float number =>
      cases right with
      | int other => exact float_order_swap number (nearestFloat other)
      | float other => exact float_order_swap number other
      | bool | text => rfl
  | text chars =>
      cases right with
      | text other => rw [order_text, order_text, Option.map_some, ← Std.OrientedCmp.eq_swap]
      | bool | int | float => rfl

theorem order_eq_none_iff (left right : Value) :
    left.order? right = none ↔ Incomparable left right := by
  cases left with
  | bool holds =>
      cases right with
      | bool other => simp [order_bool, Incomparable, scale, isNaN]
      | int | float | text => simp [order?, asFloat?, Incomparable, scale]
  | int number =>
      cases right with
      | int other => simp [order_int, Incomparable, scale, isNaN]
      | float other =>
          change floatOrder? (nearestFloat number) other = none ↔ _
          rw [float_order_eq_none_iff, nearest_is_number]
          simp [Incomparable, scale, isNaN]
      | bool | text => simp [order?, asFloat?, Incomparable, scale]
  | float number =>
      cases right with
      | int other =>
          change floatOrder? number (nearestFloat other) = none ↔ _
          rw [float_order_eq_none_iff, nearest_is_number]
          simp [Incomparable, scale, isNaN]
      | float other =>
          change floatOrder? number other = none ↔ _
          rw [float_order_eq_none_iff]
          simp [Incomparable, scale, isNaN]
      | bool | text => simp [order?, asFloat?, Incomparable, scale]
  | text chars =>
      cases right with
      | text other => simp [order_text, Incomparable, scale, isNaN]
      | bool | int | float => simp [order?, asFloat?, Incomparable, scale]

end Value

/-! What the comparators make of it. -/

namespace Comparator

variable {left right : Value}

/-- The comparator that says the same with the two values changing places. -/
def mirrored : Comparator → Comparator
  | .eq => .eq
  | .ne => .ne
  | .lt => .gt
  | .gt => .lt
  | .le => .ge
  | .ge => .le

theorem holds_of_order {ordering : Ordering} (order : left.order? right = some ordering)
    (comparator : Comparator) : comparator.holds left right = comparator.admits ordering := by
  rw [holds, order]

theorem admits_swap (comparator : Comparator) (ordering : Ordering) :
    comparator.mirrored.admits ordering.swap = comparator.admits ordering := by
  cases comparator <;> cases ordering <;> rfl

theorem mirrored_eq_ne (comparator : Comparator) :
    (comparator.mirrored == .ne) = (comparator == .ne) := by
  cases comparator <;> rfl

theorem mirrored_holds (comparator : Comparator) (left right : Value) :
    comparator.mirrored.holds right left = comparator.holds left right := by
  rw [holds, holds, Value.order_swap left right]
  cases left.order? right with
  | none => exact mirrored_eq_ne comparator
  | some ordering => exact admits_swap comparator ordering

theorem ne_holds (left right : Value) :
    Comparator.ne.holds left right = !Comparator.eq.holds left right := by
  rw [holds, holds]
  cases left.order? right with
  | none => rfl
  | some ordering => cases ordering <;> rfl

/-- Just one of less, equal and greater holds of two values, and the weak comparisons go with it. -/
structure Compared (left right : Value) : Prop where
  one : ∃! comparator, comparator ∈ [Comparator.lt, .eq, .gt] ∧ comparator.holds left right = true
  le : Comparator.le.holds left right =
    (Comparator.lt.holds left right || Comparator.eq.holds left right)
  ge : Comparator.ge.holds left right =
    (Comparator.gt.holds left right || Comparator.eq.holds left right)

/-- Two values are unequal, and nothing else can be said of them. -/
def Apart (left right : Value) : Prop :=
  ∀ comparator : Comparator, comparator.holds left right = true ↔ comparator = .ne

/-- The comparator that stands for an ordering. -/
def ofOrdering : Ordering → Comparator
  | .lt => .lt
  | .eq => .eq
  | .gt => .gt

theorem compared_of_order {ordering : Ordering} (order : left.order? right = some ordering) :
    Compared left right := by
  have holds := holds_of_order order
  constructor
  · refine ⟨ofOrdering ordering, ⟨?_, ?_⟩, ?_⟩
    · cases ordering <;> decide
    · rw [holds]
      cases ordering <;> rfl
    · rintro other ⟨member, told⟩
      rw [holds] at told
      cases ordering <;> cases other <;> simp_all [admits, ofOrdering]
  · rw [holds, holds, holds]
    cases ordering <;> rfl
  · rw [holds, holds, holds]
    cases ordering <;> rfl

theorem apart_of_order (order : left.order? right = none) : Apart left right := by
  intro comparator
  rw [holds, order]
  exact beq_iff_eq

theorem Compared.not_apart (compared : Compared left right) : ¬Apart left right := by
  intro apart
  rcases compared.one with ⟨comparator, ⟨member, told⟩, -⟩
  rw [(apart comparator).mp told] at member
  exact absurd member (by decide)

theorem compared_iff : Compared left right ↔ ¬left.Incomparable right := by
  rw [← Value.order_eq_none_iff]
  cases order : left.order? right with
  | none =>
      have apart := apart_of_order order
      exact iff_of_false (fun compared => compared.not_apart apart) (not_not_intro rfl)
  | some ordering => exact iff_of_true (compared_of_order order) (Option.some_ne_none ordering)

theorem apart_iff : Apart left right ↔ left.Incomparable right := by
  rw [← Value.order_eq_none_iff]
  cases order : left.order? right with
  | none => exact iff_of_true (apart_of_order order) rfl
  | some ordering =>
      have compared := compared_of_order order
      exact iff_of_false compared.not_apart (Option.some_ne_none ordering)

/-- On the values of one kind, equal is the same and less is a strict total order. -/
structure Ranks {Content : Type} (kind : Content → Value) : Prop where
  equal : ∀ left right, Comparator.eq.holds (kind left) (kind right) = true ↔ left = right
  less : IsStrictTotalOrder Content fun left right =>
    Comparator.lt.holds (kind left) (kind right) = true

theorem ranks_of_order {Content : Type} [Ord Content] [Std.TransOrd Content]
    [Std.LawfulEqOrd Content] {kind : Content → Value}
    (order : ∀ left right, (kind left).order? (kind right) = some (compare left right)) :
    Ranks kind := by
  have equal : ∀ left right,
      Comparator.eq.holds (kind left) (kind right) = true ↔ compare left right = .eq := by
    intro left right
    rw [holds_of_order (order left right), admits, beq_iff_eq]
  have less : ∀ left right,
      Comparator.lt.holds (kind left) (kind right) = true ↔ compare left right = .lt := by
    intro left right
    rw [holds_of_order (order left right), admits, beq_iff_eq]
  constructor
  · intro left right
    rw [equal, Std.compare_eq_iff_eq]
  · simp only [less]
    refine { trichotomous := ?_, irrefl := ?_, trans := ?_ }
    · intro left right notLess notGreater
      apply Std.LawfulEqOrd.eq_of_compare
      cases found : compare left right with
      | lt => exact absurd found notLess
      | eq => rfl
      | gt => exact absurd (Std.OrientedCmp.gt_iff_lt.mp found) notGreater
    · intro same
      rw [Std.compare_self]
      decide
    · intro first second third
      exact Std.TransCmp.lt_trans

/-- The comparisons agree with each other on all values. Turning one round turns less into greater
and leaves equal and unequal; unequal is the contrary of equal; two values that can be compared are
compared in one way, and two that cannot are only unequal. -/
theorem comparisons_agree :
    (∀ left right : Value,
      Comparator.lt.holds left right = Comparator.gt.holds right left ∧
      Comparator.le.holds left right = Comparator.ge.holds right left ∧
      Comparator.eq.holds left right = Comparator.eq.holds right left ∧
      Comparator.ne.holds left right = Comparator.ne.holds right left ∧
      Comparator.ne.holds left right = !Comparator.eq.holds left right ∧
      (Compared left right ↔ ¬left.Incomparable right) ∧
      (Apart left right ↔ left.Incomparable right)) ∧
    Ranks Value.bool ∧ Ranks Value.int ∧ Ranks Value.text := by
  refine ⟨?_, ranks_of_order Value.order_bool, ranks_of_order Value.order_int,
    ranks_of_order Value.order_text⟩
  intro left right
  have turned := fun comparator => (mirrored_holds comparator left right).symm
  exact ⟨turned .lt, turned .le, turned .eq, turned .ne, ne_holds left right, compared_iff,
    apart_iff⟩

/-- Equality does not pass from one kind to another: a double has room for fewer digits than an
integer. -/
example :
    Comparator.eq.holds (.int 9007199254740993) (.float (nearestFloat 9007199254740992)) = true ∧
      Comparator.eq.holds (.float (nearestFloat 9007199254740992)) (.int 9007199254740992) = true ∧
      Comparator.eq.holds (.int 9007199254740993) (.int 9007199254740992) = false := by
  decide +kernel

end Comparator

end BehaviorTree
