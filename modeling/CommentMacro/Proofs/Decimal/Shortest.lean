import CommentMacro.Decimal.Shortest
import Mathlib.Algebra.Order.Field.Power
import Mathlib.Data.Rat.Floor
import Mathlib.Tactic.FieldSimp
import Mathlib.Tactic.Linarith
import Mathlib.Tactic.NormNum
import Mathlib.Tactic.Positivity
import Mathlib.Tactic.Ring

/-!
# The shortest decimal rounds to its number

The search for the shortest decimal needs no fractions, since an interval and the points of
a grid are measured in whole numbers. Here they are compared with the numbers they stand for:
a point is inside if it rounds to the number (`isInside_iff`). A grid that has such a point
has one beside the number, which is the nearest (`isNearest_of_pointOnGrid?`). The first grid
is too coarse to have one and the last one is fine enough, which gives `shortest_spec`: the
decimal rounds to the number, nothing on a coarser grid does, and nothing on its own grid
does that is nearer.
-/

namespace CommentMacro.Decimal

open Binary64 (leastExponent greatestExponent significandBound twoPow)

/-! ## The numbers that round to a binary one -/

def Scaled.value (decimal : Scaled) : ℚ :=
  decimal.digits * 10 ^ decimal.exponent

def valueOf (significand : ℕ) (exponent : ℤ) : ℚ :=
  significand * 2 ^ exponent

def stepBelow (significand : ℕ) (exponent : ℤ) : ℚ :=
  if significand = significandBound / 2 ∧ leastExponent < exponent then 2 ^ (exponent - 1)
  else 2 ^ exponent

/-- What rounds to a number lies between the middles to its neighbours; a middle rounds to
the even one of them. -/
def RoundsTo (significand : ℕ) (exponent : ℤ) (x : ℚ) : Prop :=
  let low := valueOf significand exponent - stepBelow significand exponent / 2
  let high := valueOf significand exponent + 2 ^ exponent / 2
  if significand % 2 = 0 then low ≤ x ∧ x ≤ high else low < x ∧ x < high

/-! ## Whole numbers in place of fractions -/

theorem two_zpow (k : ℤ) : (2 : ℚ) ^ k = 2 * 2 ^ (k - 1) := by
  rw [zpow_sub_one₀ (by norm_num)]
  ring

theorem pow_toNat {b : ℚ} (h : b ≠ 0) (k : ℤ) : b ^ k.toNat = b ^ k * b ^ (-k).toNat := by
  obtain ⟨n, rfl | rfl⟩ := k.eq_nat_or_neg
  · simp
  · simp [h]

theorem decimal_mul (exponent power : ℤ) :
    ((stepsOf exponent power).decimal : ℚ) * 2 ^ (exponent - 2) =
      10 ^ power * (stepsOf exponent power).quarter := by
  have hten := pow_toNat (b := 10) (by norm_num) power
  have htwo := pow_toNat (b := 2) (by norm_num) (exponent - 2)
  simp only [stepsOf, twoPow, Nat.pow_eq]
  push_cast
  rw [hten, htwo]
  ring

variable {significand : ℕ} {exponent power : ℤ}

theorem decimal_pos (exponent power : ℤ) : 0 < (stepsOf exponent power).decimal := by
  simp only [stepsOf, twoPow, Nat.pow_eq]
  positivity

theorem quarter_pos (exponent power : ℤ) : 0 < (stepsOf exponent power).quarter := by
  simp only [stepsOf, twoPow, Nat.pow_eq]
  positivity

def measure (exponent power : ℤ) : ℚ :=
  2 ^ (exponent - 2) / (stepsOf exponent power).quarter

theorem measure_pos (exponent power : ℤ) : 0 < measure exponent power := by
  have := quarter_pos exponent power
  unfold measure
  positivity

theorem quarter_measure (exponent power : ℤ) :
    ((stepsOf exponent power).quarter : ℚ) * measure exponent power = 2 ^ (exponent - 2) := by
  have := quarter_pos exponent power
  unfold measure
  field_simp

theorem decimal_measure (exponent power : ℤ) :
    ((stepsOf exponent power).decimal : ℚ) * measure exponent power = 10 ^ power := by
  have := quarter_pos exponent power
  unfold measure
  rw [mul_div_assoc', decimal_mul]
  field_simp

theorem place_measure (significand : ℕ) (exponent power : ℤ) :
    (placeOf significand exponent power : ℚ) * measure exponent power =
      valueOf significand exponent := by
  unfold placeOf valueOf
  push_cast
  rw [mul_assoc, quarter_measure, two_zpow exponent, two_zpow (exponent - 1), Int.sub_sub]
  ring_nf

theorem point_measure (exponent power : ℤ) (point : ℕ) :
    ((point * (stepsOf exponent power).decimal : ℕ) : ℚ) * measure exponent power =
      point * 10 ^ power := by
  push_cast
  rw [mul_assoc, decimal_measure]

/-- A point is inside if it rounds to the number. -/
theorem isInside_iff (h : 0 < significand) (point : ℕ) :
    isInside significand exponent power point = true ↔
      RoundsTo significand exponent (point * 10 ^ power) := by
  have hhalf : (2 : ℚ) ^ (exponent - 1) = 2 * 2 ^ (exponent - 2) := by
    rw [two_zpow, Int.sub_sub]
    rfl
  have hlow : valueOf significand exponent - stepBelow significand exponent / 2 =
      (((interval significand exponent).1 * (stepsOf exponent power).quarter : ℕ) : ℚ) *
        measure exponent power := by
    push_cast
    rw [mul_assoc, quarter_measure, valueOf, stepBelow, interval, two_zpow exponent, hhalf]
    split
    · rw [Nat.cast_sub (by omega)]
      push_cast
      ring
    · rw [Nat.cast_sub (by omega)]
      push_cast
      ring
  have hhigh : valueOf significand exponent + 2 ^ exponent / 2 =
      (((interval significand exponent).2 * (stepsOf exponent power).quarter : ℕ) : ℚ) *
        measure exponent power := by
    push_cast
    rw [mul_assoc, quarter_measure, valueOf, interval, two_zpow exponent, hhalf]
    push_cast
    ring
  have hmeasure := measure_pos exponent power
  unfold isInside RoundsTo
  rw [hlow, hhigh, ← point_measure exponent]
  simp only [mul_le_mul_iff_of_pos_right hmeasure, mul_lt_mul_iff_of_pos_right hmeasure,
    Nat.cast_le, Nat.cast_lt]
  split <;> rw [Bool.and_eq_true, decide_eq_true_iff, decide_eq_true_iff]

/-! ## The points beside a number -/

theorem distance_measure (significand : ℕ) (exponent power : ℤ) (point : ℕ) :
    |(point : ℚ) * 10 ^ power - valueOf significand exponent| =
      distance significand exponent power point * measure exponent power := by
  have hmeasure := measure_pos exponent power
  rw [← point_measure exponent, ← place_measure significand exponent power, ← sub_mul, abs_mul,
    abs_of_pos hmeasure, distance]
  congr 1
  rcases Nat.le_total (point * (stepsOf exponent power).decimal)
      (placeOf significand exponent power) with h | h
  · rw [Nat.sub_eq_zero_of_le h, Nat.add_zero, abs_sub_comm, Nat.cast_sub h, abs_of_nonneg]
    exact sub_nonneg.mpr (Nat.cast_le.mpr h)
  · rw [Nat.sub_eq_zero_of_le h, Nat.zero_add, Nat.cast_sub h, abs_of_nonneg]
    exact sub_nonneg.mpr (Nat.cast_le.mpr h)

theorem pointBelow_le (significand : ℕ) (exponent power : ℤ) :
    pointBelow significand exponent power * (stepsOf exponent power).decimal ≤
      placeOf significand exponent power :=
  Nat.div_mul_le_self _ _

theorem lt_pointAbove (significand : ℕ) (exponent power : ℤ) :
    placeOf significand exponent power <
      (pointBelow significand exponent power + 1) * (stepsOf exponent power).decimal := by
  rw [Nat.mul_comm]
  exact Nat.lt_mul_div_succ _ (decimal_pos exponent power)

theorem interval_bounds (h : 0 < significand) (exponent power : ℤ) :
    (interval significand exponent).1 * (stepsOf exponent power).quarter <
        placeOf significand exponent power ∧
      placeOf significand exponent power <
        (interval significand exponent).2 * (stepsOf exponent power).quarter := by
  unfold placeOf interval
  constructor
  · apply Nat.mul_lt_mul_of_pos_right _ (quarter_pos exponent power)
    dsimp only
    split <;> omega
  · apply Nat.mul_lt_mul_of_pos_right _ (quarter_pos exponent power)
    dsimp only
    omega

/-- What lies between a point inside and the number is inside. -/
theorem isInside_of_between (h : 0 < significand) {point nearer : ℕ}
    (hpoint : isInside significand exponent power point = true)
    (hbetween :
      point * (stepsOf exponent power).decimal ≤ nearer * (stepsOf exponent power).decimal ∧
        nearer * (stepsOf exponent power).decimal ≤ placeOf significand exponent power ∨
      placeOf significand exponent power < nearer * (stepsOf exponent power).decimal ∧
        nearer * (stepsOf exponent power).decimal ≤ point * (stepsOf exponent power).decimal) :
    isInside significand exponent power nearer = true := by
  obtain ⟨hlow, hhigh⟩ := interval_bounds h exponent power
  unfold isInside at hpoint ⊢
  by_cases heven : significand % 2 = 0
  · simp only [if_pos heven, Bool.and_eq_true, decide_eq_true_iff] at hpoint ⊢
    omega
  · simp only [if_neg heven, Bool.and_eq_true, decide_eq_true_iff] at hpoint ⊢
    omega

/-- A point inside has a point inside beside the number, which is nearer unless it is the
same. -/
theorem exists_isInside_beside (h : 0 < significand) {point : ℕ}
    (hpoint : isInside significand exponent power point = true) :
    ∃ nearer, (nearer = pointBelow significand exponent power ∨
        nearer = pointBelow significand exponent power + 1) ∧
      isInside significand exponent power nearer = true ∧
      (nearer = point ∨
        distance significand exponent power nearer <
          distance significand exponent power point) := by
  have hbelow := pointBelow_le significand exponent power
  have habove := lt_pointAbove significand exponent power
  have hstep := decimal_pos exponent power
  rcases Nat.lt_or_ge (pointBelow significand exponent power) point with hlt | hle
  · have hplace := Nat.mul_le_mul_right (stepsOf exponent power).decimal (Nat.succ_le_of_lt hlt)
    refine ⟨_, .inr rfl, isInside_of_between h hpoint (.inr ⟨habove, hplace⟩), ?_⟩
    rcases Nat.eq_or_lt_of_le (Nat.succ_le_of_lt hlt) with heq | hlt'
    · exact .inl heq
    · right
      have hplace' := Nat.mul_lt_mul_of_pos_right hlt' hstep
      simp only [Nat.succ_eq_add_one] at hplace'
      simp only [distance]
      omega
  · have hplace := Nat.mul_le_mul_right (stepsOf exponent power).decimal hle
    refine ⟨_, .inl rfl, isInside_of_between h hpoint (.inl ⟨hplace, hbelow⟩), ?_⟩
    rcases Nat.eq_or_lt_of_le hle with heq | hlt
    · exact .inl heq.symm
    · right
      have hplace' := Nat.mul_lt_mul_of_pos_right hlt hstep
      simp only [distance]
      omega

/-! ## One grid -/

/-- The point found on a grid is inside, and of the points beside the number that are
inside it is the nearest. -/
theorem pointOnGrid?_spec (significand : ℕ) (exponent power : ℤ) :
    let below := pointBelow significand exponent power
    match pointOnGrid? significand exponent power with
    | none => isInside significand exponent power below = false ∧
        isInside significand exponent power (below + 1) = false
    | some point => isInside significand exponent power point = true ∧
        ∀ other, other = below ∨ other = below + 1 →
          isInside significand exponent power other = true → other = point ∨
            distance significand exponent power point < distance significand exponent power other ∨
            distance significand exponent power point = distance significand exponent power other ∧
              point % 2 = 0 := by
  intro below
  unfold pointOnGrid?
  cases hbelow : isInside significand exponent power below with
  | true =>
      cases habove : isInside significand exponent power (below + 1) with
      | true =>
          simp only [below, hbelow, habove]
          split_ifs
          · refine ⟨hbelow, ?_⟩
            rintro other (rfl | rfl) - <;> omega
          · refine ⟨habove, ?_⟩
            rintro other (rfl | rfl) - <;> omega
          · refine ⟨hbelow, ?_⟩
            rintro other (rfl | rfl) - <;> omega
          · refine ⟨habove, ?_⟩
            rintro other (rfl | rfl) - <;> omega
      | false =>
          simp only [below, hbelow, habove]
          refine ⟨trivial, ?_⟩
          rintro other (rfl | rfl) hother
          · exact .inl rfl
          · exact absurd hother (by rw [habove]; decide)
  | false =>
      cases habove : isInside significand exponent power (below + 1) with
      | true =>
          simp only [below, hbelow, habove]
          refine ⟨trivial, ?_⟩
          rintro other (rfl | rfl) hother
          · exact absurd hother (by rw [hbelow]; decide)
          · exact .inl rfl
      | false =>
          simp only [below, hbelow, habove]
          exact ⟨trivial, trivial⟩

/-- A grid on which no point is found has none that rounds to the number. -/
theorem not_roundsTo_of_none (h : 0 < significand)
    (hnone : pointOnGrid? significand exponent power = none) (point : ℕ) :
    ¬ RoundsTo significand exponent (point * 10 ^ power) := by
  rw [← isInside_iff h]
  intro hpoint
  have hspec := pointOnGrid?_spec significand exponent power
  rw [hnone] at hspec
  obtain ⟨nearer, rfl | rfl, hnearer, -⟩ := exists_isInside_beside h hpoint
  · rw [hspec.1] at hnearer
    exact Bool.false_ne_true hnearer
  · rw [hspec.2] at hnearer
    exact Bool.false_ne_true hnearer

/-- A point of a grid that rounds to a number and is the nearest such, the even one if
there are two. -/
structure IsNearest (significand : ℕ) (exponent power : ℤ) (point : ℕ) : Prop where
  rounds : RoundsTo significand exponent (point * 10 ^ power)
  nearest : ∀ other : ℕ, RoundsTo significand exponent (other * 10 ^ power) → other = point ∨
    |(point : ℚ) * 10 ^ power - valueOf significand exponent| <
        |(other : ℚ) * 10 ^ power - valueOf significand exponent| ∨
    |(point : ℚ) * 10 ^ power - valueOf significand exponent| =
        |(other : ℚ) * 10 ^ power - valueOf significand exponent| ∧ point % 2 = 0

theorem isNearest_of_pointOnGrid? (h : 0 < significand) {point : ℕ}
    (hpoint : pointOnGrid? significand exponent power = some point) :
    IsNearest significand exponent power point := by
  have hspec := pointOnGrid?_spec significand exponent power
  rw [hpoint] at hspec
  obtain ⟨hinside, hbeside⟩ := hspec
  constructor
  · exact (isInside_iff h point).mp hinside
  · intro other hother
    rw [← isInside_iff h] at hother
    have hmeasure := measure_pos exponent power
    rw [distance_measure, distance_measure, mul_lt_mul_iff_of_pos_right hmeasure, Nat.cast_lt,
      mul_left_inj' hmeasure.ne', Nat.cast_inj]
    obtain ⟨nearer, hside, hnearer, heq⟩ := exists_isInside_beside h hother
    rcases heq with rfl | hlt
    · exact hbeside nearer hside hother
    · rcases hbeside nearer hside hnearer with rfl | hdistance
      · exact .inr (.inl hlt)
      · exact .inr (.inl (by omega))

/-! ## Grids that become finer -/

/-- A point of a grid is one of each finer grid. -/
theorem exists_point_of_le {fine coarse : ℤ} (h : fine ≤ coarse) (point : ℕ) :
    ∃ point' : ℕ, (point : ℚ) * 10 ^ coarse = point' * 10 ^ fine := by
  obtain ⟨n, rfl⟩ := Int.le.dest h
  refine ⟨point * 10 ^ n, ?_⟩
  push_cast
  rw [mul_assoc, ← zpow_natCast, ← zpow_add₀ (by norm_num), add_comm]

/-- If some grid tried has a point, then the first point found is on a grid, and none was
found on the grids before. -/
theorem firstPoint_spec {grids : ℕ} {power finest : ℤ} (hle : finest ≤ power)
    (hgrids : power < finest + grids)
    (hfinest : pointOnGrid? significand exponent finest ≠ none) :
    let found := firstPoint significand exponent grids power
    pointOnGrid? significand exponent found.exponent = some found.digits ∧
      found.exponent ≤ power ∧
      ∀ coarser, found.exponent < coarser → coarser ≤ power →
        pointOnGrid? significand exponent coarser = none := by
  induction grids generalizing power with
  | zero => omega
  | succ grids ih =>
      intro found
      cases hpoint : pointOnGrid? significand exponent power with
      | some digits =>
          have hfound : found = ⟨digits, power⟩ := by
            simp only [found, firstPoint, hpoint]
          rw [hfound]
          exact ⟨hpoint, le_rfl, fun coarser hlt hle => absurd hle (not_le.mpr hlt)⟩
      | none =>
          have hfound : found = firstPoint significand exponent grids (power - 1) := by
            simp only [found, firstPoint, hpoint]
          have hne : finest ≠ power := by
            rintro rfl
            exact hfinest hpoint
          obtain ⟨hdigits, hexponent, hcoarser⟩ := ih (show finest ≤ power - 1 by omega) (by omega)
          rw [hfound]
          refine ⟨hdigits, by omega, fun coarser hlt hle => ?_⟩
          rcases Int.lt_or_eq_of_le hle with hlt' | rfl
          · exact hcoarser coarser hlt (by omega)
          · exact hpoint

/-! ## Powers of ten and of two -/

/-- A power of one number is at most a power of another, if fixed powers of them compare so
and the exponents are no further apart. -/
theorem zpow_le_zpow_of_pow_le {a b : ℚ} (ha : 1 ≤ a) (hb : 1 ≤ b) {m n : ℕ} (hm : m ≠ 0)
    (h : a ^ m ≤ b ^ n) {j k : ℤ} (hj : 0 ≤ j) (hjk : n * j ≤ m * k) : a ^ j ≤ b ^ k := by
  have hzero : (0 : ℚ) ≤ a ^ j := by positivity
  have hzero' : (0 : ℚ) ≤ b ^ k := by positivity
  rw [← pow_le_pow_iff_left₀ hzero hzero' hm]
  calc (a ^ j) ^ m = (a ^ m) ^ j := by rw [← zpow_natCast, ← zpow_natCast, zpow_comm]
    _ ≤ (b ^ n) ^ j := zpow_le_zpow_left₀ hj (by positivity) h
    _ = b ^ (n * j) := by rw [← zpow_natCast, ← zpow_mul]
    _ ≤ b ^ (m * k) := zpow_le_zpow_right₀ hb hjk
    _ = (b ^ k) ^ m := by rw [mul_comm, zpow_mul, zpow_natCast]

/-- Above zero, exponents of either sign can be turned around. -/
theorem zpow_le_zpow_of_neg {a b : ℚ} (ha : 0 < a) (hb : 0 < b) {j k : ℤ}
    (h : b ^ (-k) ≤ a ^ (-j)) : a ^ j ≤ b ^ k := by
  rw [zpow_neg, zpow_neg] at h
  exact (inv_le_inv₀ (zpow_pos hb k) (zpow_pos ha j)).mp h

theorem two_zpow_le_ten_zpow {j k : ℤ} (hj : j ≤ 1024) (hj' : -1074 ≤ j)
    (h : 30103 * j + 100000 ≤ 100000 * k) : (2 : ℚ) ^ j ≤ 10 ^ k := by
  rcases Int.le_total 0 j with hpos | hneg
  · apply zpow_le_zpow_of_pow_le (m := 93) (n := 28) (by norm_num) (by norm_num) (by norm_num)
      (by norm_num) hpos
    push_cast
    omega
  · rcases Int.le_total 0 k with hpos | hneg'
    · calc (2 : ℚ) ^ j ≤ 1 := zpow_le_one_of_nonpos₀ (by norm_num) hneg
        _ ≤ 10 ^ k := one_le_zpow₀ (by norm_num) hpos
    · apply zpow_le_zpow_of_neg (by norm_num) (by norm_num)
      apply zpow_le_zpow_of_pow_le (m := 59) (n := 196) (by norm_num) (by norm_num) (by norm_num)
        (by norm_num) (by omega)
      push_cast
      omega

theorem ten_zpow_le_two_zpow {j k : ℤ} (hk : k ≤ 1024) (hk' : -1076 ≤ k)
    (h : 100000 * j + 400000 ≤ 30103 * k) : (10 : ℚ) ^ j ≤ 2 ^ k := by
  rcases Int.le_total 0 j with hpos | hneg
  · apply zpow_le_zpow_of_pow_le (m := 59) (n := 196) (by norm_num) (by norm_num) (by norm_num)
      (by norm_num) hpos
    push_cast
    omega
  · rcases Int.le_total 0 k with hpos | hneg'
    · calc (10 : ℚ) ^ j ≤ 1 := zpow_le_one_of_nonpos₀ (by norm_num) hneg
        _ ≤ 2 ^ k := one_le_zpow₀ (by norm_num) hpos
    · apply zpow_le_zpow_of_neg (by norm_num) (by norm_num)
      apply zpow_le_zpow_of_pow_le (m := 93) (n := 28) (by norm_num) (by norm_num) (by norm_num)
        (by norm_num) (by omega)
      push_cast
      omega

/-! ## The first and the last grid -/

theorem RoundsTo.bounds {x : ℚ} (h : RoundsTo significand exponent x) :
    valueOf significand exponent - stepBelow significand exponent / 2 ≤ x ∧
      x ≤ valueOf significand exponent + 2 ^ exponent / 2 := by
  unfold RoundsTo at h
  split at h
  · exact h
  · exact ⟨h.1.le, h.2.le⟩

theorem stepBelow_bounds (significand : ℕ) (exponent : ℤ) :
    2 ^ (exponent - 2) ≤ stepBelow significand exponent / 2 ∧
      stepBelow significand exponent ≤ 2 ^ exponent := by
  have hpos : (0 : ℚ) < 2 ^ (exponent - 2) := by positivity
  have hhalf : (2 : ℚ) ^ (exponent - 1) = 2 * 2 ^ (exponent - 2) := by
    rw [two_zpow, Int.sub_sub]
    rfl
  unfold stepBelow
  rw [two_zpow exponent, hhalf]
  split <;> constructor <;> linarith

/-- Every point of a grid with steps above the number is too large, but for zero. -/
theorem not_roundsTo_of_two_zpow_le (h : 0 < significand)
    (hpower : (2 : ℚ) ^ ((Nat.log2 significand : ℤ) + exponent + 1) ≤ 10 ^ power) (point : ℕ) :
    ¬ RoundsTo significand exponent (point * 10 ^ power) := by
  intro hrounds
  obtain ⟨hlow, hhigh⟩ := hrounds.bounds
  have htwo : (0 : ℚ) < 2 ^ exponent := by positivity
  have hstep := (stepBelow_bounds significand exponent).2
  have hone : (1 : ℚ) ≤ significand := Nat.one_le_cast.mpr h
  have hvalue : (2 : ℚ) ^ exponent ≤ valueOf significand exponent :=
    le_mul_of_one_le_left htwo.le hone
  cases point with
  | zero =>
      rw [Nat.cast_zero, zero_mul] at hlow
      linarith
  | succ point =>
      have hlog : (significand : ℚ) + 1 ≤ 2 ^ (Nat.log2 significand + 1) := by
        exact_mod_cast Nat.lt_log2_self
      have hten : (10 : ℚ) ^ power ≤ (point + 1 : ℕ) * 10 ^ power :=
        le_mul_of_one_le_left (by positivity) (Nat.one_le_cast.mpr (Nat.le_add_left 1 point))
      have hbound : valueOf significand exponent + 2 ^ exponent ≤ 10 ^ power := by
        calc valueOf significand exponent + 2 ^ exponent
            = ((significand : ℚ) + 1) * 2 ^ exponent := by
              unfold valueOf
              ring
          _ ≤ 2 ^ (Nat.log2 significand + 1) * 2 ^ exponent :=
              mul_le_mul_of_nonneg_right hlog htwo.le
          _ = 2 ^ ((Nat.log2 significand : ℤ) + exponent + 1) := by
              rw [← zpow_natCast, ← zpow_add₀ (by norm_num)]
              congr 1
              push_cast
              ring
          _ ≤ 10 ^ power := hpower
      linarith

/-- A grid with steps below a quarter of the distance has a point. -/
theorem exists_roundsTo_of_ten_zpow_le (h : 0 < significand)
    (hpower : (10 : ℚ) ^ power ≤ 2 ^ (exponent - 2)) :
    ∃ point : ℕ, RoundsTo significand exponent (point * 10 ^ power) := by
  have hten : (0 : ℚ) < 10 ^ power := by positivity
  have htwo : (0 : ℚ) < 2 ^ exponent := by positivity
  have hquotient : 0 ≤ valueOf significand exponent / 10 ^ power := by
    unfold valueOf
    positivity
  have hbelow := mul_le_mul_of_nonneg_right (Nat.floor_le hquotient) hten.le
  have habove := mul_lt_mul_of_pos_right
    (Nat.lt_floor_add_one (valueOf significand exponent / 10 ^ power)) hten
  rw [div_mul_cancel₀ _ hten.ne'] at hbelow habove
  have hstep := (stepBelow_bounds significand exponent).1
  refine ⟨⌊valueOf significand exponent / 10 ^ power⌋₊, ?_⟩
  unfold RoundsTo
  split <;> constructor <;> linarith

/-! ## The shortest decimal -/

/-- The decimal of a number rounds to it and is the nearest on its grid, and nothing on a
coarser grid rounds to the number. -/
theorem shortest_spec (h : 0 < significand) (hbound : significand < significandBound)
    (hleast : leastExponent ≤ exponent) (hgreatest : exponent ≤ greatestExponent) :
    let decimal := shortest significand exponent
    IsNearest significand exponent decimal.exponent decimal.digits ∧
      ∀ coarser, decimal.exponent < coarser → ∀ point : ℕ,
        ¬ RoundsTo significand exponent (point * 10 ^ coarser) := by
  intro decimal
  have hlog : Nat.log2 significand < 53 := (Nat.log2_lt h.ne').mpr hbound
  have hleast' : -1074 ≤ exponent := hleast
  have hgreatest' : exponent ≤ 971 := hgreatest
  obtain ⟨start, hstart⟩ :
      ∃ start, start = Int.fdiv (((Nat.log2 significand : ℤ) + exponent + 1) * 30103) 100000 + 2 :=
    ⟨_, rfl⟩
  have hdecimal : decimal = firstPoint significand exponent 24 start := by
    rw [hstart]
    rfl
  rw [Int.fdiv_eq_ediv_of_nonneg _ (by norm_num)] at hstart
  -- nothing on the first grid, and something on the last one
  have hfirst : ∀ point : ℕ, ¬ RoundsTo significand exponent (point * 10 ^ start) :=
    not_roundsTo_of_two_zpow_le h (two_zpow_le_ten_zpow (by omega) (by omega) (by omega))
  obtain ⟨point, hlast⟩ : ∃ point : ℕ, RoundsTo significand exponent (point * 10 ^ (start - 23)) :=
    exists_roundsTo_of_ten_zpow_le h (ten_zpow_le_two_zpow (by omega) (by omega) (by omega))
  obtain ⟨hdigits, -, hcoarser⟩ := firstPoint_spec
    (show start - 23 ≤ start by omega) (show start < start - 23 + (24 : ℕ) by omega)
    fun hnone => not_roundsTo_of_none h hnone point hlast
  rw [hdecimal]
  refine ⟨isNearest_of_pointOnGrid? h hdigits, fun coarser hlt point hpoint => ?_⟩
  rcases Int.le_total coarser start with hle | hle
  · exact not_roundsTo_of_none h (hcoarser coarser hlt hle) point hpoint
  · obtain ⟨point', hpoint'⟩ := exists_point_of_le hle point
    rw [hpoint'] at hpoint
    exact hfirst point' hpoint

end CommentMacro.Decimal
