import Mathlib

/-!
# The `f64` arithmetic of block counts

Three places count blocks in floating point: `FileInodeDeser::n_blocks`
(`(file_size as f64 / block_size as f64).floor()` or `.ceil()`, then `as u32`), `read_file_impl`
(`first_block` and `n_blocks`, then `as usize`) and `FragmentsTable::from_reader`
(`(fragment_entry_count as f64 / 512.0).ceil() as usize`).

`F64` holds the values these produce: `NaN`, `+∞`, and the finite nonnegative `m · 2 ^ e`.
`F64.ofNat` and `F64.div` round to nearest, ties to even, to 53 significant bits (no operand here
is large or small enough to overflow or to be subnormal), and `F64.toUInt` is Rust's saturating
float-to-integer cast.

Below `2 ^ 53` the rounding is harmless: `floor_div_ofNat` and `ceil_div_ofNat` give the integer
quotients.  The proof bounds the rounded significand between `⌊a / b⌋ · 2 ^ t` and
`(⌊a / b⌋ + 1) · 2 ^ t` (`roundDiv_mul_bounds`), which needs only `b < 2 ^ (t + 1)`.
-/

namespace SquashfsAsync

/-- A binary64 value: `NaN`, `+∞`, or the finite nonnegative `m · 2 ^ e`. -/
inductive F64
  | nan
  | inf
  | fin (m : Nat) (e : Int)
  deriving DecidableEq, Repr

namespace F64

/-- `N / D` rounded to the nearest integer, ties to even. -/
def roundDiv (N D : Nat) : Nat :=
  if 2 * (N % D) < D then N / D
  else if D < 2 * (N % D) then N / D + 1
  else if N / D % 2 = 0 then N / D else N / D + 1

/-- `⌊log₂ n⌋` by halving, at most `fuel` times (`0` for `n < 2`). -/
def log2Aux : Nat → Nat → Nat
  | 0, _ => 0
  | fuel + 1, n => if n < 2 then 0 else log2Aux fuel (n / 2) + 1

/-- `⌊log₂ n⌋`, by structural recursion so that it evaluates by `decide`. -/
def log2 (n : Nat) : Nat := log2Aux n n

theorem log2Aux_eq : ∀ fuel n, n ≤ fuel → log2Aux fuel n = n.log2
  | 0, n, h => by simp [log2Aux, Nat.le_zero.mp h]
  | fuel + 1, n, h => by
    rw [log2Aux, Nat.log2]
    split_ifs with h₁ h₂ h₂
    · omega
    · rfl
    · rw [log2Aux_eq fuel (n / 2) (by omega)]
    · omega

theorem log2_eq (n : Nat) : log2 n = n.log2 := log2Aux_eq n n (Nat.le_refl n)

/-- `n · 2 ^ t / d` as a numerator and a denominator. -/
def scale (n d : Nat) (t : Int) : Nat × Nat :=
  if 0 ≤ t then (n * 2 ^ t.toNat, d) else (n, d * 2 ^ (-t).toNat)

/-- The binary64 value nearest to `(n / d) · 2 ^ sh`, for `0 < n` and `0 < d`.  With
`k₀ = log₂ n − log₂ d + sh − 52` the quotient `(n / d) · 2 ^ (sh − k₀)` lies in
`(2 ^ 51, 2 ^ 53)`; one more bit when it is below `2 ^ 52` puts it in `[2 ^ 52, 2 ^ 53)`, and
the significand is that quotient rounded. -/
def ofRatio (n d : Nat) (sh : Int) : F64 :=
  let k₀ : Int := (log2 n : Int) - log2 d + sh - 52
  let q := scale n d (sh - k₀)
  if q.1 < 2 ^ 52 * q.2 then
    let q' := scale n d (sh - (k₀ - 1))
    fin (roundDiv q'.1 q'.2) (k₀ - 1)
  else fin (roundDiv q.1 q.2) k₀

/-- `n as f64`. -/
def ofNat (n : Nat) : F64 := if n < 2 ^ 53 then fin n 0 else ofRatio n 1 0

/-- Division of nonnegative values, as IEEE 754 defines it. -/
def div : F64 → F64 → F64
  | nan, _ => nan
  | _, nan => nan
  | inf, inf => nan
  | inf, _ => inf
  | fin _ _, inf => fin 0 0
  | fin a ea, fin b eb =>
    if b = 0 then (if a = 0 then nan else inf)
    else if a = 0 then fin 0 0
    else ofRatio a b (ea - eb)

/-- The integer part of `m · 2 ^ e`. -/
def intPart (m : Nat) (e : Int) : Nat :=
  if 0 ≤ e then m * 2 ^ e.toNat else m / 2 ^ (-e).toNat

/-- `f64::floor`. -/
def floor : F64 → F64
  | fin m e => fin (intPart m e) 0
  | x => x

/-- `f64::ceil`. -/
def ceil : F64 → F64
  | fin m e =>
    fin (if 0 ≤ e then m * 2 ^ e.toNat else (m + 2 ^ (-e).toNat - 1) / 2 ^ (-e).toNat) 0
  | x => x

/-- `x as u32` (`w = 32`) or `x as usize` (`w = 64`) for a nonnegative `x`: truncation, with
`NaN` cast to `0` and everything past the range to the largest value. -/
def toUInt (w : Nat) : F64 → Nat
  | nan => 0
  | inf => 2 ^ w - 1
  | fin m e => min (intPart m e) (2 ^ w - 1)

@[simp] theorem toUInt_fin_zero (w n : Nat) : toUInt w (fin n 0) = min n (2 ^ w - 1) := by
  simp [toUInt, intPart]

/-! ### Rounding -/

theorem roundDiv_le (N D : Nat) : roundDiv N D ≤ N / D + 1 := by
  unfold roundDiv; split_ifs <;> omega

theorem div_le_roundDiv (N D : Nat) : N / D ≤ roundDiv N D := by
  unfold roundDiv; split_ifs <;> omega

theorem roundDiv_of_lt {N D : Nat} (h : 2 * (N % D) < D) : roundDiv N D = N / D := if_pos h

theorem roundDiv_of_gt {N D : Nat} (h : D < 2 * (N % D)) : roundDiv N D = N / D + 1 := by
  rw [roundDiv, if_neg (by omega), if_pos h]

/-- With `a = Q b + R`, the scaled quotient `a P / b` splits into `Q P` and the part of `R`. -/
theorem div_mod_mul (a b P : Nat) (hb : 0 < b) :
    a * P / b = a / b * P + a % b * P / b ∧ a * P % b = a % b * P % b := by
  have ha : a * P = a % b * P + a / b * P * b := by
    conv_lhs => rw [← Nat.mod_add_div a b]
    rw [Nat.add_mul, Nat.mul_comm b, Nat.mul_right_comm]
  rw [ha, Nat.add_mul_div_right _ _ hb, Nat.add_mul_mod_self_right]
  exact ⟨Nat.add_comm _ _, rfl⟩

/-- For `R < b < 2 P`, the quotient `R P / b` is below `P`; at `P − 1` its remainder is below
half of `b`, and at `0` (with `R > 0`) above it. -/
theorem frac_bounds {R b P : Nat} (hR : R < b) (hP : b < 2 * P) :
    R * P / b < P ∧ (R * P / b + 1 = P → 2 * (R * P % b) < b) ∧
      (0 < R → R * P / b = 0 → b < 2 * (R * P % b)) := by
  have hqr : b * (R * P / b) + R * P % b = R * P := Nat.div_add_mod _ _
  have hX : R * P ≤ b * P - P := by
    rw [← Nat.sub_one_mul]; exact Nat.mul_le_mul_right P (by omega)
  have hZ : b ≤ b * P := Nat.le_mul_of_pos_right b (by omega)
  refine ⟨Nat.lt_of_mul_lt_mul_left (a := b) (by omega), fun h => ?_, fun hR0 h => ?_⟩
  · rw [show R * P / b = P - 1 by omega, Nat.mul_sub_one] at hqr
    omega
  · have hXP : P ≤ R * P := Nat.le_mul_of_pos_left P hR0
    rw [h, Nat.mul_zero] at hqr
    omega

/-- The rounded significand lies in `[⌊a / b⌋ · P, ⌊a / b⌋ · P + P)`, on its lower end exactly
when `b` divides `a`. -/
theorem roundDiv_mul_bounds (a b P : Nat) (hb : 0 < b) (hP : b < 2 * P) :
    a / b * P ≤ roundDiv (a * P) b ∧ roundDiv (a * P) b < a / b * P + P ∧
      (roundDiv (a * P) b = a / b * P ↔ a % b = 0) := by
  obtain ⟨hq, hr⟩ := div_mod_mul a b P hb
  obtain ⟨hlt, hlast, hfirst⟩ := frac_bounds (Nat.mod_lt a hb) hP
  have hlo := div_le_roundDiv (a * P) b
  have hhi := roundDiv_le (a * P) b
  have hdown := roundDiv_of_lt (N := a * P) (D := b)
  have hup := roundDiv_of_gt (N := a * P) (D := b)
  have hR0 : a % b = 0 → a % b * P / b = 0 ∧ a % b * P % b = 0 := fun h => by simp [h]
  rw [hq, hr] at *
  generalize roundDiv (a * P) b = m at *
  generalize a % b * P / b = q at *
  generalize a % b * P % b = r at *
  omega

/-! ### Exact quotients below `2 ^ 53` -/

theorem scale_ofNat (n d t : Nat) : scale n d (t : Int) = (n * 2 ^ t, d) := by
  rw [scale, if_pos (Int.ofNat_zero_le t)]; rfl

/-- For `0 < a < 2 ^ 53` the quotient `a / b` is rounded at a scale `2 ^ t` with
`b < 2 ^ (t + 1)`. -/
theorem ofRatio_of_lt {a b : Nat} (ha0 : 0 < a) (ha : a < 2 ^ 53) :
    ∃ t : Nat, b < 2 * 2 ^ t ∧ ofRatio a b 0 = fin (roundDiv (a * 2 ^ t) b) (-(t : Int)) := by
  have hla : a.log2 < 53 := (Nat.log2_lt (by omega)).2 ha
  have hlb : b < 2 ^ (b.log2 + 1) := Nat.lt_log2_self
  have hpow : ∀ t, b.log2 ≤ t → b < 2 * 2 ^ t := fun t ht =>
    Nat.lt_of_lt_of_le hlb (by
      rw [← Nat.pow_succ']; exact Nat.pow_le_pow_right (by omega) (by omega))
  have e₀ : (0 : Int) - ((a.log2 : Int) - b.log2 + 0 - 52) =
      ((52 + b.log2 - a.log2 : Nat) : Int) := by omega
  have e₁ : (0 : Int) - ((a.log2 : Int) - b.log2 + 0 - 52 - 1) =
      ((52 + b.log2 - a.log2 + 1 : Nat) : Int) := by omega
  unfold ofRatio
  simp only [log2_eq, e₀, e₁, scale_ofNat]
  split_ifs
  · exact ⟨52 + b.log2 - a.log2 + 1, hpow _ (by omega), by congr 1; omega⟩
  · exact ⟨52 + b.log2 - a.log2, hpow _ (by omega), by congr 1; omega⟩

theorem intPart_neg (m t : Nat) : intPart m (-(t : Int)) = m / 2 ^ t := by
  rcases Nat.eq_zero_or_pos t with rfl | ht
  · simp [intPart]
  · simp [intPart, show ¬ (0 : Int) ≤ -(t : Int) by omega]

theorem ceil_fin_neg (m t : Nat) :
    ceil (fin m (-(t : Int))) = fin ((m + 2 ^ t - 1) / 2 ^ t) 0 := by
  rcases Nat.eq_zero_or_pos t with rfl | ht
  · simp [ceil]
  · simp [ceil, show ¬ (0 : Int) ≤ -(t : Int) by omega]

/-- `⌈m / P⌉` for `Q P ≤ m < Q P + P`. -/
theorem ceil_div_of_bounds {m P Q : Nat} (hlo : Q * P ≤ m) (hhi : m < Q * P + P) :
    (m + P - 1) / P = if m = Q * P then Q else Q + 1 := by
  split_ifs with h
  · exact Nat.div_eq_of_lt_le (by omega) (by rw [Nat.succ_mul]; omega)
  · exact Nat.div_eq_of_lt_le (by rw [Nat.succ_mul]; omega)
      (by rw [Nat.succ_mul, Nat.succ_mul]; omega)

theorem ceil_div_eq (a b : Nat) (hb : 0 < b) :
    (a + b - 1) / b = if a % b = 0 then a / b else a / b + 1 := by
  have h := Nat.div_add_mod a b
  have hR := Nat.mod_lt a hb
  rw [Nat.mul_comm] at h
  rw [ceil_div_of_bounds (Q := a / b) (by omega) (by omega)]
  split_ifs <;> omega

theorem ofNat_of_lt {n : Nat} (h : n < 2 ^ 53) : ofNat n = fin n 0 := if_pos h

/-- `(a as f64 / b as f64).floor()` is `a / b` when `a < 2 ^ 53` and `0 < b < 2 ^ 53`. -/
theorem floor_div_ofNat {a b : Nat} (ha : a < 2 ^ 53) (hb : 0 < b) (hb' : b < 2 ^ 53) :
    ((ofNat a).div (ofNat b)).floor = fin (a / b) 0 := by
  rw [ofNat_of_lt ha, ofNat_of_lt hb', div, if_neg (by omega)]
  rcases Nat.eq_zero_or_pos a with rfl | ha0
  · simp [floor, intPart]
  · obtain ⟨t, ht, he⟩ := ofRatio_of_lt ha0 ha
    obtain ⟨hlo, hhi, -⟩ := roundDiv_mul_bounds a b (2 ^ t) hb ht
    rw [if_neg (by omega), Int.sub_zero, he, floor, intPart_neg,
      Nat.div_eq_of_lt_le hlo (by rw [Nat.succ_mul]; exact hhi)]

/-- `(a as f64 / b as f64).ceil()` is `⌈a / b⌉` when `a < 2 ^ 53` and `0 < b < 2 ^ 53`. -/
theorem ceil_div_ofNat {a b : Nat} (ha : a < 2 ^ 53) (hb : 0 < b) (hb' : b < 2 ^ 53) :
    ((ofNat a).div (ofNat b)).ceil = fin ((a + b - 1) / b) 0 := by
  rw [ofNat_of_lt ha, ofNat_of_lt hb', div, if_neg (by omega)]
  rcases Nat.eq_zero_or_pos a with rfl | ha0
  · simp [ceil, Nat.div_eq_of_lt (Nat.sub_lt hb Nat.one_pos)]
  · obtain ⟨t, ht, he⟩ := ofRatio_of_lt ha0 ha
    obtain ⟨hlo, hhi, hexact⟩ := roundDiv_mul_bounds a b (2 ^ t) hb ht
    rw [if_neg (by omega), Int.sub_zero, he, ceil_fin_neg, ceil_div_of_bounds hlo hhi,
      ceil_div_eq a b hb]
    simp only [hexact]

/-- The count `x as u32` or `x as usize` of a floor or ceiling below the range of the cast. -/
theorem toUInt_floor_div {a b w : Nat} (ha : a < 2 ^ 53) (hb : 0 < b) (hb' : b < 2 ^ 53) :
    ((ofNat a).div (ofNat b)).floor.toUInt w = min (a / b) (2 ^ w - 1) := by
  rw [floor_div_ofNat ha hb hb', toUInt_fin_zero]

theorem toUInt_ceil_div {a b w : Nat} (ha : a < 2 ^ 53) (hb : 0 < b) (hb' : b < 2 ^ 53) :
    ((ofNat a).div (ofNat b)).ceil.toUInt w = min ((a + b - 1) / b) (2 ^ w - 1) := by
  rw [ceil_div_ofNat ha hb hb', toUInt_fin_zero]

end F64

end SquashfsAsync
