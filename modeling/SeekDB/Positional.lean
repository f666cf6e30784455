/-
Positional notation over digit cells.  A window is the big-endian value of
consecutive cells; the rational value of a window is given by the exponent of
its first cell.
-/
import Mathlib.Algebra.Order.Field.Rat
import Mathlib.Logic.Function.Basic
import Mathlib.Algebra.Order.Field.Power
import Mathlib.Data.Nat.Cast.Order.Field
import Mathlib.Data.Rat.Floor
import Mathlib.Tactic.Ring
import Mathlib.Tactic.Linarith
import Mathlib.Tactic.Positivity
import Mathlib.Tactic.FieldSimp

universe u

namespace Positional

open Nat Function

section

variable {R : Type u} [CommSemiring R] {base : R} {f g : Nat → R} {lo k m n : Nat}

/-- The value of the `k` cells from `lo` on, the most significant one first. -/
def window (base : R) (f : Nat → R) : Nat → Nat → R
  | _, 0 => 0
  | lo, k + 1 => f lo * base ^ k + window base f (lo + 1) k

@[simp]
theorem window_zero : window base f lo 0 = 0 := rfl

theorem window_succ : window base f lo (k + 1) = f lo * base ^ k + window base f (lo + 1) k :=
  rfl

@[simp]
theorem window_one : window base f lo 1 = f lo := by
  simp [window]

theorem window_congr (h : ∀ j, j < k → f (lo + j) = g (m + j)) :
    window base f lo k = window base g m k := by
  induction k generalizing lo m with
  | zero => rfl
  | succ k ih =>
    have hhead := h 0 (succ_pos k)
    have htail : window base f (lo + 1) k = window base g (m + 1) k := by
      apply ih
      intro j hj
      have := h (j + 1) (succ_lt_succ hj)
      rwa [← Nat.add_assoc, Nat.add_right_comm, ← Nat.add_assoc m, Nat.add_right_comm m] at this
    rw [window_succ, window_succ, htail]
    simp only [Nat.add_zero] at hhead
    rw [hhead]

theorem window_add_len (base : R) (f : Nat → R) (lo m n : Nat) :
    window base f lo (m + n) = window base f lo m * base ^ n + window base f (lo + m) n := by
  induction m generalizing lo with
  | zero => simp
  | succ m ih =>
    rw [Nat.add_right_comm m 1 n, window_succ, window_succ, ih, pow_add,
      Nat.add_assoc lo 1 m, Nat.add_comm 1 m]
    ring

theorem window_snoc : window base f lo (k + 1) = window base f lo k * base + f (lo + k) := by
  rw [window_add_len, pow_one, window_one]

theorem window_of_zeros (h : ∀ j, j < k → f (lo + j) = 0) : window base f lo k = 0 := by
  induction k generalizing lo with
  | zero => rfl
  | succ k ih =>
    have hhead : f lo = 0 := h 0 (succ_pos k)
    rw [window_succ, hhead, zero_mul, zero_add]
    apply ih
    intro j hj
    have := h (j + 1) (succ_lt_succ hj)
    rwa [← Nat.add_assoc, Nat.add_right_comm] at this

theorem window_trim (h : ∀ j, j < n → f (lo + m + j) = 0) :
    window base f lo (m + n) = window base f lo m * base ^ n := by
  rw [window_add_len, window_of_zeros h, add_zero]

theorem window_lead (h : ∀ j, j < m → f (lo + j) = 0) :
    window base f lo (m + n) = window base f (lo + m) n := by
  rw [window_add_len, window_of_zeros h, zero_mul, zero_add]

theorem window_add (base : R) (f g : Nat → R) (lo k : Nat) :
    window base (fun j => f j + g j) lo k = window base f lo k + window base g lo k := by
  induction k generalizing lo with
  | zero => simp
  | succ k ih =>
    rw [window_succ, window_succ, window_succ, ih]
    ring

theorem window_carry {c d : R}
    (htail : window base f (lo + 1) k + c * base ^ k = window base g (lo + 1) k)
    (hhead : f lo + d * base = g lo + c) :
    window base f lo (k + 1) + d * base ^ (k + 1) = window base g lo (k + 1) := by
  calc window base f lo (k + 1) + d * base ^ (k + 1)
      = (f lo + d * base) * base ^ k + window base f (lo + 1) k := by
        rw [window_succ]
        ring
    _ = g lo * base ^ k + (window base f (lo + 1) k + c * base ^ k) := by
        rw [hhead]
        ring
    _ = window base g lo (k + 1) := by rw [htail, window_succ]

theorem window_update_add {j : Nat} (x : R) (hj : j < k) :
    window base (Function.update f (lo + j) (f (lo + j) + x)) lo k =
      window base f lo k + x * base ^ (k - 1 - j) := by
  induction k generalizing lo j with
  | zero => exact absurd hj (Nat.not_lt_zero j)
  | succ k ih =>
    rcases j with _ | j
    · have htail : window base (Function.update f (lo + 0) (f (lo + 0) + x)) (lo + 1) k =
          window base f (lo + 1) k := by
        apply window_congr
        intro i hi
        exact update_of_ne (by omega) _ _
      rw [window_succ, window_succ, htail, Nat.add_zero, update_self]
      simp only [Nat.add_sub_cancel, Nat.sub_zero]
      ring
    · have hhead : Function.update f (lo + (j + 1)) (f (lo + (j + 1)) + x) lo = f lo :=
        update_of_ne (by omega) _ _
      have htail := @ih (lo + 1) j (lt_of_succ_lt_succ hj)
      rw [Nat.add_assoc lo 1 j, Nat.add_comm 1 j] at htail
      rw [window_succ, window_succ, hhead, htail,
        show k + 1 - 1 - (j + 1) = k - 1 - j by omega, add_assoc]

theorem window_natCast (base : Nat) (f : Nat → Nat) (lo k : Nat) :
    window (base : R) (fun j => (f j : R)) lo k = ((window base f lo k : Nat) : R) := by
  induction k generalizing lo with
  | zero => simp
  | succ k ih =>
    rw [window_succ, window_succ, ih]
    push_cast
    rfl

end

theorem window_sub {R : Type u} [CommRing R] (base : R) (f g : Nat → R) (lo k : Nat) :
    window base (fun j => f j - g j) lo k = window base f lo k - window base g lo k := by
  induction k generalizing lo with
  | zero => simp
  | succ k ih =>
    rw [window_succ, window_succ, window_succ, ih]
    ring

section

variable {base : Nat} {f g : Nat → Nat} {lo k : Nat}

theorem window_lt (h : ∀ j, j < k → f (lo + j) < base) : window base f lo k < base ^ k := by
  induction k generalizing lo with
  | zero => simp
  | succ k ih =>
    have hhead : f lo < base := h 0 (succ_pos k)
    have htail : window base f (lo + 1) k < base ^ k := by
      apply ih
      intro j hj
      have := h (j + 1) (succ_lt_succ hj)
      rwa [← Nat.add_assoc, Nat.add_right_comm] at this
    calc window base f lo (k + 1)
        < f lo * base ^ k + base ^ k := Nat.add_lt_add_left htail _
      _ = (f lo + 1) * base ^ k := by ring
      _ ≤ base * base ^ k := Nat.mul_le_mul_right _ hhead
      _ = base ^ (k + 1) := by ring

theorem pow_le_window (h : f lo ≠ 0) : base ^ k ≤ window base f lo (k + 1) := by
  rw [window_succ]
  calc base ^ k = 1 * base ^ k := (one_mul _).symm
    _ ≤ f lo * base ^ k := Nat.mul_le_mul_right _ (Nat.pos_of_ne_zero h)
    _ ≤ _ := Nat.le_add_right _ _

theorem window_lt_window (hf : ∀ j, j < k → f (lo + 1 + j) < base) (hlt : f lo < g lo) :
    window base f lo (k + 1) < window base g lo (k + 1) := by
  calc window base f lo (k + 1) < f lo * base ^ k + base ^ k :=
        Nat.add_lt_add_left (window_lt hf) _
    _ = (f lo + 1) * base ^ k := by ring
    _ ≤ g lo * base ^ k := Nat.mul_le_mul_right _ hlt
    _ ≤ window base g lo (k + 1) := Nat.le_add_right _ _

theorem window_pos {j : Nat} (hbase : 0 < base) (hj : j < k) (hne : f (lo + j) ≠ 0) :
    0 < window base f lo k := by
  induction k generalizing lo j with
  | zero => exact absurd hj (Nat.not_lt_zero j)
  | succ k ih =>
    rw [window_succ]
    rcases j with _ | j
    · exact Nat.add_pos_left (Nat.mul_pos (Nat.pos_of_ne_zero hne) (Nat.pow_pos hbase)) _
    · apply Nat.add_pos_right
      apply ih (lt_of_succ_lt_succ hj)
      rwa [Nat.add_assoc, Nat.add_comm 1 j]

theorem head_ne_of_pow_le (h : ∀ j, j < k → f (lo + 1 + j) < base)
    (hle : base ^ k ≤ window base f lo (k + 1)) : f lo ≠ 0 := by
  intro hzero
  rw [window_succ, hzero, Nat.zero_mul, Nat.zero_add] at hle
  exact absurd (window_lt h) (Nat.not_lt.mpr hle)

theorem not_dvd_window (hlast : f (lo + k) ≠ 0) (hlt : f (lo + k) < base) :
    ¬ base ∣ window base f lo (k + 1) := by
  intro hdvd
  rw [window_snoc] at hdvd
  have hdigit : base ∣ f (lo + k) := (Nat.dvd_add_right (Dvd.intro_left _ rfl)).mp hdvd
  exact hlast (eq_zero_of_dvd_of_lt hdigit hlt)

theorem window_injective (hf : ∀ j, j < k → f (lo + j) < base) {m : Nat}
    (hg : ∀ j, j < k → g (m + j) < base) (heq : window base f lo k = window base g m k) :
    ∀ j, j < k → f (lo + j) = g (m + j) := by
  induction k with
  | zero => intro j hj; exact absurd hj (Nat.not_lt_zero j)
  | succ k ih =>
    rw [window_snoc, window_snoc] at heq
    have hfk := hf k (lt_succ_self k)
    have hgk := hg k (lt_succ_self k)
    have hlast : f (lo + k) = g (m + k) := by
      have := congrArg (· % base) heq
      simpa [add_mod, mod_eq_of_lt hfk, mod_eq_of_lt hgk] using this
    have hfront : window base f lo k = window base g m k := by
      have hpos : 0 < base := Nat.lt_of_le_of_lt (Nat.zero_le _) hfk
      rw [hlast] at heq
      exact eq_of_mul_eq_mul_right hpos (Nat.add_right_cancel heq)
    intro j hj
    rcases Nat.lt_succ_iff_lt_or_eq.mp hj with hlt | rfl
    · apply ih (fun i hi => hf i (lt_succ_of_lt hi))
        (fun i hi => hg i (lt_succ_of_lt hi)) hfront j hlt
    · exact hlast

end

section

variable {p m n : Nat}

/-- The multiple of `p` nearest to `n`, the upper one of two. -/
def nearest (p n : Nat) : Nat := (n + p / 2) / p * p

theorem nearest_mul_add (hp : 0 < p) (hdvd : p ∣ m) : nearest p (m + n) = m + nearest p n := by
  obtain ⟨q, rfl⟩ := hdvd
  rw [nearest, nearest, Nat.add_assoc, mul_add_div hp, Nat.add_mul, Nat.mul_comm q p]

theorem nearest_eq (hp : 0 < p) (heven : 2 ∣ p) :
    nearest p n = if p / 2 ≤ n % p then n - n % p + p else n - n % p := by
  have hmod := mod_lt n hp
  have hsplit := div_add_mod n p
  have hfront : n - n % p = p * (n / p) := by omega
  have hrest : nearest p (n % p) = if p / 2 ≤ n % p then p else 0 := by
    rw [nearest]
    split_ifs with hhalf
    · have : (n % p + p / 2) / p = 1 := Nat.div_eq_of_lt_le (by omega) (by omega)
      rw [this, Nat.one_mul]
    · rw [div_eq_of_lt (by omega), Nat.zero_mul]
  calc nearest p n = nearest p (p * (n / p) + n % p) := by rw [hsplit]
    _ = p * (n / p) + nearest p (n % p) := nearest_mul_add hp (Nat.dvd_mul_right p _)
    _ = _ := by
        rw [hrest, hfront]
        split_ifs <;> omega

theorem nearest_self (hp : 0 < p) (heven : 2 ∣ p) (hdvd : p ∣ n) : nearest p n = n := by
  have hzero : nearest p 0 = 0 := by
    rw [nearest_eq hp heven, zero_mod, if_neg (by omega)]
  rw [← Nat.add_zero n, nearest_mul_add hp hdvd, hzero]

/-- The multiple of `unit` nearest to `v`, the upper one of two. -/
def roundHalfUp (unit v : ℚ) : ℚ := ⌊v / unit + 1 / 2⌋ * unit

theorem roundHalfUp_eq_nearest {unit v : ℚ} (hp : 0 < p) (heven : 2 ∣ p) (hunit : 0 < unit)
    (hlow : n * unit ≤ v) (hhigh : v < (n + 1) * unit) :
    roundHalfUp (p * unit) v = nearest p n * unit := by
  have hpq : (0 : ℚ) < p := by exact_mod_cast hp
  obtain ⟨half, rfl⟩ := heven
  have hhalf : 2 * half / 2 = half := by omega
  have hmod := mod_lt (n + half) hp
  have hsplit := div_add_mod (n + half) (2 * half)
  generalize (n + half) % (2 * half) = residue at hmod hsplit
  have hfloor : ⌊v / ((2 * half : Nat) * unit) + 1 / 2⌋ = ((n + half) / (2 * half) : Nat) := by
    generalize (n + half) / (2 * half) = q at hsplit
    have hq : ((2 * half : Nat) : ℚ) * q + residue = n + half := by exact_mod_cast hsplit
    have hres : (residue : ℚ) + 1 ≤ (2 * half : Nat) := by exact_mod_cast hmod
    have hdouble : ((2 * half : Nat) : ℚ) = half + half := by push_cast; ring
    have hshift : v / ((2 * half : Nat) * unit) + 1 / 2 = (v / unit + half) / (2 * half : Nat) := by
      have hne : (half : ℚ) ≠ 0 := by
        rintro hzero
        rw [hdouble, hzero, add_zero] at hpq
        exact lt_irrefl _ hpq
      push_cast
      field_simp
    have hvlow : (n : ℚ) ≤ v / unit := (le_div_iff₀ hunit).mpr hlow
    have hvhigh : v / unit < n + 1 := (div_lt_iff₀ hunit).mpr hhigh
    rw [hshift, Int.floor_eq_iff, Int.cast_natCast]
    constructor
    · rw [le_div_iff₀ hpq]
      linarith
    · rw [div_lt_iff₀ hpq]
      linarith
  rw [roundHalfUp, hfloor, nearest, hhalf, Int.cast_natCast]
  generalize (n + half) / (2 * half) = q
  push_cast
  ring

end

section

variable {base : Nat} {f : Nat → Nat} {lo k m n : Nat} {e : ℤ} {v : ℚ}

/-- The rational value of `k` digits whose first one stands at exponent `e`. -/
def scaled (base : Nat) (f : Nat → Nat) (e : ℤ) (lo k : Nat) : ℚ :=
  ((window base f lo k : Nat) : ℚ) * (base : ℚ) ^ (e - k + 1)

theorem scaled_trim (hbase : 0 < base) (h : ∀ j, j < n → f (lo + m + j) = 0) :
    scaled base f e lo (m + n) = scaled base f e lo m := by
  have hne : (base : ℚ) ≠ 0 := by exact_mod_cast hbase.ne'
  have hsplit : (base : ℚ) ^ (e - m + 1) =
      (base : ℚ) ^ n * (base : ℚ) ^ (e - (m + n : Nat) + 1) := by
    rw [← zpow_natCast, ← zpow_add₀ hne]
    congr 1
    push_cast
    ring
  rw [scaled, scaled, window_trim h, hsplit]
  push_cast
  ring

theorem scaled_lead (h : ∀ j, j < m → f (lo + j) = 0) :
    scaled base f e lo (m + n) = scaled base f (e - m) (lo + m) n := by
  rw [scaled, scaled, window_lead h]
  congr 2
  push_cast
  ring

/-- The leading digit of `v` stands at exponent `e`. -/
structure Leads (base : Nat) (e : ℤ) (v : ℚ) : Prop where
  lower : (base : ℚ) ^ e ≤ |v|
  upper : |v| < (base : ℚ) ^ (e + 1)

/-- The digits of `v` from exponent `e` on downwards are at most `n`. -/
def Fits (base n : Nat) (e : ℤ) (v : ℚ) : Prop :=
  ∃ m : ℤ, v = m * (base : ℚ) ^ (e - n + 1)

theorem Leads.unique {d : ℤ} (hbase : 1 < base) (hd : Leads base d v) (he : Leads base e v) :
    d = e := by
  have hone : (1 : ℚ) < base := by exact_mod_cast hbase
  have hde : d < e + 1 := (zpow_lt_zpow_iff_right₀ hone).mp (hd.lower.trans_lt he.upper)
  have hed : e < d + 1 := (zpow_lt_zpow_iff_right₀ hone).mp (he.lower.trans_lt hd.upper)
  omega

theorem Leads.ne_zero (hbase : 0 < base) (h : Leads base e v) : v ≠ 0 := by
  rintro rfl
  have hpos : (0 : ℚ) < (base : ℚ) ^ e := zpow_pos (cast_pos.mpr hbase) e
  have := h.lower
  rw [abs_zero] at this
  exact absurd this (not_le.mpr hpos)

theorem scaled_nonneg : 0 ≤ scaled base f e lo k := by
  rw [scaled]
  positivity

theorem scaled_leads (hbase : 0 < base) (hlt : ∀ j, j < k + 1 → f (lo + j) < base)
    (hhead : f lo ≠ 0) (habs : |v| = scaled base f e lo (k + 1)) : Leads base e v := by
  have hpos : (0 : ℚ) < base := by exact_mod_cast hbase
  have hlow : ((base ^ k : Nat) : ℚ) ≤ (window base f lo (k + 1) : Nat) := by
    exact_mod_cast pow_le_window hhead
  have hhigh : ((window base f lo (k + 1) : Nat) : ℚ) < (base ^ (k + 1) : Nat) := by
    exact_mod_cast window_lt hlt
  have hunit : (0 : ℚ) < (base : ℚ) ^ (e - (k + 1 : Nat) + 1) := zpow_pos hpos _
  have hscale : ∀ j : Nat, ((base ^ j : Nat) : ℚ) * (base : ℚ) ^ (e - (k + 1 : Nat) + 1) =
      (base : ℚ) ^ (e - k + j) := by
    intro j
    push_cast
    rw [← zpow_natCast, ← zpow_add₀ hpos.ne']
    congr 1
    ring
  constructor
  · rw [habs, scaled]
    calc (base : ℚ) ^ e = ((base ^ k : Nat) : ℚ) * (base : ℚ) ^ (e - (k + 1 : Nat) + 1) := by
          rw [hscale]; congr 1; ring
      _ ≤ _ := mul_le_mul_of_nonneg_right hlow hunit.le
  rw [habs, scaled]
  calc _ < ((base ^ (k + 1) : Nat) : ℚ) * (base : ℚ) ^ (e - (k + 1 : Nat) + 1) :=
        mul_lt_mul_of_pos_right hhigh hunit
    _ = (base : ℚ) ^ (e + 1) := by
        rw [hscale]; congr 1; push_cast; ring

theorem length_le_of_fits (hbase : 0 < base) (hlast : f (lo + k) ≠ 0) (hlt : f (lo + k) < base)
    (habs : |v| = scaled base f e lo (k + 1)) (hfits : Fits base n e v) : k + 1 ≤ n := by
  by_contra hmore
  obtain ⟨extra, hextra⟩ : ∃ extra, k + 1 = n + 1 + extra :=
    Nat.exists_eq_add_of_lt (Nat.lt_of_not_le hmore) |>.imp fun _ h => by omega
  obtain ⟨m, hm⟩ := hfits
  have hne : (base : ℚ) ≠ 0 := by exact_mod_cast hbase.ne'
  have hunit : (base : ℚ) ^ (e - n + 1) =
      ((base ^ (extra + 1) : Nat) : ℚ) * (base : ℚ) ^ (e - (k + 1 : Nat) + 1) := by
    push_cast
    rw [← zpow_natCast, ← zpow_add₀ hne]
    congr 1
    omega
  have hpos : (0 : ℚ) < (base : ℚ) ^ (e - (k + 1 : Nat) + 1) :=
    zpow_pos (by exact_mod_cast hbase) _
  have hwindow :
      ((window base f lo (k + 1) : Nat) : ℚ) = (m.natAbs * base ^ (extra + 1) : Nat) := by
    apply mul_right_cancel₀ hpos.ne'
    have hcast : |(m : ℚ)| = (m.natAbs : ℚ) := by
      rw [cast_natAbs, Int.cast_abs]
    calc _ = |v| := habs.symm
      _ = |(m : ℚ)| * (base : ℚ) ^ (e - n + 1) := by
          have hplace : (0 : ℚ) < (base : ℚ) ^ (e - n + 1) :=
            zpow_pos (cast_pos.mpr hbase) _
          rw [hm, abs_mul, abs_of_pos hplace]
      _ = _ := by rw [hcast, hunit]; push_cast; ring
  apply not_dvd_window (k := k) hlast hlt
  refine ⟨m.natAbs * base ^ extra, ?_⟩
  have hnat : window base f lo (k + 1) = m.natAbs * base ^ (extra + 1) := by
    exact_mod_cast hwindow
  rw [hnat]
  ring

end

end Positional
