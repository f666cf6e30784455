/-
Numbers in little-endian limbs, and the loop that passes a carry or a borrow
from limb to limb: one equation relates what it writes to what it reads.
-/
import SeekDB.CheckedArray
import SeekDB.Positional

universe u

namespace Limbs

open Nat

section

variable {R : Type u} [CommSemiring R] {base : R} {f g : Nat → R} {lo k m n : Nat}

/-- The value of the `k` limbs from `lo` on, the least significant one first. -/
def limbs (base : R) (f : Nat → R) (lo : Nat) : Nat → R
  | 0 => 0
  | k + 1 => limbs base f lo k + f (lo + k) * base ^ k

@[simp]
theorem limbs_zero : limbs base f lo 0 = 0 := rfl

theorem limbs_succ : limbs base f lo (k + 1) = limbs base f lo k + f (lo + k) * base ^ k := rfl

theorem limbs_congr (h : ∀ i, i < k → f (lo + i) = g (m + i)) :
    limbs base f lo k = limbs base g m k := by
  induction k with
  | zero => rfl
  | succ k ih =>
    rw [limbs_succ, limbs_succ, ih fun i hi => h i (lt_succ_of_lt hi), h k (lt_succ_self k)]

theorem limbs_add_len (base : R) (f : Nat → R) (lo m n : Nat) :
    limbs base f lo (m + n) = limbs base f lo m + limbs base f (lo + m) n * base ^ m := by
  induction n with
  | zero => simp
  | succ n ih =>
    rw [← Nat.add_assoc, limbs_succ, ih, limbs_succ, pow_add, Nat.add_assoc]
    ring

theorem limbs_cons : limbs base f lo (k + 1) = f lo + limbs base f (lo + 1) k * base := by
  rw [Nat.add_comm k 1, limbs_add_len, pow_one]
  simp [limbs]

theorem limbs_of_zeros (h : ∀ i, i < k → f (lo + i) = 0) : limbs base f lo k = 0 := by
  induction k with
  | zero => rfl
  | succ k ih =>
    rw [limbs_succ, ih fun i hi => h i (lt_succ_of_lt hi), h k (lt_succ_self k),
      zero_mul, add_zero]

theorem limbs_mul (base : R) (f : Nat → R) (c : R) (lo k : Nat) :
    limbs base (fun i => f i * c) lo k = limbs base f lo k * c := by
  induction k with
  | zero => simp
  | succ k ih =>
    rw [limbs_succ, limbs_succ, ih]
    ring

theorem limbs_add (base : R) (f g : Nat → R) (lo k : Nat) :
    limbs base (fun i => f i + g i) lo k = limbs base f lo k + limbs base g lo k := by
  induction k with
  | zero => simp
  | succ k ih =>
    rw [limbs_succ, limbs_succ, limbs_succ, ih]
    ring

theorem limbs_eq_window (base : R) (f : Nat → R) (k : Nat) :
    limbs base f 0 k = Positional.window base (fun j => f (k - 1 - j)) 0 k := by
  induction k with
  | zero => rfl
  | succ k ih =>
    have htail : Positional.window base (fun j => f (k + 1 - 1 - j)) (0 + 1) k =
        Positional.window base (fun j => f (k - 1 - j)) 0 k := by
      apply Positional.window_congr
      intro j hj
      congr 1
      omega
    rw [limbs_succ, ih, Positional.window_succ, htail, Nat.zero_add, add_comm]
    rfl

end

theorem limbs_sub {R : Type u} [CommRing R] (base : R) (f g : Nat → R) (lo k : Nat) :
    limbs base (fun i => f i - g i) lo k = limbs base f lo k - limbs base g lo k := by
  induction k with
  | zero => simp
  | succ k ih =>
    rw [limbs_succ, limbs_succ, limbs_succ, ih]
    ring

section

variable {base : Int} {f g : Nat → Int} {lo k m n : Nat}

/-- The `k` limbs from `lo` on are digits. -/
def Digits (base : Int) (f : Nat → Int) (lo k : Nat) : Prop :=
  ∀ i, i < k → 0 ≤ f (lo + i) ∧ f (lo + i) < base

theorem Digits.congr (hf : Digits base f lo k) (h : ∀ i, i < k → g (m + i) = f (lo + i)) :
    Digits base g m k := by
  intro i hi
  rw [h i hi]
  exact hf i hi

theorem Digits.sub (hf : Digits base f lo k) (hlow : lo ≤ m) (hhigh : m + n ≤ lo + k) :
    Digits base f m n := by
  intro i hi
  have := hf (m - lo + i) (by omega)
  rwa [show lo + (m - lo + i) = m + i by omega] at this

theorem Digits.append (hf : Digits base f lo m) (hg : Digits base f (lo + m) n) :
    Digits base f lo (m + n) := by
  intro i hi
  rcases Nat.lt_or_ge i m with him | him
  · exact hf i him
  · have := hg (i - m) (by omega)
    rwa [show lo + m + (i - m) = lo + i by omega] at this

theorem Digits.limbs_nonneg (hbase : 0 ≤ base) (hf : Digits base f lo k) :
    0 ≤ limbs base f lo k := by
  induction k with
  | zero => exact le_refl 0
  | succ k ih =>
    rw [limbs_succ]
    have hfront := ih fun i hi => hf i (lt_succ_of_lt hi)
    have hlast := (hf k (lt_succ_self k)).1
    positivity

theorem Digits.limbs_lt (hbase : 0 ≤ base) (hf : Digits base f lo k) :
    limbs base f lo k < base ^ k := by
  induction k with
  | zero => simp
  | succ k ih =>
    have hfront := ih fun i hi => hf i (lt_succ_of_lt hi)
    have hlast := (hf k (lt_succ_self k)).2
    calc limbs base f lo (k + 1) < base ^ k + f (lo + k) * base ^ k := by
          exact Int.add_lt_add_right hfront _
      _ = (f (lo + k) + 1) * base ^ k := by ring
      _ ≤ base * base ^ k := mul_le_mul_of_nonneg_right (by omega) (pow_nonneg hbase k)
      _ = base ^ (k + 1) := by ring

theorem eq_of_add_mul {B x y c d : Int} (hx : 0 ≤ x) (hxB : x < B) (hy : 0 ≤ y) (hyB : y < B)
    (h : x + c * B = y + d * B) : x = y ∧ c = d := by
  have hc : c = d := by
    by_contra hne
    rcases lt_or_gt_of_ne hne with hlt | hgt
    · have hle : (c + 1) * B ≤ d * B := mul_le_mul_of_nonneg_right hlt (by omega)
      linarith
    · have hle : (d + 1) * B ≤ c * B := mul_le_mul_of_nonneg_right hgt (by omega)
      linarith
  exact ⟨by rw [hc] at h; linarith, hc⟩

/-- The top limb of a number below `base ^ k` is zero. -/
theorem Digits.top_eq_zero (hbase : 0 < base) (hf : Digits base f lo (k + 1))
    (hlt : limbs base f lo (k + 1) < base ^ k) : f (lo + k) = 0 := by
  have hfront : Digits base f lo k := fun i hi => hf i (lt_succ_of_lt hi)
  have hlow := hfront.limbs_nonneg hbase.le
  have htop := (hf k (lt_succ_self k)).1
  rw [limbs_succ] at hlt
  by_contra hne
  have hone : 1 ≤ f (lo + k) := by omega
  have hpow : (0 : Int) < base ^ k := pow_pos hbase k
  have hle : 1 * base ^ k ≤ f (lo + k) * base ^ k := mul_le_mul_of_nonneg_right hone hpow.le
  linarith

theorem Digits.eq_zero (hbase : 0 < base) (hf : Digits base f lo k)
    (hzero : limbs base f lo k = 0) : ∀ i, i < k → f (lo + i) = 0 := by
  induction k with
  | zero => exact fun i hi => absurd hi (Nat.not_lt_zero i)
  | succ k ih =>
    have hfront : Digits base f lo k := fun i hi => hf i (lt_succ_of_lt hi)
    have htop := hf.top_eq_zero hbase (hzero ▸ pow_pos hbase k)
    rw [limbs_succ, htop, zero_mul, add_zero] at hzero
    intro i hi
    rcases Nat.lt_succ_iff_lt_or_eq.mp hi with hlt | rfl
    · exact ih hfront hzero i hlt
    · exact htop

end

/-- Limb after limb from `i` on: the value `term` computed with the carry is
split into the limb that is written and the carry that is passed on. -/
def carryLoop (base : Int) (term : CheckedArray Int → Nat → Int → Option Int)
    (carryOf : Int → Int) : Nat → Nat → CheckedArray Int → Int → Option (CheckedArray Int × Int)
  | 0, _, dst, carry => some (dst, carry)
  | count + 1, i, dst, carry =>
    match term dst i carry with
    | none => none
    | some temp =>
      match dst.set? i (temp - carryOf temp * base) with
      | none => none
      | some dst => carryLoop base term carryOf count (i + 1) dst (carryOf temp)

/-- The cells outside a range are those of another array. -/
def SameOutside (dst dst' : CheckedArray Int) (lo k : Nat) : Prop :=
  dst'.size = dst.size ∧ ∀ p, p < lo ∨ lo + k ≤ p → dst'.cell p = dst.cell p

/-- One round of the loop at limb `i`, when what stands from there on is still
that of `dst`. -/
def CarryStep (base : Int) (term : CheckedArray Int → Nat → Int → Option Int) (carryOf : Int → Int)
    (t : Nat → Int) (bound : Int → Prop) (dst : CheckedArray Int) (i : Nat) : Prop :=
  ∀ now carry, now.size = dst.size → (∀ p, i ≤ p → now.cell p = dst.cell p) → bound carry →
    term now i carry = some (t i + carry) ∧ 0 ≤ t i + carry - carryOf (t i + carry) * base ∧
      t i + carry - carryOf (t i + carry) * base < base ∧ bound (carryOf (t i + carry))

section

variable {base : Int} {term : CheckedArray Int → Nat → Int → Option Int} {carryOf : Int → Int}
  {t : Nat → Int} {bound : Int → Prop} {count i : Nat} {dst : CheckedArray Int} {carry : Int}

theorem carryLoop_spec
    (hstep : ∀ p, i ≤ p → p < i + count → CarryStep base term carryOf t bound dst p)
    (hsize : i + count ≤ dst.size) (hcarry : bound carry) :
    ∃ dst' out, carryLoop base term carryOf count i dst carry = some (dst', out) ∧
      bound out ∧ SameOutside dst dst' i count ∧ Digits base dst'.cell i count ∧
      limbs base dst'.cell i count + out * base ^ count = limbs base t i count + carry := by
  induction count generalizing i dst carry with
  | zero =>
    refine ⟨dst, carry, rfl, hcarry, ⟨rfl, fun _ _ => rfl⟩, ?_, ?_⟩
    · intro p hp
      exact absurd hp (Nat.not_lt_zero p)
    · simp
  | succ count ih =>
    obtain ⟨hterm, hlow, hhigh, hnext⟩ := hstep i le_rfl (by omega) dst carry rfl
      (fun _ _ => rfl) hcarry
    generalize htemp : t i + carry = temp at hterm hlow hhigh hnext
    obtain ⟨written, hwritten⟩ : ∃ w, w = (⟨dst.size, Function.update dst.cell i
      (temp - carryOf temp * base)⟩ : CheckedArray Int) := ⟨_, rfl⟩
    have hset : dst.set? i (temp - carryOf temp * base) = some written := by
      rw [hwritten]
      exact CheckedArray.set?_eq (by omega) _
    have hwsize : written.size = dst.size := by rw [hwritten]
    have hwcell : ∀ p, p ≠ i → written.cell p = dst.cell p := by
      intro p hp
      rw [hwritten]
      exact Function.update_of_ne hp _ _
    have hwi : written.cell i = temp - carryOf temp * base := by
      rw [hwritten]
      exact Function.update_self i _ _
    have hrest : ∀ p, i + 1 ≤ p → p < i + 1 + count →
        CarryStep base term carryOf t bound written p := by
      intro p hp hpc now c hnow hcells hc
      apply hstep p (by omega) (by omega) now c (hnow.trans hwsize) _ hc
      intro p' hp'
      rw [hcells p' hp', hwcell p' (by omega)]
    obtain ⟨dst', out, hloop, hout, ⟨hsize', hcells'⟩, hdigits, hvalue⟩ := ih hrest
      (by omega) hnext
    have hfirst : dst'.cell i = temp - carryOf temp * base := by
      rw [hcells' i (Or.inl (lt_succ_self i)), hwi]
    refine ⟨dst', out, ?_, hout, ⟨hsize'.trans hwsize, ?_⟩, ?_, ?_⟩
    · simp only [carryLoop, hterm, hset, hloop]
    · intro p hp
      rw [hcells' p (by omega), hwcell p (by omega)]
    · intro p hp
      rcases Nat.eq_zero_or_pos p with rfl | hpos
      · rw [Nat.add_zero, hfirst]
        exact ⟨hlow, hhigh⟩
      · have := hdigits (p - 1) (by omega)
        rwa [show i + 1 + (p - 1) = i + p by omega] at this
    · rw [limbs_cons, limbs_cons, hfirst, pow_succ]
      linear_combination base * hvalue - htemp

theorem carryLoop_one {x : Int} (hterm : term dst i carry = some x) (hi : i < dst.size) :
    carryLoop base term carryOf 1 i dst carry =
      some (⟨dst.size, Function.update dst.cell i (x - carryOf x * base)⟩, carryOf x) := by
  simp only [carryLoop, hterm, CheckedArray.set?_eq hi]

theorem carryLoop_snoc (base : Int) (term : CheckedArray Int → Nat → Int → Option Int)
    (carryOf : Int → Int) (count i : Nat) (dst : CheckedArray Int) (carry : Int) :
    carryLoop base term carryOf (count + 1) i dst carry =
      (carryLoop base term carryOf count i dst carry).bind fun s =>
        carryLoop base term carryOf 1 (i + count) s.1 s.2 := by
  induction count generalizing i dst carry with
  | zero => rfl
  | succ count ih =>
    rw [carryLoop, carryLoop]
    cases term dst i carry with
    | none => rfl
    | some temp =>
      simp only
      cases dst.set? i (temp - carryOf temp * base) with
      | none => rfl
      | some =>
        simp only
        rw [ih, Nat.add_right_comm]
        rfl

end

end Limbs
