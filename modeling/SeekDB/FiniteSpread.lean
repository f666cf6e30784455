/-
Spreading over a strongly connected finite set: what reaches every neighbour of its
holders in one round reaches all of `n` elements in `n - 1` rounds.
-/
import Mathlib.Data.Finset.Card
import Mathlib.Logic.Relation

universe u

namespace SeekDB

variable {α : Type u}

/-- Every element of `C` is reached from every other without leaving `C`. -/
def StronglyConnected (R : α → α → Prop) (C : Finset α) : Prop :=
  ∀ a ∈ C, ∀ b ∈ C, Relation.ReflTransGen (fun x y => R x y ∧ y ∈ C) a b

namespace StronglyConnected

variable {R : α → α → Prop} {C T : Finset α}

/-- A proper part of `C` has an edge to the rest. -/
theorem exists_leaving (hC : StronglyConnected R C) (hT : T ⊆ C) (hne : T.Nonempty)
    (hproper : T ≠ C) : ∃ a ∈ T, ∃ b ∈ C, R a b ∧ b ∉ T := by
  by_contra hclosed
  push Not at hclosed
  obtain ⟨a, ha⟩ := hne
  refine hproper (Finset.Subset.antisymm hT fun b hb => ?_)
  induction hC a (hT ha) b hb with
  | refl => exact ha
  | tail hpath hstep ih =>
    rename_i x y
    exact hclosed x (ih (by
      cases hpath with
      | refl => exact hT ha
      | tail _ hlast => exact hlast.2)) y hstep.2 hstep.1

theorem exists_pred (hC : StronglyConnected R C) {a : α} (ha : a ∈ C) (hcard : 2 ≤ C.card) :
    ∃ b ∈ C, R b a := by
  obtain ⟨b, hb, hne⟩ := Finset.exists_mem_ne hcard a
  cases hC b hb a ha with
  | refl => exact absurd rfl hne
  | tail hpath hlast =>
    rename_i x
    refine ⟨x, ?_, hlast.1⟩
    cases hpath with
    | refl => exact hb
    | tail _ hprev => exact hprev.2

section

variable {T : ℕ → Finset α} {k : ℕ}

theorem card_spread (hC : StronglyConnected R C) (hsub : ∀ r, T r ⊆ C) (hne : (T 0).Nonempty)
    (hmono : ∀ r < k, T r ⊆ T (r + 1))
    (hstep : ∀ r < k, ∀ a ∈ T r, ∀ b ∈ C, R a b → b ∈ T (r + 1)) :
    ∀ r ≤ k, T r = C ∨ r < (T r).card := by
  intro r
  induction r with
  | zero => exact fun _ => .inr hne.card_pos
  | succ r ih =>
    intro hr
    have hmono := hmono r hr
    rcases ih (Nat.le_of_succ_le hr) with hall | hcard
    · exact .inl (Finset.Subset.antisymm (hsub _) (hall ▸ hmono))
    by_cases hall : T r = C
    · exact .inl (Finset.Subset.antisymm (hsub _) (hall ▸ hmono))
    have hr' : (T r).Nonempty := Finset.card_pos.mp (Nat.zero_lt_of_lt hcard)
    obtain ⟨a, ha, b, hb, hab, hnew⟩ := hC.exists_leaving (hsub r) hr' hall
    have hlt : (T r).card < (T (r + 1)).card :=
      Finset.card_lt_card ⟨hmono, fun hback => hnew (hback (hstep r hr a ha b hb hab))⟩
    exact .inr (Nat.lt_of_le_of_lt hcard hlt)

theorem spread_eq (hC : StronglyConnected R C) (hsub : ∀ r, T r ⊆ C) (hne : (T 0).Nonempty)
    (hmono : ∀ r < k, T r ⊆ T (r + 1))
    (hstep : ∀ r < k, ∀ a ∈ T r, ∀ b ∈ C, R a b → b ∈ T (r + 1)) (hk : C.card ≤ k + 1) :
    T k = C := by
  rcases card_spread hC hsub hne hmono hstep k le_rfl with hall | hcard
  · exact hall
  · exact Finset.eq_of_subset_of_card_le (hsub k) (hk.trans hcard)

end

end StronglyConnected

end SeekDB
