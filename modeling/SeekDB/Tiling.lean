/-
Intervals of positions that follow each other without gap or overlap.  Lists
of intervals are kept newest first, as the positions are handed out upwards.
-/
import Mathlib.Data.List.Basic

/-- The half-open interval of positions from `start` up to `stop`. -/
structure Extent where
  start : Nat
  stop : Nat
  deriving Repr, DecidableEq

/-- The extents, newest first, cover the positions from `low` up to `high` one
after the other. -/
def Tiles (low : Nat) : List Extent → Nat → Prop
  | [], high => low = high
  | extent :: older, high =>
    extent.stop = high ∧ extent.start < extent.stop ∧ Tiles low older extent.start

namespace Tiles

variable {low high : Nat} {extents : List Extent}

theorem low_le_high (htiles : Tiles low extents high) : low ≤ high := by
  induction extents generalizing high with
  | nil => exact Nat.le_of_eq htiles
  | cons extent older ih =>
    obtain ⟨hstop, hlt, holder⟩ := htiles
    have hle := ih holder
    omega

theorem push {e : Extent} (htiles : Tiles low extents e.start) (hlt : e.start < e.stop) :
    Tiles low (e :: extents) e.stop :=
  ⟨rfl, hlt, htiles⟩

theorem bounds_of_mem (htiles : Tiles low extents high) {extent : Extent}
    (hmem : extent ∈ extents) :
    low ≤ extent.start ∧ extent.start < extent.stop ∧ extent.stop ≤ high := by
  induction extents generalizing high with
  | nil => simp at hmem
  | cons newest older ih =>
    obtain ⟨hstop, hlt, holder⟩ := htiles
    have hlow := holder.low_le_high
    rcases List.mem_cons.mp hmem with rfl | hmem
    · exact ⟨hlow, hlt, Nat.le_of_eq hstop⟩
    · obtain ⟨h₁, h₂, h₃⟩ := ih holder hmem
      exact ⟨h₁, h₂, by omega⟩

end Tiles
