/-
Parts of a byte string at a position, and parsers that read them.
-/
import SeekDB.ByteCodec

namespace ByteSlice

open List

/-- `part` stands in `bytes` from `pos` on. -/
def Slice (bytes : List UInt8) (pos : Nat) (part : List UInt8) : Prop :=
  pos ≤ bytes.length ∧ part <+: bytes.drop pos

variable {bytes part front back : List UInt8} {pos : Nat}

theorem Slice.length_le (h : Slice bytes pos part) : pos + part.length ≤ bytes.length := by
  have hle := h.2.length_le
  rw [length_drop] at hle
  have hpos := h.1
  omega

theorem slice_nil : Slice bytes pos [] ↔ pos ≤ bytes.length := by
  simp [Slice]

theorem slice_append : Slice bytes pos (front ++ back) ↔
      Slice bytes pos front ∧ Slice bytes (pos + front.length) back := by
  constructor
  · intro h
    have hle := h.length_le
    rw [length_append] at hle
    obtain ⟨hpos, rest, hrest⟩ := h
    rw [append_assoc] at hrest
    refine ⟨⟨hpos, ⟨_, hrest⟩⟩, by omega, ⟨rest, ?_⟩⟩
    rw [← drop_drop, ← hrest, drop_left]
  · rintro ⟨⟨hpos, rest, hrest⟩, -, ⟨rest', hrest'⟩⟩
    refine ⟨hpos, ⟨rest', ?_⟩⟩
    rw [← drop_drop, ← hrest, drop_left] at hrest'
    rw [← hrest, ← hrest', append_assoc]

theorem Slice.eq_take (h : Slice bytes pos part) : part = (bytes.drop pos).take part.length :=
  prefix_iff_eq_take.mp h.2

theorem slice_take {len : Nat} (hlen : pos + len ≤ bytes.length) :
    Slice bytes pos ((bytes.drop pos).take len) :=
  ⟨by omega, take_prefix _ _⟩

theorem Slice.eq_drop (h : Slice bytes pos part) (hend : pos + part.length = bytes.length) :
    bytes.drop pos = part := by
  rw [h.eq_take, take_of_length_le]
  rw [length_drop]
  omega

theorem slice_of_append (front part back : List UInt8) :
    Slice (front ++ part ++ back) front.length part := by
  refine ⟨by simp, ⟨back, ?_⟩⟩
  rw [append_assoc, drop_left]

theorem slice_singleton {byte : UInt8} : Slice bytes pos [byte] ↔ bytes[pos]? = some byte := by
  rw [← List.head?_drop]
  constructor
  · rintro ⟨-, rest, hrest⟩
    rw [← hrest]
    rfl
  intro hhead
  obtain ⟨rest, hrest⟩ := List.head?_eq_some_iff.mp hhead
  have hlen := congrArg List.length hrest
  rw [length_drop, length_cons] at hlen
  exact ⟨by omega, ⟨rest, hrest.symm⟩⟩

/-! Errors. -/

theorem bind_eq_ok {ε α β : Type} {x : Except ε α} {f : α → Except ε β} {out : β} :
    (x >>= f) = .ok out ↔ ∃ value, x = .ok value ∧ f value = .ok out := by
  cases x with
  | error | ok => simp [bind, Except.bind]

end ByteSlice
