/-
Writing to and reading from a buffer of bounded length.

A writer appends to what has been written and must not exceed the capacity of
the buffer.  A reader is given the buffer, the length up to which it may read
and a position, and returns the position behind what it has read.
-/
import SeekDB.ByteSlice

namespace WireCodec

open List ByteSlice

variable {ε α β : Type}

abbrev Writer (ε : Type) := Nat → List UInt8 → Except ε (List UInt8)

abbrev Reader (ε α : Type) := List UInt8 → Nat → Nat → Except ε (α × Nat)

variable {front back : List UInt8}

namespace Writer

/-- Nothing is written. -/
def done : Writer ε := fun _ out => .ok out

/-- The second writer, unless the first one fails. -/
def andThen (first second : Writer ε) : Writer ε :=
  fun cap out => first cap out >>= second cap

/-- One writer after the other. -/
def sequence : List (Writer ε) → Writer ε
  | [] => done
  | first :: rest => first.andThen (sequence rest)

/-- If there is room, the bytes are appended. -/
def Writes (writer : Writer ε) (bytes : List UInt8) : Prop :=
  ∀ cap out, out.length + bytes.length ≤ cap → writer cap out = .ok (out ++ bytes)

theorem writes_done : Writes (done : Writer ε) [] := by
  intro cap out _
  rw [done, append_nil]

theorem Writes.andThen {first second : Writer ε}
    (hfirst : first.Writes front) (hsecond : second.Writes back) :
    (first.andThen second).Writes (front ++ back) := by
  intro cap out hcap
  rw [length_append] at hcap
  unfold Writer.andThen
  rw [hfirst cap out (by omega)]
  change second cap (out ++ front) = _
  rw [hsecond cap (out ++ front) (by rw [length_append]; omega), append_assoc]

theorem writes_sequence (writer : α → Writer ε) (bytes : α → List UInt8) (list : List α)
    (h : ∀ a ∈ list, (writer a).Writes (bytes a)) :
    (sequence (list.map writer)).Writes (list.flatMap bytes) := by
  induction list with
  | nil => exact writes_done
  | cons a rest ih =>
    obtain ⟨ha, hrest⟩ := forall_mem_cons.mp h
    exact ha.andThen (ih hrest)

end Writer

variable {first : Reader ε α} {a : α}

namespace Reader

/-- Nothing is read. -/
def done (a : α) : Reader ε α := fun _ _ pos => .ok (a, pos)

/-- A reader that depends on what has been read. -/
def andThen (first : Reader ε α) (next : α → Reader ε β) : Reader ε β :=
  fun buf len pos => first buf len pos >>= fun (a, behind) => next a buf len behind

/-- Where the bytes stand, the value is read and the position moved behind them. -/
def Reads (reader : Reader ε α) (bytes : List UInt8) (a : α) : Prop :=
  ∀ buf len pos, Slice buf pos bytes → pos + bytes.length ≤ len →
    reader buf len pos = .ok (a, pos + bytes.length)

theorem reads_done (a : α) : Reads (done a : Reader ε α) [] a := by
  intro buf len pos _ _
  rfl

theorem Reads.andThen {next : α → Reader ε β} {b : β}
    (hfirst : first.Reads front a) (hnext : (next a).Reads back b) :
    (first.andThen next).Reads (front ++ back) b := by
  intro buf len pos hslice hlen
  obtain ⟨hfront, hback⟩ := slice_append.mp hslice
  rw [length_append] at hlen ⊢
  unfold Reader.andThen
  rw [hfirst buf len pos hfront (by omega)]
  change next a buf len (pos + front.length) = _
  rw [hnext buf len _ hback (by omega), Nat.add_assoc]

/-- Reading up to the end of the data. -/
def ReadsAll (reader : Reader ε α) (bytes : List UInt8) (a : α) : Prop :=
  ∀ buf pos, Slice buf pos bytes → reader buf (pos + bytes.length) pos = .ok (a, pos + bytes.length)

theorem Reads.andThenAll {next : α → Reader ε β} {b : β}
    (hfirst : first.Reads front a) (hnext : (next a).ReadsAll back b) :
    (first.andThen next).ReadsAll (front ++ back) b := by
  intro buf pos hslice
  obtain ⟨hfront, hback⟩ := slice_append.mp hslice
  rw [length_append, ← Nat.add_assoc]
  unfold Reader.andThen
  rw [hfirst buf _ pos hfront (by omega)]
  exact hnext buf _ hback

theorem ReadsAll.andThenDone {bytes : List UInt8} (hfirst : first.ReadsAll bytes a) (f : α → β) :
    (first.andThen fun x => done (f x)).ReadsAll bytes (f a) := by
  intro buf pos hslice
  unfold Reader.andThen
  rw [hfirst buf pos hslice]
  rfl

theorem Reads.andThenDone {bytes : List UInt8} (hfirst : first.Reads bytes a) (f : α → β) :
    (first.andThen fun x => done (f x)).Reads bytes (f a) := by
  intro buf len pos hslice hlen
  unfold Reader.andThen
  rw [hfirst buf len pos hslice hlen]
  rfl

end Reader

/-! Numbers to the base 128, least significant digit first; a bit of each byte
says that more bytes follow. -/

def varBytes (n : Nat) : List UInt8 :=
  if n < 128 then [UInt8.ofNat n]
  else UInt8.ofNat (n % 128 + 128) :: varBytes (n / 128)
termination_by n
decreasing_by omega

theorem varBytes_of_lt {n : Nat} (h : n < 128) : varBytes n = [UInt8.ofNat n] := by
  rw [varBytes, if_pos h]

theorem varBytes_of_le {n : Nat} (h : 128 ≤ n) :
    varBytes n = UInt8.ofNat (n % 128 + 128) :: varBytes (n / 128) := by
  rw [varBytes, if_neg (by omega)]

theorem varBytes_ne_nil (n : Nat) : varBytes n ≠ [] := by
  rcases Nat.lt_or_ge n 128 with h | h
  · simp [varBytes_of_lt h]
  · simp [varBytes_of_le h]

/-- The digits of a number, possibly with leading zeros. -/
inductive VarNat : Nat → List UInt8 → Prop
  | last {n : Nat} (hn : n < 128) : VarNat n [UInt8.ofNat n]
  | more {digit n : Nat} {rest : List UInt8} (hdigit : digit < 128) (hrest : VarNat n rest) :
      VarNat (digit + 128 * n) (UInt8.ofNat (digit + 128) :: rest)

theorem varNat_varBytes (n : Nat) : VarNat n (varBytes n) := by
  induction n using Nat.strongRecOn with
  | ind n ih =>
    rcases Nat.lt_or_ge n 128 with hlt | hle
    · rw [varBytes_of_lt hlt]
      exact .last hlt
    have hmore := VarNat.more (Nat.mod_lt n (by omega)) (ih (n / 128) (by omega))
    rw [Nat.mod_add_div] at hmore
    rw [varBytes_of_le hle]
    exact hmore

theorem length_varBytes {digits n : Nat} (hlow : digits = 0 ∨ 128 ^ digits ≤ n)
    (hhigh : n < 128 ^ (digits + 1)) : (varBytes n).length = digits + 1 := by
  induction digits generalizing n with
  | zero => rw [varBytes_of_lt (by simpa using hhigh), length_singleton]
  | succ digits ih =>
    have hpow : 128 ^ (digits + 1) ≤ n := by
      rcases hlow with hzero | hle
      · omega
      · exact hle
    have hone : 128 ≤ n :=
      Nat.le_trans (Nat.le_self_pow (Nat.succ_ne_zero digits) 128) hpow
    rw [varBytes_of_le hone, length_cons, ih]
    · rcases Nat.eq_zero_or_pos digits with hzero | hpos
      · exact .inl hzero
      · refine .inr ((Nat.le_div_iff_mul_le (by omega)).mpr ?_)
        rwa [← Nat.pow_succ]
    · rw [Nat.div_lt_iff_lt_mul (by omega), ← Nat.pow_succ]
      exact hhigh

end WireCodec
