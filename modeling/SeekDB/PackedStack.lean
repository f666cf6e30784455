/-
A stack that is kept in linked nodes of bounded size.

The first node is the one that grows.  In a packed stack all other nodes are
full, so that the items in the order of their arrival determine the nodes.
-/
import Mathlib.Data.List.Basic

namespace PackedStack

open List

variable {α : Type} {cap : Nat} {nodes rest : List (List α)} {node : List α} {a : α}

/-- All items, oldest first. -/
def items (nodes : List (List α)) : List α := nodes.reverse.flatten

@[simp] theorem items_nil : items ([] : List (List α)) = [] := rfl

@[simp] theorem items_cons (node : List α) (rest : List (List α)) :
    items (node :: rest) = items rest ++ node := by
  simp [items]

/-- No node is empty or too large, and all but the first are full. -/
structure Packed (cap : Nat) (nodes : List (List α)) : Prop where
  ne_nil : ∀ node ∈ nodes, node ≠ []
  length_le : ∀ node ∈ nodes, node.length ≤ cap
  full : ∀ node ∈ nodes.tail, node.length = cap

theorem Packed.nil : Packed cap ([] : List (List α)) :=
  ⟨by simp, by simp, by simp⟩

theorem Packed.tail (h : Packed cap (node :: rest)) : Packed cap rest :=
  ⟨fun n hn => h.ne_nil n (mem_cons_of_mem _ hn),
    fun n hn => h.length_le n (mem_cons_of_mem _ hn),
    fun n hn => h.full n (mem_of_mem_tail hn)⟩

theorem Packed.replaceHead {head : List α} (h : Packed cap (node :: rest))
    (hne : head ≠ []) (hle : head.length ≤ cap) : Packed cap (head :: rest) := by
  refine ⟨?_, ?_, h.full⟩
  · intro n hn
    rcases mem_cons.mp hn with rfl | hn
    · exact hne
    · exact h.tail.ne_nil n hn
  · intro n hn
    rcases mem_cons.mp hn with rfl | hn
    · exact hle
    · exact h.tail.length_le n hn

/-- One more item; a new node if the first one is full. -/
def push (cap : Nat) (nodes : List (List α)) (a : α) : List (List α) :=
  match nodes with
  | [] => [[a]]
  | node :: rest => if cap ≤ node.length then [a] :: node :: rest else (node ++ [a]) :: rest

theorem push_full (hfull : cap ≤ node.length) : push cap (node :: rest) a = [a] :: node :: rest :=
  if_pos hfull

theorem push_room (hroom : ¬ cap ≤ node.length) :
    push cap (node :: rest) a = (node ++ [a]) :: rest :=
  if_neg hroom

theorem items_push (nodes : List (List α)) (a : α) :
    items (push cap nodes a) = items nodes ++ [a] := by
  cases nodes with
  | nil => rfl
  | cons node =>
    by_cases hfull : cap ≤ node.length
    · simp [push_full hfull]
    · simp [push_room hfull]

theorem Packed.push (hcap : 0 < cap) (h : Packed cap nodes) :
    Packed cap (PackedStack.push cap nodes a) := by
  cases nodes with
  | nil =>
    refine ⟨by simp [PackedStack.push], ?_, by simp [PackedStack.push]⟩
    rw [PackedStack.push, forall_mem_singleton]
    exact hcap
  | cons node =>
    by_cases hfull : cap ≤ node.length
    · rw [push_full hfull]
      have hnode : node.length = cap :=
        Nat.le_antisymm (h.length_le node mem_cons_self) hfull
      refine ⟨?_, ?_, ?_⟩
      · rw [forall_mem_cons]
        exact ⟨by simp, h.ne_nil⟩
      · rw [forall_mem_cons]
        exact ⟨hcap, h.length_le⟩
      · rw [tail_cons, forall_mem_cons]
        exact ⟨hnode, h.full⟩
    · rw [push_room hfull]
      apply h.replaceHead
      · simp
      · rw [length_append, length_singleton]
        omega

theorem length_le_push (nodes : List (List α)) (a : α) :
    nodes.length ≤ (push cap nodes a).length := by
  cases nodes with
  | nil => exact Nat.zero_le _
  | cons node =>
    by_cases hfull : cap ≤ node.length
    · simp [push_full hfull]
    · simp [push_room hfull]

theorem length_le_foldl_push (as : List α) (nodes : List (List α)) :
    nodes.length ≤ (as.foldl (push cap) nodes).length := by
  induction as generalizing nodes with
  | nil => exact Nat.le_refl _
  | cons a as ih => exact Nat.le_trans (length_le_push nodes a) (ih _)

theorem foldl_push_node (front back : List α) (hlen : (front ++ back).length ≤ cap) :
    back.foldl (PackedStack.push cap) (front :: rest) = (front ++ back) :: rest := by
  induction back generalizing front with
  | nil => simp
  | cons a back ih =>
    have hroom : ¬ cap ≤ front.length := by
      rw [length_append, length_cons] at hlen
      omega
    rw [foldl_cons, push_room hroom, ih (front ++ [a])]
    · simp
    · simpa using hlen

theorem Packed.rebuild (h : Packed cap nodes) :
    (items nodes).foldl (PackedStack.push cap) [] = nodes := by
  induction nodes with
  | nil => rfl
  | cons node rest ih =>
    rw [items_cons, foldl_append, ih h.tail]
    obtain ⟨a, back, rfl⟩ := exists_cons_of_ne_nil (h.ne_nil node mem_cons_self)
    have hfirst : PackedStack.push cap rest a = [a] :: rest := by
      cases rest with
      | nil => rfl
      | cons second =>
        have hfull : second.length = cap := h.full second mem_cons_self
        exact push_full (Nat.le_of_eq hfull.symm)
    rw [foldl_cons, hfirst]
    exact foldl_push_node [a] back (h.length_le _ mem_cons_self)

end PackedStack
