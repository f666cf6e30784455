/-
A circular list with a sentinel, as the list of its nodes from the sentinel on.

A node is named by its address; `none` is the sentinel.  Steps to the next and
the previous node, the nodes strictly between two pointers in either direction,
insertion behind a pointer and removal of one node.
-/
import Mathlib.Data.List.Nodup
import Mathlib.Data.List.TakeWhile

universe u v

namespace PointerList

open List

variable {α : Type u} {κ : Type v} [DecidableEq κ] (addr : α → κ)

/-- The nodes behind a pointer. -/
def after (nodes : List α) : Option κ → List α
  | none => nodes
  | some p => (nodes.dropWhile (fun node => !decide (addr node = p))).tail

/-- The nodes in front of a pointer. -/
def before (nodes : List α) : Option κ → List α
  | none => nodes
  | some p => nodes.takeWhile (fun node => !decide (addr node = p))

def next (nodes : List α) (p : Option κ) : Option κ :=
  (after addr nodes p).head?.map addr

def prev (nodes : List α) (p : Option κ) : Option κ :=
  (before addr nodes p).getLast?.map addr

/-- The nodes behind `start` and in front of `stop`. -/
def between (nodes : List α) (start stop : Option κ) : List α :=
  (after addr nodes start).takeWhile (fun node => !decide (some (addr node) = stop))

/-- The nodes passed on the way back from `start` to `stop`. -/
def betweenBack (nodes : List α) (start stop : Option κ) : List α :=
  (before addr nodes start).reverse.takeWhile
    (fun node => !decide (some (addr node) = stop))

def insertBehind (nodes : List α) (p : Option κ) (new : List α) : List α :=
  nodes.take (nodes.length - (after addr nodes p).length) ++ new ++ after addr nodes p

def remove (nodes : List α) (p : κ) : List α :=
  nodes.filter (fun node => !decide (addr node = p))

section

variable {addr} {nodes front back : List α} {node : α}

omit [DecidableEq κ] in
theorem notMem_of_middle (hnodup : ((front ++ node :: back).map addr).Nodup) :
    addr node ∉ front.map addr ∧ addr node ∉ back.map addr := by
  rw [map_append, map_cons, nodup_middle, nodup_cons, mem_append] at hnodup
  exact ⟨fun h => hnodup.1 (.inl h), fun h => hnodup.1 (.inr h)⟩

omit [DecidableEq κ] in
theorem notMem_of_nodup (hnodup : ((front ++ node :: back).map addr).Nodup) :
    addr node ∉ front.map addr :=
  (notMem_of_middle hnodup).1

theorem takeWhile_ne {p : κ} (hfront : p ∉ front.map addr) :
    (front ++ back).takeWhile (fun node => !decide (addr node = p)) =
      front ++ back.takeWhile (fun node => !decide (addr node = p)) := by
  apply takeWhile_append_of_pos
  intro item hitem
  have hne : addr item ≠ p := by
    rintro rfl
    exact hfront (mem_map_of_mem hitem)
  simp [hne]

theorem dropWhile_ne {p : κ} (hfront : p ∉ front.map addr) :
    (front ++ back).dropWhile (fun node => !decide (addr node = p)) =
      back.dropWhile (fun node => !decide (addr node = p)) := by
  apply dropWhile_append_of_pos
  intro item hitem
  have hne : addr item ≠ p := by
    rintro rfl
    exact hfront (mem_map_of_mem hitem)
  simp [hne]

theorem after_some (hfront : addr node ∉ front.map addr) :
    after addr (front ++ node :: back) (some (addr node)) = back := by
  simp [after, dropWhile_ne hfront]

theorem before_some (hfront : addr node ∉ front.map addr) :
    before addr (front ++ node :: back) (some (addr node)) = front := by
  simp [before, takeWhile_ne hfront]

theorem split_unique {left right : List α} {other : α}
    (hnodup : ((front ++ node :: back).map addr).Nodup)
    (heq : front ++ node :: back = left ++ other :: right) (haddr : addr other = addr node) :
    front = left ∧ node :: back = other :: right := by
  have hfront : before addr (front ++ node :: back) (some (addr node)) = front :=
    before_some (notMem_of_nodup hnodup)
  have hleft : before addr (left ++ other :: right) (some (addr other)) = left :=
    before_some (notMem_of_nodup (heq ▸ hnodup))
  rw [← heq, haddr, hfront] at hleft
  subst hleft
  exact ⟨rfl, append_cancel_left heq⟩

theorem after_suffix (addr : α → κ) (nodes : List α) (p : Option κ) :
    after addr nodes p <:+ nodes := by
  cases p with
  | none => exact suffix_refl nodes
  | some => exact (tail_suffix _).trans (dropWhile_suffix _)

theorem between_sublist (nodes : List α) (start stop : Option κ) :
    (between addr nodes start stop).Sublist nodes :=
  (takeWhile_sublist _).trans (after_suffix addr nodes start).sublist

theorem before_sublist (nodes : List α) (p : Option κ) : (before addr nodes p).Sublist nodes := by
  cases p with
  | none => exact List.Sublist.refl nodes
  | some => exact takeWhile_sublist _

theorem betweenBack_sublist (nodes : List α) (start stop : Option κ) :
    (betweenBack addr nodes start stop).Sublist nodes.reverse :=
  (takeWhile_sublist _).trans (before_sublist nodes start).reverse

omit [DecidableEq κ] in
theorem exists_split (hmem : node ∈ nodes) (hnodup : (nodes.map addr).Nodup) :
    ∃ front back, nodes = front ++ node :: back ∧ addr node ∉ front.map addr ∧
      addr node ∉ back.map addr := by
  obtain ⟨front, back, rfl⟩ := append_of_mem hmem
  exact ⟨front, back, rfl, notMem_of_middle hnodup⟩

theorem remove_of_notMem {p : κ} (hp : p ∉ nodes.map addr) : remove addr nodes p = nodes := by
  apply filter_eq_self.mpr
  intro item hitem
  have hne : addr item ≠ p := by
    rintro rfl
    exact hp (mem_map_of_mem hitem)
  simp [hne]

theorem remove_split (hfront : addr node ∉ front.map addr) (hback : addr node ∉ back.map addr) :
    remove addr (front ++ node :: back) (addr node) = front ++ back := by
  have hsplit : remove addr (front ++ node :: back) (addr node) =
      remove addr front (addr node) ++ remove addr back (addr node) := by
    simp [remove]
  rw [hsplit, remove_of_notMem hfront, remove_of_notMem hback]

theorem next_split (hfront : addr node ∉ front.map addr) :
    next addr (front ++ node :: back) (some (addr node)) = back.head?.map addr := by
  rw [next, after_some hfront]

theorem next_mem_remove (hmem : node ∈ nodes) (hnodup : (nodes.map addr).Nodup) {q : κ}
    (hq : next addr nodes (some (addr node)) = some q) :
    q ∈ (remove addr nodes (addr node)).map addr := by
  obtain ⟨front, back, rfl, hfront, hback⟩ := exists_split hmem hnodup
  rw [next_split hfront] at hq
  obtain ⟨item, hitem, rfl⟩ := Option.map_eq_some_iff.mp hq
  rw [remove_split hfront hback]
  exact mem_map_of_mem (mem_append_right _ (mem_of_head? hitem))

theorem prev_mem_remove (hmem : node ∈ nodes) (hnodup : (nodes.map addr).Nodup) {q : κ}
    (hq : prev addr nodes (some (addr node)) = some q) :
    q ∈ (remove addr nodes (addr node)).map addr := by
  obtain ⟨front, back, rfl, hfront, hback⟩ := exists_split hmem hnodup
  rw [prev, before_some hfront] at hq
  obtain ⟨item, hitem, rfl⟩ := Option.map_eq_some_iff.mp hq
  rw [remove_split hfront hback]
  exact mem_map_of_mem (mem_append_left _ (mem_of_getLast? hitem))

theorem insertBehind_eq {left : List α} {p : Option κ}
    (hleft : left ++ after addr nodes p = nodes) (new : List α) :
    insertBehind addr nodes p new = left ++ new ++ after addr nodes p := by
  have hlength : nodes.length - (after addr nodes p).length = left.length := by
    have hsum := congrArg List.length hleft
    rw [length_append] at hsum
    omega
  have htake : nodes.take left.length = left := by
    rw [← hleft, take_left]
  rw [insertBehind, hlength, htake]

theorem insertBehind_perm (nodes : List α) (p : Option κ) (new : List α) :
    (insertBehind addr nodes p new).Perm (nodes ++ new) := by
  obtain ⟨left, hleft⟩ := after_suffix addr nodes p
  rw [insertBehind_eq hleft]
  conv_rhs => rw [← hleft]
  rw [append_assoc, append_assoc]
  exact (perm_append_comm).append_left left

theorem insertBehind_front {p : Option κ} (hnodup : ((front ++ back).map addr).Nodup)
    (hp : ∀ q, p = some q → q ∈ front.map addr) (new : List α) :
    ∃ left right, front = left ++ right ∧
      insertBehind addr (front ++ back) p new = left ++ new ++ right ++ back := by
  cases p with
  | none =>
    refine ⟨[], front, rfl, ?_⟩
    rw [insertBehind_eq (nil_append _)]
    simp [after]
  | some q =>
    obtain ⟨node, hnode, rfl⟩ := mem_map.mp (hp q rfl)
    obtain ⟨left, right, rfl⟩ := append_of_mem hnode
    have hsplit : left ++ node :: right ++ back = left ++ node :: (right ++ back) := by simp
    rw [hsplit] at hnodup ⊢
    have hafter : after addr (left ++ node :: (right ++ back)) (some (addr node)) =
        right ++ back := after_some (notMem_of_nodup hnodup)
    have hleft : (left ++ [node]) ++
        after addr (left ++ node :: (right ++ back)) (some (addr node)) =
        left ++ node :: (right ++ back) := by
      rw [hafter]
      simp
    refine ⟨left ++ [node], right, by simp, ?_⟩
    rw [insertBehind_eq hleft, hafter, append_assoc _ right]

theorem prev_mem {p : Option κ} {q : κ} (hq : prev addr nodes p = some q) : q ∈ nodes.map addr := by
  obtain ⟨item, hitem, rfl⟩ := Option.map_eq_some_iff.mp hq
  exact mem_map_of_mem ((before_sublist nodes p).subset (mem_of_getLast? hitem))

theorem insertBehind_last (hnodup : (nodes.map addr).Nodup) (new : List α) :
    insertBehind addr nodes (prev addr nodes none) new = nodes ++ new := by
  rcases eq_nil_or_concat' nodes with rfl | ⟨front, last, rfl⟩
  · simp [insertBehind, after, prev, before]
  have hfront := notMem_of_nodup hnodup
  have hlast : prev addr (front ++ [last]) none = some (addr last) := by
    simp [prev, before]
  have hafter : after addr (front ++ [last]) (some (addr last)) = [] := after_some hfront
  rw [insertBehind, hlast, hafter, length_nil, Nat.sub_zero, take_length, append_nil]

theorem after_prev (hnodup : ((front ++ node :: back).map addr).Nodup) :
    after addr (front ++ node :: back)
      (prev addr (front ++ node :: back) (some (addr node))) = node :: back := by
  have hprev : prev addr (front ++ node :: back) (some (addr node)) = front.getLast?.map addr := by
    rw [prev, before_some (notMem_of_nodup hnodup)]
  rw [hprev]
  rcases eq_nil_or_concat' front with rfl | ⟨init, last, rfl⟩
  · rfl
  have hsplit : init ++ [last] ++ node :: back = init ++ last :: (node :: back) := by simp
  rw [List.getLast?_concat, hsplit, Option.map_some]
  rw [hsplit] at hnodup
  exact after_some (notMem_of_nodup hnodup)

theorem takeWhile_to_head (hnodup : ((front ++ back).map addr).Nodup) : (front ++ back).takeWhile
      (fun node => !decide (some (addr node) = back.head?.map addr)) = front := by
  cases back with
  | nil => simp
  | cons item =>
    rw [takeWhile_append_of_pos]
    · simp
    intro found hfound
    have hne : addr found ≠ addr item := by
      intro heq
      apply notMem_of_nodup hnodup
      rw [← heq]
      exact mem_map_of_mem hfound
    simp [hne]

theorem between_segment {run : List α} {first last : α}
    (hnodup : ((front ++ run ++ back).map addr).Nodup) (hfirst : run.head? = some first)
    (hlast : run.getLast? = some last) :
    between addr (front ++ run ++ back)
      (prev addr (front ++ run ++ back) (some (addr first)))
      (next addr (front ++ run ++ back) (some (addr last))) = run := by
  obtain ⟨rest, rfl⟩ := List.head?_eq_some_iff.mp hfirst
  obtain ⟨init, hinit⟩ := List.getLast?_eq_some_iff.mp hlast
  have hafter : after addr (front ++ first :: rest ++ back)
      (prev addr (front ++ first :: rest ++ back) (some (addr first))) =
      first :: rest ++ back := by
    rw [append_assoc, cons_append] at hnodup ⊢
    exact after_prev hnodup
  have hnext : next addr (front ++ first :: rest ++ back) (some (addr last)) =
      back.head?.map addr := by
    rw [hinit]
    have hsplit : front ++ (init ++ [last]) ++ back = (front ++ init) ++ last :: back := by
      simp
    rw [hinit, hsplit] at hnodup
    rw [hsplit]
    exact next_split (notMem_of_nodup hnodup)
  rw [append_assoc, map_append, nodup_append] at hnodup
  rw [between, hafter, hnext]
  exact takeWhile_to_head hnodup.2.1

end

end PointerList
