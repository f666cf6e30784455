/-
A simple cycle of detectors in one LCLS phase: only the owner of the smallest label starts a
cycle info, which goes round once, so `detect_callback_` is called once, at the owner.
-/
import SeekDB.LclDetect
import SeekDB.LclVictim

universe u

namespace SeekDB.Lcl

open List Nat Option

variable {κ : Type u} [DecidableEq κ]

/-- The members are a simple cycle in this order, from the owner of the smallest label. -/
structure WaitGroup.CycleOrder (g : WaitGroup κ) (order : ℕ → κ) : Prop where
  first : order 0 = g.least
  mem_iff : ∀ key, key ∈ g.members ↔ ∃ i < g.members.card, order i = key
  inj : ∀ i < g.members.card, ∀ j < g.members.card, order i = order j → i = j
  next : ∀ i < g.members.card,
    (g.blockList (order i)).filter (· ∈ g.members) = [order ((i + 1) % g.members.card)]

/-- The ids of the members are distinct, and the owner of the smallest label does not have
the priority that `if_self_has_lowest_priority_` starts from. -/
structure WaitGroup.Killable (g : WaitGroup κ) : Prop where
  id_inj : ∀ a ∈ g.members, ∀ b ∈ g.members, (g.label a).id = (g.label b).id → a = b
  lt_highest : (g.label g.least).priority.lt .highest = true

namespace LclState

/-- No cycle info to a member is on its way. -/
def Collected (members : Finset κ) (s : LclState κ) : Prop :=
  (∀ dest ∈ members, ∀ collected, .cycleInfo dest collected ∉ s.queue) ∧
    ∀ key ∈ members, .report key ∉ s.tasks

end LclState

/-! ### The labels on a cycle -/

variable {key : κ}

namespace WaitGroup.CycleOrder

variable {g : WaitGroup κ} {order : ℕ → κ}

theorem mem (h : g.CycleOrder order) {i : ℕ} (hi : i < g.members.card) : order i ∈ g.members :=
  (h.mem_iff _).mpr ⟨i, hi, rfl⟩

theorem eq_next (h : g.CycleOrder order) {i : ℕ} (hi : i < g.members.card) {dest : κ}
    (hdest : dest ∈ g.members) (hedge : dest ∈ g.blockList (order i)) :
    dest = order ((i + 1) % g.members.card) := by
  have hmem : dest ∈ (g.blockList (order i)).filter (· ∈ g.members) :=
    mem_filter.mpr ⟨hedge, decide_eq_true hdest⟩
  rw [h.next i hi] at hmem
  exact mem_singleton.mp hmem

/-- A label comes only as far as the owner of the smallest one. -/
def routes (h : g.CycleOrder order) : Routes κ :=
  { g with
    held := fun key l => ∃ i < g.members.card, key = order i ∧ ∃ j ≤ i, l = g.label (order j)
    sent := fun key l => ∃ i < g.members.card, key = order i ∧
      ∃ j < g.members.card, (0 < i → j < i) ∧ l = g.label (order j)
    held_isLabel := by
      rintro key l ⟨i, hi, -, j, hj, rfl⟩
      exact ⟨order j, h.mem (Nat.lt_of_le_of_lt hj hi), rfl⟩
    sent_isLabel := by
      rintro key l ⟨i, hi, -, j, hj, -, rfl⟩
      exact ⟨order j, h.mem hj, rfl⟩
    held_own := by
      intro key hkey
      obtain ⟨i, hi, rfl⟩ := (h.mem_iff key).mp hkey
      exact ⟨i, hi, rfl, i, Nat.le_refl i, rfl⟩
    held_of_sent := by
      rintro key l l' hkey ⟨i, hi, rfl, j, hj, hlt, rfl⟩ ⟨i', hi', heq, j', hj', rfl⟩ hless
      obtain rfl := h.inj i hi i' hi' heq
      rcases Nat.eq_zero_or_pos i with rfl | hpos
      · obtain rfl := le_zero.mp hj'
        rw [h.first, g.not_lt_least _ (h.mem hj)] at hless
        cases hless
      · exact ⟨i, hi, rfl, j, Nat.le_of_lt (hlt hpos), rfl⟩
    sent_of_held := by
      rintro key dest l hkey hdest hedge ⟨i, hi, rfl, j, hj, rfl⟩
      refine ⟨(i + 1) % g.members.card, mod_lt _ (zero_lt_of_lt hi),
        h.eq_next hi hdest hedge, j, Nat.lt_of_le_of_lt hj hi, fun hpos => ?_, rfl⟩
      rcases Nat.lt_or_ge (i + 1) g.members.card with hlt | hge
      · rw [mod_eq_of_lt hlt]
        exact lt_succ_of_le hj
      · have heq : i + 1 = g.members.card := Nat.le_antisymm hi hge
        rw [heq, mod_self] at hpos
        exact absurd hpos (Nat.lt_irrefl 0) }

theorem eq_least_of_sent (h : g.CycleOrder order) (hkey : key ∈ g.members)
    (hsent : h.routes.sent key (g.label key)) : key = g.least := by
  obtain ⟨i, hi, rfl, j, hj, hlt, hlabel⟩ := hsent
  have heq := h.inj i hi j hj (g.label_inj _ (h.mem hi) _ (h.mem hj) hlabel)
  rcases Nat.eq_zero_or_pos i with rfl | hpos
  · exact h.first
  · omega

end WaitGroup.CycleOrder

/-! ### The cycle info -/

def WaitGroup.info (g : WaitGroup κ) (key : κ) : ReportInfo κ :=
  ⟨key, (g.label key).id, (g.label key).priority⟩

/-- What a cycle info has collected from the first `i` members. -/
def WaitGroup.collectedUpTo (g : WaitGroup κ) (order : ℕ → κ) (i : ℕ) : List (ReportInfo κ) :=
  (List.range i).map fun j => g.info (order j)

def Message.isCycleInfoTo (members : Finset κ) : Message κ → Bool
  | .cycleInfo dest _ => dest ∈ members
  | .lclState _ _ _ _ => false

def Task.isReportOf (members : Finset κ) : Task κ → Bool
  | .report key => key ∈ members
  | _ => false

variable {collected : List (ReportInfo κ)}

omit [DecidableEq κ] in
theorem lowestPriority_of_not_lt
    {lowest : ObDetectorPriority × Int}
    (h : ∀ info ∈ collected, info.priority.lt lowest.1 = false) (i : Int) :
    lowestPriority collected i lowest = lowest := by
  induction collected generalizing i with
  | nil => rfl
  | cons info rest ih =>
    rw [lowestPriority, h info mem_cons_self]
    exact ih (fun other hother => h other (mem_cons_of_mem info hother)) (i + 1)

omit [DecidableEq κ] in
theorem WaitGroup.collectedUpTo_cons (g : WaitGroup κ) (order : ℕ → κ) (i : ℕ) :
    g.collectedUpTo order (i + 1) =
      g.info (order 0) :: (List.range i).map fun j => g.info (order (j + 1)) := by
  simp [collectedUpTo, range_succ_eq_map, Function.comp_def]

namespace WaitGroup.CycleOrder

variable {g : WaitGroup κ} {order : ℕ → κ} {i : ℕ} {n : ObLCLNode κ}

section

variable (h : g.CycleOrder order)

include h

theorem isCompleteCycle_card (hlabel : n.privateLabel = g.label g.least) :
    n.isCompleteCycle (g.collectedUpTo order g.members.card) = true := by
  obtain ⟨d, hd⟩ : ∃ d, g.members.card = d + 1 := ⟨g.members.card - 1, by have := g.two_le; omega⟩
  rw [hd, g.collectedUpTo_cons]
  simp [ObLCLNode.isCompleteCycle, WaitGroup.info, h.first, hlabel]

theorem isCompleteCycle_lt (hkill : g.Killable)
    (hi : i < g.members.card) (hlabel : n.privateLabel = g.label (order i)) :
    n.isCompleteCycle (g.collectedUpTo order i) = false := by
  cases i with
  | zero => rfl
  | succ i =>
    have hzero : 0 < g.members.card := zero_lt_of_lt hi
    rw [g.collectedUpTo_cons]
    simp only [ObLCLNode.isCompleteCycle, WaitGroup.info, hlabel, decide_eq_false_iff_not]
    intro hid
    cases h.inj 0 hzero (i + 1) hi (hkill.id_inj _ (h.mem hzero) _ (h.mem hi) hid)

theorem checkDeadLoop_lt (hi : i < g.members.card) (hself : n.selfKey = order i) :
    n.checkDeadLoop (g.collectedUpTo order i) = false := by
  rw [ObLCLNode.checkDeadLoop, List.any_eq_false]
  intro info hinfo
  obtain ⟨j, hj, rfl⟩ := List.mem_map.mp hinfo
  have hj := mem_range.mp hj
  simp only [WaitGroup.info, hself, decide_eq_true_eq, not_and]
  intro heq
  exact absurd (h.inj j (hj.trans hi) i hi heq) (Nat.ne_of_lt hj)

theorem ifSelfHasLowestPriority_card (hkill : g.Killable) :
    ifSelfHasLowestPriority (g.collectedUpTo order g.members.card) = true := by
  obtain ⟨d, hd⟩ : ∃ d, g.members.card = d + 1 := ⟨g.members.card - 1, by have := g.two_le; omega⟩
  have hnot : ∀ key ∈ g.members,
      (g.label key).priority.lt (g.label g.least).priority = false := by
    intro key hkey
    have hlt := g.not_lt_least key hkey
    rw [← Bool.not_eq_true] at hlt ⊢
    exact fun hpriority => hlt (by simp [ObLCLLabel.lt, hpriority])
  rw [ifSelfHasLowestPriority, hd, g.collectedUpTo_cons, lowestPriority, decide_eq_true_eq]
  simp only [WaitGroup.info, h.first, hkill.lt_highest, if_true]
  rw [lowestPriority_of_not_lt]
  intro info hinfo
  obtain ⟨j, hj, rfl⟩ := List.mem_map.mp hinfo
  exact hnot _ (h.mem (by have := mem_range.mp hj; omega))

end

end WaitGroup.CycleOrder

/-! ### One cycle info goes round -/

open LclState

namespace LclState.Collected

variable {members : Finset κ} {s : LclState κ}

theorem countP_queue (h : s.Collected members) :
    s.queue.countP (Message.isCycleInfoTo members) = 0 := by
  rw [countP_eq_zero]
  intro message hmessage hcycle
  cases message with
  | lclState => cases hcycle
  | cycleInfo dest collected => exact h.1 dest (of_decide_eq_true hcycle) collected hmessage

theorem countP_tasks (h : s.Collected members) : s.tasks.countP (Task.isReportOf members) = 0 := by
  rw [countP_eq_zero]
  intro task htask hreport
  cases task with
  | report key => exact h.2 key (of_decide_eq_true hreport) htask
  | lclState | push | broadcast => cases hreport

end LclState.Collected

/-- Every cycle info that a member started is on its way, or it has come back and the
callback was called. -/
structure TokenInv (g : WaitGroup κ) (order : ℕ → κ) (p : Nat) (s : LclState κ) : Prop where
  reports : ∀ key ∈ g.members, .report key ∈ s.tasks → key = g.least
  queued : ∀ dest ∈ g.members, ∀ collected, .cycleInfo dest collected ∈ s.queue →
    ∃ i ≤ g.members.card, dest = order (i % g.members.card) ∧ collected = g.collectedUpTo order i
  detected : ∀ call ∈ s.detected, call.1 ∈ g.members → call.1 = g.least
  started : Has s g.least fun n => s.started.countP (fun start => start.1 ∈ g.members) =
    if n.lastSendCycleInfoPeriod = p then 1 else 0
  count : s.queue.countP (Message.isCycleInfoTo g.members) +
      s.tasks.countP (Task.isReportOf g.members) +
      s.detected.countP (fun call => call.1 ∈ g.members) =
    s.started.countP (fun start => start.1 ∈ g.members)
  lists : s.detected.countP (fun call => call.1 ∈ g.members) = 0 → ∀ key ∈ g.members,
    Has s key fun n => n.blockList = g.blockList key

theorem countP_eraseIdx {α : Type u} {l : List α} {i : ℕ} {a : α} (h : l[i]? = some a)
    (P : α → Bool) : l.countP P = (l.eraseIdx i).countP P + if P a then 1 else 0 := by
  obtain ⟨hi, rfl⟩ := List.getElem?_eq_some_iff.mp h
  rw [← (getElem_cons_eraseIdx_perm hi).countP_eq, countP_cons]

theorem countP_eraseIdx_of_false {α : Type u} {l : List α} {i : ℕ} {a : α} {P : α → Bool}
    (h : l[i]? = some a) (hfalse : P a = false) : (l.eraseIdx i).countP P = l.countP P := by
  rw [countP_eraseIdx h, hfalse]
  rfl

variable {n n' : ObLCLNode κ}

/-- Only the owner of the smallest label sets `detected_flag`, and it does so in period `p`. -/
theorem WaitGroup.CycleOrder.flag_least {g : WaitGroup κ} {order : ℕ → κ} {p : Nat} {top : Int}
    {s : LclState κ} (horder : g.CycleOrder order) (hinv : horder.routes.PhaseInv top p s)
    {lclv : Int} {label : ObLCLLabel} {sendTs : Nat}
    (htask : .lclState key lclv label sendTs ∈ s.tasks) (hkey : key ∈ g.members)
    (hn : s.node key = some n) (hphase : sendTs / phaseTime = 2 * p + 1)
    (hprocess : n.processLclsState lclv label = (n', true)) :
    key = g.least ∧ n.lclPeriod = p ∧ n.lastSendCycleInfoPeriod ≠ p ∧
      n'.lastSendCycleInfoPeriod = p := by
  obtain ⟨hpayload, hperiod⟩ := hinv.received key lclv label sendTs htask hkey hphase
  have hperiod := hperiod n hn
  have hmember := hinv.member_of hkey hn
  rcases n.processLclsState_cases lclv label with ⟨-, heq⟩ | ⟨-, hcases⟩
  · simp [hprocess] at heq
  rcases hcases with ⟨-, -, heq⟩ | ⟨hlabel, hsent, heq⟩ | ⟨-, -, heq⟩ | ⟨-, -, heq⟩
  · simp [hprocess] at heq
  · obtain ⟨rfl, -⟩ := Prod.mk.inj (hprocess.symm.trans heq)
    have hprivate : n.privateLabel = g.label key := hmember.privateLabel
    have hown : horder.routes.sent key (g.label key) := (hlabel.trans hprivate) ▸ hpayload.2
    exact ⟨horder.eq_least_of_sent hkey hown, hperiod, hperiod ▸ hsent, hperiod⟩
  · simp [hprocess] at heq
  · simp [hprocess] at heq

namespace TokenInv

variable {g : WaitGroup κ} {order : ℕ → κ} {p : Nat} {top : Int} {s s' : LclState κ}

section

variable (h : TokenInv g order p s) (horder : g.CycleOrder order)
  (hinv : horder.routes.PhaseInv top p s)

include h horder hinv

/-- The LCL period in which the owner has started a cycle info changes with a start only. -/
theorem started_step (hstep : Smooth p s s') :
    Has s' g.least fun n => s'.started.countP (fun start => start.1 ∈ g.members) =
      if n.lastSendCycleInfoPeriod = p then 1 else 0 := by
  obtain ⟨n, hn, hcount⟩ := h.started
  obtain ⟨n', hn', -⟩ := hinv.node_step hstep g.least_mem hn
  refine ⟨n', hn', ?_⟩
  rcases hstep.started_cases with ⟨hstarted, hsame⟩ |
    ⟨key, lclv, label, sendTs, m, m', htask, hm, hphase, hprocess, hstarted, hnode⟩
  · obtain ⟨k, hk, hsame⟩ := hsame g.least n' hn'
    obtain rfl := some_inj.mp (hn.symm.trans hk)
    rw [hstarted, hsame]
    exact hcount
  rw [hstarted, countP_cons]
  rw [hnode] at hn'
  by_cases hkey : key ∈ g.members
  · obtain ⟨rfl, -, hbefore, hafter⟩ := horder.flag_least hinv htask hkey hm hphase hprocess
    rw [s.setNode_node_self] at hn'
    cases hn'
    obtain rfl := some_inj.mp (hn.symm.trans hm)
    simp [hcount, hbefore, hafter, hkey]
  · have hne : g.least ≠ key := fun heq => hkey (heq ▸ g.least_mem)
    rw [s.setNode_node_of_ne hne] at hn'
    obtain rfl := some_inj.mp (hn.symm.trans hn')
    simpa [hkey] using hcount

/-- A call at a member is the only step that changes its block list. -/
theorem lists_step (hstep : Smooth p s s')
    (hnone : s'.detected.countP (fun call => call.1 ∈ g.members) = 0) :
    ∀ key ∈ g.members, Has s' key fun n => n.blockList = g.blockList key := by
  intro key hkey
  rw [countP_eq_zero] at hnone
  have hbefore : s.detected.countP (fun call => call.1 ∈ g.members) = 0 :=
    countP_eq_zero.mpr fun call hcall => hnone call (hstep.detected_subset hcall)
  obtain ⟨n, hn, hlist⟩ := h.lists hbefore key hkey
  obtain ⟨n', hn', -⟩ := hinv.node_step hstep hkey hn
  obtain ⟨m, hm, -, -, hsame | ⟨collected, hcall⟩⟩ := hstep.node_of hn'
  · obtain rfl := some_inj.mp (hn.symm.trans hm)
    exact ⟨n', hn', hsame.trans hlist⟩
  · refine absurd (decide_eq_true hkey) (hnone (key, collected) ?_)
    rw [hcall]
    exact mem_cons_self

theorem silent (hstep : Smooth p s s')
    (hreports : ∀ key, .report key ∈ s'.tasks → .report key ∈ s.tasks)
    (hqueued : ∀ dest collected, .cycleInfo dest collected ∈ s'.queue →
      .cycleInfo dest collected ∈ s.queue)
    (htasks : s'.tasks.countP (Task.isReportOf g.members) =
      s.tasks.countP (Task.isReportOf g.members))
    (hqueue : s'.queue.countP (Message.isCycleInfoTo g.members) =
      s.queue.countP (Message.isCycleInfoTo g.members)) (hdetected : s'.detected = s.detected)
    (hstarted : s'.started = s.started) :
    TokenInv g order p s' where
  reports := fun key hkey hmem => h.reports key hkey (hreports key hmem)
  queued := fun dest hdest collected hmem =>
    h.queued dest hdest collected (hqueued dest collected hmem)
  detected := by
    rw [hdetected]
    exact h.detected
  started := h.started_step horder hinv hstep
  count := by
    rw [htasks, hqueue, hdetected, hstarted]
    exact h.count
  lists := h.lists_step horder hinv hstep

theorem not_ignored (hkill : g.Killable) {message : Message κ} (hmem : message ∈ s.queue)
    (hignored : s.Ignored message) : message.isCycleInfoTo g.members = false := by
  cases message with
  | lclState => rfl
  | cycleInfo dest collected =>
    rw [Message.isCycleInfoTo, decide_eq_false_iff_not]
    intro hdest
    obtain ⟨i, hi, rfl, rfl⟩ := h.queued dest hdest collected hmem
    obtain ⟨n, hn, hmember⟩ := hinv.member _ hdest
    have hlabel : n.privateLabel = g.label (order (i % g.members.card)) := hmember.privateLabel
    have hself := hinv.selfKey _ n hn
    rcases Nat.lt_or_eq_of_le hi with hlt | rfl
    · rw [mod_eq_of_lt hlt] at hlabel hself
      rcases hignored n hn with ⟨hcomplete, -⟩ | ⟨-, hloop⟩
      · rw [horder.isCompleteCycle_lt hkill hlt hlabel] at hcomplete
        cases hcomplete
      · rw [horder.checkDeadLoop_lt hlt hself] at hloop
        cases hloop
    rw [mod_self, horder.first] at hlabel
    rcases hignored n hn with ⟨-, hlowest⟩ | ⟨hcomplete, -⟩
    · rw [horder.ifSelfHasLowestPriority_card hkill] at hlowest
      cases hlowest
    · rw [horder.isCompleteCycle_card hlabel] at hcomplete
      cases hcomplete

theorem flag {i : Nat}
    {lclv : Int} {label : ObLCLLabel} {sendTs : Nat}
    (htask : s.tasks[i]? = some (.lclState key lclv label sendTs)) (hn : s.node key = some n)
    (hphase : sendTs / phaseTime = 2 * p + 1)
    (hprocess : n.processLclsState lclv label = (n', true)) :
    TokenInv g order p
      { s.setNode key n' with
        tasks := .report key :: s.tasks.eraseIdx i
        started := (key, n.lclPeriod) :: s.started } where
  reports := by
    intro other hother hmem
    rcases mem_cons.mp hmem with heq | hold
    · obtain rfl : other = key := by simpa using heq
      exact (horder.flag_least hinv (mem_of_getElem? htask) hother hn hphase hprocess).1
    · exact h.reports other hother (mem_of_mem_eraseIdx hold)
  queued := h.queued
  detected := h.detected
  started := h.started_step horder hinv (.detectedFlag htask hn hphase hprocess)
  lists := h.lists_step horder hinv (.detectedFlag htask hn hphase hprocess)
  count := by
    have hcount := h.count
    rw [countP_eraseIdx htask] at hcount
    simp only [Task.isReportOf, Bool.false_eq_true, if_false, Nat.add_zero] at hcount
    change s.queue.countP _ + _ + s.detected.countP _ = _
    by_cases hkey : key ∈ g.members
    · have hreport : Task.isReportOf g.members (.report key) = true := decide_eq_true hkey
      rw [countP_cons_of_pos hreport, countP_cons_of_pos (by simpa using hkey)]
      omega
    have hreport : ¬ Task.isReportOf g.members (.report key) = true :=
      fun htrue => hkey (of_decide_eq_true htrue)
    rw [countP_cons_of_neg hreport, countP_cons_of_neg (by simpa using hkey)]
    omega

theorem report {i : Nat}
    (htask : s.tasks[i]? = some (.report key)) :
    TokenInv g order p
      { s with
        tasks := s.tasks.eraseIdx i
        queue := s.queue ++ [.cycleInfo key []] } where
  reports := fun other hother hmem =>
    h.reports other hother (mem_of_mem_eraseIdx hmem)
  queued := by
    intro dest hdest collected hmem
    rcases mem_append.mp hmem with hold | hnew
    · exact h.queued dest hdest collected hold
    obtain ⟨rfl, rfl⟩ : dest = key ∧ collected = [] := by simpa using hnew
    refine ⟨0, Nat.zero_le _, ?_, rfl⟩
    rw [zero_mod, horder.first]
    exact h.reports dest hdest (mem_of_getElem? htask)
  detected := h.detected
  started := h.started_step horder hinv (.report htask)
  lists := h.lists_step horder hinv (.report htask)
  count := by
    have hcount := h.count
    rw [countP_eraseIdx htask, Task.isReportOf] at hcount
    change (s.queue ++ [_]).countP _ + (s.tasks.eraseIdx i).countP _ + s.detected.countP _ =
      s.started.countP _
    rw [countP_append]
    by_cases hkey : key ∈ g.members
    · have hcycle : Message.isCycleInfoTo g.members (.cycleInfo key []) = true :=
        decide_eq_true hkey
      rw [countP_cons_of_pos hcycle, countP_nil]
      simp only [hkey, decide_true, if_true] at hcount
      omega
    have hcycle : ¬ Message.isCycleInfoTo g.members (.cycleInfo key []) = true :=
      fun htrue => hkey (of_decide_eq_true htrue)
    rw [countP_cons_of_neg hcycle, countP_nil]
    simp only [hkey, decide_false, Bool.false_eq_true, if_false] at hcount
    omega

theorem detect (hkill : g.Killable) {i : Nat} {dest : κ}
    (hmessage : s.queue[i]? = some (.cycleInfo dest collected))
    (hn : s.node dest = some n) (hcomplete : n.isCompleteCycle collected = true)
    (hlowest : ifSelfHasLowestPriority collected = true)
    (hn' : n' = n ∨ n' = n.activatePeer collected) :
    TokenInv g order p
      { s.setNode dest n' with
        queue := s.queue.eraseIdx i
        detected := (dest, collected) :: s.detected } where
  reports := h.reports
  queued := fun other hother other' hmem =>
    h.queued other hother other' (mem_of_mem_eraseIdx hmem)
  detected := by
    intro call hcall hmember
    rcases mem_cons.mp hcall with rfl | hold
    · obtain ⟨j, hj, hdest, rfl⟩ := h.queued dest hmember collected (mem_of_getElem? hmessage)
      have hlabel : n.privateLabel = g.label dest := (hinv.member_of hmember hn).privateLabel
      rcases Nat.lt_or_eq_of_le hj with hlt | rfl
      · rw [mod_eq_of_lt hlt] at hdest
        rw [horder.isCompleteCycle_lt hkill hlt (hdest ▸ hlabel)] at hcomplete
        cases hcomplete
      · rw [mod_self, horder.first] at hdest
        exact hdest
    · exact h.detected call hold hmember
  started := h.started_step horder hinv (.detect hmessage hn hcomplete hlowest hn')
  lists := h.lists_step horder hinv (.detect hmessage hn hcomplete hlowest hn')
  count := by
    have hcount := h.count
    rw [countP_eraseIdx hmessage, Message.isCycleInfoTo] at hcount
    change (s.queue.eraseIdx i).countP _ + s.tasks.countP _ + _ = s.started.countP _
    simp only [countP_cons]
    omega

end

theorem countP_forward (horder : g.CycleOrder order) {i : ℕ} (hi : i < g.members.card)
    (collected : List (ReportInfo κ)) :
    ((g.blockList (order i)).map fun next => Message.cycleInfo next collected).countP
      (Message.isCycleInfoTo g.members) = 1 := by
  rw [countP_map, countP_eq_length_filter]
  have hnext := horder.next i hi
  exact congrArg List.length hnext

section

variable (h : TokenInv g order p s)

include h

/-- While a cycle info is on its way to a member, no member was called. -/
theorem not_called {dest : κ} (hmem : .cycleInfo dest collected ∈ s.queue)
    (hdest : dest ∈ g.members) :
    s.detected.countP (fun call => call.1 ∈ g.members) = 0 := by
  have hcount := h.count
  obtain ⟨n, -, hstarted⟩ := h.started
  have hpos : 0 < s.queue.countP (Message.isCycleInfoTo g.members) :=
    countP_pos_iff.mpr ⟨_, hmem, decide_eq_true hdest⟩
  split_ifs at hstarted <;> omega

theorem forward (horder : g.CycleOrder order)
    (hinv : horder.routes.PhaseInv top p s) {i : Nat} {dest : κ}
    {n : ObLCLNode κ} (hmessage : s.queue[i]? = some (.cycleInfo dest collected))
    (hn : s.node dest = some n) (hcomplete : n.isCompleteCycle collected = false)
    (hloop : n.checkDeadLoop collected = false) :
    TokenInv g order p
      { s with
        queue := s.queue.eraseIdx i ++
          n.blockList.map fun next => .cycleInfo next (collected ++ [n.reportInfo]) } := by
  have hself := hinv.selfKey dest n hn
  -- A member that is not the last of the cycle, or a detector outside.
  have hdest : dest ∉ g.members ∨ ∃ j < g.members.card, dest = order j ∧
      collected = g.collectedUpTo order j ∧ n.blockList = g.blockList (order j) ∧
      n.reportInfo = g.info (order j) := by
    by_cases hmember : dest ∈ g.members
    · obtain ⟨j, hj, heq, rfl⟩ := h.queued dest hmember _ (mem_of_getElem? hmessage)
      have hnode := hinv.member_of hmember hn
      have hlabel : n.privateLabel = g.label dest := hnode.privateLabel
      rcases Nat.lt_or_eq_of_le hj with hlt | rfl
      · rw [mod_eq_of_lt hlt] at heq
        subst heq
        obtain ⟨m, hm, hlist⟩ := h.lists (h.not_called (mem_of_getElem? hmessage) hmember) _ hmember
        obtain rfl := some_inj.mp (hn.symm.trans hm)
        refine .inr ⟨j, hlt, rfl, rfl, hlist, ?_⟩
        rw [ObLCLNode.reportInfo, hself, hlabel, WaitGroup.info]
      · rw [mod_self, horder.first] at heq
        rw [horder.isCompleteCycle_card (heq ▸ hlabel)] at hcomplete
        cases hcomplete
    · exact .inl hmember
  refine
    { h with
      queued := ?_
      started := h.started_step horder hinv (.forward hmessage hn hcomplete hloop)
      lists := h.lists_step horder hinv (.forward hmessage hn hcomplete hloop)
      count := ?_ }
  · intro next hnext extended hmem
    rcases mem_append.mp hmem with hold | hnew
    · exact h.queued next hnext extended (mem_of_mem_eraseIdx hold)
    obtain ⟨other, hother, heq⟩ := List.mem_map.mp hnew
    obtain ⟨rfl, rfl⟩ : other = next ∧ collected ++ [n.reportInfo] = extended := by
      simpa using heq
    rcases hdest with hout | ⟨j, hj, rfl, rfl, hblock, hinfo⟩
    · exact absurd hother (hinv.outside dest n hout hn other hnext)
    · refine ⟨j + 1, hj, horder.eq_next hj hnext (hblock ▸ hother), ?_⟩
      simp [hinfo, WaitGroup.collectedUpTo, range_succ]
  · have hcount := h.count
    rw [countP_eraseIdx hmessage, Message.isCycleInfoTo] at hcount
    rw [countP_append]
    rcases hdest with hout | ⟨j, hj, rfl, rfl, hblock, hinfo⟩
    · have hzero : (n.blockList.map fun next =>
          Message.cycleInfo next (collected ++ [n.reportInfo])).countP
            (Message.isCycleInfoTo g.members) = 0 := by
        rw [countP_map, countP_eq_zero]
        intro next hnext hmember
        exact hinv.outside dest n hout hn next (of_decide_eq_true hmember) hnext
      rw [hzero]
      simp only [hout, decide_false, Bool.false_eq_true, if_false] at hcount
      omega
    · rw [hblock, countP_forward horder hj]
      simp only [horder.mem hj, decide_true, if_true] at hcount
      omega

theorem step (horder : g.CycleOrder order) (hkill : g.Killable)
    (hinv : horder.routes.PhaseInv top p s) (hstep : Smooth p s s') : TokenInv g order p s' := by
  have hcase := hstep
  cases hcase with
  | timer =>
    refine h.silent horder hinv hstep (fun key hmem => by simpa using hmem)
      (fun _ _ hmem => hmem) ?_ rfl rfl rfl
    simp [Task.isReportOf]
  | @drop i task htask hstuck =>
    refine h.silent horder hinv hstep (fun key hmem => mem_of_mem_eraseIdx hmem)
      (fun _ _ hmem => hmem) (countP_eraseIdx_of_false htask ?_) rfl rfl rfl
    cases task with
    | report => exact absurd hstuck id
    | lclState | push | broadcast => rfl
  | process htask =>
    exact h.silent horder hinv hstep (fun key hmem => mem_of_mem_eraseIdx hmem)
      (fun _ _ hmem => hmem) (countP_eraseIdx_of_false htask rfl) rfl rfl rfl
  | detectedFlag htask hn hphase hprocess => exact h.flag horder hinv htask hn hphase hprocess
  | report htask => exact h.report horder hinv htask
  | push htask =>
    refine h.silent horder hinv hstep
      (fun key hmem => mem_of_mem_eraseIdx (by simpa using hmem))
      (fun _ _ hmem => hmem) ?_ rfl rfl rfl
    exact countP_eraseIdx_of_false htask rfl
  | post htask =>
    refine h.silent horder hinv hstep
      (fun key hmem => mem_of_mem_eraseIdx (by simpa using hmem))
      (fun _ _ hmem => by simpa using hmem) ?_ ?_ rfl rfl
    · exact countP_eraseIdx_of_false htask rfl
    · simp [Message.isCycleInfoTo]
  | receive hmessage =>
    refine h.silent horder hinv hstep (fun key hmem => by simpa using hmem)
      (fun _ _ hmem => mem_of_mem_eraseIdx hmem) ?_ (countP_eraseIdx_of_false hmessage rfl) rfl rfl
    simp [Task.isReportOf]
  | ignore hmessage hignored =>
    have hfalse := h.not_ignored horder hinv hkill (mem_of_getElem? hmessage) hignored
    exact h.silent horder hinv hstep (fun key hmem => hmem)
      (fun _ _ hmem => mem_of_mem_eraseIdx hmem) rfl
      (countP_eraseIdx_of_false hmessage hfalse) rfl rfl
  | detect hmessage hn hcomplete hlowest hn' =>
    exact h.detect horder hinv hkill hmessage hn hcomplete hlowest hn'
  | forward hmessage hn hcomplete hloop =>
    exact h.forward horder hinv hmessage hn hcomplete hloop
  | count =>
    exact h.silent horder hinv hstep (fun _ hmem => hmem) (fun _ _ hmem => hmem) rfl rfl rfl rfl

theorem run (horder : g.CycleOrder order) (hkill : g.Killable)
    (hinv : horder.routes.PhaseInv top p s) {events : List (LclEvent κ)}
    (hrun : events.foldlM (smoothStep (2 * p + 1)) s = some s') :
    TokenInv g order p s' ∧ horder.routes.PhaseInv top p s' := by
  refine (Execution.of_foldlM hrun).invariant
    (P := fun s => TokenInv g order p s ∧ horder.routes.PhaseInv top p s) ⟨h, hinv⟩ ?_
  rintro event state next ⟨h, hinv⟩ hnext
  have hstep := Smooth.of_step hinv.selfKey hnext
  exact ⟨h.step horder hkill hinv hstep, hinv.step hstep⟩

end

theorem of_start (hstart : g.Start p s) (hcollected : s.Collected g.members) :
    TokenInv g order p s where
  reports := fun key hkey hmem => absurd hmem (hcollected.2 key hkey)
  queued := fun dest hdest collected hmem => absurd hmem (hcollected.1 dest hdest collected)
  detected := by simp [hstart.detected]
  started := by
    obtain ⟨n, hn, hmember⟩ := hstart.member g.least g.least_mem
    refine ⟨n, hn, ?_⟩
    simp [hstart.started, Nat.ne_of_lt hmember.lastSend_lt]
  count := by
    rw [hcollected.countP_queue, hcollected.countP_tasks, hstart.started, hstart.detected]
    rfl
  lists := by
    intro _ key hkey
    obtain ⟨n, hn, hmember⟩ := hstart.member key hkey
    exact ⟨n, hn, hmember.blockList⟩

/-- Once every cycle info is delivered, the owner was called as often as it has started one. -/
theorem called (h : TokenInv g order p s) (hcollected : s.Collected g.members)
    (hstarted : (g.least, p) ∈ s.started) :
    (s.detected.filter fun call => call.1 ∈ g.members).map Prod.fst = [g.least] := by
  have hqueue := hcollected.countP_queue
  have htasks := hcollected.countP_tasks
  have hcount := h.count
  obtain ⟨n, -, hone⟩ := h.started
  have hpos : 0 < s.started.countP fun start => start.1 ∈ g.members :=
    countP_pos_iff.mpr ⟨_, hstarted, decide_eq_true g.least_mem⟩
  have hdetected : (s.detected.filter fun call => call.1 ∈ g.members).length = 1 := by
    rw [← countP_eq_length_filter]
    split_ifs at hone <;> omega
  obtain ⟨call, hcall⟩ := length_eq_one_iff.mp hdetected
  have hmem : call ∈ s.detected.filter fun call => call.1 ∈ g.members := by simp [hcall]
  obtain ⟨hmem, hmember⟩ := mem_filter.mp hmem
  rw [hcall, map_singleton, h.detected call hmem (of_decide_eq_true hmember)]

end TokenInv

/-- In a strongly connected set of `n` detectors that nobody outside waits for, `2 n` rounds of
pushes in an LCLS phase that leave the wait-for graph as it is make the owner of the smallest
label set `detected_flag`; on a simple cycle `detect_callback_` is then called once, at that
owner, whether or not the call takes an edge away. -/
theorem deadlock_found (g : WaitGroup κ) (p k : ℕ) (states : ℕ → LclState κ)
    (hstart : g.Start p (states 0))
    (hrounds : ∀ r < k, ∃ events, Round g.members (2 * p + 1) (states r) events (states (r + 1)))
    (hwaits : g.StillWaits (states k)) (hk : 2 * g.members.card ≤ k) :
    (g.least, p) ∈ (states k).started ∧
      ∀ order, g.CycleOrder order → g.Killable → (states 0).Collected g.members →
        ∀ (after : List (LclEvent κ)) (s : LclState κ),
          after.foldlM (smoothStep (2 * p + 1)) (states k) = some s →
          s.Collected g.members →
          (s.detected.filter fun call => call.1 ∈ g.members).map Prod.fst = [g.least] := by
  have hstarted : (g.least, p) ∈ (states k).started :=
    Routes.least_started (g := g.routes) hrounds hstart hwaits hk
  refine ⟨hstarted, ?_⟩
  intro order horder hkill hcollected after s hafter hdone
  obtain ⟨top, -, hinv, -⟩ := Routes.exists_phaseInv (g := horder.routes) hstart
  have htokens : ∀ r ≤ k, TokenInv g order p (states r) ∧
      horder.routes.PhaseInv top p (states r) := by
    intro r
    induction r with
    | zero => exact fun _ => ⟨.of_start hstart hcollected, hinv⟩
    | succ r ih =>
      intro hr
      obtain ⟨htoken, hinv⟩ := ih (le_of_succ_le hr)
      obtain ⟨events, hround⟩ := hrounds r hr
      exact htoken.run horder hkill hinv hround.run
  obtain ⟨htoken, hinv⟩ := htokens k le_rfl
  exact (htoken.run horder hkill hinv hafter).1.called hdone (hinv.started_run hafter hstarted)

/-! ### Two detectors -/

section

variable (first second : ObDetectorPriority)

def twoGroup (hvalid : first.isValid = true ∧ second.isValid = true)
    (hlt : second.lt first = false) : WaitGroup Bool where
  members := {false, true}
  label := fun key => if key then ⟨2, second⟩ else ⟨1, first⟩
  blockList := fun key => [!key]
  least := false
  least_mem := by decide
  two_le := by decide
  label_inj := by
    intro a _ b _ h
    cases a <;> cases b <;> simp_all
  not_lt_least := by
    intro key _
    cases key with
    | false =>
      rw [← Bool.not_eq_true, ObLCLLabel.lt_iff]
      exact lt_irrefl _
    | true => simp [ObLCLLabel.lt, hlt]
  valid := by
    intro key _
    cases key with
    | false => simp only [ObLCLLabel.isValid, Bool.false_eq_true, if_false, hvalid.1]; decide
    | true => simp only [ObLCLLabel.isValid, if_true, hvalid.2]; decide
  connected := by
    intro a _ b _
    by_cases hab : b = a
    · rw [hab]
    · exact .single ⟨by cases a <;> cases b <;> simp_all, by cases b <;> decide⟩

/-- The states between rounds of pushes in the LCLS phase of period 1. -/
def twoStates : ℕ → LclState Bool
  | 0 => LclState.init (twoDetectors first second)
  | r + 1 => ((pushRound 2100000).foldlM (smoothStep 3) (twoStates r)).getD (twoStates r)

def Task.isReport : Task κ → Bool
  | .report _ => true
  | _ => false

/-- The rounds are run to their end. -/
def twoRoundsOk (k : ℕ) : Bool :=
  (List.range k).all fun r =>
    ((pushRound 2100000).foldlM (smoothStep 3) (twoStates first second r)).isSome &&
      (twoStates first second (r + 1)).queue.isEmpty &&
      (twoStates first second (r + 1)).tasks.all Task.isReport

variable {first second}

theorem twoStates_round {k : ℕ} (hok : twoRoundsOk first second k = true) {r : ℕ} (hr : r < k) :
    Round {false, true} 3 (twoStates first second r) (pushRound 2100000)
      (twoStates first second (r + 1)) := by
  have hok := List.all_eq_true.mp hok r (mem_range.mpr hr)
  simp only [Bool.and_eq_true, List.isEmpty_iff] at hok
  obtain ⟨⟨hrun, hqueue⟩, htasks⟩ := hok
  refine ⟨?_, fun key _ => ⟨2100000, by cases key <;> simp [pushRound]⟩, ?_, ?_⟩
  · obtain ⟨s, hs⟩ := isSome_iff_exists.mp hrun
    rw [twoStates, hs]
    rfl
  · simp [hqueue]
  intro task htask hspreads
  have hreport := List.all_eq_true.mp htasks task htask
  cases task with
  | report => exact hspreads
  | lclState | push | broadcast => cases hreport

theorem mem_twoGroup {hvalid : first.isValid = true ∧ second.isValid = true}
    {hlt : second.lt first = false} (key : Bool) :
    key ∈ (twoGroup first second hvalid hlt).members := by
  change key ∈ ({false, true} : Finset Bool)
  cases key <;> decide

theorem twoGroup_start (hvalid : first.isValid = true ∧ second.isValid = true)
    (hlt : second.lt first = false) :
    (twoGroup first second hvalid hlt).Start 1 (twoStates first second 0) where
  selfKey := by
    intro key n hn
    cases key <;> (obtain rfl := some_inj.mp hn; rfl)
  member := by
    intro key _
    have hlclv : (0 : Int) < invalidValue := by decide
    have hperiod : (0 : Nat) < 1 := by decide
    cases key <;> exact ⟨_, rfl, rfl, rfl, rfl, hlclv, hperiod, .inl hperiod⟩
  outside := fun key _ hkey => absurd (mem_twoGroup key) hkey
  delivered := ⟨by simp [twoStates, LclState.init], by simp [twoStates, LclState.init]⟩
  started := rfl
  detected := rfl

theorem twoGroup_stillWaits {hvalid : first.isValid = true ∧ second.isValid = true}
    {hlt : second.lt first = false} {s : LclState Bool}
    (hlists : ∀ key, (s.node key).map ObLCLNode.blockList = some [!key]) :
    (twoGroup first second hvalid hlt).StillWaits s := by
  intro key _
  obtain ⟨n, hn, hlist⟩ := map_eq_some_iff.mp (hlists key)
  refine ⟨n, hn, ?_⟩
  change [!key] ⊆ n.blockList
  rw [hlist]
  exact List.Subset.refl _

theorem twoGroup_order (hvalid : first.isValid = true ∧ second.isValid = true)
    (hlt : second.lt first = false) :
    (twoGroup first second hvalid hlt).CycleOrder fun i => decide (i = 1) where
  first := rfl
  mem_iff := by
    intro key
    cases key with
    | false => exact iff_of_true (mem_twoGroup _) ⟨0, Nat.zero_lt_two, rfl⟩
    | true => exact iff_of_true (mem_twoGroup _) ⟨1, Nat.one_lt_two, rfl⟩
  inj := by
    change ∀ i < 2, ∀ j < 2, decide (i = 1) = decide (j = 1) → i = j
    decide
  next := by
    change ∀ i < 2, [!decide (i = 1)].filter (· ∈ ({false, true} : Finset Bool)) =
      [decide ((i + 1) % 2 = 1)]
    decide

end

theorem collected_of_isEmpty {members : Finset Bool} {s : LclState Bool}
    (hempty : (s.queue.isEmpty && s.tasks.isEmpty) = true) : s.Collected members := by
  obtain ⟨hqueue, htasks⟩ := Bool.and_eq_true_iff.mp hempty
  rw [List.isEmpty_iff] at hqueue htasks
  exact ⟨fun _ _ _ h => by simp [hqueue] at h, fun _ _ h => by simp [htasks] at h⟩

theorem deadlock_found_two : ∃ s, (collectRound 2100000).foldlM (smoothStep 3)
        (twoStates ⟨.normal, 0⟩ ⟨.normal, 7⟩ 4) = some s ∧
      (false, 1) ∈ (twoStates ⟨.normal, 0⟩ ⟨.normal, 7⟩ 4).started ∧
      (s.detected.filter fun call => call.1 ∈ ({false, true} : Finset Bool)).map Prod.fst =
        [false] := by
  have hok : twoRoundsOk ⟨.normal, 0⟩ ⟨.normal, 7⟩ 4 = true := by decide +kernel
  have hlists : ∀ key, ((twoStates ⟨.normal, 0⟩ ⟨.normal, 7⟩ 4).node key).map
      ObLCLNode.blockList = some [!key] := by decide +kernel
  have hfound := deadlock_found (twoGroup ⟨.normal, 0⟩ ⟨.normal, 7⟩ (by decide) (by decide)) 1 4
    (twoStates ⟨.normal, 0⟩ ⟨.normal, 7⟩) (twoGroup_start _ _)
    (fun r hr => ⟨_, twoStates_round hok hr⟩) (twoGroup_stillWaits hlists) (by decide)
  have hrun : (((collectRound 2100000).foldlM (smoothStep 3)
      (twoStates ⟨.normal, 0⟩ ⟨.normal, 7⟩ 4)).map
        fun s => s.queue.isEmpty && s.tasks.isEmpty) = some true := by decide +kernel
  obtain ⟨s, hs, hempty⟩ := map_eq_some_iff.mp hrun
  exact ⟨s, hs, hfound.1, hfound.2 _ (twoGroup_order _ _) ⟨by decide, by decide⟩
    (collected_of_isEmpty rfl) _ s hs (collected_of_isEmpty hempty)⟩

/-- Two detectors of the highest priority wait for each other: every cycle info comes back to
the node that started it, and no one is killed. -/
theorem deadlock_not_found :
    ∃ (g : WaitGroup Bool) (order : Nat → Bool) (states : Nat → LclState Bool)
      (s : LclState Bool), g.Start 1 (states 0) ∧
        (∀ r < 4, ∃ events, LclState.Round g.members 3 (states r) events (states (r + 1))) ∧
        g.StillWaits (states 4) ∧ 2 * g.members.card ≤ 4 ∧ g.CycleOrder order ∧
        (∀ a ∈ g.members, ∀ b ∈ g.members, (g.label a).id = (g.label b).id → a = b) ∧
        (states 0).Collected g.members ∧ (g.least, 1) ∈ (states 4).started ∧
        (collectRound 2100000).foldlM (smoothStep 3) (states 4) = some s ∧
        s.Collected g.members ∧ s.detected = [] := by
  have hok : twoRoundsOk .highest .highest 4 = true := by decide +kernel
  have hlists : ∀ key, ((twoStates .highest .highest 4).node key).map ObLCLNode.blockList =
      some [!key] := by decide +kernel
  have hrun : (((collectRound 2100000).foldlM (smoothStep 3)
      (twoStates .highest .highest 4)).map fun s =>
        (s.queue.isEmpty && s.tasks.isEmpty) && s.detected.isEmpty) = some true := by
    decide +kernel
  obtain ⟨s, hs, hempty⟩ := map_eq_some_iff.mp hrun
  obtain ⟨hcollected, hdetected⟩ := Bool.and_eq_true_iff.mp hempty
  exact ⟨twoGroup .highest .highest (by decide) (by decide), _, twoStates .highest .highest, s,
    twoGroup_start _ _, fun r hr => ⟨_, twoStates_round hok hr⟩,
    twoGroup_stillWaits hlists, by decide, twoGroup_order _ _,
    by decide, collected_of_isEmpty rfl, by decide +kernel, hs, collected_of_isEmpty hcollected,
    List.isEmpty_iff.mp hdetected⟩

end SeekDB.Lcl
