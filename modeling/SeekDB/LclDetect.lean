/-
The smallest label of a strongly connected set of detectors comes back to its owner: in
each round of pushes the largest LCL value, and then the smallest label, reaches the next
detectors, so after `2 n` rounds the owner has set `detected_flag`.
-/
import SeekDB.LclRound

universe u

namespace SeekDB.Lcl

open List Nat Option

variable {κ : Type u}

/-! ### The start of the phase -/

namespace LclState

/-- The node of `key` satisfies `P`. -/
def Has (s : LclState κ) (key : κ) (P : ObLCLNode κ → Prop) : Prop :=
  ∃ n, s.node key = some n ∧ P n

end LclState

namespace WaitGroup

open LclState

/-- A member at the start of the LCLS phase of period `p`; its LCL value is arbitrary, and so
is a public label that an earlier period has left. -/
structure StartMember (g : WaitGroup κ) (p : Nat) (key : κ) (n : ObLCLNode κ) : Prop where
  privateLabel : n.privateLabel = g.label key
  blockList : n.blockList = g.blockList key
  allowed : n.countDownAllowDetect = 0
  lclv_lt : n.lclv < invalidValue
  lastSend_lt : n.lastSendCycleInfoPeriod < p
  period : n.lclPeriod < p ∨ n.lclPeriod = p ∧ n.publicLabel = n.privateLabel

/-- Nobody outside waits for a member, and nothing of this phase is on its way or recorded. -/
structure Start (g : WaitGroup κ) (p : Nat) (s : LclState κ) : Prop where
  selfKey : ∀ key n, s.node key = some n → n.selfKey = key
  member : ∀ key ∈ g.members, Has s key (g.StartMember p key)
  outside : ∀ key n, key ∉ g.members → s.node key = some n → ∀ dest ∈ g.members,
    dest ∉ n.blockList
  delivered : s.Delivered g.members (2 * p + 1)
  started : s.started = []
  detected : s.detected = []

/-- Every member still waits for those it waited for. A block list never grows in the phase, so
this says that the wait-for graph has stayed as it was. -/
def StillWaits (g : WaitGroup κ) (s : LclState κ) : Prop :=
  ∀ key ∈ g.members, Has s key fun n => g.blockList key ⊆ n.blockList

end WaitGroup

/-! ### What spreads in the phase -/

namespace Routes

variable {g : Routes κ} {top : Int} {p : Nat}

/-- What spreads: the members keep `L`; a member whose state has `G` keeps it; and a member
that takes a pushed state with `G` has `D` from then on. -/
structure Spreading (g : Routes κ) (top : Int) (p : Nat) (L : ObLCLNode κ → Prop)
    (G : Int → ObLCLLabel → Prop) (D : ObLCLNode κ → Prop) (dest : κ) : Prop where
  level : ∀ {key n n'}, key ∈ g.members → g.Member top p key n → L n →
    g.NodeStep top p key n n' → L n'
  sender : ∀ {key n n'}, L n → G n.lclv n.publicLabel → g.NodeStep top p key n n' →
    G n'.lclv n'.publicLabel
  done : ∀ {n n'}, g.Member top p dest n → L n → D n → g.NodeStep top p dest n n' → D n'
  effect : ∀ {n lclv label}, g.Member top p dest n → L n → g.Payload top dest lclv label →
    G lclv label → D (n.processLclsState lclv label).1

theorem spreading_lclv (g : Routes κ) (top : Int) (p : Nat) (dest : κ) :
    g.Spreading top p (fun _ => True) (fun lclv _ => lclv = top) (fun n => n.lclv = top) dest where
  level := fun _ _ _ _ => trivial
  sender := fun _ htop hnode => hnode.lclv_eq htop
  done := fun _ _ htop hnode => hnode.lclv_eq htop
  effect := by
    intro n lclv label hmember _ hpayload htop
    rcases n.processLclsState_cases lclv label with ⟨hlt, -⟩ | ⟨-, hcases⟩
    · exact absurd hmember.lclv_le (by omega)
    · rcases hcases with ⟨-, -, heq⟩ | ⟨-, -, heq⟩ | ⟨-, -, heq⟩ | ⟨-, -, heq⟩ <;>
        · rw [heq]
          exact htop

/-- The period is updated and the LCL values are equal. -/
def Level (top : Int) (p : Nat) (n : ObLCLNode κ) : Prop := n.lclPeriod = p ∧ n.lclv = top

theorem Level.step {key : κ} {n n' : ObLCLNode κ} (hkey : key ∈ g.members)
    (hmember : g.Member top p key n) (hlevel : Level top p n) (hnode : g.NodeStep top p key n n') :
    Level top p n' :=
  ⟨hmember.lclPeriod_step hkey hnode hlevel.1, hnode.lclv_eq hlevel.2⟩

theorem spreading_label (g : Routes κ) (top : Int) (p : Nat) {dest : κ} (hdest : dest ∈ g.members) :
    g.Spreading top p (Level top p) (fun lclv label => lclv = top ∧ label = g.label g.least)
      (fun n => n.lclv = top ∧ n.publicLabel = g.label g.least) dest where
  level := fun hkey hmember hlevel hnode => hlevel.step hkey hmember hnode
  sender := fun hlevel hG hnode => ⟨hnode.lclv_eq hG.1, hnode.publicLabel_eq hlevel.1 hG.2⟩
  done := fun _ hlevel hG hnode => ⟨hnode.lclv_eq hG.1, hnode.publicLabel_eq hlevel.1 hG.2⟩
  effect := by
    rintro n lclv label hmember ⟨hperiod, hlclv⟩ hpayload ⟨htop, rfl⟩
    have hnode : g.NodeStep top p dest n (n.processLclsState lclv (g.label g.least)).1 :=
      .process _ _ hpayload
    have hmember' := hmember.step hdest hnode
    have hperiod' := hmember.lclPeriod_step hdest hnode hperiod
    refine ⟨hnode.lclv_eq hlclv, ObLCLLabel.rank_injective
      (le_antisymm ?_ (g.held_isLabel (hmember'.publicLabel hperiod').1).least_rank_le)⟩
    rcases n.processLclsState_cases lclv (g.label g.least) with ⟨hlt, -⟩ | ⟨-, hcases⟩
    · exact absurd hlt (by omega)
    have hown : g.label g.least = n.privateLabel →
        n.publicLabel.rank ≤ (g.label g.least).rank := fun hlabel =>
      hlabel ▸ (hmember.publicLabel hperiod).2
    rcases hcases with ⟨hlabel, -, heq⟩ | ⟨hlabel, -, heq⟩ | ⟨-, -, heq⟩ | ⟨-, hge, heq⟩
    · rw [heq]
      exact hown hlabel
    · rw [heq]
      exact hown hlabel
    · rw [heq]
    rw [heq]
    refine le_of_not_gt fun hlt => ?_
    rw [(ObLCLLabel.lt_iff _ _).mpr hlt] at hge
    cases hge

/-- The owner that gets its label back sets `detected_flag`, if it has not done so. -/
theorem spreading_sent (g : Routes κ) (top : Int) (p : Nat) :
    g.Spreading top p (Level top p) (fun lclv label => lclv = top ∧ label = g.label g.least)
      (fun n => n.lastSendCycleInfoPeriod = p) g.least where
  level := fun hkey hmember hlevel hnode => hlevel.step hkey hmember hnode
  sender := fun hlevel hG hnode => ⟨hnode.lclv_eq hG.1, hnode.publicLabel_eq hlevel.1 hG.2⟩
  done := by
    rintro n n' hmember ⟨hperiod, -⟩ hlast hnode
    cases hnode with
    | refl | activate => exact hlast
    | update now => exact (n.lastSend_updateLclPeriod now).trans hlast
    | process lclv label =>
      rcases n.lastSend_processLclsState lclv label with ⟨-, -, hset⟩ | ⟨-, hsame⟩
      · exact hset.trans hperiod
      · exact hsame.trans hlast
  effect := by
    rintro n lclv label hmember ⟨hperiod, hlclv⟩ hpayload ⟨htop, rfl⟩
    rcases n.processLclsState_cases lclv (g.label g.least) with ⟨hlt, -⟩ | ⟨-, hcases⟩
    · exact absurd hlt (by omega)
    rcases hcases with ⟨-, hsent, heq⟩ | ⟨-, -, heq⟩ | ⟨hne, -⟩ | ⟨hne, -⟩
    · rw [heq]
      exact hsent.trans hperiod
    · rw [heq]
      exact hperiod
    · exact absurd hmember.privateLabel.symm hne
    · exact absurd hmember.privateLabel.symm hne

end Routes

variable [DecidableEq κ]

namespace LclState

variable {s s' : LclState κ} {p : Nat}

theorem eq_or_mem_eraseIdx {α : Type u} {l : List α} {i : Nat} {x y : α} (hx : l[i]? = some x)
    (hy : y ∈ l) : y = x ∨ y ∈ l.eraseIdx i := by
  obtain ⟨hi, rfl⟩ := List.getElem?_eq_some_iff.mp hx
  exact mem_cons.mp ((getElem_cons_eraseIdx_perm hi).mem_iff.mpr hy)

/-! ### What becomes of messages and tasks -/

section

variable {key dest : κ} {dests : List κ} {lclv : Int} {label : ObLCLLabel} {sendTs : Nat}
  {n : ObLCLNode κ}

theorem Smooth.queued_onward (hstep : Smooth p s s') (hn : s.node dest = some n)
    (hmem : .lclState dest lclv label sendTs ∈ s.queue) :
    .lclState dest lclv label sendTs ∈ s'.queue ∨ .lclState dest lclv label sendTs ∈ s'.tasks := by
  cases hstep with
  | timer | drop | process | detectedFlag | push | count => exact .inl hmem
  | report | post => exact .inl (mem_append_left _ hmem)
  | receive hmessage =>
    rcases eq_or_mem_eraseIdx hmessage hmem with heq | hold
    · cases heq
      exact .inr mem_cons_self
    · exact .inl hold
  | ignore hmessage hignored =>
    rcases eq_or_mem_eraseIdx hmessage hmem with rfl | hold
    · simp [Ignored, hn] at hignored
    · exact .inl hold
  | detect hmessage =>
    rcases eq_or_mem_eraseIdx hmessage hmem with heq | hold
    · cases heq
    · exact .inl hold
  | forward hmessage =>
    rcases eq_or_mem_eraseIdx hmessage hmem with heq | hold
    · cases heq
    · exact .inl (mem_append_left _ hold)

/-- What the turn of a task has done. -/
def Done (p : Nat) (s s' : LclState κ) : Task κ → Prop
  | .lclState key lclv label _ =>
    ∃ n, s.node key = some n ∧ s'.node key = some (n.processLclsState lclv label).1
  | .report key => .cycleInfo key [] ∈ s'.queue
  | .push key =>
    ∃ n, s.node key = some n ∧ .broadcast key n.blockList n.lclv n.publicLabel ∈ s'.tasks
  | .broadcast _ [] _ _ => False
  | .broadcast key (dest :: rest) lclv label =>
    .broadcast key rest lclv label ∈ s'.tasks ∧
      ∃ now, now / phaseTime = 2 * p + 1 ∧ .lclState dest lclv label now ∈ s'.queue

theorem Smooth.task_onward (hstep : Smooth p s s') {task : Task κ} (hmem : task ∈ s.tasks) :
    task ∈ s'.tasks ∨ s.Stuck p task ∨ Done p s s' task := by
  cases hstep with
  | timer | receive => exact .inl (mem_cons_of_mem _ hmem)
  | drop htask hstuck =>
    rcases eq_or_mem_eraseIdx htask hmem with rfl | hold
    · exact .inr (.inl hstuck)
    · exact .inl hold
  | process htask hm hphase hprocess =>
    rcases eq_or_mem_eraseIdx htask hmem with rfl | hold
    · refine .inr (.inr ⟨_, hm, ?_⟩)
      rw [hprocess]
      exact s.setNode_node_self _ _
    · exact .inl hold
  | detectedFlag htask hm hphase hprocess =>
    rcases eq_or_mem_eraseIdx htask hmem with rfl | hold
    · refine .inr (.inr ⟨_, hm, ?_⟩)
      rw [hprocess]
      exact s.setNode_node_self _ _
    · exact .inl (mem_cons_of_mem _ hold)
  | report htask =>
    rcases eq_or_mem_eraseIdx htask hmem with rfl | hold
    · exact .inr (.inr (mem_append_right _ (mem_singleton_self _)))
    · exact .inl hold
  | push htask hm =>
    rcases eq_or_mem_eraseIdx htask hmem with rfl | hold
    · exact .inr (.inr ⟨_, hm, mem_cons_self⟩)
    · exact .inl (mem_cons_of_mem _ hold)
  | post htask hphase =>
    rcases eq_or_mem_eraseIdx htask hmem with rfl | hold
    · exact .inr (.inr ⟨mem_cons_self, _, hphase, mem_append_right _ (mem_singleton_self _)⟩)
    · exact .inl (mem_cons_of_mem _ hold)
  | ignore | detect | forward | count => exact .inl hmem

end

end LclState

/-! ### The way of a pushed state -/

namespace Routes

open LclState

/-- A pushed state with `G` is on its way to `dest`. -/
def Owed (g : Routes κ) (p : Nat) (G : Int → ObLCLLabel → Prop) (dest : κ) (s : LclState κ) :
    Prop :=
  (∃ lclv label sendTs, .lclState dest lclv label sendTs ∈ s.queue ∧
      sendTs / phaseTime = 2 * p + 1 ∧ G lclv label) ∨
    (∃ lclv label sendTs, .lclState dest lclv label sendTs ∈ s.tasks ∧
      sendTs / phaseTime = 2 * p + 1 ∧ G lclv label) ∨
    (∃ key dests lclv label, .broadcast key dests lclv label ∈ s.tasks ∧ dest ∈ dests ∧
      G lclv label) ∨
    ∃ key n, key ∈ g.members ∧ .push key ∈ s.tasks ∧ s.node key = some n ∧
      dest ∈ g.blockList key ∧ G n.lclv n.publicLabel

variable {g : Routes κ} {top : Int} {p : Nat} {L : ObLCLNode κ → Prop} {G : Int → ObLCLLabel → Prop}
  {D : ObLCLNode κ → Prop} {s s' : LclState κ} {dest : κ} {key : κ}

namespace PhaseInv

theorem has_step (h : g.PhaseInv top p s) (hstep : Smooth p s s')
    (hkey : key ∈ g.members) {P Q : ObLCLNode κ → Prop} (hhas : Has s key P)
    (hnode : ∀ n n', g.Member top p key n → P n → g.NodeStep top p key n n' → Q n') :
    Has s' key Q := by
  obtain ⟨n, hn, hP⟩ := hhas
  obtain ⟨n', hn', hstep⟩ := h.node_step hstep hkey hn
  exact ⟨n', hn', hnode n n' (h.member_of hkey hn) hP hstep⟩

theorem owed_step (h : g.PhaseInv top p s) (hstep : Smooth p s s')
    (hspread : g.Spreading top p L G D dest) (htop : top < invalidValue)
    (hlevel : ∀ key ∈ g.members, Has s key L) (hwaits : g.StillWaits s) (hdest : dest ∈ g.members)
    (howed : g.Owed p G dest s) : g.Owed p G dest s' ∨ Has s' dest D := by
  obtain ⟨n, hn, hL⟩ := hlevel dest hdest
  have hmember := h.member_of hdest hn
  rcases howed with ⟨lclv, label, sendTs, hmem, hphase, hG⟩ |
    ⟨lclv, label, sendTs, hmem, hphase, hG⟩ | ⟨key, dests, lclv, label, hmem, hin, hG⟩ |
    ⟨key, m, hkey, hmem, hm, hin, hG⟩
  · rcases hstep.queued_onward hn hmem with hqueue | htasks
    · exact .inl (.inl ⟨lclv, label, sendTs, hqueue, hphase, hG⟩)
    · exact .inl (.inr (.inl ⟨lclv, label, sendTs, htasks, hphase, hG⟩))
  · rcases hstep.task_onward hmem with hkeep | hstuck | ⟨m, hm, hm'⟩
    · exact .inl (.inr (.inl ⟨lclv, label, sendTs, hkeep, hphase, hG⟩))
    · rcases hstuck with hnone | hne
      · cases hnone.symm.trans hn
      · exact absurd hphase hne
    · obtain rfl := some_inj.mp (hn.symm.trans hm)
      have hpayload := (h.received dest lclv label sendTs hmem hdest hphase).1
      exact .inr ⟨_, hm', hspread.effect hmember hL hpayload hG⟩
  · have hpayload := h.broadcast key dests lclv label hmem dest hin hdest
    rcases hstep.task_onward hmem with hkeep | hstuck | hdone
    · exact .inl (.inr (.inr (.inl ⟨key, dests, lclv, label, hkeep, hin, hG⟩)))
    · rcases hstuck with rfl | hlclv | hlabel
      · cases hin
      · exact absurd hpayload.1 (by omega)
      · obtain ⟨other, hother, rfl⟩ := g.sent_isLabel hpayload.2
        rw [g.valid other hother] at hlabel
        cases hlabel
    cases dests with
    | nil => cases hin
    | cons first rest =>
      obtain ⟨hrest, now, hphase, hqueue⟩ := hdone
      rcases mem_cons.mp hin with rfl | hin
      · exact .inl (.inl ⟨lclv, label, now, hqueue, hphase, hG⟩)
      · exact .inl (.inr (.inr (.inl ⟨key, rest, lclv, label, hrest, hin, hG⟩)))
  · have hkeyMember := h.member_of hkey hm
    obtain ⟨m', hm', hnode⟩ := h.node_step hstep hkey hm
    rcases hstep.task_onward hmem with hkeep | hstuck | ⟨k, hk, hbroadcast⟩
    · obtain ⟨k, hk, hkL⟩ := hlevel key hkey
      obtain rfl := some_inj.mp (hm.symm.trans hk)
      exact .inl (.inr (.inr (.inr ⟨key, m', hkey, hkeep, hm', hin, hspread.sender hkL hG hnode⟩)))
    · exact absurd hkeyMember.allowed (hstuck m hm)
    · obtain rfl := some_inj.mp (hm.symm.trans hk)
      obtain ⟨k, hk, hsub⟩ := hwaits key hkey
      obtain rfl := some_inj.mp (hm.symm.trans hk)
      exact .inl (.inr (.inr (.inl ⟨key, _, _, _, hbroadcast, hsub hin, hG⟩)))

/-! ### Runs and rounds -/

variable {events : List (LclEvent κ)}

section

variable (h : g.PhaseInv top p s) (hrun : events.foldlM (smoothStep (2 * p + 1)) s = some s')

include h hrun

theorem run : g.PhaseInv top p s' :=
  (Execution.of_foldlM hrun).invariant h fun _ _ _ h hnext => h.step (.of_step h.selfKey hnext)

theorem started_run : s.started ⊆ s'.started := by
  refine ((Execution.of_foldlM hrun).invariant
    (P := fun next => g.PhaseInv top p next ∧ s.started ⊆ next.started)
    ⟨h, List.Subset.refl _⟩ ?_).2
  rintro event state next ⟨h, hsub⟩ hnext
  have hstep := Smooth.of_step h.selfKey hnext
  exact ⟨h.step hstep, List.Subset.trans hsub hstep.started_subset⟩

theorem has_run (hkey : key ∈ g.members) {P : ObLCLNode κ → Prop}
    (hstable : ∀ n n', g.Member top p key n → P n → g.NodeStep top p key n n' → P n')
    (hhas : Has s key P) : Has s' key P := by
  have hinv := (Execution.of_foldlM hrun).invariant (P := fun s => g.PhaseInv top p s ∧ Has s key P)
    ⟨h, hhas⟩ fun event state next ⟨h, hhas⟩ hnext =>
      have hstep := Smooth.of_step h.selfKey hnext
      ⟨h.step hstep, h.has_step hstep hkey hhas hstable⟩
  exact hinv.2

theorem level_run (hspread : g.Spreading top p L G D dest)
    (hlevel : ∀ key ∈ g.members, Has s key L) :
    ∀ key ∈ g.members, Has s' key L := fun key hkey =>
  h.has_run hrun hkey (fun _ _ hmember hL => hspread.level hkey hmember hL) (hlevel key hkey)

/-- A block list that is whole at the end was whole all along. -/
theorem stillWaits_of_run (hwaits : g.StillWaits s') : g.StillWaits s := by
  intro key hkey
  obtain ⟨n, hn, -⟩ := h.member key hkey
  have hshrinks : ∀ n', s'.node key = some n' → n'.blockList ⊆ n.blockList :=
    ((Execution.of_foldlM hrun).invariant
      (P := fun next => g.PhaseInv top p next ∧
        ∀ n', next.node key = some n' → n'.blockList ⊆ n.blockList)
      ⟨h, fun n' hn' => some_inj.mp (hn.symm.trans hn') ▸ List.Subset.refl _⟩
      fun event state next ⟨h, hsub⟩ hnext => by
        have hstep := Smooth.of_step h.selfKey hnext
        refine ⟨h.step hstep, fun n' hn' => ?_⟩
        obtain ⟨m, hm, -, hblock, -⟩ := hstep.node_of hn'
        exact List.Subset.trans hblock (hsub m hm)).2
  obtain ⟨n', hn', hsub⟩ := hwaits key hkey
  exact ⟨n, hn, List.Subset.trans hsub (hshrinks n' hn')⟩

omit hrun in
theorem owed_run (hrun : events.foldlM (smoothStep (2 * p + 1)) s = some s')
    (hspread : g.Spreading top p L G D dest)
    (htop : top < invalidValue) (hlevel : ∀ key ∈ g.members, Has s key L)
    (hwaits : g.StillWaits s') (hdest : dest ∈ g.members)
    (howed : g.Owed p G dest s ∨ Has s dest D) : g.Owed p G dest s' ∨ Has s' dest D := by
  -- On the events, since what the rest of the run leaves is known of each state.
  induction events generalizing s with
  | nil =>
    obtain rfl := some_inj.mp hrun
    exact howed
  | cons event events ih =>
    have hbefore := h.stillWaits_of_run hrun hwaits
    rw [foldlM_cons] at hrun
    obtain ⟨next, hnext, hrest⟩ := bind_eq_some_iff.mp hrun
    have hstep := Smooth.of_step h.selfKey hnext
    refine ih (h.step hstep) hrest (fun key hkey => ?_) ?_
    · exact h.has_step hstep hkey (hlevel key hkey) fun _ _ hmember hL =>
        hspread.level hkey hmember hL
    rcases howed with howed | ⟨n, hn, hD⟩
    · exact h.owed_step hstep hspread htop hlevel hbefore hdest howed
    obtain ⟨m, hm, hL⟩ := hlevel dest hdest
    obtain rfl := some_inj.mp (hn.symm.trans hm)
    have hLD : Has s dest fun n => L n ∧ D n := ⟨n, hn, hL, hD⟩
    exact .inr (h.has_step hstep hdest hLD fun _ _ hmember hLD =>
      hspread.done hmember hLD.1 hLD.2)

end

omit [DecidableEq κ] in
theorem not_owed (hdelivered : s.Delivered g.members (2 * p + 1)) (hdest : dest ∈ g.members) :
    ¬ g.Owed p G dest s := by
  rintro (⟨lclv, label, sendTs, hmem, hphase, -⟩ | ⟨lclv, label, sendTs, hmem, hphase, -⟩ |
    ⟨key, dests, lclv, label, hmem, hin, -⟩ | ⟨key, n, hkey, hmem, -⟩)
  · exact hdelivered.1 _ hmem ⟨hdest, hphase⟩
  · exact hdelivered.2 _ hmem ⟨hdest, hphase⟩
  · exact hdelivered.2 _ hmem ⟨dest, hin, hdest⟩
  · exact hdelivered.2 _ hmem hkey

section

variable (h : g.PhaseInv top p s)

include h

theorem round_split (hround : Round g.members (2 * p + 1) s events s') (hkey : key ∈ g.members) :
    ∃ (before after : List (LclEvent κ)) (s₁ s₂ : LclState κ) (n : ObLCLNode κ) (now : Nat),
      before.foldlM (smoothStep (2 * p + 1)) s = some s₁ ∧
      s₁.node key = some n ∧ now / phaseTime = 2 * p + 1 ∧ Smooth p s₁ s₂ ∧
      s₂.node key = some (n.updateLclPeriod now) ∧ .push key ∈ s₂.tasks ∧
      after.foldlM (smoothStep (2 * p + 1)) s₂ = some s' := by
  obtain ⟨now, hmem⟩ := hround.pushes key hkey
  obtain ⟨before, after, rfl⟩ := append_of_mem hmem
  have hrun := hround.run
  rw [foldlM_append] at hrun
  obtain ⟨s₁, hbefore, hrest⟩ := bind_eq_some_iff.mp hrun
  obtain ⟨s₂, htimer, hafter⟩ := bind_eq_some_iff.mp hrest
  have hstep := Smooth.of_step (h.run hbefore).selfKey htimer
  obtain ⟨hsmooth, htimer⟩ := ite_none_right_eq_some.mp htimer
  obtain ⟨n, hn, rfl⟩ := map_eq_some_iff.mp htimer
  exact ⟨before, after, s₁, _, n, now, hbefore, hn, of_decide_eq_true hsmooth, hstep,
    s₁.setNode_node_self key _, mem_cons_self, hafter⟩

theorem round_spreads (hspread : g.Spreading top p L G D dest)
    (htop : top < invalidValue) (hlevel : ∀ key ∈ g.members, Has s key L)
    (hround : Round g.members (2 * p + 1) s events s') (hwaits : g.StillWaits s')
    (hkey : key ∈ g.members) (hdest : dest ∈ g.members) (hedge : dest ∈ g.blockList key)
    (hG : Has s key fun n => G n.lclv n.publicLabel) : Has s' dest D := by
  obtain ⟨before, after, s₁, s₂, n, now, hbefore, hn, -, hstep, hn', hpush, hafter⟩ :=
    h.round_split hround hkey
  have h₁ := h.run hbefore
  have hlevel₁ := h.level_run hbefore hspread hlevel
  have hlevel₂ : ∀ key ∈ g.members, Has s₂ key L := fun key hkey =>
    h₁.has_step hstep hkey (hlevel₁ key hkey) fun _ _ hmember hL =>
      hspread.level hkey hmember hL
  obtain ⟨m, hm, hL⟩ := hlevel key hkey
  obtain ⟨m', hm', hG⟩ := hG
  obtain rfl := some_inj.mp (hm.symm.trans hm')
  have hstable : ∀ n n', g.Member top p key n → L n ∧ G n.lclv n.publicLabel →
      g.NodeStep top p key n n' → L n' ∧ G n'.lclv n'.publicLabel := fun _ _ hmember hLG hnode =>
    ⟨hspread.level hkey hmember hLG.1 hnode, hspread.sender hLG.1 hLG.2 hnode⟩
  have hG₁ := h.has_run hbefore hkey hstable ⟨m, hm, hL, hG⟩
  obtain ⟨k, hk, -, hG₂⟩ := h₁.has_step hstep hkey hG₁ hstable
  have howed : g.Owed p G dest s₂ := .inr (.inr (.inr ⟨key, k, hkey, hpush, hk, hedge, hG₂⟩))
  rcases (h₁.step hstep).owed_run hafter hspread htop hlevel₂ hwaits hdest
      (.inl howed) with hleft | hD
  · exact absurd hleft (not_owed hround.delivered hdest)
  · exact hD

theorem round_lclPeriod
    (hround : Round g.members (2 * p + 1) s events s') (hkey : key ∈ g.members) :
    Has s' key fun n => n.lclPeriod = p := by
  obtain ⟨before, after, s₁, s₂, n, now, hbefore, hn, hphase, hstep, hn', -, hafter⟩ :=
    h.round_split hround hkey
  have h₁ := h.run hbefore
  refine (h₁.step hstep).has_run hafter hkey (fun _ _ hmember hperiod hnode =>
    hmember.lclPeriod_step hkey hnode hperiod) ⟨_, hn', ?_⟩
  exact ((h₁.member_of hkey hn).updateLclPeriod hkey hphase).2

end

end PhaseInv

/-! ### The phase -/

omit [DecidableEq κ] in
theorem Member.of_start {n : ObLCLNode κ} (h : g.toWaitGroup.StartMember p key n)
    (hkey : key ∈ g.members) (htop : n.lclv ≤ top) : g.Member top p key n :=
  { h with
    blockList := h.blockList ▸ List.Subset.refl _
    lclv_le := htop
    lclPeriod_le := by
      rcases h.period with hlt | ⟨heq, -⟩
      · exact Nat.le_of_lt hlt
      · exact Nat.le_of_eq heq
    publicLabel := by
      intro hperiod
      rcases h.period with hlt | ⟨-, hlabel⟩
      · exact absurd hperiod (Nat.ne_of_lt hlt)
      · rw [hlabel]
        exact ⟨h.privateLabel ▸ g.held_own hkey, le_refl _⟩ }

omit [DecidableEq κ] in
theorem exists_phaseInv (h : g.toWaitGroup.Start p s) :
    ∃ top : Int, top < invalidValue ∧ g.PhaseInv top p s ∧
      ∃ key ∈ g.members, Has s key fun n => n.lclv = top := by
  obtain ⟨key, hkey, hmax⟩ := g.members.exists_max_image
    (fun key => ((s.node key).map ObLCLNode.lclv).getD 0) ⟨g.least, g.least_mem⟩
  obtain ⟨n, hn, hstart⟩ := h.member key hkey
  have hle : ∀ other ∈ g.members, ∀ m, s.node other = some m → m.lclv ≤ n.lclv := by
    intro other hother m hm
    have hle := hmax other hother
    simpa only [hn, hm, map_some, getD_some] using hle
  refine ⟨n.lclv, hstart.lclv_lt, ?_, key, hkey, n, hn, rfl⟩
  exact
    { h with
      member := by
        intro other hother
        obtain ⟨m, hm, hstart⟩ := h.member other hother
        exact ⟨m, hm, .of_start hstart hother (hle other hother m hm)⟩
      queued := fun dest lclv label sendTs hmem hdest hphase =>
        absurd ⟨hdest, hphase⟩ (h.delivered.1 _ hmem)
      received := fun key lclv label sendTs hmem hkey hphase =>
        absurd ⟨hkey, hphase⟩ (h.delivered.2 _ hmem)
      pushing := fun key hmem hkey => absurd hkey (h.delivered.2 _ hmem)
      broadcast := fun key dests lclv label hmem dest hdest hmember =>
        absurd ⟨dest, hdest, hmember⟩ (h.delivered.2 _ hmem)
      sent := by
        intro other m hother hm hlast
        obtain ⟨m', hm', hstart⟩ := h.member other hother
        obtain rfl := some_inj.mp (hm.symm.trans hm')
        exact absurd hlast (Nat.ne_of_lt hstart.lastSend_lt) }

section

variable {states : ℕ → LclState κ} {k : ℕ}
  (hrounds : ∀ r < k, ∃ events, Round g.members (2 * p + 1) (states r) events (states (r + 1)))

include hrounds

theorem PhaseInv.rounds (h : g.PhaseInv top p (states 0)) :
    ∀ r ≤ k, g.PhaseInv top p (states r) := by
  intro r
  induction r with
  | zero => exact fun _ => h
  | succ r ih =>
    intro hr
    obtain ⟨events, hround⟩ := hrounds r hr
    exact (ih (le_of_succ_le hr)).run hround.run

/-- The rounds before the last one have left the block lists whole, too. -/
theorem PhaseInv.stillWaits_rounds (h : g.PhaseInv top p (states 0))
    (hwaits : g.StillWaits (states k)) {r : ℕ} (hr : r ≤ k) : g.StillWaits (states r) := by
  induction hr using Nat.decreasingInduction with
  | self => exact hwaits
  | of_succ r hr ih =>
    obtain ⟨events, hround⟩ := hrounds r hr
    exact (h.rounds hrounds r (Nat.le_of_lt hr)).stillWaits_of_run hround.run ih

variable (states) in
open Classical in
/-- What a round brings to the next members reaches all in one round less than there are. -/
theorem PhaseInv.spread (h : g.PhaseInv top p (states 0)) (htop : top < invalidValue)
    (hwaits : g.StillWaits (states k)) (hk : g.members.card ≤ k + 1)
    (hspread : ∀ dest ∈ g.members, g.Spreading top p L G (fun n => G n.lclv n.publicLabel) dest)
    (hlevel : ∀ key ∈ g.members, Has (states 0) key L)
    (hfirst : ∃ key ∈ g.members, Has (states 0) key fun n => G n.lclv n.publicLabel) :
    ∀ key ∈ g.members, Has (states k) key L ∧
      Has (states k) key fun n => G n.lclv n.publicLabel := by
  have hinv := h.rounds hrounds
  have hlevels : ∀ r ≤ k, ∀ key ∈ g.members, Has (states r) key L := by
    intro r
    induction r with
    | zero => exact fun _ => hlevel
    | succ r ih =>
      intro hr
      obtain ⟨events, hround⟩ := hrounds r hr
      exact (hinv r (le_of_succ_le hr)).level_run hround.run (hspread g.least g.least_mem)
        (ih (le_of_succ_le hr))
  let T : ℕ → Finset κ := fun r =>
    g.members.filter fun key => Has (states r) key fun n => G n.lclv n.publicLabel
  have hmem : ∀ r key, key ∈ T r ↔
      key ∈ g.members ∧ Has (states r) key fun n => G n.lclv n.publicLabel :=
    fun r key => Finset.mem_filter
  have hall : T k = g.members := by
    refine g.connected.spread_eq (fun r => Finset.filter_subset _ _) ?_ ?_ ?_ hk
    · obtain ⟨key, hkey, hhas⟩ := hfirst
      exact ⟨key, (hmem 0 key).mpr ⟨hkey, hhas⟩⟩
    · intro r hr key hT
      obtain ⟨hkey, n, hn, hG⟩ := (hmem r key).mp hT
      obtain ⟨events, hround⟩ := hrounds r hr
      obtain ⟨m, hm, hL⟩ := hlevels r (Nat.le_of_lt hr) key hkey
      obtain rfl := some_inj.mp (hn.symm.trans hm)
      have hLG : Has (states r) key fun n => L n ∧ G n.lclv n.publicLabel := ⟨n, hn, hL, hG⟩
      obtain ⟨n', hn', -, hG'⟩ := (hinv r (Nat.le_of_lt hr)).has_run hround.run hkey
        (fun _ _ hmember hLG hnode => ⟨(hspread key hkey).level hkey hmember hLG.1 hnode,
          (hspread key hkey).sender hLG.1 hLG.2 hnode⟩) hLG
      exact (hmem (r + 1) key).mpr ⟨hkey, n', hn', hG'⟩
    · intro r hr key hT dest hdest hedge
      obtain ⟨hkey, hhas⟩ := (hmem r key).mp hT
      obtain ⟨events, hround⟩ := hrounds r hr
      exact (hmem (r + 1) dest).mpr ⟨hdest, (hinv r (Nat.le_of_lt hr)).round_spreads
        (hspread dest hdest) htop (hlevels r (Nat.le_of_lt hr)) hround
        (h.stillWaits_rounds hrounds hwaits hr) hkey hdest hedge hhas⟩
  intro key hkey
  exact ⟨hlevels k le_rfl key hkey, ((hmem k key).mp (hall ▸ hkey)).2⟩

theorem PhaseInv.started_mono (h : g.PhaseInv top p (states 0)) {i j : ℕ} (hij : i ≤ j)
    (hj : j ≤ k) : (states i).started ⊆ (states j).started := by
  induction j, hij using le_induction with
  | base => exact List.Subset.refl _
  | succ j hij ih =>
    obtain ⟨events, hround⟩ := hrounds j hj
    have hinv := h.rounds hrounds j (le_of_succ_le hj)
    exact List.Subset.trans (ih (le_of_succ_le hj)) (hinv.started_run hround.run)

/-- In `2 n` rounds the owner of the smallest label has set `detected_flag`. -/
theorem least_started (h : g.toWaitGroup.Start p (states 0)) (hwaits : g.StillWaits (states k))
    (hk : 2 * g.members.card ≤ k) :
    (g.least, p) ∈ (states k).started := by
  obtain ⟨top, htop, hinv, hfirst⟩ := exists_phaseInv h
  have htwo := g.two_le
  obtain ⟨d, hd⟩ : ∃ d, g.members.card = d + 2 := ⟨g.members.card - 2, by omega⟩
  have hinvs := hinv.rounds hrounds
  have hwaiting := fun r (hr : r ≤ k) => hinv.stillWaits_rounds hrounds hwaits hr
  have hnode : ∀ key ∈ g.members, Has (states 0) key fun _ => True := by
    intro key hkey
    obtain ⟨n, hn, -⟩ := h.member key hkey
    exact ⟨n, hn, trivial⟩
  -- First the LCL values become equal,
  have hlclv := PhaseInv.spread (k := d + 1) states (fun r hr => hrounds r (by omega)) hinv htop
    (hwaiting _ (by omega)) (by omega) (fun dest _ => g.spreading_lclv top p dest) hnode hfirst
  obtain ⟨events, hround⟩ := hrounds d (by omega)
  have hlevel : ∀ key ∈ g.members, Has (states (d + 1)) key (Level top p) := by
    intro key hkey
    obtain ⟨n, hn, hlclv⟩ := (hlclv key hkey).2
    obtain ⟨m, hm, hperiod⟩ := (hinvs d (by omega)).round_lclPeriod hround hkey
    obtain rfl := some_inj.mp (hn.symm.trans hm)
    exact ⟨n, hn, hperiod, hlclv⟩
  -- then the smallest label goes round,
  obtain ⟨n, hn, hleast⟩ := hlevel g.least g.least_mem
  have hown := ((hinvs (d + 1) (by omega)).member_of g.least_mem hn).publicLabel_least hleast.1
  have hlabel := PhaseInv.spread (k := d + 1) (fun r => states (d + 1 + r))
    (fun r hr => hrounds (d + 1 + r) (by omega)) (hinvs (d + 1) (by omega)) htop
    (hwaiting _ (by omega)) (by omega) (fun dest hdest => g.spreading_label top p hdest) hlevel
    ⟨g.least, g.least_mem, n, hn, hleast.2, hown⟩
  -- and a detector that waits for its owner gives it back.
  obtain ⟨key, hkey, hedge⟩ := g.connected.exists_pred g.least_mem htwo
  obtain ⟨events, hround⟩ := hrounds (d + 1 + (d + 1)) (by omega)
  have hinv' := hinvs (d + 1 + (d + 1)) (by omega)
  obtain ⟨m, hm, hsent⟩ := hinv'.round_spreads (g.spreading_sent top p) htop
    (fun key hkey => (hlabel key hkey).1) hround (hwaiting _ (by omega)) hkey g.least_mem hedge
    (hlabel key hkey).2
  have hstarted := (hinv'.run hround.run).sent g.least m g.least_mem hm hsent
  exact hinv.started_mono hrounds (by omega) le_rfl hstarted

end

end Routes

end SeekDB.Lcl
