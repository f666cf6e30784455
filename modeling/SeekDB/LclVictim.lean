/-
The victims of the LCL scheme: over every interleaving of timer tasks, deliveries, delays
and losses, and whatever the threads read from the clock, `detect_callback_` is called only
with a cycle of the wait-for graph in which no detector has a lower priority, and a node
starts at most one cycle info in an LCL period.
-/
import SeekDB.LclNode

universe u

namespace SeekDB.Lcl

open List Option

variable {κ : Type u}

/-- `a` waits for `b`. -/
def Waits (detectors : κ → Option (Detector κ)) (a b : κ) : Prop :=
  ∃ d, detectors a = some d ∧ b ∈ d.blockList

/-- No two detectors have the same id. -/
def DistinctIds (detectors : κ → Option (Detector κ)) : Prop :=
  ∀ a b d e, detectors a = some d → detectors b = some e → d.resourceId = e.resourceId → a = b

def ReportInfo.Of (detectors : κ → Option (Detector κ)) (info : ReportInfo κ) : Prop :=
  ∃ d, detectors info.userKey = some d ∧ info.detectorId = d.resourceId ∧ info.priority = d.priority

/-- What a cycle info to `dest` has collected is a path of waiting detectors to it. -/
structure WaitPath (detectors : κ → Option (Detector κ)) (collected : List (ReportInfo κ))
    (dest : κ) : Prop where
  reports : ∀ info ∈ collected, info.Of detectors
  nodup : (collected.map ReportInfo.userKey).Nodup
  chain : (collected.map ReportInfo.userKey ++ [dest]).IsChain (Waits detectors)

/-- The collected detectors are a cycle that starts at `key`, and none has a lower priority. -/
def IsVictim (detectors : κ → Option (Detector κ)) (key : κ) (collected : List (ReportInfo κ)) :
    Prop :=
  ∃ rest, collected.map ReportInfo.userKey = key :: rest ∧ (key :: rest).Nodup ∧
    (key :: rest ++ [key]).IsChain (Waits detectors) ∧
    ∀ other ∈ key :: rest, ∀ d e, detectors other = some d → detectors key = some e →
      d.priority.lt e.priority = false

/-! ### The lowest priority -/

variable {collected : List (ReportInfo κ)}

theorem lowestPriority_eq_zero {i : Int} (hi : 0 < i)
    {lowest : ObDetectorPriority × Int} (h : (lowestPriority collected i lowest).2 = 0) :
    lowest.2 = 0 ∧ ∀ info ∈ collected, info.priority.lt lowest.1 = false := by
  induction collected generalizing i lowest with
  | nil => exact ⟨h, by simp⟩
  | cons info rest ih =>
    obtain ⟨hzero, hrest⟩ := ih (by omega) h
    cases hlt : info.priority.lt lowest.1 with
    | true =>
      simp only [hlt, if_true] at hzero
      omega
    | false =>
      simp only [hlt] at hzero hrest
      refine ⟨hzero, fun other hother => ?_⟩
      rcases mem_cons.mp hother with rfl | hmem
      · exact hlt
      · exact hrest other hmem

theorem ObDetectorPriority.lt_self (p : ObDetectorPriority) : p.lt p = false := by
  rw [← Bool.not_eq_true, ObDetectorPriority.lt_iff]
  simp

theorem lowest_of_ifSelfHasLowestPriority {first : ReportInfo κ} {rest : List (ReportInfo κ)}
    (h : ifSelfHasLowestPriority (first :: rest) = true) :
    ∀ info ∈ first :: rest, info.priority.lt first.priority = false := by
  have hzero : (lowestPriority rest 1
      (if first.priority.lt .highest then (first.priority, 0) else (.highest, -1))).2 = 0 :=
    of_decide_eq_true h
  obtain ⟨hfirst, hrest⟩ := lowestPriority_eq_zero Int.one_pos hzero
  cases hlt : first.priority.lt .highest with
  | false => simp [hlt] at hfirst
  | true =>
    simp only [hlt, if_true] at hrest
    intro info hinfo
    rcases mem_cons.mp hinfo with rfl | hmem
    · exact info.priority.lt_self
    · exact hrest info hmem

/-! ### The paths of the cycle infos -/

variable {n : ObLCLNode κ} {d : Detector κ}

namespace WaitPath

variable {detectors : κ → Option (Detector κ)} {collected : List (ReportInfo κ)} {dest : κ}

theorem nil (detectors : κ → Option (Detector κ)) (dest : κ) : WaitPath detectors [] dest where
  reports := by simp
  nodup := nodup_nil
  chain := List.IsChain.singleton dest

/-- The destination adds itself and sends the cycle info to a detector it waits for. -/
theorem snoc (h : WaitPath detectors collected dest) {info : ReportInfo κ} {next : κ}
    (hkey : info.userKey = dest) (hinfo : info.Of detectors) (hnext : Waits detectors dest next)
    (hnew : dest ∉ collected.map ReportInfo.userKey) :
    WaitPath detectors (collected ++ [info]) next where
  reports := by
    intro other hother
    rcases mem_append.mp hother with hold | hlast
    · exact h.reports other hold
    · exact mem_singleton.mp hlast ▸ hinfo
  nodup := by
    rw [map_append, map_singleton, hkey]
    exact nodup_append.mpr ⟨h.nodup, nodup_singleton dest, by
      intro a ha b hb hab
      exact hnew (mem_singleton.mp hb ▸ hab ▸ ha)⟩
  chain := by
    rw [map_append, map_singleton, hkey, append_assoc, singleton_append, isChain_append_cons_cons]
    exact ⟨h.chain, hnext, List.IsChain.singleton next⟩

theorem isVictim (hids : DistinctIds detectors) (h : WaitPath detectors collected dest)
    (hd : detectors dest = some d)
    (hlabel : n.privateLabel = d.label) (hcomplete : n.isCompleteCycle collected = true)
    (hlowest : ifSelfHasLowestPriority collected = true) : IsVictim detectors dest collected := by
  cases collected with
  | nil => cases hcomplete
  | cons first rest =>
    obtain ⟨e, he, hid, hpriority⟩ := h.reports first mem_cons_self
    have hsame : first.detectorId = d.resourceId := by
      have hid : first.detectorId = n.privateLabel.id := of_decide_eq_true hcomplete
      rw [hid, hlabel, Detector.label]
    have hkey : first.userKey = dest := hids _ _ e d he hd (hid.symm.trans hsame)
    have hnodup := h.nodup
    have hchain := h.chain
    rw [map_cons, hkey] at hnodup hchain
    refine ⟨rest.map ReportInfo.userKey, by rw [map_cons, hkey], hnodup, hchain, ?_⟩
    intro other hother f g hf hg
    rw [← hkey, ← map_cons] at hother
    obtain ⟨info, hinfo, rfl⟩ := List.mem_map.mp hother
    obtain ⟨f', hf', -, hinfoPriority⟩ := h.reports info hinfo
    obtain rfl := some_inj.mp (hf.symm.trans hf')
    obtain rfl := some_inj.mp (hg.symm.trans (hkey ▸ he))
    rw [← hinfoPriority, ← hpriority]
    exact lowest_of_ifSelfHasLowestPriority hlowest info hinfo

end WaitPath

/-! ### The invariant -/

/-- The node of a detector; its block list only shrinks. -/
structure ObLCLNode.Of (key : κ) (d : Detector κ) (n : ObLCLNode κ) : Prop where
  selfKey : n.selfKey = key
  privateLabel : n.privateLabel = d.label
  blockList : n.blockList ⊆ d.blockList
  lastSend_le : n.lastSendCycleInfoPeriod ≤ n.lclPeriod

namespace ObLCLNode.Of

variable {key : κ} {d : Detector κ} {n : ObLCLNode κ}

section

variable (h : n.Of key d)

include h

theorem updateLclPeriod (now : Nat) : (n.updateLclPeriod now).Of key d := by
  unfold ObLCLNode.updateLclPeriod
  split_ifs with hlt
  · exact { h with lastSend_le := h.lastSend_le.trans (Nat.le_of_lt hlt) }
  · exact h

theorem processLclpState (lclv : Int) : (n.processLclpState lclv).Of key d := by
  unfold ObLCLNode.processLclpState
  split_ifs
  · exact { h with }
  · exact h

theorem processLclsState (lclv : Int) (label : ObLCLLabel) :
    (n.processLclsState lclv label).1.Of key d := by
  rcases n.processLclsState_cases lclv label with ⟨-, heq⟩ | ⟨-, hcases⟩
  · rw [heq]
    exact h
  rcases hcases with ⟨-, -, heq⟩ | ⟨-, -, heq⟩ | ⟨-, -, heq⟩ | ⟨-, -, heq⟩
  · rw [heq]
    exact { h with }
  · rw [heq]
    exact { h with lastSend_le := Nat.le_refl _ }
  · rw [heq]
    exact { h with }
  · rw [heq]
    exact { h with }

theorem reportInfo {detectors : κ → Option (Detector κ)}
    (hd : detectors key = some d) : n.reportInfo.Of detectors := by
  refine ⟨d, ?_, ?_, ?_⟩
  · rw [ObLCLNode.reportInfo, h.selfKey]
    exact hd
  · rw [ObLCLNode.reportInfo, h.privateLabel]
    rfl
  · rw [ObLCLNode.reportInfo, h.privateLabel]
    rfl

end

theorem activatePeer [DecidableEq κ] (h : n.Of key d) (collected : List (ReportInfo κ)) :
    (n.activatePeer collected).Of key d := by
  unfold ObLCLNode.activatePeer
  split_ifs
  · match collected with
    | [] => exact h
    | [_] => exact { h with blockList := fun _ hmem => h.blockList (mem_of_mem_erase hmem) }
    | _ :: _ :: _ =>
      exact { h with blockList := fun _ hmem => h.blockList (mem_of_mem_erase hmem) }
  · exact h

end ObLCLNode.Of

structure LclInv (detectors : κ → Option (Detector κ)) (s : LclState κ) : Prop where
  node : ∀ key n, s.node key = some n → ∃ d, detectors key = some d ∧ n.Of key d
  path : ∀ dest collected, .cycleInfo dest collected ∈ s.queue → WaitPath detectors collected dest
  started : ∀ start ∈ s.started, ∃ n, s.node start.1 = some n ∧ start.2 ≤ n.lastSendCycleInfoPeriod
  started_nodup : s.started.Nodup
  detected : ∀ call ∈ s.detected, IsVictim detectors call.1 call.2

namespace LclInv

variable {detectors : κ → Option (Detector κ)} {s : LclState κ}

theorem shrink (h : LclInv detectors s) {queue : List (Message κ)} (hqueue : queue ⊆ s.queue)
    (tasks : List (Task κ)) : LclInv detectors { s with queue := queue, tasks := tasks } :=
  { h with path := fun dest collected hmem => h.path dest collected (hqueue hmem) }

theorem post (h : LclInv detectors s) {messages : List (Message κ)}
    (hmessages : ∀ dest collected, .cycleInfo dest collected ∈ messages →
      WaitPath detectors collected dest) :
    LclInv detectors { s with queue := s.queue ++ messages } :=
  { h with
    path := by
      intro dest collected hmem
      rcases mem_append.mp hmem with hold | hnew
      · exact h.path dest collected hold
      · exact hmessages dest collected hnew }

variable [DecidableEq κ]

section

variable (h : LclInv detectors s)

include h

theorem setNode {key : κ} {n n' : ObLCLNode κ}
    (hn : s.node key = some n) (hd : detectors key = some d) (hnode : n'.Of key d)
    (hlast : n.lastSendCycleInfoPeriod ≤ n'.lastSendCycleInfoPeriod) :
    LclInv detectors (s.setNode key n') :=
  { h with
    node := by
      intro other m hm
      by_cases heq : other = key
      · subst heq
        rw [LclState.setNode_node_self] at hm
        exact ⟨d, hd, some_inj.mp hm ▸ hnode⟩
      · rw [LclState.setNode_node_of_ne s heq] at hm
        exact h.node other m hm
    started := by
      intro start hstart
      obtain ⟨m, hm, hle⟩ := h.started start hstart
      by_cases heq : start.1 = key
      · rw [heq] at hm ⊢
        obtain rfl := some_inj.mp (hn.symm.trans hm)
        exact ⟨n', s.setNode_node_self key n', hle.trans hlast⟩
      · exact ⟨m, (s.setNode_node_of_ne heq n').trans hm, hle⟩ }

theorem updateLclPeriod {key : κ}
    (hn : s.node key = some n) (now : Nat) (tasks : List (Task κ)) :
    LclInv detectors { s.setNode key (n.updateLclPeriod now) with tasks := tasks } := by
  obtain ⟨d, hd, hnode⟩ := h.node key n hn
  have hset := h.setNode hn hd (hnode.updateLclPeriod now)
    (Nat.le_of_eq (n.lastSend_updateLclPeriod now).symm)
  exact { hset with }

theorem processLclState (now : Nat) (key : κ) (lclv : Int) (label : ObLCLLabel) (sendTs : Nat) :
    LclInv detectors (s.processLclState now key lclv label sendTs) := by
  unfold LclState.processLclState
  cases hn : s.node key with
  | none => exact h
  | some n =>
    obtain ⟨d, hd, hnode⟩ := h.node key n hn
    simp only
    split_ifs with hphase hlclp hdetected
    · exact h
    · refine h.setNode hn hd (hnode.processLclpState lclv) (Nat.le_of_eq ?_)
      unfold ObLCLNode.processLclpState
      split_ifs <;> rfl
    · rcases n.lastSend_processLclsState lclv label with ⟨-, hne, hlast⟩ | ⟨hfalse, -⟩
      · have hle := hnode.lastSend_le
        have hset := h.setNode hn hd (hnode.processLclsState lclv label) (hlast ▸ hle)
        refine { hset with started := ?_, started_nodup := ?_ }
        · intro start hstart
          rcases mem_cons.mp hstart with rfl | hold
          · exact ⟨_, s.setNode_node_self key _, Nat.le_of_eq hlast.symm⟩
          · exact hset.started start hold
        · refine nodup_cons.mpr ⟨fun hmem => ?_, h.started_nodup⟩
          obtain ⟨m, hm, hsent⟩ := h.started _ hmem
          obtain rfl := some_inj.mp (hn.symm.trans hm)
          exact hne (Nat.le_antisymm hle hsent)
      · rw [hfalse] at hdetected
        cases hdetected
    · rcases n.lastSend_processLclsState lclv label with ⟨htrue, -⟩ | ⟨-, hlast⟩
      · exact absurd htrue hdetected
      · exact h.setNode hn hd (hnode.processLclsState lclv label) (Nat.le_of_eq hlast.symm)

theorem resume (now : Nat) (ok : Bool) (task : Task κ) :
    LclInv detectors (s.resume now ok task) := by
  cases task with
  | lclState key lclv label sendTs => exact h.processLclState now key lclv label sendTs
  | report key =>
    simp only [LclState.resume]
    split_ifs
    · refine h.post fun dest collected hmem => ?_
      obtain ⟨rfl, rfl⟩ : dest = key ∧ collected = [] := by simpa using hmem
      exact WaitPath.nil detectors dest
    · exact h
  | push key =>
    simp only [LclState.resume, LclState.pushStateToDownstreams]
    cases s.node key with
    | none => exact h
    | some =>
      simp only
      split_ifs
      · exact h
      · exact h.shrink (List.Subset.refl _) _
  | broadcast key dests lclv label =>
    cases dests with
    | nil => exact h
    | cons dest =>
      simp only [LclState.resume]
      split_ifs
      · have hpost : LclInv detectors
            { s with queue := s.queue ++ [.lclState dest lclv label now] } :=
          h.post (by simp)
        exact { hpost with }
      · exact h

section

variable (hids : DistinctIds detectors)

include hids

theorem detect {dest : κ} {n n' : ObLCLNode κ}
    (hn : s.node dest = some n) (hd : detectors dest = some d) (hnode : n.Of dest d)
    (hpath : WaitPath detectors collected dest)
    (hcomplete : n.isCompleteCycle collected = true)
    (hlowest : ifSelfHasLowestPriority collected = true)
    (hn' : n' = n ∨ n' = n.activatePeer collected) :
    LclInv detectors
      { s.setNode dest n' with detected := (dest, collected) :: s.detected } := by
  have hset : LclInv detectors (s.setNode dest n') := by
    rcases hn' with rfl | rfl
    · exact h.setNode hn hd hnode le_rfl
    · exact h.setNode hn hd (hnode.activatePeer collected)
        (Nat.le_of_eq (n.lastSend_activatePeer collected).symm)
  refine { hset with detected := ?_ }
  intro call hcall
  rcases mem_cons.mp hcall with rfl | hold
  · exact hpath.isVictim hids hd hnode.privateLabel hcomplete hlowest
  · exact h.detected call hold

theorem processCycleInfo {dest : κ}
    (hn : s.node dest = some n)
    (hpath : WaitPath detectors collected dest) (detectOk collectOk : Bool) :
    LclInv detectors (s.processCycleInfo n collected detectOk collectOk) := by
  obtain ⟨d, hd, hnode⟩ := h.node dest n hn
  unfold LclState.processCycleInfo
  simp only
  split_ifs with hcomplete hlowest hcallback hloop hcollect
  · rw [hnode.selfKey]
    exact h.detect hids hn hd hnode hpath hcomplete hlowest (.inr rfl)
  · rw [hnode.selfKey]
    exact h.detect hids hn hd hnode hpath hcomplete hlowest (.inl rfl)
  · exact h
  · exact h
  · refine h.post fun next extended hmem => ?_
    obtain ⟨other, hother, heq⟩ := List.mem_map.mp hmem
    obtain ⟨rfl, rfl⟩ : other = next ∧ collected ++ [n.reportInfo] = extended := by simpa using heq
    refine hpath.snoc hnode.selfKey (hnode.reportInfo hd) ⟨d, hd, hnode.blockList hother⟩ ?_
    intro hvisited
    obtain ⟨info, hinfo, hkey⟩ := List.mem_map.mp hvisited
    obtain ⟨e, he, hid, -⟩ := hpath.reports info hinfo
    obtain rfl := some_inj.mp (hd.symm.trans (hkey ▸ he))
    refine hloop (List.any_eq_true.mpr ⟨info, hinfo, decide_eq_true ⟨?_, ?_⟩⟩)
    · rw [hkey, hnode.selfKey]
    · rw [hid, hnode.privateLabel]
      rfl
  · exact h

theorem deliver {message : Message κ}
    (hpath : ∀ dest collected, message = .cycleInfo dest collected →
      WaitPath detectors collected dest) (now : Nat) (detectOk collectOk : Bool) :
    LclInv detectors (s.deliver now detectOk collectOk message) := by
  cases message with
  | lclState dest =>
    simp only [LclState.deliver]
    cases hn : s.node dest with
    | none => exact h
    | some => exact h.updateLclPeriod hn now _
  | cycleInfo dest collected =>
    simp only [LclState.deliver]
    cases hn : s.node dest with
    | none => exact h
    | some => exact h.processCycleInfo hids hn (hpath dest collected rfl) detectOk collectOk

theorem step {event : LclEvent κ}
    {s' : LclState κ} (hstep : s.step event = some s') : LclInv detectors s' := by
  cases event with
  | runTimerTask key now =>
    obtain ⟨n, hn, rfl⟩ := map_eq_some_iff.mp hstep
    exact h.updateLclPeriod hn now _
  | resume i now ok =>
    obtain ⟨task, -, rfl⟩ := map_eq_some_iff.mp hstep
    exact (h.shrink (List.Subset.refl _) _).resume now ok task
  | deliver i now detectOk collectOk =>
    obtain ⟨message, hmessage, rfl⟩ := map_eq_some_iff.mp hstep
    refine (h.shrink (eraseIdx_subset ..) s.tasks).deliver hids ?_ now detectOk collectOk
    rintro dest collected rfl
    exact h.path dest collected (mem_of_getElem? hmessage)
  | lose =>
    obtain ⟨-, hs⟩ := ite_none_right_eq_some.mp hstep
    cases hs
    exact h.shrink (eraseIdx_subset ..) s.tasks
  | decCountDownAllowDetect key =>
    obtain ⟨n, hn, rfl⟩ := map_eq_some_iff.mp hstep
    obtain ⟨d, hd, hnode⟩ := h.node key n hn
    exact h.setNode hn hd { hnode with } le_rfl

end

end

omit [DecidableEq κ] in
theorem init (detectors : κ → Option (Detector κ)) :
    LclInv detectors (LclState.init detectors) where
  node := by
    intro key n hn
    obtain ⟨d, hd, rfl⟩ := map_eq_some_iff.mp hn
    exact ⟨d, hd, rfl, rfl, List.Subset.refl _, Nat.le_refl _⟩
  path := by simp [LclState.init]
  started := by simp [LclState.init]
  started_nodup := nodup_nil
  detected := by simp [LclState.init]

theorem run (hids : DistinctIds detectors) {events : List (LclEvent κ)}
    (hrun : events.foldlM LclState.step (LclState.init detectors) = some s) :
    LclInv detectors s :=
  (Execution.of_foldlM hrun).invariant (init detectors) fun _ _ _ h hnext => h.step hids hnext

end LclInv

/-- Every victim is on a cycle of the wait-for graph that `detect_callback_` is given, and no
detector of it has a lower priority; a node starts one cycle info in an LCL period. -/
theorem victims_are_deadlocked [DecidableEq κ] (detectors : κ → Option (Detector κ))
    (hids : DistinctIds detectors) (events : List (LclEvent κ)) (s : LclState κ)
    (hrun : events.foldlM LclState.step (LclState.init detectors) = some s) :
    (∀ key collected, (key, collected) ∈ s.detected → IsVictim detectors key collected) ∧
      s.started.Nodup := by
  have h := LclInv.run hids hrun
  exact ⟨fun key collected hcall => h.detected _ hcall, h.started_nodup⟩

/-- Two detectors that wait for each other, with their priorities. -/
def twoDetectors (first second : ObDetectorPriority) : Bool → Option (Detector Bool)
  | false => some ⟨1, first, 0, true, [true]⟩
  | true => some ⟨2, second, 0, true, [false]⟩

/-- A round of pushes and deliveries at the clock reading `now`. -/
def pushRound (now : Nat) : List (LclEvent Bool) :=
  [false, true].flatMap fun key =>
    [.runTimerTask key now, .resume 0 now true, .resume 0 now true, .resume 0 now true,
      .deliver 0 now true true, .resume 0 now true]

/-- The cycle info of the first detector goes round. -/
def collectRound (now : Nat) : List (LclEvent Bool) :=
  .resume 0 now true :: List.replicate 3 (.deliver 0 now true true)

/-- In the LCLS phase of period 1 the label of the first comes back to it. -/
theorem victims_are_deadlocked_two :
    ∃ s, (pushRound 2100000 ++ collectRound 2100000).foldlM LclState.step
        (LclState.init (twoDetectors ⟨.normal, 0⟩ ⟨.normal, 7⟩)) = some s ∧
      s.detected.map Prod.fst = [false] ∧ s.started = [(false, 1)] ∧
      ∀ key collected, (key, collected) ∈ s.detected →
        IsVictim (twoDetectors ⟨.normal, 0⟩ ⟨.normal, 7⟩) key collected := by
  have hids : DistinctIds (twoDetectors ⟨.normal, 0⟩ ⟨.normal, 7⟩) := by
    intro a b d e hd he hid
    cases a <;> cases b <;> simp_all [twoDetectors]
    · subst hd he
      cases hid
    · subst hd he
      cases hid
  refine ⟨_, rfl, by decide +kernel, by decide +kernel, ?_⟩
  exact (victims_are_deadlocked _ hids (pushRound 2100000 ++ collectRound 2100000) _ rfl).1

end SeekDB.Lcl
