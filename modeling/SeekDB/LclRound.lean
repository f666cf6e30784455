/-
One LCLS phase of the LCL scheme: in a strongly connected set of detectors that nobody
outside waits for, the LCL values become equal, then the smallest label goes round, and the
detector that owns it sets `detected_flag`.

The phase is that of period `p`; the LCL values and the labels are what earlier periods left.
-/
import SeekDB.FiniteSpread
import SeekDB.LclNode

universe u

namespace SeekDB.Lcl

open List

variable {now : Nat} {κ : Type u}

/-- A strongly connected set of detectors with distinct labels; `least` has the smallest. -/
structure WaitGroup (κ : Type u) where
  members : Finset κ
  label : κ → ObLCLLabel
  blockList : κ → List κ
  least : κ
  least_mem : least ∈ members
  two_le : 2 ≤ members.card
  label_inj : ∀ a ∈ members, ∀ b ∈ members, label a = label b → a = b
  not_lt_least : ∀ a ∈ members, (label a).lt (label least) = false
  valid : ∀ a ∈ members, (label a).isValid = true
  connected : StronglyConnected (fun a b => b ∈ blockList a) members

/-- The clock is read in the phase, and nothing is lost or fails. -/
def LclEvent.smooth (phase : Nat) : LclEvent κ → Bool
  | .runTimerTask _ now => now / phaseTime = phase
  | .resume _ now ok => ok && decide (now / phaseTime = phase ∧ now ≠ invalidValue)
  | .deliver _ now _ collectOk => collectOk && decide (now / phaseTime = phase)
  | .lose _ => false
  | .decCountDownAllowDetect _ => true

/-- A state message of the phase to a member. -/
def Message.Spreads (members : Finset κ) (phase : Nat) : Message κ → Prop
  | .lclState dest _ _ sendTs => dest ∈ members ∧ sendTs / phaseTime = phase
  | .cycleInfo _ _ => False

/-- What is left of a push of a member, or of a state message of the phase to one. -/
def Task.Spreads (members : Finset κ) (phase : Nat) : Task κ → Prop
  | .lclState key _ _ sendTs => key ∈ members ∧ sendTs / phaseTime = phase
  | .report _ => False
  | .push key => key ∈ members
  | .broadcast _ dests _ _ => ∃ dest ∈ dests, dest ∈ members

namespace LclState

/-- Every push of a member is delivered. -/
def Delivered (members : Finset κ) (phase : Nat) (s : LclState κ) : Prop :=
  (∀ message ∈ s.queue, ¬ message.Spreads members phase) ∧
    ∀ task ∈ s.tasks, ¬ task.Spreads members phase

variable [DecidableEq κ]

def smoothStep (phase : Nat) (s : LclState κ) (event : LclEvent κ) : Option (LclState κ) :=
  if event.smooth phase then s.step event else none

/-- Each member pushes its state, and what it pushes is delivered. -/
structure Round (members : Finset κ) (phase : Nat) (s : LclState κ) (events : List (LclEvent κ))
    (s' : LclState κ) : Prop where
  run : events.foldlM (smoothStep phase) s = some s'
  pushes : ∀ key ∈ members, ∃ now, .runTimerTask key now ∈ events
  delivered : s'.Delivered members phase

end LclState

/-! ### The members of the group -/

variable {key : κ} {label : ObLCLLabel}

namespace WaitGroup

variable {g : WaitGroup κ}

def IsLabel (g : WaitGroup κ) (label : ObLCLLabel) : Prop := ∃ key ∈ g.members, label = g.label key

theorem least_rank_le (hkey : key ∈ g.members) :
    (g.label g.least).rank ≤ (g.label key).rank := by
  refine le_of_not_gt fun hlt => ?_
  have hlt := (ObLCLLabel.lt_iff _ _).mpr hlt
  rw [g.not_lt_least key hkey] at hlt
  cases hlt

theorem IsLabel.least_rank_le (h : g.IsLabel label) :
    (g.label g.least).rank ≤ label.rank := by
  obtain ⟨key, hkey, rfl⟩ := h
  exact g.least_rank_le hkey

end WaitGroup

/-- Which labels a member may know, and which may be on their way to it. -/
structure Routes (κ : Type u) extends WaitGroup κ where
  held : κ → ObLCLLabel → Prop
  sent : κ → ObLCLLabel → Prop
  held_isLabel : ∀ {key l}, held key l → toWaitGroup.IsLabel l
  sent_isLabel : ∀ {key l}, sent key l → toWaitGroup.IsLabel l
  held_own : ∀ {key}, key ∈ members → held key (label key)
  held_of_sent : ∀ {key l l'}, key ∈ members → sent key l → held key l' → l.lt l' = true →
    held key l
  sent_of_held : ∀ {key dest l}, key ∈ members → dest ∈ members → dest ∈ blockList key →
    held key l → sent dest l

/-- In any group every label of a member may be anywhere. -/
def WaitGroup.routes (g : WaitGroup κ) : Routes κ :=
  { g with
    held := fun _ => g.IsLabel
    sent := fun _ => g.IsLabel
    held_isLabel := id
    sent_isLabel := id
    held_own := fun {key} hkey => ⟨key, hkey, rfl⟩
    held_of_sent := fun _ hsent _ _ => hsent
    sent_of_held := fun _ _ _ hheld => hheld }

namespace Routes

variable (g : Routes κ) (top : Int) (p : Nat) (key : κ)

/-- A state that may be on its way to `key`. -/
def Payload (lclv : Int) (label : ObLCLLabel) : Prop := lclv ≤ top ∧ g.sent key label

structure Member (n : ObLCLNode κ) : Prop where
  privateLabel : n.privateLabel = g.label key
  blockList : n.blockList ⊆ g.blockList key
  allowed : n.countDownAllowDetect = 0
  lclv_le : n.lclv ≤ top
  lclPeriod_le : n.lclPeriod ≤ p
  publicLabel : n.lclPeriod = p →
    g.held key n.publicLabel ∧ n.publicLabel.rank ≤ n.privateLabel.rank

/-- What a step of the phase does to a member. -/
inductive NodeStep (n : ObLCLNode κ) : ObLCLNode κ → Prop where
  | refl : NodeStep n n
  | update (now : Nat) (hphase : now / phaseTime = 2 * p + 1) :
      NodeStep n (n.updateLclPeriod now)
  | process (lclv : Int) (label : ObLCLLabel) (hpayload : g.Payload top key lclv label) :
      NodeStep n (n.processLclsState lclv label).1
  | activate (rest : List κ) (hsub : rest ⊆ n.blockList) : NodeStep n { n with blockList := rest }

end Routes

theorem div_period {p : Nat} (hphase : now / phaseTime = 2 * p + 1) : now / period = p := by
  rw [period, Nat.mul_comm, ← Nat.div_div_eq_div_mul, hphase]
  omega

namespace Routes.Member

variable {g : Routes κ} {top : Int} {p : Nat} {key : κ} {n n' : ObLCLNode κ}

section

variable (h : g.Member top p key n) (hkey : key ∈ g.members)

include h hkey

theorem updateLclPeriod (hphase : now / phaseTime = 2 * p + 1) :
    g.Member top p key (n.updateLclPeriod now) ∧ (n.updateLclPeriod now).lclPeriod = p := by
  unfold ObLCLNode.updateLclPeriod
  rw [div_period hphase]
  split_ifs with hlt
  · exact ⟨{ h with
      lclPeriod_le := Nat.le_refl p
      publicLabel := fun _ => ⟨h.privateLabel ▸ g.held_own hkey, le_refl _⟩ }, rfl⟩
  · exact ⟨h, Nat.le_antisymm h.lclPeriod_le (Nat.le_of_not_lt hlt)⟩

theorem process {lclv : Int}
    (hpayload : g.Payload top key lclv label) :
    g.Member top p key (n.processLclsState lclv label).1 := by
  obtain ⟨hle, hlabel⟩ := hpayload
  rcases n.processLclsState_cases lclv label with ⟨-, heq⟩ | ⟨-, hcases⟩
  · rw [heq]
    exact h
  rcases hcases with ⟨-, -, heq⟩ | ⟨-, -, heq⟩ | ⟨-, hlt, heq⟩ | ⟨-, -, heq⟩
  · rw [heq]
    exact { h with lclv_le := hle }
  · rw [heq]
    exact { h with lclv_le := hle }
  · rw [heq]
    exact { h with
      lclv_le := hle
      publicLabel := fun hperiod =>
        ⟨g.held_of_sent hkey hlabel (h.publicLabel hperiod).1 hlt,
          (((ObLCLLabel.lt_iff _ _).mp hlt).le).trans (h.publicLabel hperiod).2⟩ }
  · rw [heq]
    exact { h with lclv_le := hle }

theorem step (hstep : g.NodeStep top p key n n') : g.Member top p key n' := by
  cases hstep with
  | refl => exact h
  | update now hphase => exact (h.updateLclPeriod hkey hphase).1
  | process lclv label hpayload => exact h.process hkey hpayload
  | activate rest hsub => exact { h with blockList := List.Subset.trans hsub h.blockList }

/-- Once the period is `p`, it stays. -/
theorem lclPeriod_step
    (hstep : g.NodeStep top p key n n') (hperiod : n.lclPeriod = p) : n'.lclPeriod = p := by
  cases hstep with
  | refl | activate => exact hperiod
  | update now hphase => exact (h.updateLclPeriod hkey hphase).2
  | process lclv label =>
    rcases n.processLclsState_cases lclv label with ⟨-, heq⟩ | ⟨-, hcases⟩
    · rw [heq]
      exact hperiod
    · rcases hcases with ⟨-, -, heq⟩ | ⟨-, -, heq⟩ | ⟨-, -, heq⟩ | ⟨-, -, heq⟩ <;>
        · rw [heq]
          exact hperiod

end

theorem publicLabel_least (h : g.Member top p g.least n) (hperiod : n.lclPeriod = p) :
    n.publicLabel = g.label g.least := by
  obtain ⟨hlabel, hle⟩ := h.publicLabel hperiod
  rw [h.privateLabel] at hle
  exact ObLCLLabel.rank_injective (le_antisymm hle (g.held_isLabel hlabel).least_rank_le)

end Routes.Member

namespace Routes.NodeStep

variable {g : Routes κ} {top : Int} {p : Nat} {key : κ} {n n' : ObLCLNode κ}

theorem of_process {lclv : Int} {flag : Bool}
    (hprocess : n.processLclsState lclv label = (n', flag))
    (hpayload : g.Payload top key lclv label) : g.NodeStep top p key n n' := by
  have hstep : g.NodeStep top p key n (n.processLclsState lclv label).1 :=
    .process lclv label hpayload
  rw [hprocess] at hstep
  exact hstep

theorem lclv_eq (hstep : g.NodeStep top p key n n') (htop : n.lclv = top) : n'.lclv = top := by
  cases hstep with
  | refl | activate => exact htop
  | update =>
    unfold ObLCLNode.updateLclPeriod
    split_ifs <;> exact htop
  | process lclv label hpayload =>
    have hle := hpayload.1
    rcases n.processLclsState_cases lclv label with ⟨-, heq⟩ | ⟨hge, hcases⟩
    · rw [heq]
      exact htop
    have hlclv : lclv = top := le_antisymm hle (htop ▸ hge)
    rcases hcases with ⟨-, -, heq⟩ | ⟨-, -, heq⟩ | ⟨-, -, heq⟩ | ⟨-, -, heq⟩ <;>
      · rw [heq]
        exact hlclv

theorem publicLabel_eq (hstep : g.NodeStep top p key n n') (hperiod : n.lclPeriod = p)
    (hleast : n.publicLabel = g.label g.least) : n'.publicLabel = g.label g.least := by
  cases hstep with
  | refl | activate => exact hleast
  | update now hphase =>
    unfold ObLCLNode.updateLclPeriod
    rw [div_period hphase, if_neg (by rw [hperiod]; exact Nat.lt_irrefl p)]
    exact hleast
  | process lclv label hpayload =>
    rcases n.processLclsState_cases lclv label with ⟨-, heq⟩ | ⟨-, hcases⟩
    · rw [heq]
      exact hleast
    rcases hcases with ⟨-, -, heq⟩ | ⟨-, -, heq⟩ | ⟨-, hlt, -⟩ | ⟨-, -, heq⟩
    · rw [heq]
      exact hleast
    · rw [heq]
      exact hleast
    · rw [ObLCLLabel.lt_iff, hleast] at hlt
      exact absurd (g.sent_isLabel hpayload.2).least_rank_le (not_le_of_gt hlt)
    · rw [heq]
      exact hleast

end Routes.NodeStep

/-! ### The invariant of the phase -/

namespace Routes

variable (g : Routes κ) (top : Int) (p : Nat)

structure PhaseInv (s : LclState κ) : Prop where
  selfKey : ∀ key n, s.node key = some n → n.selfKey = key
  member : ∀ key ∈ g.members, ∃ n, s.node key = some n ∧ g.Member top p key n
  outside : ∀ key n, key ∉ g.members → s.node key = some n → ∀ dest ∈ g.members,
    dest ∉ n.blockList
  queued : ∀ dest lclv label sendTs, .lclState dest lclv label sendTs ∈ s.queue →
    dest ∈ g.members → sendTs / phaseTime = 2 * p + 1 → g.Payload top dest lclv label
  received : ∀ key lclv label sendTs, .lclState key lclv label sendTs ∈ s.tasks →
    key ∈ g.members → sendTs / phaseTime = 2 * p + 1 →
    g.Payload top key lclv label ∧ ∀ n, s.node key = some n → n.lclPeriod = p
  pushing : ∀ key, .push key ∈ s.tasks → key ∈ g.members → ∀ n, s.node key = some n →
    n.lclPeriod = p
  broadcast : ∀ key dests lclv label, .broadcast key dests lclv label ∈ s.tasks →
    ∀ dest ∈ dests, dest ∈ g.members → g.Payload top dest lclv label
  sent : ∀ key n, key ∈ g.members → s.node key = some n → n.lastSendCycleInfoPeriod = p →
    (key, p) ∈ s.started

end Routes

variable {task : Task κ}

namespace LclState

variable {s s' : LclState κ} [DecidableEq κ]

/-- A task that ends without an effect. -/
def Stuck (p : Nat) (s : LclState κ) : Task κ → Prop
  | .lclState key _ _ sendTs => s.node key = none ∨ sendTs / phaseTime ≠ 2 * p + 1
  | .report _ => False
  | .push key => ∀ n, s.node key = some n → n.countDownAllowDetect ≠ 0
  | .broadcast _ dests lclv label => dests = [] ∨ lclv = invalidValue ∨ label.isValid = false

/-- A message that has no effect. -/
def Ignored (s : LclState κ) : Message κ → Prop
  | .lclState dest _ _ _ => s.node dest = none
  | .cycleInfo dest collected => ∀ n, s.node dest = some n →
      n.isCompleteCycle collected = true ∧ ifSelfHasLowestPriority collected = false ∨
        n.isCompleteCycle collected = false ∧ n.checkDeadLoop collected = true

/-- What a smooth step of the LCLS phase of period `p` can do. -/
inductive Smooth (p : Nat) (s : LclState κ) : LclState κ → Prop where
  | timer {key : κ} {n : ObLCLNode κ} {now : Nat} (hn : s.node key = some n)
      (hphase : now / phaseTime = 2 * p + 1) :
      Smooth p s
        { s.setNode key (n.updateLclPeriod now) with tasks := .push key :: s.tasks }
  | drop {i : Nat} {task : Task κ} (htask : s.tasks[i]? = some task) (hstuck : s.Stuck p task) :
      Smooth p s { s with tasks := s.tasks.eraseIdx i }
  | process {i : Nat} {key : κ} {lclv : Int} {label : ObLCLLabel} {sendTs : Nat}
      {n n' : ObLCLNode κ} (htask : s.tasks[i]? = some (.lclState key lclv label sendTs))
      (hn : s.node key = some n) (hphase : sendTs / phaseTime = 2 * p + 1)
      (hprocess : n.processLclsState lclv label = (n', false)) :
      Smooth p s { s.setNode key n' with tasks := s.tasks.eraseIdx i }
  | detectedFlag {i : Nat} {key : κ} {lclv : Int} {label : ObLCLLabel} {sendTs : Nat}
      {n n' : ObLCLNode κ} (htask : s.tasks[i]? = some (.lclState key lclv label sendTs))
      (hn : s.node key = some n) (hphase : sendTs / phaseTime = 2 * p + 1)
      (hprocess : n.processLclsState lclv label = (n', true)) :
      Smooth p s
        { s.setNode key n' with
          tasks := .report key :: s.tasks.eraseIdx i
          started := (key, n.lclPeriod) :: s.started }
  | report {i : Nat} {key : κ} (htask : s.tasks[i]? = some (.report key)) :
      Smooth p s
        { s with
          tasks := s.tasks.eraseIdx i
          queue := s.queue ++ [.cycleInfo key []] }
  | push {i : Nat} {key : κ} {n : ObLCLNode κ} (htask : s.tasks[i]? = some (.push key))
      (hn : s.node key = some n) :
      Smooth p s
        { s with
          tasks := .broadcast key n.blockList n.lclv n.publicLabel :: s.tasks.eraseIdx i }
  | post {i : Nat} {key dest : κ} {rest : List κ} {lclv : Int} {label : ObLCLLabel} {now : Nat}
      (htask : s.tasks[i]? = some (.broadcast key (dest :: rest) lclv label))
      (hphase : now / phaseTime = 2 * p + 1) :
      Smooth p s
        { s with
          queue := s.queue ++ [.lclState dest lclv label now]
          tasks := .broadcast key rest lclv label :: s.tasks.eraseIdx i }
  | receive {i : Nat} {dest : κ} {lclv : Int} {label : ObLCLLabel} {sendTs now : Nat}
      {n : ObLCLNode κ} (hmessage : s.queue[i]? = some (.lclState dest lclv label sendTs))
      (hn : s.node dest = some n) (hphase : now / phaseTime = 2 * p + 1) :
      Smooth p s
        { s.setNode dest (n.updateLclPeriod now) with
          queue := s.queue.eraseIdx i
          tasks := .lclState dest lclv label sendTs :: s.tasks }
  | ignore {i : Nat} {message : Message κ} (hmessage : s.queue[i]? = some message)
      (hignored : s.Ignored message) : Smooth p s { s with queue := s.queue.eraseIdx i }
  | detect {i : Nat} {dest : κ} {collected : List (ReportInfo κ)} {n n' : ObLCLNode κ}
      (hmessage : s.queue[i]? = some (.cycleInfo dest collected)) (hn : s.node dest = some n)
      (hcomplete : n.isCompleteCycle collected = true)
      (hlowest : ifSelfHasLowestPriority collected = true)
      (hn' : n' = n ∨ n' = n.activatePeer collected) :
      Smooth p s
        { s.setNode dest n' with
          queue := s.queue.eraseIdx i
          detected := (dest, collected) :: s.detected }
  | forward {i : Nat} {dest : κ} {collected : List (ReportInfo κ)} {n : ObLCLNode κ}
      (hmessage : s.queue[i]? = some (.cycleInfo dest collected)) (hn : s.node dest = some n)
      (hcomplete : n.isCompleteCycle collected = false)
      (hloop : n.checkDeadLoop collected = false) :
      Smooth p s
        { s with
          queue := s.queue.eraseIdx i ++
            n.blockList.map fun next => .cycleInfo next (collected ++ [n.reportInfo]) }
  | count {key : κ} {n : ObLCLNode κ} (hn : s.node key = some n) :
      Smooth p s
        (s.setNode key { n with countDownAllowDetect := n.countDownAllowDetect - 1 })

theorem Smooth.of_resume {p i : Nat} {ok : Bool}
    (hok : ok = true) (hphase : now / phaseTime = 2 * p + 1) (hnow : now ≠ invalidValue)
    (htask : s.tasks[i]? = some task) :
    Smooth p s ({ s with tasks := s.tasks.eraseIdx i }.resume now ok task) := by
  cases task with
  | lclState key =>
    simp only [LclState.resume, processLclState]
    cases hn : s.node key with
    | none => exact .drop htask (.inl hn)
    | some =>
      simp only [hphase]
      rw [if_neg (show ¬(2 * p + 1) % 2 = 0 by omega)]
      split_ifs with hne hflag
      · exact .drop htask (.inr (Ne.symm hne))
      · exact .detectedFlag htask hn (not_not.mp hne).symm (Prod.ext rfl hflag)
      · exact .process htask hn (not_not.mp hne).symm
          (Prod.ext rfl (Bool.not_eq_true _ ▸ hflag))
  | report =>
    simp only [LclState.resume, hok, if_true]
    exact .report htask
  | push key =>
    simp only [LclState.resume, pushStateToDownstreams]
    cases hn : s.node key with
    | none => exact .drop htask (by simp [Stuck, hn])
    | some =>
      simp only
      split_ifs with hcount
      · refine .drop htask fun m hm => ?_
        obtain rfl := Option.some_inj.mp (hn.symm.trans hm)
        exact hcount
      · exact .push htask hn
  | broadcast key dests lclv label =>
    cases dests with
    | nil => exact .drop htask (.inl rfl)
    | cons =>
      simp only [LclState.resume]
      split_ifs with hvalid
      · exact .post htask hphase
      refine .drop htask (.inr ?_)
      by_cases hlclv : lclv = invalidValue
      · exact .inl hlclv
      · cases hlabel : label.isValid with
        | false => exact .inr rfl
        | true => exact absurd ⟨hok, hlclv, hlabel, hnow⟩ hvalid

theorem Smooth.of_deliver {p i : Nat} {detectOk collectOk : Bool} {message : Message κ}
    (hself : ∀ key n, s.node key = some n → n.selfKey = key) (hok : collectOk = true)
    (hphase : now / phaseTime = 2 * p + 1) (hmessage : s.queue[i]? = some message) :
    Smooth p s
      ({ s with queue := s.queue.eraseIdx i }.deliver now detectOk collectOk message) := by
  cases message with
  | lclState dest =>
    simp only [deliver]
    cases hn : s.node dest with
    | none => exact .ignore hmessage hn
    | some => exact .receive hmessage hn hphase
  | cycleInfo dest collected =>
    simp only [deliver]
    cases hn : s.node dest with
    | none => exact .ignore hmessage (by simp [Ignored, hn])
    | some n =>
      simp only [processCycleInfo, hok, if_true, hself dest n hn]
      cases hcomplete : n.isCompleteCycle collected with
      | true =>
        cases hlowest : ifSelfHasLowestPriority collected with
        | true =>
          refine .detect hmessage hn hcomplete hlowest ?_
          cases detectOk with
          | false => exact .inl rfl
          | true => exact .inr rfl
        | false =>
          refine .ignore hmessage fun m hm => .inl ?_
          obtain rfl := Option.some_inj.mp (hn.symm.trans hm)
          exact ⟨hcomplete, hlowest⟩
      | false =>
        cases hloop : n.checkDeadLoop collected with
        | true =>
          refine .ignore hmessage fun m hm => .inr ?_
          obtain rfl := Option.some_inj.mp (hn.symm.trans hm)
          exact ⟨hcomplete, hloop⟩
        | false => exact .forward hmessage hn hcomplete hloop

theorem Smooth.of_step {p : Nat} {event : LclEvent κ}
    (hself : ∀ key n, s.node key = some n → n.selfKey = key)
    (hstep : s.smoothStep (2 * p + 1) event = some s') : Smooth p s s' := by
  obtain ⟨hsmooth, hstep⟩ := Option.ite_none_right_eq_some.mp hstep
  cases event with
  | runTimerTask =>
    obtain ⟨n, hn, rfl⟩ := Option.map_eq_some_iff.mp hstep
    exact .timer hn (of_decide_eq_true hsmooth)
  | resume =>
    obtain ⟨task, htask, rfl⟩ := Option.map_eq_some_iff.mp hstep
    obtain ⟨hok, hnow⟩ := Bool.and_eq_true_iff.mp hsmooth
    obtain ⟨hphase, hvalid⟩ := of_decide_eq_true hnow
    exact of_resume hok hphase hvalid htask
  | deliver =>
    obtain ⟨message, hmessage, rfl⟩ := Option.map_eq_some_iff.mp hstep
    obtain ⟨hok, hnow⟩ := Bool.and_eq_true_iff.mp hsmooth
    exact of_deliver hself hok (of_decide_eq_true hnow) hmessage
  | lose => cases hsmooth
  | decCountDownAllowDetect =>
    obtain ⟨n, hn, rfl⟩ := Option.map_eq_some_iff.mp hstep
    exact .count hn

/-- A reflexive relation that holds at the node set holds at every node. -/
theorem setNode_related {R : ObLCLNode κ → ObLCLNode κ → Prop} (hrefl : ∀ n, R n n) {other : κ}
    {m m' n' : ObLCLNode κ} (hm : s.node other = some m) (hsame : R m m')
    (hn' : (s.setNode other m').node key = some n') : ∃ n, s.node key = some n ∧ R n n' := by
  by_cases heq : key = other
  · subst heq
    rw [s.setNode_node_self] at hn'
    cases hn'
    exact ⟨m, hm, hsame⟩
  · rw [s.setNode_node_of_ne heq] at hn'
    exact ⟨n', hn', hrefl n'⟩

/-- Only a call of `detect_callback_` changes a block list. -/
theorem Smooth.node_of {p : Nat} (hstep : Smooth p s s') {n' : ObLCLNode κ}
    (hn' : s'.node key = some n') :
    ∃ n, s.node key = some n ∧ n'.selfKey = n.selfKey ∧ n'.blockList ⊆ n.blockList ∧
      (n'.blockList = n.blockList ∨
        ∃ collected, s'.detected = (key, collected) :: s.detected) := by
  have hset : ∀ {other : κ} {m m' : ObLCLNode κ}, s.node other = some m →
      m'.selfKey = m.selfKey ∧ m'.blockList = m.blockList →
      (s.setNode other m').node key = some n' → ∃ n, s.node key = some n ∧
        n'.selfKey = n.selfKey ∧ n'.blockList ⊆ n.blockList ∧ (n'.blockList = n.blockList ∨
          ∃ collected, s'.detected = (key, collected) :: s.detected) := by
    intro other m m' hm hsame hn'
    obtain ⟨n, hn, hself, hlist⟩ := setNode_related
      (R := fun m m' => m'.selfKey = m.selfKey ∧ m'.blockList = m.blockList)
      (fun _ => ⟨rfl, rfl⟩) hm hsame hn'
    exact ⟨n, hn, hself, hlist ▸ List.Subset.refl _, .inl hlist⟩
  have hupdate : ∀ (m : ObLCLNode κ) (now : Nat), (m.updateLclPeriod now).selfKey = m.selfKey ∧
      (m.updateLclPeriod now).blockList = m.blockList := by
    intro m now
    unfold ObLCLNode.updateLclPeriod
    split_ifs <;> exact ⟨rfl, rfl⟩
  have hprocessed : ∀ (m m' : ObLCLNode κ) (lclv : Int) (label : ObLCLLabel) (flag : Bool),
      m.processLclsState lclv label = (m', flag) →
      m'.selfKey = m.selfKey ∧ m'.blockList = m.blockList := by
    intro m m' lclv label flag hprocess
    obtain rfl : (m.processLclsState lclv label).1 = m' := by rw [hprocess]
    rcases m.processLclsState_cases lclv label with ⟨-, heq⟩ | ⟨-, hcases⟩
    · rw [heq]
      exact ⟨rfl, rfl⟩
    · rcases hcases with ⟨-, -, heq⟩ | ⟨-, -, heq⟩ | ⟨-, -, heq⟩ | ⟨-, -, heq⟩ <;>
        · rw [heq]
          exact ⟨rfl, rfl⟩
  cases hstep with
  | timer hm hphase | receive hmessage hm hphase => exact hset hm (hupdate _ _) hn'
  | drop | report | push | post | ignore | forward =>
    exact ⟨n', hn', rfl, List.Subset.refl _, .inl rfl⟩
  | process htask hm hphase hprocess | detectedFlag htask hm hphase hprocess =>
    exact hset hm (hprocessed _ _ _ _ _ hprocess) hn'
  | @detect _ dest collected m m' hmessage hm hcomplete hlowest hm' =>
    rcases hm' with rfl | rfl
    · exact hset hm ⟨rfl, rfl⟩ hn'
    by_cases heq : key = dest
    · subst heq
      obtain rfl := Option.some_inj.mp ((s.setNode_node_self _ _).symm.trans hn')
      obtain ⟨rest, hsub, heq⟩ := m.activatePeer_eq collected
      exact ⟨m, hm, by rw [heq], by rw [heq]; exact hsub, .inr ⟨collected, rfl⟩⟩
    · exact ⟨n', (s.setNode_node_of_ne heq _).symm.trans hn', rfl, List.Subset.refl _, .inl rfl⟩
  | count hm =>
    refine hset hm ?_ hn'
    exact ⟨rfl, rfl⟩

theorem Smooth.detected_subset {p : Nat} (hstep : Smooth p s s') : s.detected ⊆ s'.detected := by
  cases hstep with
  | detect => exact subset_cons_self _ _
  | timer | drop | process | detectedFlag | report | push | post | receive | ignore | forward
  | count => exact List.Subset.refl _

/-! Where the messages and the tasks of a smooth step come from. -/

section

variable {p : Nat} {key dest : κ} {dests : List κ} {lclv : Int} {label : ObLCLLabel} {sendTs : Nat}

theorem Smooth.mem_queue (hstep : Smooth p s s')
    (hmem : .lclState dest lclv label sendTs ∈ s'.queue) :
    .lclState dest lclv label sendTs ∈ s.queue ∨ sendTs / phaseTime = 2 * p + 1 ∧
      ∃ key rest, .broadcast key (dest :: rest) lclv label ∈ s.tasks := by
  cases hstep with
  | timer | drop | process | detectedFlag | push | count => exact .inl hmem
  | report => exact .inl (by simpa using hmem)
  | post htask hphase =>
    rcases mem_append.mp hmem with hold | hnew
    · exact .inl hold
    · obtain ⟨rfl, rfl, rfl, rfl⟩ : dest = _ ∧ lclv = _ ∧ label = _ ∧ sendTs = _ := by
        simpa using hnew
      exact .inr ⟨hphase, _, _, mem_of_getElem? htask⟩
  | receive | ignore | detect => exact .inl (mem_of_mem_eraseIdx hmem)
  | forward =>
    exact .inl (mem_of_mem_eraseIdx (by simpa using hmem))

/-- How a task of the state after a step came about. -/
inductive TaskOrigin (p : Nat) (s s' : LclState κ) : Task κ → Prop where
  | kept {task : Task κ} (hold : task ∈ s.tasks) : TaskOrigin p s s' task
  | timer {key : κ} {n : ObLCLNode κ} {now : Nat} (hn : s.node key = some n)
      (hnow : now / phaseTime = 2 * p + 1) (hn' : s'.node key = some (n.updateLclPeriod now)) :
      TaskOrigin p s s' (.push key)
  | received {key : κ} {lclv : Int} {label : ObLCLLabel} {sendTs now : Nat} {n : ObLCLNode κ}
      (hqueued : .lclState key lclv label sendTs ∈ s.queue) (hn : s.node key = some n)
      (hnow : now / phaseTime = 2 * p + 1) (hn' : s'.node key = some (n.updateLclPeriod now)) :
      TaskOrigin p s s' (.lclState key lclv label sendTs)
  | pushed {key : κ} {n : ObLCLNode κ} (hpush : .push key ∈ s.tasks) (hn : s.node key = some n) :
      TaskOrigin p s s' (.broadcast key n.blockList n.lclv n.publicLabel)
  | posted {key dest : κ} {dests : List κ} {lclv : Int} {label : ObLCLLabel}
      (hold : .broadcast key (dest :: dests) lclv label ∈ s.tasks) :
      TaskOrigin p s s' (.broadcast key dests lclv label)
  | report {key : κ} : TaskOrigin p s s' (.report key)

omit [DecidableEq κ] in
theorem TaskOrigin.of_cons {i : Nat} {new : Task κ} (hnew : TaskOrigin p s s' new)
    (hmem : task ∈ new :: s.tasks.eraseIdx i) : TaskOrigin p s s' task := by
  rcases mem_cons.mp hmem with rfl | hold
  · exact hnew
  · exact .kept (mem_of_mem_eraseIdx hold)

section

variable (hstep : Smooth p s s')

include hstep

theorem Smooth.taskOrigin (hmem : task ∈ s'.tasks) :
    TaskOrigin p s s' task := by
  cases hstep with
  | timer hn hphase =>
    rcases mem_cons.mp hmem with rfl | hold
    · exact .timer hn hphase (s.setNode_node_self _ _)
    · exact .kept hold
  | drop | process | report => exact .kept (mem_of_mem_eraseIdx hmem)
  | detectedFlag => exact .of_cons .report hmem
  | push htask hn => exact .of_cons (.pushed (mem_of_getElem? htask) hn) hmem
  | post htask => exact .of_cons (.posted (mem_of_getElem? htask)) hmem
  | receive hmessage hn hphase =>
    rcases mem_cons.mp hmem with rfl | hold
    · exact .received (mem_of_getElem? hmessage) hn hphase (s.setNode_node_self _ _)
    · exact .kept hold
  | ignore | detect | forward | count => exact .kept hmem

/-- `last_send_cycle_info_period_` changes only with `detected_flag`. -/
theorem Smooth.started_cases :
    (s'.started = s.started ∧ ∀ key n', s'.node key = some n' →
        ∃ n, s.node key = some n ∧ n'.lastSendCycleInfoPeriod = n.lastSendCycleInfoPeriod) ∨
      ∃ key lclv label sendTs n n', .lclState key lclv label sendTs ∈ s.tasks ∧
        s.node key = some n ∧ sendTs / phaseTime = 2 * p + 1 ∧
        n.processLclsState lclv label = (n', true) ∧
        s'.started = (key, n.lclPeriod) :: s.started ∧ s'.node = (s.setNode key n').node := by
  have hset := fun key => @setNode_related κ key s _
    (fun m m' => m'.lastSendCycleInfoPeriod = m.lastSendCycleInfoPeriod) fun _ => rfl
  have hkeep : ∀ key n', s.node key = some n' →
      ∃ n, s.node key = some n ∧ n'.lastSendCycleInfoPeriod = n.lastSendCycleInfoPeriod :=
    fun _ n' hn' => ⟨n', hn', rfl⟩
  cases hstep with
  | timer hn hphase | receive hmessage hn hphase =>
    exact .inl ⟨rfl, fun _ _ => hset _ hn (ObLCLNode.lastSend_updateLclPeriod _ _)⟩
  | drop | report | push | post | ignore | forward => exact .inl ⟨rfl, hkeep⟩
  | @process _ _ lclv label _ n m htask hn hphase hprocess =>
    refine .inl ⟨rfl, fun _ _ => hset _ hn ?_⟩
    rcases n.lastSend_processLclsState lclv label with ⟨hflag, -⟩ | ⟨-, hsame⟩
    · simp [hprocess] at hflag
    · rw [hprocess] at hsame
      exact hsame
  | detectedFlag htask hn hphase hprocess =>
    exact .inr ⟨_, _, _, _, _, _, mem_of_getElem? htask, hn, hphase, hprocess, rfl, rfl⟩
  | detect hmessage hn hcomplete hlowest hm =>
    refine .inl ⟨rfl, fun _ _ => hset _ hn ?_⟩
    rcases hm with rfl | rfl
    · rfl
    · exact ObLCLNode.lastSend_activatePeer _ _
  | count hn =>
    refine .inl ⟨rfl, fun _ _ => hset _ hn ?_⟩
    rfl

theorem Smooth.started_subset : s.started ⊆ s'.started := by
  rcases hstep.started_cases with ⟨heq, -⟩ | ⟨_, _, _, _, _, _, -, -, -, -, heq, -⟩
  · rw [heq]
    exact List.Subset.refl _
  · rw [heq]
    exact subset_cons_self _ _

end

end

end LclState

namespace Routes.PhaseInv

open LclState

variable {g : Routes κ} {top : Int} {p : Nat} {s s' : LclState κ} {n : ObLCLNode κ}

theorem member_of (h : g.PhaseInv top p s) (hkey : key ∈ g.members)
    (hn : s.node key = some n) : g.Member top p key n := by
  obtain ⟨m, hm, hmember⟩ := h.member key hkey
  exact Option.some_inj.mp (hm.symm.trans hn) ▸ hmember

theorem count_eq (hcount : n.countDownAllowDetect = 0) :
    { n with countDownAllowDetect := n.countDownAllowDetect - 1 } = n := by
  cases n
  simp_all

variable [DecidableEq κ]

section

variable (h : g.PhaseInv top p s)

include h

/-- The members follow `NodeStep`. -/
theorem node_step (hstep : Smooth p s s')
    (hkey : key ∈ g.members) (hn : s.node key = some n) :
    ∃ n', s'.node key = some n' ∧ g.NodeStep top p key n n' := by
  have hmember := h.member_of hkey hn
  -- A step sets at most one node; what it does to another key is nothing.
  have hset : ∀ (other : κ) (m m' : ObLCLNode κ), s.node other = some m →
      (other = key → g.NodeStep top p key m m') →
      ∃ n', (s.setNode other m').node key = some n' ∧ g.NodeStep top p key n n' := by
    intro other m m' hm hnode
    by_cases heq : other = key
    · subst heq
      obtain rfl := Option.some_inj.mp (hn.symm.trans hm)
      exact ⟨m', s.setNode_node_self other m', hnode rfl⟩
    · exact ⟨n, (s.setNode_node_of_ne (Ne.symm heq) m').trans hn, .refl⟩
  cases hstep with
  | timer hm hphase | receive hmessage hm hphase => exact hset _ _ _ hm fun _ => .update _ hphase
  | drop | report | push | post | ignore | forward => exact ⟨n, hn, .refl⟩
  | process htask hm hphase hprocess | detectedFlag htask hm hphase hprocess =>
    refine hset _ _ _ hm fun heq => ?_
    subst heq
    exact .of_process hprocess
      (h.received _ _ _ _ (mem_of_getElem? htask) hkey hphase).1
  | @detect _ _ _ m m' hmessage hm hcomplete hlowest hn' =>
    refine hset _ _ _ hm fun heq => ?_
    subst heq
    obtain rfl := Option.some_inj.mp (hn.symm.trans hm)
    rcases hn' with rfl | rfl
    · exact .refl
    obtain ⟨rest, hsub, heq⟩ := n.activatePeer_eq _
    rw [heq]
    exact .activate rest hsub
  | count hm =>
    refine hset _ _ _ hm fun heq => ?_
    subst heq
    obtain rfl := Option.some_inj.mp (hn.symm.trans hm)
    rw [count_eq hmember.allowed]
    exact .refl

theorem lclPeriod_step (hstep : Smooth p s s')
    (hkey : key ∈ g.members) (hperiod : ∀ n, s.node key = some n → n.lclPeriod = p) :
    ∀ n', s'.node key = some n' → n'.lclPeriod = p := by
  intro n' hn'
  obtain ⟨n, hn, hmember⟩ := h.member key hkey
  obtain ⟨m, hm, hnode⟩ := h.node_step hstep hkey hn
  obtain rfl := Option.some_inj.mp (hm.symm.trans hn')
  exact hmember.lclPeriod_step hkey hnode (hperiod n hn)

theorem step (hstep : Smooth p s s') : g.PhaseInv top p s' where
  selfKey := by
    intro key n' hn'
    obtain ⟨n, hn, hself, -⟩ := hstep.node_of hn'
    exact hself.trans (h.selfKey key n hn)
  member := by
    intro key hkey
    obtain ⟨n, hn, hmember⟩ := h.member key hkey
    obtain ⟨n', hn', hnode⟩ := h.node_step hstep hkey hn
    exact ⟨n', hn', hmember.step hkey hnode⟩
  outside := by
    intro key n' hkey hn' dest hdest hmem
    obtain ⟨n, hn, -, hblock, -⟩ := hstep.node_of hn'
    exact h.outside key n hkey hn dest hdest (hblock hmem)
  queued := by
    intro dest lclv label sendTs hmem hdest hphase
    rcases hstep.mem_queue hmem with hold | ⟨-, key, rest, htask⟩
    · exact h.queued dest lclv label sendTs hold hdest hphase
    · exact h.broadcast key _ lclv label htask dest mem_cons_self hdest
  received := by
    intro key lclv label sendTs hmem hkey hphase
    cases hstep.taskOrigin hmem with
    | kept hold =>
      obtain ⟨hpayload, hperiod⟩ := h.received key lclv label sendTs hold hkey hphase
      exact ⟨hpayload, h.lclPeriod_step hstep hkey hperiod⟩
    | received hqueued hn hnow hn' =>
      refine ⟨h.queued key lclv label sendTs hqueued hkey hphase, fun m hm => ?_⟩
      obtain rfl := Option.some_inj.mp (hn'.symm.trans hm)
      exact ((h.member_of hkey hn).updateLclPeriod hkey hnow).2
  pushing := by
    intro key hmem hkey
    cases hstep.taskOrigin hmem with
    | kept hold => exact h.lclPeriod_step hstep hkey (h.pushing key hold hkey)
    | timer hn hnow hn' =>
      intro m hm
      obtain rfl := Option.some_inj.mp (hn'.symm.trans hm)
      exact ((h.member_of hkey hn).updateLclPeriod hkey hnow).2
  broadcast := by
    intro key dests lclv label hmem dest hdest hmember
    cases hstep.taskOrigin hmem with
    | kept hold => exact h.broadcast key dests lclv label hold dest hdest hmember
    | posted hold =>
      exact h.broadcast key _ lclv label hold dest (mem_cons_of_mem _ hdest) hmember
    | pushed hpush hn =>
      have hkey : key ∈ g.members := by
        by_contra hkey
        exact h.outside key _ hkey hn dest hmember hdest
      have hnode := h.member_of hkey hn
      exact ⟨hnode.lclv_le, g.sent_of_held hkey hmember (hnode.blockList hdest)
        (hnode.publicLabel (h.pushing key hpush hkey _ hn)).1⟩
  sent := by
    intro key n' hkey hn' hlast
    have hold : ∀ n, s.node key = some n → n.lastSendCycleInfoPeriod = p →
        (key, p) ∈ s'.started := fun n hn hsent =>
      hstep.started_subset (h.sent key n hkey hn hsent)
    rcases hstep.started_cases with ⟨-, hsame⟩ |
      ⟨other, lclv, label, sendTs, m, m', -, -, -, hprocess, hstarted, hnode⟩
    · obtain ⟨n, hn, hsame⟩ := hsame key n' hn'
      exact hold n hn (hsame.symm.trans hlast)
    rw [hnode] at hn'
    by_cases heq : key = other
    · subst heq
      rw [s.setNode_node_self] at hn'
      cases hn'
      rcases m.lastSend_processLclsState lclv label with ⟨-, -, hset⟩ | ⟨hflag, -⟩
      · rw [hprocess] at hset
        rw [hstarted, ← hset, hlast]
        exact mem_cons_self
      · simp [hprocess] at hflag
    · rw [s.setNode_node_of_ne heq] at hn'
      exact hold n' hn' hlast

end

end Routes.PhaseInv

end SeekDB.Lcl
