/-
Finite executions of a labelled transition system, recorded with the list of
events they produced, and the induction rules that carry an invariant of the
state, or of the state together with its history, along every execution.
-/
import Mathlib.Data.List.Basic
import Mathlib.Data.List.Induction

universe u v

/-- `Execution Step start events final`: from `start` the system reaches `final`
and produces `events`, oldest first. -/
inductive Execution {State : Type u} {Event : Type v}
    (Step : State → Event → State → Prop) (start : State) :
    List Event → State → Prop
  | refl : Execution Step start [] start
  | snoc {events : List Event} {event : Event} {state next : State} :
      Execution Step start events state → Step state event next →
        Execution Step start (events ++ [event]) next

namespace Execution

variable {State : Type u} {Event : Type v} {Step : State → Event → State → Prop} {start : State}
  {final : State}

theorem of_nil (hrun : Execution Step start [] final) : final = start := by
  generalize hlist : ([] : List Event) = events at hrun
  cases hrun with
  | refl => rfl
  | snoc => simp at hlist

variable {events : List Event}

theorem of_snoc {event : Event} (hrun : Execution Step start (events ++ [event]) final) :
    ∃ state, Execution Step start events state ∧ Step state event final := by
  generalize hlist : events ++ [event] = all at hrun
  cases hrun with
  | refl => simp at hlist
  | snoc hprefix hlast =>
    obtain ⟨rfl, heq⟩ := List.append_inj' hlist rfl
    obtain rfl := List.singleton_inj.mp heq
    exact ⟨_, hprefix, hlast⟩

theorem history_invariant {P : List Event → State → Prop} (hstart : P [] start)
    (hstep : ∀ events event state next, P events state →
      Step state event next → P (events ++ [event]) next)
    (hrun : Execution Step start events final) : P events final := by
  induction hrun with
  | refl => exact hstart
  | snoc _ hlast ih => exact hstep _ _ _ _ ih hlast

theorem invariant {P : State → Prop} (hstart : P start)
    (hstep : ∀ event state next, P state → Step state event next → P next)
    (hrun : Execution Step start events final) : P final :=
  hrun.history_invariant (P := fun _ state => P state) hstart
    (fun _ event state next hinv hnext => hstep event state next hinv hnext)

theorem simulate {State' : Type u} {Step' : State' → Event → State' → Prop}
    {R : State → State' → Prop} {start' : State'} (hstart : R start start')
    (hstep : ∀ state state' event next, R state state' → Step state event next →
      ∃ next', Step' state' event next' ∧ R next next') (hrun : Execution Step start events final) :
    ∃ final', Execution Step' start' events final' ∧ R final final' := by
  induction hrun with
  | refl => exact ⟨start', .refl, hstart⟩
  | snoc _ hlast ih =>
    obtain ⟨state', hrun', hrel⟩ := ih
    obtain ⟨next', hnext, hrel'⟩ := hstep _ _ _ _ hrel hlast
    exact ⟨next', hrun'.snoc hnext, hrel'⟩

theorem of_foldlM {step : State → Event → Option State}
    (hfold : events.foldlM step start = some final) :
    Execution (fun state event next => step state event = some next) start events final := by
  induction events using List.reverseRecOn generalizing final with
  | nil =>
    obtain rfl : start = final := by simpa using hfold
    exact .refl
  | append_singleton events event ih =>
    obtain ⟨state, hstate, hlast⟩ : ∃ state, events.foldlM step start = some state ∧
        step state event = some final := by
      simpa [List.foldlM_append, Option.bind_eq_some_iff] using hfold
    exact (ih hstate).snoc hlast

end Execution
