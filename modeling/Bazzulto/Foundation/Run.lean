/-
  Foundation/Run.lean --- runs of a partial step function, and the rules that
  carry a fact from one step to a whole run.

  The subsystems of the kernel are modelled as step functions
  `State → Action → Option State`: `none` says that the action is not enabled in
  that state.  A run is a list of actions.  `Along P` says that `P` holds at
  every step of a run, of the state in which the action is taken; it is the one
  shape used both for the conditions a run is required to meet and for the
  properties that are then proved of it.

  Nothing in this file mentions the kernel.
-/
import Mathlib.Data.List.Basic

set_option autoImplicit false

namespace Bazzulto.Foundation

open List Option

variable {State Action : Type*} {state next : State} {action : Action} {rest : List Action}
  {P Q G : State → Action → Prop} {I : State → Prop}

/-- Execute a list of actions from left to right.  The result is `none` as soon
as one of them is not enabled. -/
def run (step : State → Action → Option State) :
    State → List Action → Option State
  | state, [] => some state
  | state, action :: rest =>
    match step state action with
    | none => none
    | some next => run step next rest

/-- `P` holds at every step of the run: of the state the action is taken in and
of the action itself.  Nothing is asked after an action that is not enabled. -/
def Along (step : State → Action → Option State) (P : State → Action → Prop) :
    State → List Action → Prop
  | _, [] => True
  | state, action :: rest =>
    P state action ∧
      match step state action with
      | none => True
      | some next => Along step P next rest

variable {step : State → Action → Option State}

/-- A decidable step property can be checked along a concrete run. -/
instance Along.decidable {P : State → Action → Prop}
    [∀ state action, Decidable (P state action)] :
    ∀ (state : State) (actions : List Action), Decidable (Along step P state actions)
  | _, [] => isTrue trivial
  | state, action :: rest =>
    have : Decidable (match step state action with
        | none => True
        | some next => Along step P next rest) :=
      match step state action with
      | none => isTrue trivial
      | some next => Along.decidable next rest
    inferInstanceAs (Decidable (_ ∧ _))

@[simp] theorem run_nil (state : State) : run step state [] = some state := rfl

theorem run_cons (h : step state action = some next) :
    run step state (action :: rest) = run step next rest := by
  simp [run, h]

/-- A run that ends somewhere takes its first action to some state and ends
there from that state. -/
theorem run_cons_eq_some {final : State} (h : run step state (action :: rest) = some final) :
    ∃ next, step state action = some next ∧ run step next rest = some final := by
  cases hstep : step state action with
  | none => simp [run, hstep] at h
  | some next => exact ⟨next, rfl, by simpa [run, hstep] using h⟩

/-- A run of two parts ends where the second part takes the end of the first. -/
theorem run_append {middle : State} {first : List Action} (rest : List Action)
    (h : run step state first = some middle) :
    run step state (first ++ rest) = run step middle rest := by
  induction first generalizing state with
  | nil =>
    simp only [run_nil, some.injEq] at h
    rw [h, nil_append]
  | cons action first ih =>
    obtain ⟨_, hstep, hrest⟩ := run_cons_eq_some h
    rw [cons_append, run_cons hstep]
    exact ih hrest

@[simp] theorem along_nil (P : State → Action → Prop) (state : State) :
    Along step P state [] := trivial

theorem Along.head (h : Along step P state (action :: rest)) : P state action := h.1

theorem Along.tail (h : Along step P state (action :: rest))
    (hstep : step state action = some next) : Along step P next rest := by
  have htail := h.2
  rw [hstep] at htail
  exact htail

theorem Along.imp (himp : ∀ state action, P state action → Q state action) :
    ∀ {state : State} {actions : List Action},
      Along step P state actions → Along step Q state actions
  | _, [], _ => trivial
  | state, action :: rest, h => by
    refine ⟨himp state action h.1, ?_⟩
    cases hstep : step state action with
    | none => trivial
    | some next => exact (h.tail hstep).imp himp

theorem along_cons (hhead : P state action)
    (htail : ∀ next, step state action = some next → Along step P next rest) :
    Along step P state (action :: rest) := by
  refine ⟨hhead, ?_⟩
  cases hstep : step state action with
  | none => trivial
  | some next => exact htail next hstep

/-- Two step properties that agree wherever a third one holds hold along the same runs of
that one. -/
theorem Along.congr (hiff : ∀ state action, G state action → (P state action ↔ Q state action)) :
    ∀ {actions : List Action} {state : State}, Along step G state actions →
      (Along step P state actions ↔ Along step Q state actions) := by
  intro actions
  induction actions with
  | nil => exact fun _ => Iff.rfl
  | cons action rest ih =>
    intro state hguard
    constructor
    · intro h
      refine along_cons ((hiff state action hguard.head).mp h.head) fun next hstep => ?_
      exact (ih (hguard.tail hstep)).mp (h.tail hstep)
    · intro h
      refine along_cons ((hiff state action hguard.head).mpr h.head) fun next hstep => ?_
      exact (ih (hguard.tail hstep)).mpr (h.tail hstep)

/-- The invariant rule for step properties.  Along a run whose steps all meet
`G`, an invariant that `G`-steps preserve holds in every state, and therefore
every property that follows from the invariant and `G`. -/
theorem along_of_invariant
    (hkeep : ∀ state action next, I state → G state action → step state action = some next → I next)
    (hprop : ∀ state action, I state → G state action → P state action) :
    ∀ (actions : List Action) (state : State), I state →
      Along step G state actions → Along step P state actions := by
  intro actions
  induction actions with
  | nil => intro state _ _; trivial
  | cons action rest ih =>
    intro state hinv hguard
    refine along_cons (hprop state action hinv hguard.head) ?_
    intro next hstep
    exact ih next (hkeep state action next hinv hguard.head hstep)
      (hguard.tail hstep)

theorem along_of_all (h : ∀ state action, P state action) :
    ∀ (actions : List Action) (state : State), Along step P state actions
  | [], _ => trivial
  | action :: rest, state => along_cons (h state action) fun next _ => along_of_all h rest next

/-- The same where every step preserves the invariant. -/
theorem along_of_preserved
    (hkeep : ∀ state action next, I state → step state action = some next → I next)
    (hprop : ∀ state action, I state → P state action) (actions : List Action) (state : State)
    (hinv : I state) : Along step P state actions :=
  along_of_invariant (fun state action next hinv _ => hkeep state action next hinv)
    (fun state action hinv _ => hprop state action hinv) actions state hinv
    (along_of_all (fun _ _ => trivial) actions state)

/-- The invariant rule for states: where every step meets `G` and `G`-steps
preserve the invariant, it holds in the state the run ends in. -/
theorem run_invariant
    (hkeep : ∀ state action next, I state → G state action →
      step state action = some next → I next) :
    ∀ (actions : List Action) (state final : State), I state →
      Along step G state actions → run step state actions = some final →
      I final := by
  intro actions
  induction actions with
  | nil =>
    intro state final hinv _ hrun
    simp only [run_nil, some.injEq] at hrun
    exact hrun ▸ hinv
  | cons action rest ih =>
    intro state final hinv hguard hrun
    obtain ⟨next, hstep, hrest⟩ := run_cons_eq_some hrun
    exact ih next final (hkeep state action next hinv hguard.head hstep)
      (hguard.tail hstep) hrest

/-- The rule for total correctness: where every step that meets `G` is enabled and
preserves the invariant, the run ends, and in a state with the invariant. -/
theorem run_total
    (hstep : ∀ state action, I state → G state action →
      ∃ next, step state action = some next ∧ I next) :
    ∀ (actions : List Action) (state : State), I state → Along step G state actions →
      ∃ final, run step state actions = some final ∧ I final := by
  intro actions
  induction actions with
  | nil => exact fun state hinv _ => ⟨state, rfl, hinv⟩
  | cons action rest ih =>
    intro state hinv hguard
    obtain ⟨next, hnext, hinv⟩ := hstep state action hinv hguard.head
    obtain ⟨final, hrun, hfinal⟩ := ih next hinv (hguard.tail hnext)
    exact ⟨final, (run_cons hnext).trans hrun, hfinal⟩

/-- Two step properties that agree in every state satisfying an invariant of
the system hold along the same runs. -/
theorem along_congr_of_invariant
    (hkeep : ∀ state action next, I state → P state action → step state action = some next → I next)
    (hiff : ∀ state action, I state → (P state action ↔ Q state action)) :
    ∀ (actions : List Action) (state : State), I state →
      (Along step P state actions ↔ Along step Q state actions) := by
  intro actions state hinv
  constructor
  · exact along_of_invariant hkeep
      (fun s a hs hp => (hiff s a hs).mp hp) actions state hinv
  refine along_of_invariant ?_
    (fun s a hs hq => (hiff s a hs).mpr hq) actions state hinv
  intro s a next hs hq hstep
  exact hkeep s a next hs ((hiff s a hs).mpr hq) hstep

/-! ## Loops that may stop -/

theorem exists_of_map_eq_ok {ε α β : Type*} {result : Except ε α} {f : α → β} {value : β}
    (h : result.map f = .ok value) : ∃ item, result = .ok item ∧ f item = value := by
  cases result with
  | error stop => cases h
  | ok item => exact ⟨item, rfl, Except.ok.inj h⟩

theorem eq_ok_of_toOption {ε α : Type*} {result : Except ε α} {value : α}
    (h : result.toOption = some value) : result = .ok value := by
  cases result with
  | error stop => cases h
  | ok item => rw [some.inj h]

theorem exists_of_bind_eq_ok {ε α β : Type*} {result : Except ε α} {f : α → Except ε β}
    {value : β} (h : result.bind f = .ok value) :
    ∃ item, result = .ok item ∧ f item = .ok value := by
  cases result with
  | error stop => cases h
  | ok item => exact ⟨item, rfl, h⟩

/-- The invariant rule for a loop with an error exit.  The invariant speaks of the
part of the list that is done. -/
theorem foldlM_invariant {ε σ α : Type*} {body : σ → α → Except ε σ} (I : List α → σ → Prop)
    (hbody : ∀ done item state next, I done state → body state item = .ok next →
      I (done ++ [item]) next) :
    ∀ (items done : List α) (state final : σ), I done state →
      items.foldlM body state = .ok final → I (done ++ items) final := by
  intro items
  induction items with
  | nil =>
    intro done state final hinv hloop
    cases hloop
    rwa [append_nil]
  | cons item items ih =>
    intro done state final hinv hloop
    obtain ⟨next, hitem, hloop⟩ := exists_of_bind_eq_ok hloop
    have hrest := ih (done ++ [item]) next final (hbody done item state next hinv hitem) hloop
    rwa [append_assoc] at hrest

/-- A computation that may stop ends with a value in `P` or stops with an error in
`Q`. -/
inductive Outcome {ε α : Type*} (P : α → Prop) (Q : ε → Prop) : Except ε α → Prop
  | ok {value : α} (h : P value) : Outcome P Q (.ok value)
  | error {stop : ε} (h : Q stop) : Outcome P Q (.error stop)

section

variable {ε α : Type*} {P P' : α → Prop} {Q Q' : ε → Prop} {result : Except ε α}
  (h : Outcome P Q result)
include h

theorem Outcome.of_ok {value : α} (hok : result = .ok value) : P value := by
  rw [hok] at h
  cases h
  assumption

theorem Outcome.of_error {stop : ε} (herror : result = .error stop) : Q stop := by
  rw [herror] at h
  cases h
  assumption

theorem Outcome.imp (hvalue : ∀ value, P value → P' value) (hstop : ∀ stop, Q stop → Q' stop) :
    Outcome P' Q' result := by
  cases h with
  | ok h => exact .ok (hvalue _ h)
  | error h => exact .error (hstop _ h)

end

theorem Outcome.map {ε α β : Type*} {P : β → Prop} {Q : ε → Prop} {f : α → β}
    {result : Except ε α} (h : Outcome (fun value => P (f value)) Q result) :
    Outcome P Q (result.map f) := by
  cases h with
  | ok h => exact .ok h
  | error h => exact .error h

/-- The invariant rule for both exits of a loop. -/
theorem foldlM_outcome {ε σ α : Type*} {body : σ → α → Except ε σ} {I : σ → Prop}
    {Q : ε → Prop} (hbody : ∀ state item, I state → Outcome I Q (body state item)) :
    ∀ (items : List α) (state : σ), I state → Outcome I Q (items.foldlM body state) := by
  intro items
  induction items with
  | nil => exact fun state hinv => .ok hinv
  | cons item items ih =>
    intro state hinv
    rw [foldlM_cons]
    have hstep := hbody state item hinv
    cases hitem : body state item with
    | error stop => exact .error (hstep.of_error hitem)
    | ok next => exact ih next (hstep.of_ok hitem)

end Bazzulto.Foundation
