import Mathlib.Data.List.Induction
import Mathlib.Tactic.Common

/-!
Runs of a machine whose step can fail, and the two ways properties of whole runs are proved: an
invariant of states and the events so far, and a condition on steps that decides a property of
states.
-/

namespace Runs

variable {σ ε φ : Type} (step : σ → ε → Except φ σ)

def run (state : σ) : List ε → Except φ σ
  | [] => .ok state
  | event :: events =>
      match step state event with
      | .error fault => .error fault
      | .ok next => run next events

def Always (holds : σ → Prop) (state : σ) : List ε → Prop
  | [] => holds state
  | event :: events => holds state ∧ ∀ next, step state event = .ok next → Always holds next events

def EachStep (meets : σ → ε → σ → Prop) (state : σ) : List ε → Prop
  | [] => True
  | event :: events =>
      ∀ next, step state event = .ok next → meets state event next ∧ EachStep meets next events

/-- Every event of the run is allowed in the state it meets. -/
def Permits (allowed : σ → ε → Prop) (state : σ) : List ε → Prop
  | [] => True
  | event :: events =>
      allowed state event ∧ ∀ next, step state event = .ok next → Permits allowed next events

variable {step}

theorem run_cons {state next : σ} {event : ε} (stepped : step state event = .ok next)
    (events : List ε) : run step state (event :: events) = run step next events := by
  rw [run, stepped]

theorem always_cons {holds : σ → Prop} {state next : σ} {event : ε}
    (stepped : step state event = .ok next) (events : List ε) :
    Always step holds state (event :: events) ↔ holds state ∧ Always step holds next events := by
  simp [Always, stepped]

theorem eachStep_cons {meets : σ → ε → σ → Prop} {state next : σ} {event : ε}
    (stepped : step state event = .ok next) (events : List ε) :
    EachStep step meets state (event :: events) ↔
      meets state event next ∧ EachStep step meets next events := by
  simp [EachStep, stepped]

theorem permits_cons {allowed : σ → ε → Prop} {state next : σ} {event : ε}
    (stepped : step state event = .ok next) (events : List ε) :
    Permits step allowed state (event :: events) ↔
      allowed state event ∧ Permits step allowed next events := by
  simp [Permits, stepped]

instance decidablePermits {allowed : σ → ε → Prop}
    [∀ state event, Decidable (allowed state event)] (state : σ) :
    (events : List ε) → Decidable (Permits step allowed state events)
  | [] => .isTrue trivial
  | event :: events =>
      match stepped : step state event with
      | .error _ => decidable_of_iff (allowed state event) (by simp [Permits, stepped])
      | .ok next =>
          have : Decidable (Permits step allowed next events) := decidablePermits next events
          decidable_of_iff (allowed state event ∧ Permits step allowed next events)
            (permits_cons stepped events).symm

theorem run_append (state : σ) (before after : List ε) :
    run step state (before ++ after) =
      match run step state before with
      | .error fault => .error fault
      | .ok next => run step next after := by
  induction before generalizing state with
  | nil => rfl
  | cons event before ih =>
      simp only [List.cons_append, run]
      cases step state event with
      | error fault => rfl
      | ok next => exact ih next

theorem run_of_isOk {state : σ} {events : List ε} (runs : (run step state events).isOk = true) :
    ∃ last, run step state events = .ok last := by
  cases ran : run step state events with
  | error fault =>
      rw [ran] at runs
      cases runs
  | ok last => exact ⟨last, rfl⟩

theorem run_cons_ok {state last : σ} {event : ε} {events : List ε}
    (ran : run step state (event :: events) = .ok last) :
    ∃ next, step state event = .ok next ∧ run step next events = .ok last := by
  cases stepped : step state event with
  | error fault =>
      rw [run, stepped] at ran
      cases ran
  | ok next =>
      rw [run_cons stepped] at ran
      exact ⟨next, rfl, ran⟩

theorem run_append_ok {state last : σ} {before after : List ε}
    (ran : run step state (before ++ after) = .ok last) :
    ∃ middle, run step state before = .ok middle ∧ run step middle after = .ok last := by
  rw [run_append] at ran
  cases earlier : run step state before with
  | error fault =>
      rw [earlier] at ran
      cases ran
  | ok middle =>
      rw [earlier] at ran
      exact ⟨middle, rfl, ran⟩

theorem run_invariant {motive : List ε → σ → Prop} {state : σ} (start : motive [] state)
    (keeps : ∀ events state event, motive events state →
      ∃ next, step state event = .ok next ∧ motive (events ++ [event]) next)
    (events : List ε) : ∃ last, run step state events = .ok last ∧ motive events last := by
  induction events using List.reverseRecOn with
  | nil => exact ⟨state, rfl, start⟩
  | append_singleton events event ih =>
      obtain ⟨last, ran, lastHolds⟩ := ih
      obtain ⟨next, stepped, nextHolds⟩ := keeps events last event lastHolds
      refine ⟨next, ?_, nextHolds⟩
      simp only [run_append, ran, run, stepped]

theorem run_history {motive : List ε → σ → Prop} {state last : σ} {events : List ε}
    (start : motive [] state)
    (keeps : ∀ events state event next, motive events state → step state event = .ok next →
      motive (events ++ [event]) next)
    (ran : run step state events = .ok last) : motive events last := by
  induction events using List.reverseRecOn generalizing last with
  | nil =>
      cases ran
      exact start
  | append_singleton events event ih =>
      obtain ⟨before, earlier, ran⟩ := run_append_ok ran
      obtain ⟨next, stepped, ran⟩ := run_cons_ok ran
      cases ran
      exact keeps events before event _ (ih earlier) stepped

theorem run_keeps {inv : σ → Prop} {allowed : ε → Prop}
    (keeps : ∀ state event next, inv state → allowed event → step state event = .ok next → inv next)
    {state last : σ} {events : List ε} (start : inv state) (each : ∀ event ∈ events, allowed event)
    (ran : run step state events = .ok last) : inv last := by
  induction events generalizing state with
  | nil =>
      cases ran
      exact start
  | cons event events ih =>
      have first := each event (by simp)
      have later : ∀ event ∈ events, allowed event := by
        intro other member
        exact each other (by simp [member])
      obtain ⟨next, stepped, ran⟩ := run_cons_ok ran
      exact ih (keeps state event next start first stepped) later ran

theorem Always.head {holds : σ → Prop} {state : σ} {events : List ε}
    (always : Always step holds state events) : holds state := by
  cases events with
  | nil => exact always
  | cons event events => exact always.1

theorem Always.last {holds : σ → Prop} {state last : σ} {events : List ε}
    (always : Always step holds state events) (ran : run step state events = .ok last) :
    holds last := by
  induction events generalizing state with
  | nil =>
      cases ran
      exact always
  | cons event events ih =>
      obtain ⟨next, stepped, ran⟩ := run_cons_ok ran
      exact ih (always.2 next stepped) ran

section Decided

variable {allowed : σ → ε → Prop} {inv holds : σ → Prop} {meets : σ → ε → σ → Prop}

theorem run_of_permits
    (keeps : ∀ state event, inv state → allowed state event →
      ∃ next, step state event = .ok next ∧ inv next)
    (events : List ε) {state : σ} (start : inv state)
    (permits : Permits step allowed state events) :
    ∃ last, run step state events = .ok last ∧ inv last := by
  induction events generalizing state with
  | nil => exact ⟨state, rfl, start⟩
  | cons event events ih =>
      obtain ⟨next, stepped, nextInv⟩ := keeps state event start permits.1
      rw [run_cons stepped]
      exact ih nextInv (permits.2 next stepped)

theorem run_ok_iff_permits (enabled : ∀ state event, (∃ next, step state event = .ok next) ↔
      allowed state event) (events : List ε) {state : σ} :
    (∃ last, run step state events = .ok last) ↔ Permits step allowed state events := by
  induction events generalizing state with
  | nil => exact iff_of_true ⟨state, rfl⟩ trivial
  | cons event events ih =>
      cases stepped : step state event with
      | error fault =>
          have stuck : ¬allowed state event := by
            rw [← enabled, stepped]
            rintro ⟨next, made⟩
            cases made
          refine iff_of_false ?_ fun permits => stuck permits.1
          rw [run, stepped]
          rintro ⟨last, ran⟩
          cases ran
      | ok next =>
          rw [run_cons stepped, permits_cons stepped, ih]
          exact (and_iff_right ((enabled state event).mp ⟨next, stepped⟩)).symm

theorem permits_of_forall {allowed : ε → Prop} {state : σ} {events : List ε}
    (each : ∀ event ∈ events, allowed event) :
    Permits step (fun _ event => allowed event) state events := by
  induction events generalizing state with
  | nil => trivial
  | cons event events ih =>
      refine ⟨each event (by simp), ?_⟩
      intro next _
      exact ih (fun other member => each other (by simp [member]))

/-- For machines that may refuse a step: what follows from the steps that are made. -/
theorem always_of_keeps
    (keeps : ∀ state event next, inv state → allowed state event → step state event = .ok next →
      inv next)
    (gives : ∀ state, inv state → holds state)
    (events : List ε) {state : σ} (start : inv state)
    (permits : Permits step allowed state events) : Always step holds state events := by
  induction events generalizing state with
  | nil => exact gives state start
  | cons event events ih =>
      refine ⟨gives state start, ?_⟩
      intro next stepped
      exact ih (keeps state event next start permits.1 stepped) (permits.2 next stepped)

theorem keeps_of_makes {state next : σ} {event : ε}
    (makes : ∃ made, step state event = .ok made ∧ inv made)
    (stepped : step state event = .ok next) : inv next := by
  obtain ⟨made, madeStepped, madeInv⟩ := makes
  rw [stepped] at madeStepped
  cases madeStepped
  exact madeInv

theorem always_of_permits
    (keeps : ∀ state event, inv state → allowed state event →
      ∃ next, step state event = .ok next ∧ inv next)
    (gives : ∀ state, inv state → holds state)
    (events : List ε) {state : σ} (start : inv state)
    (permits : Permits step allowed state events) : Always step holds state events := by
  apply always_of_keeps _ gives events start permits
  intro state event next held permitted stepped
  exact keeps_of_makes (keeps state event held permitted) stepped

theorem eachStep_of_keeps
    (keeps : ∀ state event next, inv state → allowed state event → step state event = .ok next →
      inv next ∧ meets state event next)
    (events : List ε) {state : σ} (start : inv state)
    (permits : Permits step allowed state events) : EachStep step meets state events := by
  induction events generalizing state with
  | nil => trivial
  | cons event events ih =>
      intro next stepped
      obtain ⟨nextInv, met⟩ := keeps state event next start permits.1 stepped
      exact ⟨met, ih nextInv (permits.2 next stepped)⟩

theorem eachStep_congr {needs : σ → ε → σ → Prop}
    (keeps : ∀ state event next, inv state → step state event = .ok next → inv next)
    (same : ∀ state event next, inv state → step state event = .ok next →
      (meets state event next ↔ needs state event next))
    (events : List ε) {state : σ} (start : inv state) :
    EachStep step meets state events ↔ EachStep step needs state events := by
  induction events generalizing state with
  | nil => exact Iff.rfl
  | cons event events ih =>
      apply forall_congr'
      intro next
      apply forall_congr'
      intro stepped
      exact and_congr (same state event next start stepped)
        (ih (keeps state event next start stepped))

theorem always_iff_eachStep_of_holding
    (keeps : ∀ state event next, inv state → allowed state event → step state event = .ok next →
      holds state → inv next)
    (decides : ∀ state event next, inv state → allowed state event →
      step state event = .ok next → holds state → (holds next ↔ meets state event next))
    (events : List ε) {state : σ} (start : inv state) (startHolds : holds state)
    (permits : Permits step allowed state events) :
    Always step holds state events ↔ EachStep step meets state events := by
  induction events generalizing state with
  | nil => simp [Always, EachStep, startHolds]
  | cons event events ih =>
      constructor
      · intro always next stepped
        have nextHolds := (always.2 next stepped).head
        have nextInv := keeps state event next start permits.1 stepped startHolds
        exact ⟨(decides state event next start permits.1 stepped startHolds).mp nextHolds,
          (ih nextInv nextHolds (permits.2 next stepped)).mp (always.2 next stepped)⟩
      · intro each
        refine ⟨startHolds, ?_⟩
        intro next stepped
        have nextInv := keeps state event next start permits.1 stepped startHolds
        have nextHolds := (decides state event next start permits.1 stepped startHolds).mpr
          (each next stepped).1
        exact (ih nextInv nextHolds (permits.2 next stepped)).mpr (each next stepped).2

theorem always_iff_eachStep_of_keeps
    (keeps : ∀ state event next, inv state → allowed state event → step state event = .ok next →
      inv next)
    (decides : ∀ state event next, inv state → allowed state event →
      step state event = .ok next → holds state → (holds next ↔ meets state event next))
    (events : List ε) {state : σ} (start : inv state) (startHolds : holds state)
    (permits : Permits step allowed state events) :
    Always step holds state events ↔ EachStep step meets state events := by
  apply always_iff_eachStep_of_holding _ decides events start startHolds permits
  intro state event next held permitted stepped _
  exact keeps state event next held permitted stepped

/-- A property that each step keeps exactly when it meets a condition holds throughout a run
exactly when every step meets it. -/
theorem always_iff_eachStep
    (keeps : ∀ state event, inv state → allowed state event →
      ∃ next, step state event = .ok next ∧ inv next)
    (decides : ∀ state event next, inv state → allowed state event →
      step state event = .ok next → holds state → (holds next ↔ meets state event next))
    (events : List ε) {state : σ} (start : inv state) (startHolds : holds state)
    (permits : Permits step allowed state events) :
    Always step holds state events ↔ EachStep step meets state events := by
  apply always_iff_eachStep_of_keeps _ decides events start startHolds permits
  intro state event next held permitted stepped
  exact keeps_of_makes (keeps state event held permitted) stepped

theorem always_and_eachStep_iff {needs : σ → ε → σ → Prop}
    (keeps : ∀ state event next, inv state → holds state → step state event = .ok next → inv next)
    (decides : ∀ state event next, inv state → holds state → step state event = .ok next →
      (holds next ∧ meets state event next ↔ needs state event next))
    (events : List ε) {state : σ} (start : inv state) (startHolds : holds state) :
    Always step holds state events ∧ EachStep step meets state events ↔
      EachStep step needs state events := by
  induction events generalizing state with
  | nil => simp [Always, EachStep, startHolds]
  | cons event events ih =>
      constructor
      · rintro ⟨always, each⟩ next stepped
        have nextHolds := (always.2 next stepped).head
        have nextInv := keeps state event next start startHolds stepped
        exact ⟨(decides state event next start startHolds stepped).mp
            ⟨nextHolds, (each next stepped).1⟩,
          (ih nextInv nextHolds).mp ⟨always.2 next stepped, (each next stepped).2⟩⟩
      · intro each
        have later : ∀ next, step state event = .ok next → meets state event next ∧
            Always step holds next events ∧ EachStep step meets next events := by
          intro next stepped
          obtain ⟨nextHolds, met⟩ :=
            (decides state event next start startHolds stepped).mpr (each next stepped).1
          have nextInv := keeps state event next start startHolds stepped
          exact ⟨met, (ih nextInv nextHolds).mpr (each next stepped).2⟩
        exact ⟨⟨startHolds, fun next stepped => (later next stepped).2.1⟩,
          fun next stepped => ⟨(later next stepped).1, (later next stepped).2.2⟩⟩

theorem run_and_always_iff_eachStep
    (keeps : ∀ state event, inv state → allowed state event →
      ∃ next, step state event = .ok next ∧ inv next)
    (decides : ∀ state event next, inv state → allowed state event →
      step state event = .ok next → holds state → (holds next ↔ meets state event next))
    (events : List ε) {state : σ} (start : inv state) (startHolds : holds state)
    (permits : Permits step allowed state events) :
    (∃ last, run step state events = .ok last) ∧
      (Always step holds state events ↔ EachStep step meets state events) := by
  obtain ⟨last, ran, -⟩ := run_of_permits keeps events start permits
  exact ⟨⟨last, ran⟩, always_iff_eachStep keeps decides events start startHolds permits⟩

theorem permits_and_always_iff {sane wanted : σ → ε → Prop}
    (keeps : ∀ state event, inv state → wanted state event →
      ∃ next, step state event = .ok next ∧ inv next)
    (gives : ∀ state, inv state → holds state)
    (safe : ∀ state event, inv state → wanted state event → sane state event)
    (needs : ∀ state event, inv state → sane state event →
      (∀ next, step state event = .ok next → holds next) → wanted state event)
    (events : List ε) {state : σ} (start : inv state) :
    Permits step sane state events ∧ Always step holds state events ↔
      Permits step wanted state events := by
  constructor
  · rintro ⟨sanely, always⟩
    induction events generalizing state with
    | nil => trivial
    | cons event events ih =>
        have met := needs state event start sanely.1 fun next stepped => (always.2 next stepped).head
        refine ⟨met, ?_⟩
        intro next stepped
        obtain ⟨made, madeStepped, madeInv⟩ := keeps state event start met
        rw [stepped] at madeStepped
        cases madeStepped
        exact ih madeInv (sanely.2 next stepped) (always.2 next stepped)
  · intro permits
    refine ⟨?_, always_of_permits keeps gives events start permits⟩
    induction events generalizing state with
    | nil => trivial
    | cons event events ih =>
        refine ⟨safe state event start permits.1, ?_⟩
        intro next stepped
        obtain ⟨made, madeStepped, madeInv⟩ := keeps state event start permits.1
        rw [stepped] at madeStepped
        cases madeStepped
        exact ih madeInv (permits.2 next stepped)

end Decided

end Runs
