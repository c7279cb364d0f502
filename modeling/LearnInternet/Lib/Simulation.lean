import LearnInternet.Lib.Runs

/-!
Two levels of one machine: what an observer sees of a run, the rule by which a machine with fewer
events makes the same observations, and goals that stay in reach.
-/

namespace Runs

section Simulation

variable {σ ε φ α η ψ : Type} {step : σ → ε → Except φ σ}
  (abstractStep : α → η → Except ψ α) (observe : σ → ε → List η)

def observed (step : σ → ε → Except φ σ) (state : σ) : List ε → List η
  | [] => []
  | event :: events =>
      match step state event with
      | .error _ => []
      | .ok next => observe state event ++ observed step next events

variable {abstractStep observe}

theorem observed_cons {state next : σ} {event : ε} (stepped : step state event = .ok next)
    (events : List ε) :
    observed observe step state (event :: events) =
      observe state event ++ observed observe step next events := by
  rw [observed, stepped]

theorem mem_observed {state : σ} {events : List ε} {seen : η}
    (member : seen ∈ observed observe step state events) :
    ∃ event ∈ events, ∃ before, seen ∈ observe before event := by
  induction events generalizing state with
  | nil => cases member
  | cons event events ih =>
      simp only [observed] at member
      split at member
      · cases member
      · rename_i next stepped
        rcases List.mem_append.mp member with here | later
        · exact ⟨event, by simp, state, here⟩
        · obtain ⟨other, inside, before, there⟩ := ih later
          exact ⟨other, by simp [inside], before, there⟩

theorem run_append_of_ok {state middle last : σ} {before after : List ε}
    (earlier : run step state before = .ok middle) (later : run step middle after = .ok last) :
    run step state (before ++ after) = .ok last := by
  rw [run_append, earlier]
  exact later

theorem run_refines {relates : σ → α → Prop}
    (refines : ∀ state abstract event next, relates state abstract → step state event = .ok next →
      ∃ later, run abstractStep abstract (observe state event) = .ok later ∧ relates next later)
    {events : List ε} {state last : σ} {abstract : α} (related : relates state abstract)
    (ran : run step state events = .ok last) :
    ∃ final, run abstractStep abstract (observed observe step state events) = .ok final ∧
      relates last final := by
  induction events generalizing state abstract with
  | nil =>
      cases ran
      exact ⟨abstract, rfl, related⟩
  | cons event events ih =>
      obtain ⟨next, stepped, ran⟩ := run_cons_ok ran
      obtain ⟨later, matched, nextRelated⟩ := refines state abstract event next related stepped
      obtain ⟨final, follows, lastRelated⟩ := ih nextRelated ran
      rw [observed_cons stepped]
      exact ⟨final, run_append_of_ok matched follows, lastRelated⟩

end Simulation

theorem run_permitted {σ ε φ : Type} {step : σ → ε → Except φ σ} {allowed : σ → ε → Prop}
    {motive : List ε → σ → Prop} {state last : σ} {events : List ε}
    (keeps : ∀ events state event next, motive events state → allowed state event →
      step state event = .ok next → motive (events ++ [event]) next)
    (start : motive [] state) (permits : Permits step allowed state events)
    (ran : run step state events = .ok last) : motive events last := by
  suffices from_any : ∀ before, motive before state → motive (before ++ events) last by
    simpa using from_any [] start
  clear start
  induction events generalizing state with
  | nil =>
      intro before held
      cases ran
      simpa using held
  | cons event events ih =>
      intro before held
      obtain ⟨next, stepped, ran⟩ := run_cons_ok ran
      have later := ih (permits.2 next stepped) ran (before ++ [event])
        (keeps before state event next held permits.1 stepped)
      simpa using later

section Reach

variable {σ ε φ : Type} {step : σ → ε → Except φ σ} {allowed : σ → ε → Prop}
  {goal middle : σ → Prop}

def CanReach (step : σ → ε → Except φ σ) (allowed : σ → ε → Prop) (goal : σ → Prop) (state : σ) :
    Prop :=
  ∃ events last, Permits step allowed state events ∧ run step state events = .ok last ∧ goal last

theorem permits_append {state next : σ} {before after : List ε}
    (permits : Permits step allowed state before) (ran : run step state before = .ok next)
    (later : Permits step allowed next after) : Permits step allowed state (before ++ after) := by
  induction before generalizing state with
  | nil =>
      cases ran
      exact later
  | cons event before ih =>
      obtain ⟨stepped, made, ran⟩ := run_cons_ok ran
      rw [List.cons_append, permits_cons made]
      exact ⟨permits.1, ih (permits.2 stepped made) ran⟩

theorem CanReach.here {state : σ} (holds : goal state) : CanReach step allowed goal state :=
  ⟨[], state, trivial, rfl, holds⟩

theorem CanReach.after {state next : σ} {event : ε} (permitted : allowed state event)
    (stepped : step state event = .ok next) (later : CanReach step allowed goal next) :
    CanReach step allowed goal state := by
  obtain ⟨events, last, permits, ran, holds⟩ := later
  refine ⟨event :: events, last, ?_, ?_, holds⟩
  · rw [permits_cons stepped]
    exact ⟨permitted, permits⟩
  · rw [run_cons stepped]
    exact ran

theorem CanReach.trans {state : σ} (first : CanReach step allowed middle state)
    (second : ∀ state, middle state → CanReach step allowed goal state) :
    CanReach step allowed goal state := by
  obtain ⟨before, between, permits, ran, holds⟩ := first
  obtain ⟨after, last, later, ranLater, lastHolds⟩ := second between holds
  exact ⟨before ++ after, last, permits_append permits ran later, run_append_of_ok ran ranLater,
    lastHolds⟩

theorem CanReach.mono {other : σ → Prop} {state : σ} (reach : CanReach step allowed goal state)
    (gives : ∀ state, goal state → other state) : CanReach step allowed other state :=
  reach.trans fun _ holds => .here (gives _ holds)

/-- A goal is in reach where from each state it, or a smaller state, is. -/
theorem CanReach.of_variant (inv : σ → Prop) (variant : σ → Nat)
    (descends : ∀ state, inv state → CanReach step allowed
      (fun next => goal next ∨ inv next ∧ variant next < variant state) state)
    {state : σ} (start : inv state) : CanReach step allowed goal state := by
  induction measured : variant state using Nat.strongRecOn generalizing state with
  | ind measure ih =>
      apply (descends state start).trans
      rintro next (done | ⟨nextInv, smaller⟩)
      · exact .here done
      · exact ih (variant next) (measured ▸ smaller) nextInv rfl

theorem run_spends {inv : σ → Prop} {cost : σ → Nat} {events : List ε} {state last : σ}
    (spends : ∀ state event next, inv state → allowed state event → step state event = .ok next →
      inv next ∧ cost next < cost state)
    (start : inv state) (permits : Permits step allowed state events)
    (ran : run step state events = .ok last) :
    inv last ∧ events.length + cost last ≤ cost state := by
  induction events generalizing state with
  | nil =>
      cases ran
      exact ⟨start, by simp⟩
  | cons event events ih =>
      obtain ⟨next, stepped, ran⟩ := run_cons_ok ran
      obtain ⟨nextInv, less⟩ := spends state event next start permits.1 stepped
      obtain ⟨lastInv, rest⟩ := ih nextInv (permits.2 next stepped) ran
      refine ⟨lastInv, ?_⟩
      rw [List.length_cons]
      omega

end Reach

end Runs
