import LearnInternet.Chat.ThreadPool

/-!
What the thread pool guarantees under every interleaving: each submitted task is taken once and in
order, no worker sleeps over a task, and `KillAll` ends every worker.
-/

namespace LearnInternet.Chat.MyThreadPool

variable {τ : Type}

def pushes (cnt : Nat) : Event τ → List (Option τ)
  | .sendTask task _ => if cnt < 1 then [] else [task]
  | .killAll => List.replicate cnt none
  | _ => []

def pushed (cnt : Nat) (events : List (Event τ)) : List (Option τ) := events.flatMap (pushes cnt)

/-- The tasks submitted to a pool of `cnt` workers; without workers `SendTask` takes none. -/
def submitted (cnt : Nat) (events : List (Event τ)) : List τ :=
  if cnt < 1 then []
  else events.filterMap fun
    | .sendTask task _ => task
    | _ => none

def dequeuedBy (pool : MyThreadPool τ) (worker : Nat) : List (Option τ) :=
  (pool.dequeued.filter (·.1 = worker)).map Prod.snd

def finishedBy (pool : MyThreadPool τ) (worker : Nat) : List τ :=
  (pool.finished.filter (·.1 = worker)).map Prod.snd

def takenBy (pool : MyThreadPool τ) (worker : Nat) : List (Option τ) :=
  (pool.threadList[worker]?).elim [] Thread.taken

theorem pushed_append (cnt : Nat) (events : List (Event τ)) (event : Event τ) :
    pushed cnt (events ++ [event]) = pushed cnt events ++ pushes cnt event := by
  simp [pushed]

theorem filterMap_pushed (cnt : Nat) (events : List (Event τ)) :
    (pushed cnt events).filterMap id = submitted cnt events := by
  induction events with
  | nil => simp [pushed, submitted]
  | cons event events ih =>
      have split : pushed cnt (event :: events) = pushes cnt event ++ pushed cnt events := rfl
      rw [split, List.filterMap_append, ih]
      cases event with
      | sendTask task signalled =>
          simp only [pushes, submitted, List.filterMap_cons]
          by_cases none : cnt < 1
          · simp [none]
          · cases task <;> simp [none]
      | killAll =>
          simp [pushes, submitted]
      | wakeUp worker => simp [pushes, submitted]
      | lock worker => simp [pushes, submitted]
      | finish worker => simp [pushes, submitted]
      | leave worker => simp [pushes, submitted]

structure History (cnt : Nat) (events : List (Event τ)) (pool : MyThreadPool τ) : Prop where
  length_eq : pool.threadList.length = cnt
  pushed_eq : pushed cnt events = pool.dequeued.map Prod.snd ++ pool.taskQueue
  dequeuedBy_eq : ∀ worker,
    pool.dequeuedBy worker = (pool.finishedBy worker).map some ++ pool.takenBy worker

theorem start_history (cnt : Nat) : History cnt [] (start cnt : MyThreadPool τ) where
  length_eq := List.length_replicate
  pushed_eq := rfl
  dequeuedBy_eq := by
    intro worker
    simp only [dequeuedBy, finishedBy, takenBy, start, List.filter_nil, List.map_nil,
      List.nil_append, List.getElem?_replicate]
    split <;> rfl

theorem takenBy_set {pool : MyThreadPool τ} {worker : Nat} {before : Thread τ}
    (present : pool.threadList[worker]? = some before) (after : Thread τ) (other : Nat) :
    (pool.threadList.set worker after)[other]?.elim [] Thread.taken =
      if other = worker then after.taken else pool.takenBy other := by
  have bound : worker < pool.threadList.length := (List.getElem?_eq_some_iff.mp present).1
  split
  · rename_i same
    subst same
    simp [List.getElem?_set_self bound]
  · rename_i differs
    rw [List.getElem?_set_ne (Ne.symm differs)]
    rfl

theorem takenBy_of_present {pool : MyThreadPool τ} {worker : Nat} {thread : Thread τ}
    (present : pool.threadList[worker]? = some thread) : pool.takenBy worker = thread.taken := by
  simp [takenBy, present]

theorem taken_of_contending {thread : Thread τ} (contends : thread.isContending = true) :
    thread.taken = [] := by
  rcases Thread.isContending_iff.mp contends with rfl | rfl <;> rfl

theorem takenBy_set_same {pool : MyThreadPool τ} {worker : Nat} {before after : Thread τ}
    (present : pool.threadList[worker]? = some before) (same : after.taken = before.taken)
    (other : Nat) : (pool.set worker after).takenBy other = pool.takenBy other := by
  refine (takenBy_set present after other).trans ?_
  split
  · rename_i itself
    rw [itself, takenBy_of_present present, same]
  · rfl

theorem History.quiet {cnt : Nat} {events : List (Event τ)} {pool next : MyThreadPool τ}
    {event : Event τ} (history : History cnt events pool)
    (logs : next.dequeued = pool.dequeued ∧ next.finished = pool.finished)
    (length : next.threadList.length = pool.threadList.length)
    (queue : next.taskQueue = pool.taskQueue ++ pushes cnt event)
    (taken : ∀ worker, next.takenBy worker = pool.takenBy worker) :
    History cnt (events ++ [event]) next where
  length_eq := length.trans history.length_eq
  pushed_eq := by
    rw [pushed_append, history.pushed_eq, logs.1, queue, List.append_assoc]
  dequeuedBy_eq := by
    intro worker
    have before := history.dequeuedBy_eq worker
    simp only [dequeuedBy, finishedBy, logs.1, logs.2, taken worker] at before ⊢
    exact before

theorem takenBy_wake {pool : MyThreadPool τ} {threads : List (Thread τ)}
    (change : ∀ worker : Nat, threads[worker]? = pool.threadList[worker]? ∨
      threads[worker]? = (pool.threadList[worker]?).map Thread.wake) (worker : Nat) :
    (threads[worker]?).elim [] Thread.taken = pool.takenBy worker := by
  rcases change worker with same | woken
  · rw [same]
    rfl
  · rw [woken, takenBy]
    cases pool.threadList[worker]? with
    | none => rfl
    | some thread => exact Thread.taken_wake thread

theorem signal_getElem? (threads : List (Thread τ)) (signalled : List Nat) (worker : Nat) :
    (signal threads signalled)[worker]? = threads[worker]? ∨
      (signal threads signalled)[worker]? = (threads[worker]?).map Thread.wake := by
  rw [signal, List.getElem?_mapIdx]
  by_cases chosen : worker ∈ signalled
  · right
    simp [chosen]
  · left
    simp [chosen]

theorem step_history {cnt : Nat} {events : List (Event τ)} {pool next : MyThreadPool τ}
    {event : Event τ} (history : History cnt events pool) (steps : pool.Steps event next) :
    History cnt (events ++ [event]) next := by
  have length := history.length_eq
  cases steps with
  | refuse task signalled none =>
      have empty : cnt < 1 := by simp [← length, none]
      apply history.quiet
      · exact ⟨rfl, rfl⟩
      · rfl
      · simp [pushes, empty]
      · intro worker
        rfl
  | sendTask task signalled some signals =>
      have workers : ¬ cnt < 1 := by
        have pos := List.length_pos_iff.mpr some
        omega
      apply history.quiet
      · exact ⟨rfl, rfl⟩
      · exact List.length_mapIdx
      · simp [pushes, workers]
      · intro worker
        exact takenBy_wake (signal_getElem? _ _) worker
  | killAll =>
      apply history.quiet
      · exact ⟨rfl, rfl⟩
      · exact List.length_map _
      · simp [pushes, length]
      · apply takenBy_wake
        intro worker
        exact .inr (List.getElem?_map)
  | wakeUp worker present =>
      apply history.quiet
      · exact ⟨rfl, rfl⟩
      · exact List.length_set
      · simp [pushes, set]
      · exact takenBy_set_same present rfl
  | wait worker thread present contends empty =>
      apply history.quiet
      · exact ⟨rfl, rfl⟩
      · exact List.length_set
      · simp [pushes, set]
      · exact takenBy_set_same present (taken_of_contending contends).symm
  | leave worker present =>
      apply history.quiet
      · exact ⟨rfl, rfl⟩
      · exact List.length_set
      · simp [pushes, set]
      · exact takenBy_set_same present rfl
  | take worker thread task later present contends queue =>
      have now : (task.elim Thread.leaving Thread.running).taken = [task] := by
        cases task <;> rfl
      constructor
      · exact List.length_set.trans length
      · simp [pushed_append, pushes, history.pushed_eq, queue]
      · intro other
        have before := history.dequeuedBy_eq other
        have after := takenBy_set present (task.elim .leaving .running) other
        simp only [dequeuedBy, finishedBy, takenBy] at before after ⊢
        rw [after, List.filter_append, List.map_append, before]
        by_cases same : other = worker
        · subst same
          simp [present, taken_of_contending contends, now]
        · simp [same, Ne.symm same]
  | finish worker task present =>
      constructor
      · exact List.length_set.trans length
      · simp [pushed_append, pushes, history.pushed_eq, set]
      · intro other
        have before := history.dequeuedBy_eq other
        have after := takenBy_set present .locking other
        simp only [dequeuedBy, finishedBy, takenBy, set] at before after ⊢
        rw [after, before, List.filter_append, List.map_append]
        by_cases same : other = worker
        · subst same
          simp [present, Thread.taken]
        · simp [same, Ne.symm same]

theorem run_history {cnt : Nat} {events : List (Event τ)} {last : MyThreadPool τ}
    (ran : Runs.run step (start cnt) events = .ok last) : History cnt events last := by
  apply Runs.run_history (start_history cnt) _ ran
  intro events pool event next history stepped
  exact step_history history (steps_of_ok stepped)

theorem prefix_of_marker {tasks : List τ} {others before after : List (Option τ)}
    (same : tasks.map some ++ others = before ++ none :: after) :
    ∃ more, before = tasks.map some ++ more ∧ others = more ++ none :: after := by
  rcases List.append_eq_append_iff.mp same with ⟨more, front, back⟩ | ⟨more, front, back⟩
  · exact ⟨more, front, back⟩
  · cases more with
    | nil =>
        refine ⟨[], ?_, back.symm⟩
        rw [List.append_nil] at front ⊢
        exact front.symm
    | cons item more =>
        have marker : none = item := (List.cons.inj back).1
        have member : item ∈ tasks.map some := by simp [front]
        simp [← marker] at member

def Event.Submits : Event τ → Prop
  | .sendTask none _ => False
  | _ => True

theorem pushed_of_submits {cnt : Nat} {events : List (Event τ)}
    (submits : ∀ event ∈ events, Event.Submits event) (alive : .killAll ∉ events) :
    pushed cnt events = (submitted cnt events).map some := by
  induction events with
  | nil => simp [pushed, submitted]
  | cons event events ih =>
      have split : pushed cnt (event :: events) = pushes cnt event ++ pushed cnt events := rfl
      have first := submits event (by simp)
      have later := ih (fun event member => submits event (by simp [member]))
        (fun member => alive (by simp [member]))
      rw [split, later]
      cases event with
      | sendTask task signalled =>
          cases task with
          | none => cases first
          | some task =>
              simp only [pushes, submitted]
              by_cases none : cnt < 1
              · simp [none]
              · simp [none]
      | killAll => simp at alive
      | wakeUp worker => simp [pushes, submitted]
      | lock worker => simp [pushes, submitted]
      | finish worker => simp [pushes, submitted]
      | leave worker => simp [pushes, submitted]

structure RunsOnce (cnt : Nat) (events : List (Event τ)) (pool : MyThreadPool τ) : Prop where
  order : submitted cnt events =
    pool.dequeued.filterMap Prod.snd ++ pool.taskQueue.filterMap id
  each : ∀ worker,
    pool.dequeuedBy worker = (pool.finishedBy worker).map some ++ pool.takenBy worker
  beforeKill : ∀ earlier later taken rest worker, events = earlier ++ .killAll :: later →
    .killAll ∉ earlier → pool.dequeued = taken ++ (worker, none) :: rest →
      submitted cnt earlier <+: taken.filterMap Prod.snd
  atMostOne : ∀ taken rest worker, pool.dequeued = taken ++ (worker, none) :: rest →
    (∀ item, (worker, item) ∉ rest) ∧ ∀ task, pool.threadList[worker]? ≠ some (.running task)

theorem History.atMostOne {cnt : Nat} {events : List (Event τ)} {pool : MyThreadPool τ}
    (history : History cnt events pool) {taken rest : List (Nat × Option τ)} {worker : Nat}
    (dequeued : pool.dequeued = taken ++ (worker, none) :: rest) :
    (∀ item, (worker, item) ∉ rest) ∧
      ∀ task, pool.threadList[worker]? ≠ some (.running task) := by
  have logged := history.dequeuedBy_eq worker
  rw [dequeuedBy, dequeued, List.filter_append, List.filter_cons_of_pos (by simp),
    List.map_append, List.map_cons] at logged
  obtain ⟨more, -, last⟩ := prefix_of_marker logged.symm
  constructor
  · intro item member
    have later : item ∈ (rest.filter (·.1 = worker)).map Prod.snd :=
      List.mem_map.mpr ⟨(worker, item), List.mem_filter.mpr ⟨member, by simp⟩, rfl⟩
    have short : (pool.takenBy worker).length ≤ 1 := by
      rw [takenBy]
      cases pool.threadList[worker]? with
      | none => simp
      | some thread => cases thread <;> simp [Thread.taken]
    have pos := List.length_pos_of_mem later
    rw [last, List.length_append, List.length_cons] at short
    omega
  · intro task running
    rw [takenBy_of_present running] at last
    have marker : none ∈ (Thread.running task).taken := by simp [last]
    simp [Thread.taken] at marker

theorem run_runsOnce (cnt : Nat) (events : List (Event τ)) (last : MyThreadPool τ)
    (submits : ∀ event ∈ events, Event.Submits event)
    (ran : Runs.run step (start cnt) events = .ok last) : RunsOnce cnt events last := by
  have history := run_history ran
  constructor
  · rw [← filterMap_pushed, history.pushed_eq, List.filterMap_append, List.filterMap_map]
    rfl
  · exact history.dequeuedBy_eq
  · rintro earlier later taken rest worker rfl alive dequeued
    have quiet : pushed cnt earlier = (submitted cnt earlier).map some :=
      pushed_of_submits (fun event member => submits event (by simp [member])) alive
    have pushed_eq := history.pushed_eq
    rw [pushed, List.flatMap_append, ← pushed, quiet, dequeued, List.map_append, List.map_cons,
      List.append_assoc, List.cons_append] at pushed_eq
    obtain ⟨more, front, -⟩ := prefix_of_marker pushed_eq
    refine ⟨more.filterMap id, ?_⟩
    have tasks : taken.filterMap Prod.snd = (taken.map Prod.snd).filterMap id := by
      rw [List.filterMap_map]
      rfl
    rw [tasks, front, List.filterMap_append, List.filterMap_map]
    simp
  · intro taken rest worker dequeued
    exact history.atMostOne dequeued

def shift : List (Event String) :=
  [.lock 1, .sendTask (some "first") [1], .lock 0, .sendTask (some "second") [], .lock 1,
    .finish 0, .killAll, .lock 0, .leave 0, .finish 1, .lock 1, .leave 1]

theorem run_runsOnce_shift :
    ∃ last, Runs.run step (start 2) shift = .ok last ∧
      RunsOnce 2 shift last := by
  have runs : (Runs.run step (start 2) shift).isOk = true := by decide +kernel
  obtain ⟨last, ran⟩ := Runs.run_of_isOk runs
  refine ⟨last, ran, run_runsOnce 2 shift last ?_ ran⟩
  simp [shift, Event.Submits]

section Wakeups

def Waits (pool : MyThreadPool τ) : Prop := .waiting ∈ pool.threadList

def contending (pool : MyThreadPool τ) : Nat := pool.threadList.countP Thread.isContending

def live (pool : MyThreadPool τ) : Nat := pool.threadList.countP Thread.isLive

def markers (pool : MyThreadPool τ) : Nat := pool.taskQueue.countP Option.isNone

/-- While a worker waits, each element of the queue has a worker that comes for it; after `KillAll`
each live worker has an exit marker. -/
structure Served (events : List (Event τ)) (pool : MyThreadPool τ) : Prop where
  awaited : pool.Waits → pool.taskQueue.length ≤ pool.contending
  killed : .killAll ∈ events → ¬ pool.Waits ∧ pool.live ≤ pool.markers

theorem start_served (cnt : Nat) : Served [] (start cnt : MyThreadPool τ) where
  awaited := by
    intro _
    exact Nat.zero_le _
  killed := by
    intro member
    cases member

theorem contending_signal {pool : MyThreadPool τ} {signalled : List Nat}
    (signals : Signals pool.threadList signalled) (waits : pool.Waits) :
    pool.contending < (signal pool.threadList signalled).countP Thread.isContending := by
  have waiting : pool.threadList.any Thread.isWaiting = true :=
    List.any_eq_true.mpr ⟨.waiting, waits, rfl⟩
  obtain ⟨worker, chosen, present⟩ := List.any_eq_true.mp (signals waiting)
  have found : pool.threadList[worker]? = some .waiting := by
    cases found : pool.threadList[worker]? with
    | none => simp [found] at present
    | some thread =>
        rw [found] at present
        rw [Thread.isWaiting_iff.mp present]
  apply Counting.countP_mapIdx_lt _ found rfl
  · simp [chosen, Thread.wake, Thread.isContending]
  · intro index thread contends
    split
    · simp [contends]
    · exact contends

theorem waits_of_signal {pool : MyThreadPool τ} {signalled : List Nat}
    (waiting : .waiting ∈ signal pool.threadList signalled) : pool.Waits := by
  obtain ⟨worker, bound, same⟩ := List.mem_mapIdx.mp waiting
  split at same
  · exact absurd same (Thread.wake_ne_waiting _)
  · rw [Waits, ← same]
    exact List.getElem_mem bound

theorem live_signal (threads : List (Thread τ)) (signalled : List Nat) :
    (signal threads signalled).countP Thread.isLive = threads.countP Thread.isLive := by
  apply Counting.countP_mapIdx_eq
  intro index thread
  split
  · exact Thread.isLive_wake thread
  · rfl

theorem not_waits_wake (threads : List (Thread τ)) : .waiting ∉ threads.map Thread.wake := by
  intro waiting
  obtain ⟨thread, -, same⟩ := List.mem_map.mp waiting
  exact Thread.wake_ne_waiting thread same

theorem waits_of_set {pool : MyThreadPool τ} {worker : Nat} {thread : Thread τ}
    (differs : thread ≠ .waiting) (waiting : .waiting ∈ pool.threadList.set worker thread) :
    pool.Waits := by
  rcases List.mem_or_eq_of_mem_set waiting with old | new
  · exact old
  · exact absurd new.symm differs

theorem step_served {events : List (Event τ)} {pool next : MyThreadPool τ} {event : Event τ}
    (served : Served events pool) (steps : pool.Steps event next) :
    Served (events ++ [event]) next := by
  cases steps with
  | refuse task signalled none =>
      constructor
      · exact served.awaited
      · intro member
        exact served.killed (by simpa using member)
  | sendTask task signalled some signals =>
      constructor
      · intro waiting
        have waits := waits_of_signal waiting
        have bound := served.awaited waits
        have more := contending_signal signals waits
        simp only [contending, List.length_append, List.length_singleton] at bound more ⊢
        omega
      · intro member
        have killed := served.killed (by simpa using member)
        refine ⟨fun waiting => killed.1 (waits_of_signal waiting), ?_⟩
        have bound := killed.2
        simp only [live, markers, live_signal, List.countP_append] at bound ⊢
        omega
  | killAll =>
      constructor
      · intro waiting
        exact absurd waiting (not_waits_wake _)
      · intro _
        refine ⟨not_waits_wake _, ?_⟩
        have bound : (pool.threadList.map Thread.wake).countP Thread.isLive ≤
            (pool.threadList.map Thread.wake).length := List.countP_le_length
        simp only [live, markers, List.countP_append, List.countP_replicate, Option.isNone_none,
          if_true, List.length_map] at bound ⊢
        omega
  | wakeUp worker present =>
      constructor
      · intro waiting
        have bound := served.awaited (waits_of_set (by simp) waiting)
        have more := Counting.countP_set (p := Thread.isContending) present .woken
        simp only [contending, set, Thread.isContending] at bound more ⊢
        simp only [Bool.toNat_false, Bool.toNat_true] at more
        omega
      · intro member
        have killed := served.killed (by simpa using member)
        exact absurd (List.mem_of_getElem? present) killed.1
  | wait worker thread present contends empty =>
      constructor
      · intro _
        simp [set, empty]
      · intro member
        have bound := (served.killed (by simpa using member)).2
        have alive : 0 < pool.live := by
          apply List.countP_pos_iff.mpr
          refine ⟨thread, List.mem_of_getElem? present, ?_⟩
          rcases Thread.isContending_iff.mp contends with rfl | rfl <;> rfl
        simp only [markers, empty, List.countP_nil] at bound
        omega
  | take worker thread task later present contends queue =>
      have busy : task.elim Thread.leaving Thread.running ≠ Thread.waiting := by
        cases task <;> simp
      constructor
      · intro waiting
        have bound := served.awaited (waits_of_set busy waiting)
        have fewer := Counting.countP_set (p := Thread.isContending) present
          (task.elim .leaving .running)
        simp only [contending, queue, List.length_cons, contends, Bool.toNat_true]
          at bound fewer ⊢
        omega
      · intro member
        have killed := served.killed (by simpa using member)
        refine ⟨fun waiting => killed.1 (waits_of_set busy waiting), ?_⟩
        have bound := killed.2
        have moved := Counting.countP_set (p := Thread.isLive) present
          (task.elim .leaving .running)
        have alive : thread.isLive = true := by
          rcases Thread.isContending_iff.mp contends with rfl | rfl <;> rfl
        simp only [live, markers, queue, List.countP_cons, alive, Bool.toNat_true]
          at bound moved ⊢
        cases task with
        | none =>
            simp only [Option.elim_none, Thread.isLive, Bool.toNat_false] at moved
            simp only [Option.elim_none, Option.isNone_none, if_true] at bound ⊢
            omega
        | some task =>
            simp only [Option.elim_some, Thread.isLive, Bool.toNat_true] at moved
            simp only [Option.elim_some, Option.isNone_some, Bool.false_eq_true, if_false]
              at bound ⊢
            omega
  | finish worker task present =>
      constructor
      · intro waiting
        have bound := served.awaited (waits_of_set (by simp) waiting)
        have more := Counting.countP_set (p := Thread.isContending) present .locking
        simp only [contending, set, Thread.isContending] at bound more ⊢
        simp only [Bool.toNat_false, Bool.toNat_true] at more
        omega
      · intro member
        have killed := served.killed (by simpa using member)
        refine ⟨fun waiting => killed.1 (waits_of_set (by simp) waiting), ?_⟩
        have bound := killed.2
        have same := Counting.countP_set (p := Thread.isLive) present .locking
        simp only [live, markers, set, Thread.isLive] at bound same ⊢
        omega
  | leave worker present =>
      constructor
      · intro waiting
        have bound := served.awaited (waits_of_set (by simp) waiting)
        have same := Counting.countP_set (p := Thread.isContending) present .exited
        simp only [contending, set, Thread.isContending] at bound same ⊢
        omega
      · intro member
        have killed := served.killed (by simpa using member)
        refine ⟨fun waiting => killed.1 (waits_of_set (by simp) waiting), ?_⟩
        have bound := killed.2
        have same := Counting.countP_set (p := Thread.isLive) present .exited
        simp only [live, markers, set, Thread.isLive] at bound same ⊢
        omega

theorem run_served {cnt : Nat} {events : List (Event τ)} {last : MyThreadPool τ}
    (ran : Runs.run step (start cnt) events = .ok last) : Served events last := by
  apply Runs.run_history (start_served cnt) _ ran
  intro events pool event next served stepped
  exact step_served served (steps_of_ok stepped)

def Event.OfWorker : Event τ → Prop
  | .lock _ => True
  | .finish _ => True
  | .leave _ => True
  | _ => False

theorem stuck_thread {pool : MyThreadPool τ} {worker : Nat} {thread : Thread τ}
    (stuck : ∀ event, Event.OfWorker event → pool.step event = .error .notEnabled)
    (present : pool.threadList[worker]? = some thread) :
    thread = .waiting ∨ thread = .exited := by
  cases thread with
  | locking =>
      have blocked := stuck (.lock worker) trivial
      simp [step, present] at blocked
  | waiting => exact .inl rfl
  | woken =>
      have blocked := stuck (.lock worker) trivial
      simp [step, present] at blocked
  | running task =>
      have blocked := stuck (.finish worker) trivial
      simp [step, present] at blocked
  | leaving =>
      have blocked := stuck (.leave worker) trivial
      simp [step, present] at blocked
  | exited => exact .inr rfl

structure NoLostWakeup (events : List (Event τ)) (pool : MyThreadPool τ) : Prop where
  awake : pool.taskQueue ≠ [] → (∃ thread ∈ pool.threadList, thread.isLive = true) →
    ∃ thread ∈ pool.threadList, thread.isLive = true ∧ thread ≠ .waiting
  exits : .killAll ∈ events →
    (∀ event, Event.OfWorker event → pool.step event = .error .notEnabled) →
      ∀ thread ∈ pool.threadList, thread = .exited

theorem run_noLostWakeup (cnt : Nat) (events : List (Event τ)) (last : MyThreadPool τ)
    (ran : Runs.run step (start cnt) events = .ok last) : NoLostWakeup events last := by
  have served := run_served ran
  constructor
  · rintro queue ⟨thread, member, alive⟩
    by_cases waiting : thread = .waiting
    · subst waiting
      have bound := served.awaited member
      have pos := List.length_pos_iff.mpr queue
      obtain ⟨other, found, contends⟩ := List.countP_pos_iff.mp (Nat.lt_of_lt_of_le pos bound)
      refine ⟨other, found, ?_⟩
      rcases Thread.isContending_iff.mp contends with rfl | rfl <;> simp [Thread.isLive]
    · exact ⟨thread, member, alive, waiting⟩
  · intro killed stuck thread member
    obtain ⟨worker, present⟩ := List.mem_iff_getElem?.mp member
    rcases stuck_thread stuck present with rfl | rfl
    · exact absurd member (served.killed killed).1
    · rfl

theorem run_noLostWakeup_shift :
    ∃ last, Runs.run step (start 2) shift = .ok last ∧
      NoLostWakeup shift last := by
  have runs : (Runs.run step (start 2) shift).isOk = true := by decide +kernel
  obtain ⟨last, ran⟩ := Runs.run_of_isOk runs
  exact ⟨last, ran, run_noLostWakeup 2 shift last ran⟩

end Wakeups

end LearnInternet.Chat.MyThreadPool
