import LearnInternet.Chat.ClearTrash
import LearnInternet.Lib.Runs

/-!
The status word of a worker of the thread pool: the four writes of `entry`, each a step of its own,
and `ClearTrash`, which reads the word at any time. Without an argument `new std::atomic<int>` makes
a zero in C++20.
-/

namespace LearnInternet.Chat

/-- Where a worker is in `entry`. From `found` to `popped` it holds `_queue_mutex`. -/
inductive Place (τ : Type) where
  /-- Behind `pthread_create`, before `ChangeStat(WAIT_TD)`. -/
  | created
  | locking
  /-- In the wait set of `_task_cond`. -/
  | waiting
  | woken
  /-- The queue is not empty; before `ChangeStat(RUNNING_TD)`. -/
  | found
  | marked
  | popped (task : Option τ)
  | running (task : τ)
  /-- Behind the `break`, before `ChangeStat(KILLED_TD)`. -/
  | leaving
  | exited
  deriving DecidableEq

namespace Place

variable {τ : Type}

def contends : Place τ → Bool
  | .locking => true
  | .woken => true
  | _ => false

def holds : Place τ → Bool
  | .found => true
  | .marked => true
  | .popped _ => true
  | _ => false

def hasLeft : Place τ → Bool
  | .leaving => true
  | .exited => true
  | _ => false

def executes : Place τ → Bool
  | .running _ => true
  | _ => false

end Place

/-- `erased` is set by the destructor of the entry. What its thread would do next is undefined, and
it takes no further step here. -/
structure PoolWorker (τ : Type) where
  place : Place τ
  stat : ThreadStat
  erased : Bool
  deriving DecidableEq

namespace PoolWorker

variable {τ : Type}

def fresh : PoolWorker τ := ⟨.created, 0, false⟩

/-- The next step of a worker that gets on without `_queue_mutex` or holds it already. -/
def proceed (worker : PoolWorker τ) : Option (PoolWorker τ) :=
  match worker.place with
  | .created => some { worker with place := .locking, stat := waitTd }
  | .found => some { worker with place := .marked, stat := runningTd }
  | .popped task => some { worker with place := task.elim .leaving .running }
  | .running _ => some { worker with place := .locking }
  | .leaving => some { worker with place := .exited, stat := killedTd }
  | _ => none

end PoolWorker

structure StatusPool (τ : Type) where
  workers : List (PoolWorker τ)
  taskQueue : List (Option τ)
  deriving DecidableEq

namespace StatusPool

variable {τ : Type}

inductive Stop where
  | notEnabled
  | emptyQueue
  deriving DecidableEq, Repr

inductive Event (τ : Type) where
  /-- `emplace_back` in the constructor of the pool. -/
  | construct
  | sendTask (task : Option τ)
  | killAll
  /-- Signalled or spurious. -/
  | wakeUp (worker : Nat)
  | lock (worker : Nat)
  | pop (worker : Nat)
  | proceed (worker : Nat)
  | look (worker : Nat)
  deriving DecidableEq

def start : StatusPool τ := ⟨[], []⟩

def size (pool : StatusPool τ) : Nat := pool.workers.countP fun worker => !worker.erased

def mutexFree (pool : StatusPool τ) : Bool := pool.workers.all fun worker => !worker.place.holds

def alive (pool : StatusPool τ) (worker : Nat) : Option (PoolWorker τ) :=
  pool.workers[worker]?.filter fun entry => !entry.erased

def set (pool : StatusPool τ) (worker : Nat) (entry : PoolWorker τ) : StatusPool τ :=
  { pool with workers := pool.workers.set worker entry }

def step (pool : StatusPool τ) : Event τ → Except Stop (StatusPool τ)
  | .construct => .ok { pool with workers := pool.workers ++ [.fresh] }
  | .sendTask task =>
      if pool.size < 1 then .ok pool
      else if pool.mutexFree then .ok { pool with taskQueue := pool.taskQueue ++ [task] }
      else .error .notEnabled
  | .killAll =>
      if pool.mutexFree then
        .ok { pool with taskQueue := pool.taskQueue ++ List.replicate pool.size none }
      else .error .notEnabled
  | .wakeUp worker =>
      match pool.alive worker with
      | some ⟨.waiting, stat, erased⟩ => .ok (pool.set worker ⟨.woken, stat, erased⟩)
      | _ => .error .notEnabled
  | .lock worker =>
      match pool.alive worker with
      | some ⟨place, stat, erased⟩ =>
          if place.contends && pool.mutexFree then
            .ok (pool.set worker
              ⟨if pool.taskQueue.isEmpty then .waiting else .found, stat, erased⟩)
          else .error .notEnabled
      | none => .error .notEnabled
  | .pop worker =>
      match pool.alive worker with
      | some ⟨.marked, stat, erased⟩ =>
          match pool.taskQueue with
          | [] => .error .emptyQueue
          | task :: later =>
              .ok ⟨pool.workers.set worker ⟨.popped task, stat, erased⟩, later⟩
      | _ => .error .notEnabled
  | .proceed worker =>
      match (pool.alive worker).bind PoolWorker.proceed with
      | some entry => .ok (pool.set worker entry)
      | none => .error .notEnabled
  | .look worker =>
      match pool.alive worker with
      | some entry =>
          if entry.stat = killedTd then .ok (pool.set worker { entry with erased := true })
          else .ok pool
      | none => .error .notEnabled

inductive Steps (pool : StatusPool τ) : Event τ → StatusPool τ → Prop where
  | construct : Steps pool .construct { pool with workers := pool.workers ++ [.fresh] }
  | refuse (task : Option τ) : Steps pool (.sendTask task) pool
  | sendTask (task : Option τ) :
      Steps pool (.sendTask task) { pool with taskQueue := pool.taskQueue ++ [task] }
  | killAll :
      Steps pool .killAll
        { pool with taskQueue := pool.taskQueue ++ List.replicate pool.size none }
  | wakeUp (worker : Nat) (stat : ThreadStat)
      (present : pool.workers[worker]? = some ⟨.waiting, stat, false⟩) :
      Steps pool (.wakeUp worker) (pool.set worker ⟨.woken, stat, false⟩)
  | lock (worker : Nat) (place : Place τ) (stat : ThreadStat)
      (present : pool.workers[worker]? = some ⟨place, stat, false⟩)
      (contends : place.contends = true) :
      Steps pool (.lock worker)
        (pool.set worker ⟨if pool.taskQueue.isEmpty then .waiting else .found, stat, false⟩)
  | pop (worker : Nat) (stat : ThreadStat) (task : Option τ) (later : List (Option τ))
      (present : pool.workers[worker]? = some ⟨.marked, stat, false⟩)
      (queue : pool.taskQueue = task :: later) :
      Steps pool (.pop worker) ⟨pool.workers.set worker ⟨.popped task, stat, false⟩, later⟩
  | proceed (worker : Nat) (entry next : PoolWorker τ)
      (present : pool.workers[worker]? = some entry) (alive : entry.erased = false)
      (proceeds : entry.proceed = some next) :
      Steps pool (.proceed worker) (pool.set worker next)
  | erase (worker : Nat) (entry : PoolWorker τ) (present : pool.workers[worker]? = some entry)
      (alive : entry.erased = false) (killed : entry.stat = killedTd) :
      Steps pool (.look worker) (pool.set worker { entry with erased := true })
  | keep (worker : Nat) (entry : PoolWorker τ) (present : pool.workers[worker]? = some entry)
      (alive : entry.erased = false) (other : entry.stat ≠ killedTd) :
      Steps pool (.look worker) pool

theorem alive_eq_some {pool : StatusPool τ} {worker : Nat} {entry : PoolWorker τ} :
    pool.alive worker = some entry ↔
      pool.workers[worker]? = some entry ∧ entry.erased = false := by
  simp [alive, Option.filter_eq_some_iff]

theorem steps_of_ok {pool next : StatusPool τ} {event : Event τ}
    (stepped : pool.step event = .ok next) : pool.Steps event next := by
  cases event with
  | construct =>
      cases stepped
      exact .construct
  | sendTask task =>
      simp only [step] at stepped
      split at stepped
      · cases stepped
        exact .refuse task
      · split at stepped
        · cases stepped
          exact .sendTask task
        · cases stepped
  | killAll =>
      simp only [step] at stepped
      split at stepped
      · cases stepped
        exact .killAll
      · cases stepped
  | wakeUp worker =>
      simp only [step] at stepped
      split at stepped
      · rename_i stat erased found
        obtain ⟨present, rfl⟩ := alive_eq_some.mp found
        cases stepped
        exact .wakeUp worker stat present
      · cases stepped
  | lock worker =>
      simp only [step] at stepped
      split at stepped
      · rename_i place stat erased found
        obtain ⟨present, rfl⟩ := alive_eq_some.mp found
        split at stepped
        · rename_i enabled
          cases stepped
          exact .lock worker place stat present (Bool.and_eq_true_iff.mp enabled).1
        · cases stepped
      · cases stepped
  | pop worker =>
      simp only [step] at stepped
      split at stepped
      · rename_i stat erased found
        obtain ⟨present, rfl⟩ := alive_eq_some.mp found
        split at stepped
        · cases stepped
        · rename_i task later queue
          cases stepped
          exact .pop worker stat task later present queue
      · cases stepped
  | proceed worker =>
      simp only [step] at stepped
      split at stepped
      · rename_i entry bound
        obtain ⟨current, found, proceeds⟩ := Option.bind_eq_some_iff.mp bound
        obtain ⟨present, alive⟩ := alive_eq_some.mp found
        cases stepped
        exact .proceed worker current entry present alive proceeds
      · cases stepped
  | look worker =>
      simp only [step] at stepped
      split at stepped
      · rename_i entry found
        obtain ⟨present, alive⟩ := alive_eq_some.mp found
        split at stepped
        · rename_i killed
          cases stepped
          exact .erase worker entry present alive killed
        · rename_i other
          cases stepped
          exact .keep worker entry present alive other
      · cases stepped

end StatusPool

/-! ### What the word says -/

/-- It is zero before the first write as after the last, and a task that has returned leaves it at
`RUNNING_TD`. -/
def PoolWorker.Describes {τ : Type} (worker : PoolWorker τ) : Prop :=
  match worker.place with
  | .created => worker.stat = killedTd
  | .marked => worker.stat = runningTd
  | .popped _ => worker.stat = runningTd
  | .running _ => worker.stat = runningTd
  | .leaving => worker.stat = runningTd
  | .exited => worker.stat = killedTd
  | _ => worker.stat = waitTd ∨ worker.stat = runningTd

theorem PoolWorker.Describes.proceed {τ : Type} {worker next : PoolWorker τ}
    (describes : worker.Describes) (proceeds : worker.proceed = some next) : next.Describes := by
  obtain ⟨place, stat, erased⟩ := worker
  cases place with
  | created =>
      cases proceeds
      exact Or.inl rfl
  | found =>
      cases proceeds
      rfl
  | popped task =>
      cases proceeds
      cases task with
      | none => exact describes
      | some task => exact describes
  | running task =>
      cases proceeds
      exact Or.inr describes
  | leaving =>
      cases proceeds
      rfl
  | _ => cases proceeds

theorem PoolWorker.proceed_erased {τ : Type} {worker next : PoolWorker τ}
    (proceeds : worker.proceed = some next) : next.erased = worker.erased := by
  obtain ⟨place, stat, erased⟩ := worker
  cases place <;> cases proceeds <;> rfl

theorem PoolWorker.Describes.place_of_killed {τ : Type} {worker : PoolWorker τ}
    (describes : worker.Describes) (killed : worker.stat = killedTd) :
    worker.place = .created ∨ worker.place = .exited := by
  obtain ⟨place, stat, erased⟩ := worker
  subst killed
  cases place with
  | created => exact Or.inl rfl
  | exited => exact Or.inr rfl
  | locking => simp [Describes, killedTd, waitTd, runningTd] at describes
  | waiting => simp [Describes, killedTd, waitTd, runningTd] at describes
  | woken => simp [Describes, killedTd, waitTd, runningTd] at describes
  | found => simp [Describes, killedTd, waitTd, runningTd] at describes
  | marked => cases describes
  | popped task => cases describes
  | running task => cases describes
  | leaving => cases describes

namespace StatusPool

variable {τ : Type}

def Described (pool : StatusPool τ) : Prop :=
  ∀ worker ∈ pool.workers, worker.erased = false → worker.Describes

def Truthful (pool : StatusPool τ) : Prop :=
  ∀ worker ∈ pool.workers, worker.erased = false →
    (worker.stat = killedTd → worker.place.hasLeft = true) ∧
      (worker.stat = runningTd → worker.place.executes = true)

def ErasesLeft (pool : StatusPool τ) : Prop :=
  ∀ worker ∈ pool.workers, worker.erased = true → worker.place.hasLeft = true

def LooksAtFresh (pool : StatusPool τ) : Event τ → Prop
  | .look worker => ∃ entry, pool.alive worker = some entry ∧ entry.place = .created
  | _ => False

theorem forall_mem_set {holds : PoolWorker τ → Prop} {workers : List (PoolWorker τ)}
    (each : ∀ worker ∈ workers, holds worker) (index : Nat) {entry : PoolWorker τ}
    (new : holds entry) : ∀ worker ∈ workers.set index entry, holds worker := by
  intro worker member
  rcases List.mem_or_eq_of_mem_set member with old | rfl
  · exact each worker old
  · exact new

theorem described_step {pool next : StatusPool τ} {event : Event τ} (described : pool.Described)
    (stepped : pool.step event = .ok next) : next.Described := by
  have of_mem : ∀ (worker : Nat) (entry : PoolWorker τ), pool.workers[worker]? = some entry →
      entry.erased = false → entry.Describes :=
    fun worker entry present => described entry (List.mem_of_getElem? present)
  cases steps_of_ok stepped with
  | construct =>
      intro worker member
      rcases List.mem_append.mp member with old | new
      · exact described worker old
      · rw [List.mem_singleton] at new
        subst new
        intro _
        rfl
  | refuse task => exact described
  | sendTask task => exact described
  | killAll => exact described
  | wakeUp worker stat present =>
      have before := of_mem worker ⟨.waiting, stat, false⟩ present rfl
      exact forall_mem_set described worker fun _ => before
  | lock worker place stat present contends =>
      have before := of_mem worker ⟨place, stat, false⟩ present rfl
      apply forall_mem_set described worker
      intro _
      have word : stat = waitTd ∨ stat = runningTd := by
        cases place with
        | locking => exact before
        | woken => exact before
        | _ => cases contends
      cases empty : pool.taskQueue.isEmpty with
      | true => exact word
      | false => exact word
  | pop worker stat task later present queue =>
      have before := of_mem worker ⟨.marked, stat, false⟩ present rfl
      exact forall_mem_set described worker fun _ => before
  | proceed worker entry next present alive proceeds =>
      have before := of_mem worker entry present alive
      exact forall_mem_set described worker fun _ => before.proceed proceeds
  | erase worker entry present alive killed =>
      apply forall_mem_set described worker
      intro alive
      cases alive
  | keep worker entry present alive other => exact described

theorem truthful_step {pool next : StatusPool τ} {event : Event τ} (none : pool.workers = [])
    (stepped : pool.step event = .ok next) :
    next.workers = [] ∧ event ≠ .construct ∨ ¬next.Truthful ∧ event = .construct := by
  have absent : ∀ worker : Nat, pool.workers[worker]? = Option.none := by simp [none]
  cases steps_of_ok stepped with
  | construct =>
      refine Or.inr ⟨?_, rfl⟩
      intro truthful
      have fresh := (truthful .fresh (by simp) rfl).1 rfl
      cases fresh
  | refuse task => exact Or.inl ⟨none, nofun⟩
  | sendTask task => exact Or.inl ⟨none, nofun⟩
  | killAll => exact Or.inl ⟨none, nofun⟩
  | wakeUp worker stat present => simp [absent] at present
  | lock worker place stat present contends => simp [absent] at present
  | pop worker stat task later present queue => simp [absent] at present
  | proceed worker entry next present alive proceeds => simp [absent] at present
  | erase worker entry present alive killed => simp [absent] at present
  | keep worker entry present alive other => simp [absent] at present

theorem truthful_iff (events : List (Event τ)) :
    Runs.Always step Truthful start events ↔
      Runs.EachStep step (fun _ event _ => event ≠ .construct) (start : StatusPool τ) events := by
  -- A pool whose words are all true has no worker, whatever has happened before.
  have keeps : ∀ (pool : StatusPool τ) (event : Event τ) (next : StatusPool τ),
      (pool.Truthful → pool.workers = []) → True → pool.step event = .ok next → pool.Truthful →
        (next.Truthful → next.workers = []) := by
    intro pool event next none _ stepped truthful nextTruthful
    rcases truthful_step (none truthful) stepped with ⟨still, -⟩ | ⟨lies, -⟩
    · exact still
    · exact absurd nextTruthful lies
  have decides : ∀ (pool : StatusPool τ) (event : Event τ) (next : StatusPool τ),
      (pool.Truthful → pool.workers = []) → True → pool.step event = .ok next → pool.Truthful →
        (next.Truthful ↔ event ≠ .construct) := by
    intro pool event next none _ stepped truthful
    rcases truthful_step (none truthful) stepped with ⟨still, other⟩ | ⟨lies, constructs⟩
    · refine ⟨fun _ => other, fun _ => ?_⟩
      simp [Truthful, still]
    · exact ⟨fun nextTruthful => absurd nextTruthful lies, fun other => absurd constructs other⟩
  have startTruthful : (start : StatusPool τ).Truthful := by simp [Truthful, start]
  exact Runs.always_iff_eachStep_of_holding keeps decides events (fun _ => rfl) startTruthful
    (Runs.permits_of_forall fun _ _ => trivial)

theorem looksAtFresh_iff {pool : StatusPool τ} {worker : Nat} {entry : PoolWorker τ}
    (present : pool.workers[worker]? = some entry) (alive : entry.erased = false) :
    LooksAtFresh pool (.look worker) ↔ entry.place = .created := by
  have found := alive_eq_some.mpr ⟨present, alive⟩
  simp [LooksAtFresh, found]

theorem erasesLeft_step {pool next : StatusPool τ} {event : Event τ} (described : pool.Described)
    (erases : pool.ErasesLeft) (stepped : pool.step event = .ok next) :
    next.ErasesLeft ↔ ¬pool.LooksAtFresh event := by
  cases steps_of_ok stepped with
  | construct =>
      refine ⟨fun _ => id, fun _ => ?_⟩
      intro worker member
      rcases List.mem_append.mp member with old | new
      · exact erases worker old
      · rw [List.mem_singleton] at new
        subst new
        intro erased
        cases erased
  | refuse task => exact ⟨fun _ => id, fun _ => erases⟩
  | sendTask task => exact ⟨fun _ => id, fun _ => erases⟩
  | killAll => exact ⟨fun _ => id, fun _ => erases⟩
  | wakeUp worker stat present => exact ⟨fun _ => id, fun _ => forall_mem_set erases worker nofun⟩
  | lock worker place stat present contends =>
      exact ⟨fun _ => id, fun _ => forall_mem_set erases worker nofun⟩
  | pop worker stat task later present queue =>
      exact ⟨fun _ => id, fun _ => forall_mem_set erases worker nofun⟩
  | proceed worker entry next present alive proceeds =>
      refine ⟨fun _ => id, fun _ => forall_mem_set erases worker ?_⟩
      intro erased
      rw [PoolWorker.proceed_erased proceeds, alive] at erased
      cases erased
  | erase worker entry present alive killed =>
      have word := described entry (List.mem_of_getElem? present) alive
      rw [looksAtFresh_iff present alive]
      constructor
      · intro left fresh
        have bound := (List.getElem?_eq_some_iff.mp present).1
        have gone := left { entry with erased := true } (List.mem_set bound _) rfl
        simp [fresh, Place.hasLeft] at gone
      · intro old
        apply forall_mem_set erases worker
        intro _
        have exited := (PoolWorker.Describes.place_of_killed word killed).resolve_left old
        simp [exited, Place.hasLeft]
  | keep worker entry present alive other =>
      have word := described entry (List.mem_of_getElem? present) alive
      rw [looksAtFresh_iff present alive]
      refine ⟨fun _ fresh => ?_, fun _ => erases⟩
      rw [PoolWorker.Describes, fresh] at word
      exact other word

theorem erasesLeft_iff (events : List (Event τ)) :
    Runs.Always step ErasesLeft start events ↔
      Runs.EachStep step (fun pool event _ => ¬pool.LooksAtFresh event) (start : StatusPool τ)
        events := by
  have keeps : ∀ (pool : StatusPool τ) (event : Event τ) (next : StatusPool τ), pool.Described →
      True → pool.step event = .ok next → next.Described :=
    fun pool event next described _ stepped => described_step described stepped
  have decides : ∀ (pool : StatusPool τ) (event : Event τ) (next : StatusPool τ),
      pool.Described → True → pool.step event = .ok next → pool.ErasesLeft →
        (next.ErasesLeft ↔ ¬pool.LooksAtFresh event) :=
    fun pool event next described _ stepped erases => erasesLeft_step described erases stepped
  have startDescribed : (start : StatusPool τ).Described := by simp [Described, start]
  have startErases : (start : StatusPool τ).ErasesLeft := by simp [ErasesLeft, start]
  exact Runs.always_iff_eachStep_of_keeps keeps decides events startDescribed startErases
    (Runs.permits_of_forall fun _ _ => trivial)

end StatusPool

/-- The word of a new worker is that of a killed one: no run that constructs a worker has words that
always tell the truth, and `ClearTrash` erases a live worker exactly when it looks before the
worker has written. -/
theorem status_word_iff {τ : Type} (events : List (StatusPool.Event τ)) :
    (Runs.Always StatusPool.step StatusPool.Truthful StatusPool.start events ↔
        Runs.EachStep StatusPool.step (fun _ event _ => event ≠ .construct)
          (StatusPool.start : StatusPool τ) events) ∧
      (Runs.Always StatusPool.step StatusPool.ErasesLeft StatusPool.start events ↔
        Runs.EachStep StatusPool.step (fun pool event _ => ¬pool.LooksAtFresh event)
          (StatusPool.start : StatusPool τ) events) :=
  ⟨StatusPool.truthful_iff events, StatusPool.erasesLeft_iff events⟩

theorem status_word_lies :
    ¬∀ events : List (StatusPool.Event Unit),
      Runs.Always StatusPool.step StatusPool.Truthful StatusPool.start events := by
  intro truthful
  have fresh := (truthful [.construct]).2 ⟨[.fresh], []⟩ rfl
  have left := (fresh .fresh (by simp) rfl).1 rfl
  cases left

end LearnInternet.Chat
