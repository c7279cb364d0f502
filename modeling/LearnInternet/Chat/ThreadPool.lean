import LearnInternet.Lib.Counting
import LearnInternet.Lib.Runs

/-!
The thread pool of the chat programs: `entry` of its workers, `SendTask` and `KillAll`. What is done
under `_queue_mutex` is one step; `pthread_cond_wait` ends it and a worker that wakes starts anew.
-/

namespace LearnInternet.Chat

/-- Where a worker is in `entry`. -/
inductive Thread (τ : Type) where
  | locking
  | waiting
  | woken
  | running (task : τ)
  | leaving
  | exited
  deriving DecidableEq

namespace Thread

variable {τ : Type}

def wake : Thread τ → Thread τ
  | .waiting => .woken
  | thread => thread

def isWaiting : Thread τ → Bool
  | .waiting => true
  | _ => false

def isContending : Thread τ → Bool
  | .locking => true
  | .woken => true
  | _ => false

def isLive : Thread τ → Bool
  | .leaving => false
  | .exited => false
  | _ => true

/-- What the worker has taken from the queue and not finished. -/
def taken : Thread τ → List (Option τ)
  | .running task => [some task]
  | .leaving => [none]
  | .exited => [none]
  | _ => []

@[simp] theorem isContending_wake (thread : Thread τ) :
    thread.wake.isContending = (thread.isContending || thread.isWaiting) := by
  cases thread <;> rfl

@[simp] theorem isLive_wake (thread : Thread τ) : thread.wake.isLive = thread.isLive := by
  cases thread <;> rfl

@[simp] theorem taken_wake (thread : Thread τ) : thread.wake.taken = thread.taken := by
  cases thread <;> rfl

@[simp] theorem wake_ne_waiting (thread : Thread τ) : thread.wake ≠ .waiting := by
  cases thread <;> simp [wake]

theorem isWaiting_iff {thread : Thread τ} : thread.isWaiting = true ↔ thread = .waiting := by
  cases thread <;> simp [isWaiting]

theorem isContending_iff {thread : Thread τ} :
    thread.isContending = true ↔ thread = .locking ∨ thread = .woken := by
  cases thread <;> simp [isContending]

end Thread

/-- `_thread_list` and `_task_queue`, in which `none` is an empty `std::function`; the logs say which
worker has taken what, and which tasks have returned. -/
structure MyThreadPool (τ : Type) where
  threadList : List (Thread τ)
  taskQueue : List (Option τ)
  dequeued : List (Nat × Option τ)
  finished : List (Nat × τ)
  deriving DecidableEq

namespace MyThreadPool

variable {τ : Type}

inductive Stop where
  | notEnabled
  deriving DecidableEq, Repr

inductive Event (τ : Type) where
  | sendTask (task : Option τ) (signalled : List Nat)
  | killAll
  /-- A spurious wakeup. -/
  | wakeUp (worker : Nat)
  | lock (worker : Nat)
  | finish (worker : Nat)
  | leave (worker : Nat)
  deriving DecidableEq

def start (cnt : Nat) : MyThreadPool τ where
  threadList := List.replicate cnt .locking
  taskQueue := []
  dequeued := []
  finished := []

/-- What `pthread_cond_signal` may do: it wakes at least one of the threads that wait. -/
def Signals (threads : List (Thread τ)) (signalled : List Nat) : Prop :=
  threads.any Thread.isWaiting →
    signalled.any fun worker => (threads[worker]?).any Thread.isWaiting

instance (threads : List (Thread τ)) (signalled : List Nat) :
    Decidable (Signals threads signalled) :=
  inferInstanceAs (Decidable (_ → _))

def signal (threads : List (Thread τ)) (signalled : List Nat) : List (Thread τ) :=
  threads.mapIdx fun worker thread => if worker ∈ signalled then thread.wake else thread

def set (pool : MyThreadPool τ) (worker : Nat) (thread : Thread τ) : MyThreadPool τ :=
  { pool with threadList := pool.threadList.set worker thread }

def takeFront (pool : MyThreadPool τ) (worker : Nat) : MyThreadPool τ :=
  match pool.taskQueue with
  | [] => pool.set worker .waiting
  | task :: later =>
      { pool with
        threadList := pool.threadList.set worker (task.elim .leaving .running)
        taskQueue := later
        dequeued := pool.dequeued ++ [(worker, task)] }

def step (pool : MyThreadPool τ) : Event τ → Except Stop (MyThreadPool τ)
  | .sendTask task signalled =>
      if pool.threadList.length < 1 then .ok pool
      else if Signals pool.threadList signalled then
        .ok { pool with
          threadList := signal pool.threadList signalled
          taskQueue := pool.taskQueue ++ [task] }
      else .error .notEnabled
  | .killAll =>
      .ok { pool with
        threadList := pool.threadList.map Thread.wake
        taskQueue := pool.taskQueue ++ List.replicate pool.threadList.length none }
  | .wakeUp worker =>
      match pool.threadList[worker]? with
      | some .waiting => .ok (pool.set worker .woken)
      | _ => .error .notEnabled
  | .lock worker =>
      match pool.threadList[worker]? with
      | some .locking => .ok (pool.takeFront worker)
      | some .woken => .ok (pool.takeFront worker)
      | _ => .error .notEnabled
  | .finish worker =>
      match pool.threadList[worker]? with
      | some (.running task) =>
          .ok { pool.set worker .locking with finished := pool.finished ++ [(worker, task)] }
      | _ => .error .notEnabled
  | .leave worker =>
      match pool.threadList[worker]? with
      | some .leaving => .ok (pool.set worker .exited)
      | _ => .error .notEnabled

inductive Steps (pool : MyThreadPool τ) : Event τ → MyThreadPool τ → Prop where
  | refuse (task : Option τ) (signalled : List Nat) (none : pool.threadList = []) :
      Steps pool (.sendTask task signalled) pool
  | sendTask (task : Option τ) (signalled : List Nat) (some : pool.threadList ≠ [])
      (signals : Signals pool.threadList signalled) :
      Steps pool (.sendTask task signalled)
        { pool with
          threadList := signal pool.threadList signalled
          taskQueue := pool.taskQueue ++ [task] }
  | killAll :
      Steps pool .killAll
        { pool with
          threadList := pool.threadList.map Thread.wake
          taskQueue := pool.taskQueue ++ List.replicate pool.threadList.length none }
  | wakeUp (worker : Nat) (present : pool.threadList[worker]? = some .waiting) :
      Steps pool (.wakeUp worker) (pool.set worker .woken)
  | wait (worker : Nat) (thread : Thread τ) (present : pool.threadList[worker]? = some thread)
      (contends : thread.isContending = true) (empty : pool.taskQueue = []) :
      Steps pool (.lock worker) (pool.set worker .waiting)
  | take (worker : Nat) (thread : Thread τ) (task : Option τ) (later : List (Option τ))
      (present : pool.threadList[worker]? = some thread) (contends : thread.isContending = true)
      (queue : pool.taskQueue = task :: later) :
      Steps pool (.lock worker)
        { pool with
          threadList := pool.threadList.set worker (task.elim .leaving .running)
          taskQueue := later
          dequeued := pool.dequeued ++ [(worker, task)] }
  | finish (worker : Nat) (task : τ) (present : pool.threadList[worker]? = some (.running task)) :
      Steps pool (.finish worker)
        { pool.set worker .locking with finished := pool.finished ++ [(worker, task)] }
  | leave (worker : Nat) (present : pool.threadList[worker]? = some .leaving) :
      Steps pool (.leave worker) (pool.set worker .exited)

theorem steps_takeFront {pool : MyThreadPool τ} {worker : Nat} {thread : Thread τ}
    (present : pool.threadList[worker]? = some thread) (contends : thread.isContending = true) :
    pool.Steps (.lock worker) (pool.takeFront worker) := by
  cases queue : pool.taskQueue with
  | nil =>
      simp only [takeFront, queue]
      exact .wait worker thread present contends queue
  | cons task later =>
      simp only [takeFront, queue]
      exact .take worker thread task later present contends queue

theorem steps_of_ok {pool next : MyThreadPool τ} {event : Event τ}
    (stepped : pool.step event = .ok next) : pool.Steps event next := by
  cases event with
  | sendTask task signalled =>
      simp only [step] at stepped
      split at stepped
      · rename_i none
        cases stepped
        exact .refuse task signalled (List.length_eq_zero_iff.mp (by omega))
      · rename_i some
        split at stepped
        · rename_i signals
          cases stepped
          refine .sendTask task signalled ?_ signals
          intro none
          simp [none] at some
        · cases stepped
  | killAll =>
      cases stepped
      exact .killAll
  | wakeUp worker =>
      simp only [step] at stepped
      split at stepped
      · rename_i present
        cases stepped
        exact .wakeUp worker present
      · cases stepped
  | lock worker =>
      simp only [step] at stepped
      split at stepped
      · rename_i present
        cases stepped
        exact steps_takeFront present rfl
      · rename_i present
        cases stepped
        exact steps_takeFront present rfl
      · cases stepped
  | finish worker =>
      simp only [step] at stepped
      split at stepped
      · rename_i task present
        cases stepped
        exact .finish worker task present
      · cases stepped
  | leave worker =>
      simp only [step] at stepped
      split at stepped
      · rename_i present
        cases stepped
        exact .leave worker present
      · cases stepped

end MyThreadPool

end LearnInternet.Chat
