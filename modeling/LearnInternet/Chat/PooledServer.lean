import LearnInternet.Chat.FailedReceive
import LearnInternet.Chat.Order
import LearnInternet.Chat.PoolSafety
import LearnInternet.Lib.Simulation

/-!
The chat server over its thread pool. The workers of `ChatServer` are idle or have a task; those of
the pool sleep on `_task_cond`, are woken by a signal or by nothing, and contend for `_queue_mutex`.
-/

namespace LearnInternet.Chat

/-- `server` is the loop of `start`; its own queue of tasks and workers are not used. -/
structure PooledServer where
  server : ChatServer
  pool : MyThreadPool Task
  /-- The workers that are behind `send_msg_` in their task. -/
  behind : List Nat

namespace PooledServer

inductive Event where
  | getMsg (outcome : Option Datagram) (uninitialised : Int16)
  /-- `signalled` are the workers that the `pthread_cond_signal` of `SendTask` wakes. -/
  | visit (signalled : List Nat)
  | popMsg
  | wakeUp (worker : Nat)
  | lock (worker : Nat)
  | sendMsg (worker : Nat)
  /-- `delete pinfo`, and the task returns. -/
  | deleteArg (worker : Nat)
  deriving DecidableEq

def start : PooledServer := ⟨{ ChatServer.initial with workers := [] }, MyThreadPool.start 3, []⟩

def loop (pooled : PooledServer) (event : Chat.Event) : Except Stop PooledServer :=
  match pooled.server.step event with
  | .error stop => .error stop
  | .ok server => .ok { pooled with server := server }

def work (pooled : PooledServer) (event : MyThreadPool.Event Task) (server : ChatServer)
    (behind : List Nat) : Except Stop PooledServer :=
  match pooled.pool.step event with
  | .error _ => .error .notEnabled
  | .ok pool => .ok ⟨server, pool, behind⟩

def step (pooled : PooledServer) : Event → Except Stop PooledServer
  | .getMsg outcome uninitialised => pooled.loop (.getMsg outcome uninitialised)
  | .popMsg => pooled.loop .popMsg
  | .visit signalled =>
      match pooled.server.point with
      | .visiting (it :: rest) =>
          match pooled.server.waitingQueue with
          | [] => .error .emptyQueue
          | front :: _ =>
              let visited := { pooled.server.visitClient front it with
                point := .visiting rest
                taskQueue := [] }
              if front.sends it then
                pooled.work (.sendTask (some (pooled.server.taskFor front it)) signalled) visited
                  pooled.behind
              else .ok { pooled with server := visited }
      | _ => .error .notEnabled
  | .wakeUp worker => pooled.work (.wakeUp worker) pooled.server pooled.behind
  | .lock worker => pooled.work (.lock worker) pooled.server pooled.behind
  | .sendMsg worker =>
      match pooled.pool.threadList[worker]? with
      | some (.running task) =>
          if worker ∈ pooled.behind then .error .notEnabled
          else
            .ok { pooled with
              server := { pooled.server with
                outgoing := pooled.server.outgoing ++ [ChatServer.outgoingOf task.arg] }
              behind := worker :: pooled.behind }
      | _ => .error .notEnabled
  | .deleteArg worker =>
      match pooled.pool.threadList[worker]? with
      | some (.running task) =>
          if worker ∈ pooled.behind then
            pooled.work (.finish worker)
              { pooled.server with deleted := pooled.server.deleted ++ [task.object] }
              (pooled.behind.filter (· ≠ worker))
          else .error .notEnabled
      | _ => .error .notEnabled

/-! ### The server with workers that only wait and work -/

def worker (behind : List Nat) (index : Nat) (thread : Thread Task) : Worker :=
  match thread with
  | .running task => if index ∈ behind then .sent task else .running task
  | _ => .waiting

def abstract (pooled : PooledServer) : ChatServer :=
  { pooled.server with
    taskQueue := pooled.pool.taskQueue.filterMap id
    workers := pooled.pool.threadList.mapIdx (worker pooled.behind) }

/-- Waking up, and going back to sleep, is not seen. -/
def observe (pooled : PooledServer) : Event → List Chat.Event
  | .getMsg outcome uninitialised => [.getMsg outcome uninitialised]
  | .visit _ => [.visit]
  | .popMsg => [.popMsg]
  | .wakeUp _ => []
  | .lock worker =>
      match pooled.pool.taskQueue with
      | [] => []
      | _ :: _ => [.takeTask worker]
  | .sendMsg worker => [.sendMsg worker]
  | .deleteArg worker => [.deleteArg worker]

/-- The pool while nobody calls `KillAll`: no worker is told to leave, and none sleeps over a task. -/
structure Staffed (pool : MyThreadPool Task) : Prop where
  threads : pool.threadList ≠ []
  tasks : none ∉ pool.taskQueue
  staying : ∀ thread ∈ pool.threadList, thread.isLive = true
  awaited : pool.Waits → pool.taskQueue.length ≤ pool.contending

structure Sound (pooled : PooledServer) : Prop where
  staffed : Staffed pooled.pool
  busy : ∀ worker ∈ pooled.behind, ∃ task, pooled.pool.threadList[worker]? = some (.running task)

structure Refines (pooled : PooledServer) (relay : Relay) : Prop where
  sound : pooled.Sound
  same : relay.trace.server = pooled.abstract

section Workers

variable {behind later : List Nat} {threads next : List (Thread Task)} {index : Nat}
  {before after : Thread Task}

theorem workers_change (here : threads[index]? = some before)
    (there : next[index]? = some after) (others : ∀ other ≠ index, next[other]? = threads[other]?)
    (flags : ∀ other ≠ index, other ∈ later ↔ other ∈ behind) :
    next.mapIdx (worker later) =
      (threads.mapIdx (worker behind)).set index (worker later index after) := by
  have bound : index < (threads.mapIdx (worker behind)).length := by
    rw [List.length_mapIdx]
    exact (List.getElem?_eq_some_iff.mp here).1
  apply List.ext_getElem?
  intro other
  rw [List.getElem?_mapIdx]
  by_cases same : other = index
  · rw [same, there, List.getElem?_set_self bound]
    rfl
  · rw [List.getElem?_set_ne (Ne.symm same), List.getElem?_mapIdx, others other same]
    cases threads[other]? with
    | none => rfl
    | some thread => cases thread <;> simp [worker, flags other same]

theorem workers_same (here : threads[index]? = some before)
    (same : worker behind index after = worker behind index before) :
    (threads.set index after).mapIdx (worker behind) = threads.mapIdx (worker behind) := by
  rw [List.mapIdx_set, same]
  apply List.ext_getElem?
  intro other
  by_cases equal : other = index
  · have bound : index < (threads.mapIdx (worker behind)).length := by
      rw [List.length_mapIdx]
      exact (List.getElem?_eq_some_iff.mp here).1
    rw [equal, List.getElem?_set_self bound, List.getElem?_mapIdx, here]
    rfl
  · rw [List.getElem?_set_ne (Ne.symm equal)]

theorem worker_wake (index : Nat) (thread : Thread Task) :
    worker behind index thread.wake = worker behind index thread := by
  cases thread <;> rfl

theorem workers_signal (signalled : List Nat) :
    (MyThreadPool.signal threads signalled).mapIdx (worker behind) =
      threads.mapIdx (worker behind) := by
  rw [MyThreadPool.signal, List.mapIdx_mapIdx]
  congr
  funext index thread
  simp only [Function.comp]
  split
  · exact worker_wake index thread
  · rfl

theorem running_signal (signalled : List Nat) {task : Task}
    (running : threads[index]? = some (.running task)) :
    (MyThreadPool.signal threads signalled)[index]? = some (.running task) := by
  rcases MyThreadPool.signal_getElem? threads signalled index with same | woken
  · rw [same, running]
  · rw [woken, running]
    rfl

end Workers

/-! ### The pool -/

def Working : MyThreadPool.Event Task → Prop
  | .sendTask (some _) _ => True
  | .wakeUp _ => True
  | .lock _ => True
  | .finish _ => True
  | _ => False

theorem live_set {threads : List (Thread Task)} {index : Nat} {after : Thread Task}
    (staying : ∀ thread ∈ threads, thread.isLive = true) (live : after.isLive = true) :
    ∀ thread ∈ threads.set index after, thread.isLive = true := by
  intro thread member
  rcases List.mem_or_eq_of_mem_set member with old | rfl
  · exact staying thread old
  · exact live

theorem Staffed.step {pool next : MyThreadPool Task} {event : MyThreadPool.Event Task}
    (staffed : Staffed pool) (working : Working event) (steps : pool.Steps event next) :
    Staffed next := by
  have served : MyThreadPool.Served [] pool := ⟨staffed.awaited, by simp⟩
  have awaited := (MyThreadPool.step_served served steps).awaited
  have threads := staffed.threads
  cases steps with
  | refuse task signalled none => exact absurd none threads
  | sendTask task signalled some signals =>
      refine ⟨?_, ?_, ?_, awaited⟩
      · simpa [MyThreadPool.signal] using threads
      · cases task with
        | none => cases working
        | some task => simpa using staffed.tasks
      · intro thread member
        obtain ⟨index, bound, rfl⟩ := List.mem_mapIdx.mp member
        have before := staffed.staying _ (List.getElem_mem bound)
        split
        · rw [Thread.isLive_wake]
          exact before
        · exact before
  | killAll => cases working
  | wakeUp worker present =>
      exact ⟨by simpa [MyThreadPool.set] using threads, staffed.tasks,
        live_set staffed.staying rfl, awaited⟩
  | wait worker thread present contends empty =>
      exact ⟨by simpa [MyThreadPool.set] using threads, staffed.tasks,
        live_set staffed.staying rfl, awaited⟩
  | take worker thread task later present contends queue =>
      have tasks := staffed.tasks
      rw [queue] at tasks
      simp only [List.mem_cons, not_or] at tasks
      obtain ⟨task, rfl⟩ := Option.ne_none_iff_exists'.mp (Ne.symm tasks.1)
      exact ⟨by simpa using threads, tasks.2, live_set staffed.staying rfl, awaited⟩
  | finish worker task present =>
      exact ⟨by simpa [MyThreadPool.set] using threads, staffed.tasks,
        live_set staffed.staying rfl, awaited⟩
  | leave worker present => cases working

theorem work_ok {pooled next : PooledServer} {event : MyThreadPool.Event Task}
    {server : ChatServer} {behind : List Nat}
    (worked : pooled.work event server behind = .ok next) :
    ∃ pool, pooled.pool.Steps event pool ∧ next = ⟨server, pool, behind⟩ := by
  simp only [work] at worked
  split at worked
  · cases worked
  · rename_i pool stepped
    cases worked
    exact ⟨pool, MyThreadPool.steps_of_ok stepped, rfl⟩

theorem Sound.change {pooled : PooledServer} (sound : pooled.Sound) (server : ChatServer)
    {pool : MyThreadPool Task} (later : List Nat) {event : MyThreadPool.Event Task}
    (working : Working event) (steps : pooled.pool.Steps event pool)
    (keeps : ∀ worker ∈ later, worker ∈ pooled.behind ∧
      ∀ task, pooled.pool.threadList[worker]? = some (.running task) →
        pool.threadList[worker]? = some (.running task)) :
    Sound ⟨server, pool, later⟩ := by
  refine ⟨sound.staffed.step working steps, ?_⟩
  intro worker member
  obtain ⟨before, same⟩ := keeps worker member
  obtain ⟨task, running⟩ := sound.busy worker before
  exact ⟨task, same task running⟩

/-! ### Each step is one of the server, or is not seen -/

theorem relay_step {relay : Relay} {event : Chat.Event} {server : ChatServer}
    (stepped : relay.trace.server.step event = .ok server) :
    ∃ later, Runs.run Relay.step relay [event] = .ok later ∧ later.trace.server = server := by
  have traced : ∃ trace, relay.trace.step event = .ok trace ∧ trace.server = server := by
    simp only [Trace.step, stepped]
    split <;> exact ⟨_, rfl, rfl⟩
  obtain ⟨trace, traced, same⟩ := traced
  refine ⟨⟨trace, relay.origin ++ relay.madeFor event, relay.sent ++ relay.sends event⟩, ?_, same⟩
  simp only [Runs.run, Relay.step, traced]

theorem refines_step {pooled next : PooledServer} {relay : Relay} {event : Chat.Event}
    (refines : Refines pooled relay) (sound : next.Sound)
    (stepped : pooled.abstract.step event = .ok next.abstract) :
    ∃ later, Runs.run Relay.step relay [event] = .ok later ∧ Refines next later := by
  rw [← refines.same] at stepped
  obtain ⟨later, ran, same⟩ := relay_step stepped
  exact ⟨later, ran, sound, same⟩

theorem refines_quiet {pooled next : PooledServer} {relay : Relay} (refines : Refines pooled relay)
    (sound : next.Sound) (same : next.abstract = pooled.abstract) :
    ∃ later, Runs.run Relay.step relay [] = .ok later ∧ Refines next later :=
  ⟨relay, rfl, sound, refines.same.trans same.symm⟩

theorem getMsg_abstract {pooled next : PooledServer} {outcome : Option Datagram}
    {uninitialised : Int16} (stepped : pooled.loop (.getMsg outcome uninitialised) = .ok next) :
    pooled.abstract.step (.getMsg outcome uninitialised) = .ok next.abstract ∧
      next.pool = pooled.pool ∧ next.behind = pooled.behind := by
  simp only [loop, ChatServer.step] at stepped
  cases point : pooled.server.point with
  | visiting rest => simp [point] at stepped
  | top =>
      simp only [point] at stepped
      cases stepped
      refine ⟨?_, rfl, rfl⟩
      simp only [ChatServer.step, abstract, ChatServer.getMsg, ChatServer.addClient]
      generalize UdpServer.recv outcome ⟨[], [], uninitialised⟩ = waiting
      by_cases known : (waiting.senderIp, waiting.senderPort) ∈ pooled.server.clientList
      · simp only [point, known, if_true]
      · simp only [point, known, if_false]

theorem popMsg_abstract {pooled next : PooledServer} (stepped : pooled.loop .popMsg = .ok next) :
    pooled.abstract.step .popMsg = .ok next.abstract ∧
      next.pool = pooled.pool ∧ next.behind = pooled.behind := by
  simp only [loop, ChatServer.step] at stepped
  cases point : pooled.server.point with
  | top => simp [point] at stepped
  | visiting rest =>
      cases rest with
      | cons it rest => simp [point] at stepped
      | nil =>
          cases waiting : pooled.server.waitingQueue with
          | nil => simp [point, waiting] at stepped
          | cons front later =>
              simp only [point, waiting] at stepped
              cases stepped
              refine ⟨?_, rfl, rfl⟩
              have visiting : pooled.abstract.point = .visiting [] := point
              have queue : pooled.abstract.waitingQueue = front :: later := waiting
              simp only [ChatServer.step, visiting, queue]
              rfl

theorem visit_abstract {pooled next : PooledServer} {signalled : List Nat} (sound : pooled.Sound)
    (stepped : pooled.step (.visit signalled) = .ok next) :
    pooled.abstract.step .visit = .ok next.abstract ∧ next.Sound := by
  simp only [step] at stepped
  split at stepped
  · rename_i it rest point
    split at stepped
    · cases stepped
    · rename_i front later waiting
      have visiting : pooled.abstract.point = .visiting (it :: rest) := point
      have queue : pooled.abstract.waitingQueue = front :: later := waiting
      simp only [ChatServer.step, visiting, queue]
      split at stepped
      · rename_i sends
        have differs : front.senderIp ≠ it.1 ∨ front.senderPort ≠ it.2 := of_decide_eq_true sends
        obtain ⟨pool, steps, rfl⟩ := work_ok stepped
        have working : Working
            (.sendTask (some (pooled.server.taskFor front it)) signalled) := trivial
        rw [ChatServer.visitClient_sends differs]
        have threads := sound.staffed.threads
        cases steps with
        | refuse task signalled none => exact absurd none threads
        | sendTask task signalled some signals =>
            refine ⟨?_, sound.change _ _ working (.sendTask _ _ some signals) ?_⟩
            · simp only [abstract, ChatServer.sendTask, ChatServer.visitClient_sends differs,
                workers_signal, List.filterMap_append]
              rfl
            · exact fun index member => ⟨member, fun task running => running_signal signalled running⟩
      · rename_i own
        have same : ¬(front.senderIp ≠ it.1 ∨ front.senderPort ≠ it.2) := fun differs =>
          own (decide_eq_true differs)
        cases stepped
        refine ⟨?_, sound.staffed, sound.busy⟩
        rw [ChatServer.visitClient_deletes same]
        simp only [abstract, ChatServer.visitClient_deletes same]
  · cases stepped

theorem running_set {threads : List (Thread Task)} {index : Nat} {before after : Thread Task}
    (here : threads[index]? = some before) (idle : ∀ task, before ≠ .running task) {other : Nat}
    {task : Task} (running : threads[other]? = some (.running task)) :
    (threads.set index after)[other]? = some (.running task) := by
  have different : index ≠ other := by
    rintro rfl
    rw [here] at running
    exact idle task (Option.some.inj running)
  rw [List.getElem?_set_ne different]
  exact running

theorem idle_of_contending {thread : Thread Task} (contends : thread.isContending = true) :
    ∀ task, thread ≠ .running task := by
  rintro task rfl
  cases contends

theorem wakeUp_abstract {pooled next : PooledServer} {index : Nat} (sound : pooled.Sound)
    (stepped : pooled.step (.wakeUp index) = .ok next) :
    next.abstract = pooled.abstract ∧ next.Sound := by
  obtain ⟨pool, steps, rfl⟩ := work_ok stepped
  have working : Working (.wakeUp index) := trivial
  have kept := sound.change pooled.server pooled.behind working steps
  cases steps with
  | wakeUp worker present =>
      refine ⟨?_, kept fun other member => ⟨member, fun task => running_set present (by simp)⟩⟩
      have same : worker pooled.behind index .woken = worker pooled.behind index .waiting := rfl
      simp only [abstract, MyThreadPool.set]
      rw [workers_same present same]

theorem lock_abstract {pooled next : PooledServer} {index : Nat} (sound : pooled.Sound)
    (stepped : pooled.step (.lock index) = .ok next) :
    (pooled.observe (.lock index) = [] ∧ next.abstract = pooled.abstract ∨
      pooled.observe (.lock index) = [.takeTask index] ∧
        pooled.abstract.step (.takeTask index) = .ok next.abstract) ∧ next.Sound := by
  obtain ⟨pool, steps, rfl⟩ := work_ok stepped
  have working : Working (.lock index) := trivial
  have kept := sound.change pooled.server pooled.behind working steps
  have tasks := sound.staffed.tasks
  cases steps with
  | wait _ thread present contends empty =>
      have idle := idle_of_contending contends
      refine ⟨.inl ⟨?_, ?_⟩, kept fun other member => ⟨member, fun task => running_set present idle⟩⟩
      · simp only [observe, empty]
      · have same : worker pooled.behind index .waiting = worker pooled.behind index thread := by
          cases thread <;> first | rfl | cases contends
        simp only [abstract, MyThreadPool.set]
        rw [workers_same present same]
  | take _ thread task later present contends queue =>
      have idle := idle_of_contending contends
      refine ⟨.inr ⟨?_, ?_⟩, kept fun other member => ⟨member, fun task => running_set present idle⟩⟩
      · simp only [observe, queue]
      · rw [queue] at tasks
        simp only [List.mem_cons, not_or] at tasks
        obtain ⟨task, rfl⟩ := Option.ne_none_iff_exists'.mp (Ne.symm tasks.1)
        have waits : pooled.abstract.workers[index]? = some .waiting := by
          simp only [abstract, List.getElem?_mapIdx, present, Option.map_some]
          cases thread <;> first | rfl | cases contends
        have fresh : index ∉ pooled.behind := by
          intro member
          obtain ⟨other, running⟩ := sound.busy index member
          rw [present] at running
          exact idle other (Option.some.inj running)
        have queued : pooled.abstract.taskQueue = task :: later.filterMap id := by
          simp [abstract, queue]
        simp only [ChatServer.step, waits, queued]
        simp only [abstract, List.mapIdx_set, Option.elim, worker, fresh, if_false]

theorem sendMsg_abstract {pooled next : PooledServer} {index : Nat} (sound : pooled.Sound)
    (stepped : pooled.step (.sendMsg index) = .ok next) :
    pooled.abstract.step (.sendMsg index) = .ok next.abstract ∧ next.Sound := by
  simp only [step] at stepped
  split at stepped
  · rename_i task present
    split at stepped
    · cases stepped
    · rename_i fresh
      cases stepped
      have running : pooled.abstract.workers[index]? = some (.running task) := by
        simp only [abstract, List.getElem?_mapIdx, present, Option.map_some, worker, fresh, if_false]
      have flags : ∀ other ≠ index, other ∈ index :: pooled.behind ↔ other ∈ pooled.behind := by
        intro other different
        simp [different]
      have sent := workers_change present present (fun _ _ => rfl) flags
      have flagged : worker (index :: pooled.behind) index (.running task) = .sent task := by
        simp [worker]
      refine ⟨?_, sound.staffed, ?_⟩
      · simp only [ChatServer.step, running]
        simp only [abstract, sent, flagged]
      · intro other member
        rcases List.mem_cons.mp member with rfl | before
        · exact ⟨task, present⟩
        · exact sound.busy other before
  · cases stepped

theorem deleteArg_abstract {pooled next : PooledServer} {index : Nat} (sound : pooled.Sound)
    (stepped : pooled.step (.deleteArg index) = .ok next) :
    pooled.abstract.step (.deleteArg index) = .ok next.abstract ∧ next.Sound := by
  simp only [step] at stepped
  split at stepped
  · rename_i task present
    split at stepped
    · rename_i flagged
      obtain ⟨pool, steps, rfl⟩ := work_ok stepped
      have working : Working (.finish index) := trivial
      have kept := sound.change
        { pooled.server with deleted := pooled.server.deleted ++ [task.object] }
        (pooled.behind.filter (· ≠ index)) working steps
      cases steps with
      | finish _ other there =>
          rw [present] at there
          cases there
          have sent : pooled.abstract.workers[index]? = some (.sent task) := by
            simp only [abstract, List.getElem?_mapIdx, present, Option.map_some, worker, flagged,
              if_true]
          have bound := (List.getElem?_eq_some_iff.mp present).1
          have flags : ∀ other ≠ index,
              other ∈ pooled.behind.filter (· ≠ index) ↔ other ∈ pooled.behind := by
            intro other different
            simp [different]
          have there : (pooled.pool.threadList.set index .locking)[index]? = some .locking :=
            List.getElem?_set_self bound
          have idle := workers_change present there
            (fun other different => List.getElem?_set_ne (Ne.symm different)) flags
          refine ⟨?_, kept ?_⟩
          · simp only [ChatServer.step, sent]
            simp only [abstract, MyThreadPool.set, idle]
            rfl
          · intro other member
            rw [List.mem_filter] at member
            refine ⟨member.1, fun task running => ?_⟩
            exact (List.getElem?_set_ne (Ne.symm (of_decide_eq_true member.2))).trans running
    · cases stepped
  · cases stepped

/-- Each step over the pool is a step of the server, or is not seen. -/
theorem step_refines (pooled : PooledServer) (relay : Relay) (event : Event) (next : PooledServer)
    (refines : Refines pooled relay) (stepped : pooled.step event = .ok next) :
    ∃ later, Runs.run Relay.step relay (pooled.observe event) = .ok later ∧
      Refines next later := by
  have sound := refines.sound
  have unchanged (pool : next.pool = pooled.pool) (behind : next.behind = pooled.behind) :
      next.Sound := by
    refine ⟨pool ▸ sound.staffed, ?_⟩
    rw [pool, behind]
    exact sound.busy
  cases event with
  | getMsg outcome uninitialised =>
      obtain ⟨abstracted, pool, behind⟩ := getMsg_abstract stepped
      exact refines_step refines (unchanged pool behind) abstracted
  | popMsg =>
      obtain ⟨abstracted, pool, behind⟩ := popMsg_abstract stepped
      exact refines_step refines (unchanged pool behind) abstracted
  | visit signalled =>
      obtain ⟨abstracted, nextSound⟩ := visit_abstract sound stepped
      exact refines_step refines nextSound abstracted
  | wakeUp index =>
      obtain ⟨same, nextSound⟩ := wakeUp_abstract sound stepped
      exact refines_quiet refines nextSound same
  | lock index =>
      obtain ⟨⟨quiet, same⟩ | ⟨seen, abstracted⟩, nextSound⟩ := lock_abstract sound stepped
      · rw [quiet]
        exact refines_quiet refines nextSound same
      · rw [seen]
        exact refines_step refines nextSound abstracted
  | sendMsg index =>
      obtain ⟨abstracted, nextSound⟩ := sendMsg_abstract sound stepped
      exact refines_step refines nextSound abstracted
  | deleteArg index =>
      obtain ⟨abstracted, nextSound⟩ := deleteArg_abstract sound stepped
      exact refines_step refines nextSound abstracted

theorem start_refines : Refines start Relay.start where
  sound := by
    refine ⟨⟨by decide, by decide, ?_, fun _ => Nat.zero_le _⟩, by simp [start]⟩
    decide
  same := rfl

/-! ### Whole runs -/

def Succeeds : Event → Prop
  | .getMsg none _ => False
  | _ => True

theorem observe_succeeds {pooled : PooledServer} {event : Event} (succeeds : Succeeds event) :
    ∀ seen ∈ pooled.observe event, Trace.Succeeds seen := by
  intro seen there
  cases event with
  | getMsg outcome uninitialised =>
      rw [observe, List.mem_singleton] at there
      subst there
      cases outcome with
      | none => exact succeeds
      | some datagram => trivial
  | wakeUp index => cases there
  | lock index =>
      simp only [observe] at there
      split at there
      · cases there
      · rw [List.mem_singleton] at there
        subst there
        trivial
  | _ =>
      rw [observe, List.mem_singleton] at there
      subst there
      trivial

theorem observed_succeeds {events : List Event} {pooled : PooledServer}
    (succeed : ∀ event ∈ events, Succeeds event) :
    ∀ seen ∈ Runs.observed observe step pooled events, Trace.Succeeds seen := by
  intro seen member
  obtain ⟨event, inside, before, there⟩ := Runs.mem_observed member
  exact observe_succeeds (succeed event inside) seen there

theorem run_refines {events : List Event} {last : PooledServer}
    (ran : Runs.run step start events = .ok last) :
    ∃ relay, Runs.run Relay.step Relay.start (Runs.observed observe step start events) = .ok relay ∧
      Refines last relay :=
  Runs.run_refines (fun pooled relay event next => step_refines pooled relay event next)
    start_refines ran

/-- The server over its pool is the server whose workers only wait and work: what is handed out, to
whom and in which order does not depend on signals and wakeups. -/
theorem run_hands_out (events : List Event) (last : PooledServer)
    (ran : Runs.run step start events = .ok last) :
    ∃ relay, Runs.run Relay.step Relay.start (Runs.observed observe step start events) = .ok relay ∧
      relay.trace.server = last.abstract ∧
      ((∀ event ∈ events, Succeeds event) → relay.trace.FansOut ∧ relay.Handed) := by
  obtain ⟨relay, follows, refines⟩ := run_refines ran
  refine ⟨relay, follows, refines.same, fun succeed => ?_⟩
  have inv := Runs.run_keeps Relay.step_inv Relay.start_inv (observed_succeeds succeed) follows
  exact ⟨inv.trace.fansOut, inv.handed⟩

def greeting : List Event :=
  [.lock 0, .lock 1, .getMsg (some ⟨⟨⟨10, 0, 0, 1⟩, htons 5000⟩, ascii "hi"⟩) 0, .visit [],
    .popMsg, .getMsg (some ⟨⟨⟨10, 0, 0, 2⟩, htons 5000⟩, ascii "hello"⟩) 0, .visit [0], .visit [],
    .popMsg]

def greeted : List Event := [.lock 0, .sendMsg 0, .lock 2, .deleteArg 0, .lock 0]

theorem run_hands_out_greeting :
    ∃ last, Runs.run step start (greeting ++ greeted ++ [.wakeUp 1, .lock 1]) = .ok last ∧
      ∃ relay, Runs.run Relay.step Relay.start
          (Runs.observed observe step start (greeting ++ greeted ++ [.wakeUp 1, .lock 1])) =
            .ok relay ∧
        relay.trace.server = last.abstract ∧ relay.trace.FansOut ∧ relay.Handed := by
  have runs : (Runs.run step start (greeting ++ greeted ++ [.wakeUp 1, .lock 1])).isOk = true := by
    decide +kernel
  obtain ⟨last, ran⟩ := Runs.run_of_isOk runs
  obtain ⟨relay, follows, same, serves⟩ := run_hands_out _ last ran
  refine ⟨last, ran, relay, follows, same, serves ?_⟩
  simp [greeting, greeted, Succeeds]

/-! ### What is heard, and what is sent -/

def heardBy : Chat.Event → List Datagram
  | .getMsg (some datagram) _ => [datagram]
  | _ => []

def Event.heard : Event → List Datagram
  | .getMsg (some datagram) _ => [datagram]
  | _ => []

theorem observe_heard (pooled : PooledServer) (event : Event) :
    (pooled.observe event).flatMap heardBy = event.heard := by
  cases event with
  | getMsg outcome uninitialised => cases outcome <;> rfl
  | lock index =>
      simp only [observe]
      split <;> rfl
  | _ => rfl

theorem relay_logs {relay later : Relay} {event : Chat.Event}
    (stepped : relay.step event = .ok later) :
    later.trace.received = relay.trace.received ++ heardBy event ∧ relay.sent <+: later.sent := by
  obtain ⟨trace, traceStepped, -, rfl⟩ := Relay.steps_of_ok stepped
  refine ⟨?_, List.prefix_append _ _⟩
  simp only [Trace.step] at traceStepped
  split at traceStepped
  · cases traceStepped
  · cases event with
    | getMsg outcome uninitialised =>
        cases outcome with
        | none =>
            cases traceStepped
            exact (List.append_nil _).symm
        | some datagram =>
            cases traceStepped
            rfl
    | _ =>
        cases traceStepped
        exact (List.append_nil _).symm

theorem run_logs {events : List Chat.Event} {relay later : Relay}
    (ran : Runs.run Relay.step relay events = .ok later) :
    later.trace.received = relay.trace.received ++ events.flatMap heardBy ∧
      relay.sent <+: later.sent := by
  induction events generalizing relay with
  | nil =>
      cases ran
      exact ⟨by simp, List.prefix_rfl⟩
  | cons event events ih =>
      obtain ⟨next, stepped, ran⟩ := Runs.run_cons_ok ran
      obtain ⟨heard, sent⟩ := relay_logs stepped
      obtain ⟨later, more⟩ := ih ran
      refine ⟨?_, sent.trans more⟩
      rw [later, heard, List.append_assoc, List.flatMap_cons]

/-- After some datagrams were received. -/
def Serves (pooled : PooledServer) (received : List Datagram) : Prop :=
  ∃ relay, Refines pooled relay ∧ relay.Inv ∧ relay.trace.received = received

theorem start_serves : Serves start [] := ⟨Relay.start, start_refines, Relay.start_inv, rfl⟩

theorem step_serves {pooled next : PooledServer} {received : List Datagram} {event : Event}
    (serves : pooled.Serves received) (succeeds : Succeeds event)
    (stepped : pooled.step event = .ok next) :
    next.Serves (received ++ event.heard) ∧
      pooled.server.outgoing <+: next.server.outgoing := by
  obtain ⟨relay, refines, inv, rfl⟩ := serves
  obtain ⟨later, follows, nextRefines⟩ := step_refines pooled relay event next refines stepped
  have laterInv := Runs.run_keeps Relay.step_inv inv (observe_succeeds succeeds) follows
  obtain ⟨heard, sent⟩ := run_logs follows
  rw [observe_heard] at heard
  refine ⟨⟨later, nextRefines, laterInv, heard⟩, ?_⟩
  have before : pooled.server.outgoing = relay.trace.server.outgoing := by
    rw [refines.same]
    rfl
  have after : next.server.outgoing = later.trace.server.outgoing := by
    rw [nextRefines.same]
    rfl
  rw [before, after, inv.taken.outgoing_eq, laterInv.taken.outgoing_eq]
  exact sent.map _

/-! ### The workers empty the queue -/

def OfWorker : Event → Prop
  | .lock _ => True
  | .sendMsg _ => True
  | .deleteArg _ => True
  | _ => False

/-- A task in the queue is taken, sent and deleted. -/
def todo (server : ChatServer) : Nat :=
  3 * server.taskQueue.length + server.unsent.length + (server.workers.flatMap Worker.held).length

/-- A worker that is at the mutex may find the queue empty, and sleep. -/
def effort (pooled : PooledServer) : Nat := 2 * todo pooled.abstract + pooled.pool.contending

theorem todo_set {server : ChatServer} {index : Nat} {before : Worker}
    (present : server.workers[index]? = some before) (after : Worker) (queue : List Task) :
    todo { server with taskQueue := queue, workers := server.workers.set index after } +
        3 * server.taskQueue.length + before.unsent.length + before.held.length =
      todo server + 3 * queue.length + after.unsent.length + after.held.length := by
  have unsent := (Counting.flatMap_set_perm Worker.unsent present after).length_eq
  have held := (Counting.flatMap_set_perm Worker.held present after).length_eq
  simp only [List.length_append] at unsent held
  simp only [todo, ChatServer.unsent]
  omega

theorem todo_take {server next : ChatServer} {index : Nat}
    (stepped : server.step (.takeTask index) = .ok next) : todo next + 1 = todo server := by
  cases ChatServer.steps_of_ok stepped with
  | takeTask _ task later idle queue =>
      have moved := todo_set idle (.running task) later
      simp only [queue, Worker.unsent, Worker.held, List.length_cons, List.length_nil] at moved
      omega

theorem todo_send {server next : ChatServer} {index : Nat}
    (stepped : server.step (.sendMsg index) = .ok next) : todo next + 1 = todo server := by
  cases ChatServer.steps_of_ok stepped with
  | sendMsg _ task running =>
      have moved := todo_set running (.sent task) server.taskQueue
      simp only [Worker.unsent, Worker.held, List.length_cons, List.length_nil] at moved
      simp only [todo, ChatServer.unsent] at moved ⊢
      omega

theorem todo_delete {server next : ChatServer} {index : Nat}
    (stepped : server.step (.deleteArg index) = .ok next) : todo next + 1 = todo server := by
  cases ChatServer.steps_of_ok stepped with
  | deleteArg _ task sent =>
      have moved := todo_set sent .waiting server.taskQueue
      simp only [Worker.unsent, Worker.held, List.length_cons, List.length_nil] at moved
      simp only [todo, ChatServer.unsent] at moved ⊢
      omega

theorem contending_lock {pool next : MyThreadPool Task} {index : Nat}
    (steps : pool.Steps (.lock index) next) : next.contending + 1 = pool.contending := by
  cases steps with
  | wait _ thread present contends empty =>
      have counted := Counting.countP_set (p := Thread.isContending) present .waiting
      rw [contends] at counted
      exact counted
  | take _ thread task later present contends queue =>
      have counted := Counting.countP_set (p := Thread.isContending) present
        (task.elim .leaving .running)
      have away : (task.elim Thread.leaving Thread.running).isContending = false := by
        cases task <;> rfl
      rw [contends, away] at counted
      exact counted

theorem contending_finish {pool next : MyThreadPool Task} {index : Nat}
    (steps : pool.Steps (.finish index) next) : next.contending = pool.contending + 1 := by
  cases steps with
  | finish _ task present =>
      have counted := Counting.countP_set (p := Thread.isContending) present .locking
      exact counted

theorem worker_step {pooled next : PooledServer} {event : Event} (sound : pooled.Sound)
    (worker : OfWorker event) (stepped : pooled.step event = .ok next) :
    next.effort < pooled.effort ∧ next.server.submitted = pooled.server.submitted ∧
      next.server.allocated = pooled.server.allocated ∧
      next.server.point = pooled.server.point := by
  cases event with
  | lock index =>
      obtain ⟨seen, -⟩ := lock_abstract sound stepped
      obtain ⟨pool, steps, rfl⟩ := work_ok stepped
      have contending := contending_lock steps
      refine ⟨?_, rfl, rfl, rfl⟩
      rcases seen with ⟨-, same⟩ | ⟨-, taken⟩
      · simp only [effort, same]
        omega
      · have less := todo_take taken
        simp only [effort]
        omega
  | sendMsg index =>
      have less := todo_send (sendMsg_abstract sound stepped).1
      simp only [step] at stepped
      split at stepped
      · split at stepped
        · cases stepped
        · cases stepped
          refine ⟨?_, rfl, rfl, rfl⟩
          simp only [effort]
          omega
      · cases stepped
  | deleteArg index =>
      have less := todo_delete (deleteArg_abstract sound stepped).1
      simp only [step] at stepped
      split at stepped
      · split at stepped
        · obtain ⟨pool, steps, rfl⟩ := work_ok stepped
          have contending := contending_finish steps
          refine ⟨?_, rfl, rfl, rfl⟩
          simp only [effort]
          omega
        · cases stepped
      · cases stepped
  | _ => cases worker

def Stuck (pooled : PooledServer) : Prop :=
  ∀ event, OfWorker event → pooled.step event = .error .notEnabled

theorem Sound.worker_ok {pooled : PooledServer} (sound : pooled.Sound) {index : Nat}
    {thread : Thread Task} (present : pooled.pool.threadList[index]? = some thread)
    (awake : thread ≠ .waiting) :
    ∃ event, OfWorker event ∧ ∃ next, pooled.step event = .ok next := by
  have stays := sound.staffed.staying thread (List.mem_of_getElem? present)
  cases thread with
  | waiting => exact absurd rfl awake
  | locking =>
      refine ⟨.lock index, trivial, ?_⟩
      simp only [step, work, MyThreadPool.step, present]
      exact ⟨_, rfl⟩
  | woken =>
      refine ⟨.lock index, trivial, ?_⟩
      simp only [step, work, MyThreadPool.step, present]
      exact ⟨_, rfl⟩
  | running task =>
      by_cases behind : index ∈ pooled.behind
      · refine ⟨.deleteArg index, trivial, ?_⟩
        simp only [step, work, MyThreadPool.step, present, behind, if_true]
        exact ⟨_, rfl⟩
      · refine ⟨.sendMsg index, trivial, ?_⟩
        simp only [step, present, behind, if_false]
        exact ⟨_, rfl⟩
  | leaving => cases stays
  | exited => cases stays

theorem Stuck.waiting {pooled : PooledServer} (stuck : pooled.Stuck) (sound : pooled.Sound) :
    ∀ thread ∈ pooled.pool.threadList, thread = .waiting := by
  intro thread member
  by_contra awake
  obtain ⟨index, present⟩ := List.mem_iff_getElem?.mp member
  obtain ⟨event, worker, next, stepped⟩ := sound.worker_ok present awake
  rw [stuck event worker] at stepped
  cases stepped

/-- Each task submitted is sent once, and each object that `new` has made is deleted once. -/
structure Drained (pooled : PooledServer) : Prop where
  waiting : ∀ thread ∈ pooled.pool.threadList, thread = .waiting
  queue : pooled.pool.taskQueue = []
  sent : pooled.server.outgoing.Perm
    (pooled.server.submitted.map fun task => ChatServer.outgoingOf task.arg)
  deleted : pooled.server.deleted.Perm (List.range pooled.server.allocated)

theorem drained_of_waiting {pooled : PooledServer} {relay : Relay} (refines : Refines pooled relay)
    (books : relay.Books) (waiting : ∀ thread ∈ pooled.pool.threadList, thread = .waiting) :
    pooled.Drained := by
  have sound := refines.sound
  have queue : pooled.pool.taskQueue = [] := by
    obtain ⟨thread, member⟩ := List.exists_mem_of_ne_nil _ sound.staffed.threads
    have waits : pooled.pool.Waits := by
      rw [waiting thread member] at member
      exact member
    have none : pooled.pool.contending = 0 := by
      rw [MyThreadPool.contending, List.countP_eq_zero]
      intro other inside
      rw [waiting other inside]
      exact Bool.false_ne_true
    have bound := sound.staffed.awaited waits
    rw [none, Nat.le_zero, List.length_eq_zero_iff] at bound
    exact bound
  have idle : ∀ other ∈ relay.trace.server.workers, other = .waiting := by
    rw [refines.same]
    intro other member
    obtain ⟨index, bound, rfl⟩ := List.mem_mapIdx.mp member
    rw [waiting _ (List.getElem_mem bound)]
    rfl
  have empty : relay.trace.server.taskQueue = [] := by
    rw [refines.same]
    simp [abstract, queue]
  refine ⟨waiting, queue, ?_, ?_⟩
  · obtain ⟨taken, split, perm⟩ := books.taken.inOrder
    have unsent : relay.trace.server.unsent = [] := by
      rw [ChatServer.unsent, List.flatMap_eq_nil_iff]
      intro other member
      rw [idle other member]
      rfl
    rw [empty, List.append_nil] at split
    rw [unsent, List.append_nil, ← split] at perm
    have sent := (perm.symm.map fun task => ChatServer.outgoingOf task.arg)
    rw [← books.taken.outgoing_eq, refines.same] at sent
    exact sent
  · have freed : relay.trace.server.deleted.Perm (List.range relay.trace.server.allocated) :=
      books.accounted.freed ⟨?_, ?_⟩
    · rw [refines.same] at freed
      exact freed
    · rw [ChatServer.queued, empty]
      rfl
    · rw [ChatServer.running, List.map_eq_nil_iff, List.flatMap_eq_nil_iff]
      intro other member
      rw [idle other member]
      rfl

/-- Since a state with `submitted` tasks and `allocated` objects, only workers have taken steps. -/
structure Serving (submitted : List Task) (allocated : Nat) (pooled : PooledServer) : Prop where
  relay : ∃ relay, Refines pooled relay ∧ relay.Books
  submitted : pooled.server.submitted = submitted
  allocated : pooled.server.allocated = allocated

theorem run_books {events : List Chat.Event} {relay later : Relay} (books : relay.Books)
    (ran : Runs.run Relay.step relay events = .ok later) : later.Books :=
  Runs.run_history (motive := fun _ relay => relay.Books) books
    (fun _ relay event next kept stepped => Relay.step_books relay event next kept stepped) ran

theorem step_serving {submitted : List Task} {allocated : Nat} (pooled : PooledServer)
    (event : Event) (next : PooledServer) (serving : Serving submitted allocated pooled)
    (worker : OfWorker event) (stepped : pooled.step event = .ok next) :
    Serving submitted allocated next ∧ next.effort < pooled.effort := by
  obtain ⟨relay, refines, books⟩ := serving.relay
  obtain ⟨less, sameSubmitted, sameAllocated, -⟩ := worker_step refines.sound worker stepped
  obtain ⟨later, follows, nextRefines⟩ := step_refines pooled relay event next refines stepped
  exact ⟨⟨⟨later, nextRefines, run_books books follows⟩, sameSubmitted.trans serving.submitted,
    sameAllocated.trans serving.allocated⟩, less⟩

/-- From any state of a run, the workers alone take a bounded number of steps, however they are
scheduled, and when none of them can go on every task submitted is sent and every object deleted. -/
theorem run_empties_queue (events work : List Event) (pooled last : PooledServer)
    (ran : Runs.run step start events = .ok pooled)
    (workers : ∀ event ∈ work, OfWorker event) (worked : Runs.run step pooled work = .ok last) :
    work.length + last.effort ≤ pooled.effort ∧
      last.server.submitted = pooled.server.submitted ∧
      last.server.allocated = pooled.server.allocated ∧ (last.Stuck → last.Drained) := by
  obtain ⟨relay, follows, refines⟩ := run_refines ran
  have permits : Runs.Permits step (fun _ event => OfWorker event) pooled work :=
    Runs.permits_of_forall workers
  obtain ⟨⟨⟨later, lastRefines, books⟩, submitted, allocated⟩, bounded⟩ :=
    Runs.run_spends step_serving
      ⟨⟨relay, refines, run_books Relay.start_inv.books follows⟩, rfl, rfl⟩ permits worked
  refine ⟨bounded, submitted, allocated, fun stuck => ?_⟩
  exact drained_of_waiting lastRefines books (stuck.waiting lastRefines.sound)

theorem run_empties_queue_greeting :
    ∃ pooled last, Runs.run step start greeting = .ok pooled ∧
      Runs.run step pooled greeted = .ok last ∧
      greeted.length + last.effort ≤ pooled.effort ∧
      last.server.submitted = pooled.server.submitted ∧
      last.server.allocated = pooled.server.allocated ∧ (last.Stuck → last.Drained) := by
  have runs : (Runs.run step start (greeting ++ greeted)).isOk = true := by decide +kernel
  obtain ⟨last, whole⟩ := Runs.run_of_isOk runs
  obtain ⟨pooled, ran, worked⟩ := Runs.run_append_ok whole
  refine ⟨pooled, last, ran, worked, run_empties_queue greeting greeted pooled last ran ?_ worked⟩
  simp [greeted, OfWorker]

end PooledServer

end LearnInternet.Chat
