import LearnInternet.Lib.Counting
import LearnInternet.Lib.Runs
import Mathlib.Data.List.Count

/-!
`MyEasyLog::WriteLog`: an entry is taken from the queue of free entries, written and given back, in
three critical sections of two mutexes. What is done under `_q_mutex` is one step. `front` of an
empty queue is read as a null pointer here, as the loop that waits expects of it.
-/

namespace LearnInternet.EasyLog

/-- Where a thread is in `WriteLog`; entries are numbered by their `new`. -/
inductive Writer where
  | outside
  /-- At `_q_mutex.Lock()`, before `front`. -/
  | looking
  | sleeping
  /-- At `_file_mutex.Lock()`. -/
  | holding (log : Nat)
  | writing (log : Nat)
  /-- At `_q_mutex.Lock()`, before `push`. -/
  | returning (log : Nat)
  deriving DecidableEq, Repr

namespace Writer

def held : Writer → List Nat
  | .holding log => [log]
  | .writing log => [log]
  | .returning log => [log]
  | _ => []

def isHolder (writer : Writer) : Bool := !writer.held.isEmpty

def isWriting : Writer → Bool
  | .writing _ => true
  | _ => false

end Writer

structure MyEasyLog where
  voidLogQ : List Nat
  writers : List Writer
  deriving DecidableEq, Repr

namespace MyEasyLog

def ofSize (size threads : Nat) : MyEasyLog :=
  ⟨List.range size, List.replicate threads .outside⟩

def getInstance (threads : Nat) : MyEasyLog := ofSize 5 threads

inductive Event where
  | call (thread : Nat)
  | look (thread : Nat)
  | wake (thread : Nat)
  | lockFile (thread : Nat)
  | write (thread : Nat)
  | giveBack (thread : Nat)
  deriving DecidableEq, Repr

inductive Stop where
  | notEnabled
  deriving DecidableEq, Repr

def fileMutexFree (pool : MyEasyLog) : Bool := pool.writers.all fun writer => !writer.isWriting

def set (pool : MyEasyLog) (thread : Nat) (writer : Writer) : MyEasyLog :=
  { pool with writers := pool.writers.set thread writer }

def step (pool : MyEasyLog) : Event → Except Stop MyEasyLog
  | .call thread =>
      match pool.writers[thread]? with
      | some .outside => .ok (pool.set thread .looking)
      | _ => .error .notEnabled
  | .look thread =>
      match pool.writers[thread]? with
      | some .looking =>
          match pool.voidLogQ with
          | [] => .ok (pool.set thread .sleeping)
          | log :: later => .ok ⟨later, pool.writers.set thread (.holding log)⟩
      | _ => .error .notEnabled
  | .wake thread =>
      match pool.writers[thread]? with
      | some .sleeping => .ok (pool.set thread .looking)
      | _ => .error .notEnabled
  | .lockFile thread =>
      match pool.writers[thread]? with
      | some (.holding log) =>
          if pool.fileMutexFree then .ok (pool.set thread (.writing log))
          else .error .notEnabled
      | _ => .error .notEnabled
  | .write thread =>
      match pool.writers[thread]? with
      | some (.writing log) => .ok (pool.set thread (.returning log))
      | _ => .error .notEnabled
  | .giveBack thread =>
      match pool.writers[thread]? with
      | some (.returning log) =>
          .ok ⟨pool.voidLogQ ++ [log], pool.writers.set thread .outside⟩
      | _ => .error .notEnabled

inductive Steps (pool : MyEasyLog) : Event → MyEasyLog → Prop where
  | take (thread log : Nat) (later : List Nat) (present : pool.writers[thread]? = some .looking)
      (queue : pool.voidLogQ = log :: later) :
      Steps pool (.look thread) ⟨later, pool.writers.set thread (.holding log)⟩
  | miss (thread : Nat) (present : pool.writers[thread]? = some .looking)
      (queue : pool.voidLogQ = []) : Steps pool (.look thread) (pool.set thread .sleeping)
  | giveBack (thread log : Nat) (present : pool.writers[thread]? = some (.returning log)) :
      Steps pool (.giveBack thread)
        ⟨pool.voidLogQ ++ [log], pool.writers.set thread .outside⟩
  | move (event : Event) (thread : Nat) (before after : Writer)
      (other : ∀ looker, event ≠ .look looker) (present : pool.writers[thread]? = some before)
      (same : after.held = before.held) : Steps pool event (pool.set thread after)

theorem steps_of_ok {pool next : MyEasyLog} {event : Event}
    (stepped : pool.step event = .ok next) : pool.Steps event next := by
  cases event with
  | call thread =>
      simp only [step] at stepped
      split at stepped
      · rename_i present
        cases stepped
        exact .move _ thread .outside .looking nofun present rfl
      · cases stepped
  | look thread =>
      simp only [step] at stepped
      split at stepped
      · rename_i present
        split at stepped
        · rename_i queue
          cases stepped
          exact .miss thread present queue
        · rename_i log later queue
          cases stepped
          exact .take thread log later present queue
      · cases stepped
  | wake thread =>
      simp only [step] at stepped
      split at stepped
      · rename_i present
        cases stepped
        exact .move _ thread .sleeping .looking nofun present rfl
      · cases stepped
  | lockFile thread =>
      simp only [step] at stepped
      split at stepped
      · rename_i log present
        split at stepped
        · cases stepped
          exact .move _ thread (.holding log) (.writing log) nofun present rfl
        · cases stepped
      · cases stepped
  | write thread =>
      simp only [step] at stepped
      split at stepped
      · rename_i log present
        cases stepped
        exact .move _ thread (.writing log) (.returning log) nofun present rfl
      · cases stepped
  | giveBack thread =>
      simp only [step] at stepped
      split at stepped
      · rename_i log present
        cases stepped
        exact .giveBack thread log present
      · cases stepped

/-! ### Who has an entry -/

structure Inv (size threads : Nat) (pool : MyEasyLog) : Prop where
  entries : (pool.voidLogQ ++ pool.writers.flatMap Writer.held).Perm (List.range size)
  writers : pool.writers.length = threads

theorem ofSize_inv (size threads : Nat) : Inv size threads (ofSize size threads) := by
  constructor
  · have none : (List.replicate threads Writer.outside).flatMap Writer.held = [] := by
      rw [List.flatMap_eq_nil_iff]
      intro writer member
      rw [List.eq_of_mem_replicate member]
      rfl
    rw [ofSize, none, List.append_nil]
  · exact List.length_replicate

theorem inv_step {size threads : Nat} (pool : MyEasyLog) (event : Event) (next : MyEasyLog)
    (inv : Inv size threads pool) (stepped : pool.step event = .ok next) :
    Inv size threads next := by
  have entries := inv.entries
  simp only [List.perm_iff_count, List.count_append] at entries
  constructor
  · simp only [List.perm_iff_count, List.count_append]
    intro log
    have counted := entries log
    cases steps_of_ok stepped with
    | take thread first later present queue =>
        have moved := Counting.count_flatMap_set Writer.held present (.holding first) log
        simp only [queue, List.count_cons, Writer.held, List.count_nil] at counted moved ⊢
        omega
    | miss thread present queue =>
        have moved := Counting.count_flatMap_set Writer.held present .sleeping log
        simp only [set, Writer.held] at counted moved ⊢
        omega
    | giveBack thread first present =>
        have moved := Counting.count_flatMap_set Writer.held present .outside log
        simp only [List.count_append, Writer.held, List.count_nil] at counted moved ⊢
        omega
    | move _ thread before after other present same =>
        have moved := Counting.count_flatMap_set Writer.held present after log
        rw [same] at moved
        simp only [set] at counted ⊢
        omega
  · cases steps_of_ok stepped <;> simpa [set] using inv.writers

structure Exclusive (size : Nat) (pool : MyEasyLog) : Prop where
  owned : ∀ log < size,
    (pool.voidLogQ.count log = 1 ∧
        ∀ (thread : Nat) (writer : Writer), pool.writers[thread]? = some writer →
          log ∉ writer.held) ∨
      log ∉ pool.voidLogQ ∧
        ∃! thread : Nat, ∃ writer, pool.writers[thread]? = some writer ∧ log ∈ writer.held
  back : (∀ writer ∈ pool.writers, writer = .outside) → pool.voidLogQ.Perm (List.range size)

theorem Inv.exclusive {size threads : Nat} {pool : MyEasyLog} (inv : Inv size threads pool) :
    pool.Exclusive size := by
  constructor
  · intro log small
    have counted := inv.entries.count_eq log
    rw [List.count_append,
      List.nodup_range.count, if_pos (List.mem_range.mpr small)] at counted
    by_cases queued : log ∈ pool.voidLogQ
    · have some := List.count_pos_iff.mpr queued
      refine Or.inl ⟨by omega, ?_⟩
      intro thread writer present member
      have inside := List.mem_flatMap.mpr ⟨writer, List.mem_of_getElem? present, member⟩
      have others := List.count_pos_iff.mpr inside
      omega
    · have none := List.count_eq_zero.mpr queued
      exact Or.inr ⟨queued, Counting.existsUnique_of_count_flatMap (by omega)⟩
  · intro outside
    have none : pool.writers.flatMap Writer.held = [] := by
      rw [List.flatMap_eq_nil_iff]
      intro writer member
      rw [outside writer member]
      rfl
    have entries := inv.entries
    rw [none, List.append_nil] at entries
    exact entries

theorem entries_exclusive (threads : Nat) (events : List Event) (last : MyEasyLog)
    (ran : Runs.run step (getInstance threads) events = .ok last) : last.Exclusive 5 :=
  (Runs.run_history (motive := fun _ pool => Inv 5 threads pool) (ofSize_inv 5 threads)
    (fun _ => inv_step) ran).exclusive

/-! ### The queue that `front` is evaluated on -/

def ReadsFull (pool : MyEasyLog) : Event → Prop
  | .look _ => pool.voidLogQ ≠ []
  | _ => True

/-- A thread looks while fewer than `size` others are between their `pop` and their `push`. -/
def SparesEntry (size : Nat) (pool : MyEasyLog) : Event → Prop
  | .look _ => pool.writers.countP Writer.isHolder < size
  | _ => True

theorem length_held (writers : List Writer) :
    (writers.flatMap Writer.held).length = writers.countP Writer.isHolder := by
  induction writers with
  | nil => rfl
  | cons writer writers ih =>
      rw [List.flatMap_cons, List.length_append, ih, List.countP_cons]
      cases writer <;> simp [Writer.held, Writer.isHolder, Nat.add_comm]

theorem Inv.readsFull_iff {size threads : Nat} {pool : MyEasyLog} (inv : Inv size threads pool)
    (event : Event) : pool.ReadsFull event ↔ pool.SparesEntry size event := by
  cases event with
  | look thread =>
      have conserved := inv.entries.length_eq
      rw [List.length_append, length_held, List.length_range] at conserved
      simp only [ReadsFull, SparesEntry, ← List.length_pos_iff]
      omega
  | _ => exact Iff.rfl

theorem readsFull_iff_sparesEntry (size threads : Nat) (events : List Event) :
    Runs.EachStep step (fun pool event _ => pool.ReadsFull event) (ofSize size threads) events ↔
      Runs.EachStep step (fun pool event _ => pool.SparesEntry size event)
        (ofSize size threads) events :=
  Runs.eachStep_congr inv_step (fun _ event _ inv _ => inv.readsFull_iff event) events
    (ofSize_inv size threads)

theorem steps_look {pool next : MyEasyLog} {thread : Nat} (steps : pool.Steps (.look thread) next) :
    pool.writers[thread]? = some .looking := by
  cases steps with
  | take _ log later present queue => exact present
  | miss _ present queue => exact present
  | move _ other before after differs present same => exact absurd rfl (differs thread)

theorem Inv.sparesEntry {size threads : Nat} {pool next : MyEasyLog} {event : Event}
    (inv : Inv size threads pool) (few : threads ≤ size) (stepped : pool.step event = .ok next) :
    pool.SparesEntry size event := by
  cases event with
  | look thread =>
      have present := steps_look (steps_of_ok stepped)
      have holders : pool.writers.countP Writer.isHolder < pool.writers.length :=
        List.countP_lt_length_iff.mpr ⟨.looking, List.mem_of_getElem? present, rfl⟩
      have total := inv.writers
      simp only [SparesEntry]
      omega
  | _ => trivial

def crowd (first : Nat) : Nat → List Event
  | 0 => []
  | more + 1 => .call first :: .look first :: crowd (first + 1) more

section Crowd

variable (front rest : List Writer)

theorem step_call (queue : List Nat) :
    step ⟨queue, front ++ .outside :: rest⟩ (.call front.length) =
      .ok ⟨queue, front ++ .looking :: rest⟩ := by
  simp [step, set]

theorem step_look (log : Nat) (later : List Nat) :
    step ⟨log :: later, front ++ .looking :: rest⟩ (.look front.length) =
      .ok ⟨later, front ++ .holding log :: rest⟩ := by
  simp [step]

theorem step_look_empty :
    step ⟨[], front ++ .looking :: rest⟩ (.look front.length) =
      .ok ⟨[], front ++ .sleeping :: rest⟩ := by
  simp [step, set]

theorem crowd_readsEmpty (queue : List Nat) :
    ¬Runs.EachStep step (fun pool event _ => pool.ReadsFull event)
      ⟨queue, front ++ (List.replicate (queue.length + 1) .outside ++ rest)⟩
      (crowd front.length (queue.length + 1)) := by
  induction queue generalizing front with
  | nil =>
      intro each
      have called := (each _ (step_call front rest [])).2
      exact (called _ (step_look_empty front rest)).1 rfl
  | cons log later ih =>
      intro each
      rw [List.length_cons, List.replicate_succ, List.cons_append] at each
      have called := (each _ (step_call front _ (log :: later))).2
      have looked := (called _ (step_look front _ log later)).2
      have further := ih (front ++ [.holding log])
      rw [List.append_assoc, List.singleton_append, List.length_append, List.length_singleton]
        at further
      exact further looked

end Crowd

theorem ofSize_readsEmpty {size threads : Nat} (many : size < threads) :
    ¬Runs.EachStep step (fun pool event _ => pool.ReadsFull event) (ofSize size threads)
      (crowd 0 (size + 1)) := by
  have empty := crowd_readsEmpty [] (List.replicate (threads - (size + 1)) .outside)
    (List.range size)
  rw [List.length_range, List.replicate_append_replicate, List.nil_append,
    Nat.add_sub_cancel' many] at empty
  exact empty

/-- A run evaluates `front` on a queue that is not empty exactly when no thread looks while all five
entries are taken, and every run does exactly when there are at most five threads. -/
theorem front_nonempty_iff (threads : Nat) :
    (∀ events : List Event,
      Runs.EachStep step (fun pool event _ => pool.ReadsFull event) (getInstance threads) events ↔
        Runs.EachStep step (fun pool event _ => pool.SparesEntry 5 event) (getInstance threads)
          events) ∧
      ((∀ events : List Event,
          Runs.EachStep step (fun pool event _ => pool.ReadsFull event) (getInstance threads)
            events) ↔
        threads ≤ 5) := by
  refine ⟨readsFull_iff_sparesEntry 5 threads, ?_, ?_⟩
  · intro every
    by_contra many
    exact ofSize_readsEmpty (Nat.lt_of_not_le many) (every (crowd 0 6))
  · intro few events
    rw [getInstance, readsFull_iff_sparesEntry]
    apply Runs.eachStep_of_keeps _ events (ofSize_inv 5 threads)
      (Runs.permits_of_forall fun _ _ => trivial)
    intro pool event next inv _ stepped
    exact ⟨inv_step pool event next inv stepped, inv.sparesEntry few stepped⟩

theorem front_of_empty_queue :
    ¬∀ (threads : Nat) (events : List Event),
      Runs.EachStep step (fun pool event _ => pool.ReadsFull event) (getInstance threads)
        events :=
  fun every => ofSize_readsEmpty (Nat.lt_succ_self 5) (every 6 (crowd 0 6))

def twoWriters : List Event :=
  [.call 0, .look 0, .call 1, .look 1, .lockFile 1, .write 1, .giveBack 1]

theorem entries_exclusive_two :
    (MyEasyLog.mk [2, 3, 4, 1] [.holding 0, .outside]).Exclusive 5 :=
  entries_exclusive 2 twoWriters _ (by decide)

end MyEasyLog

end LearnInternet.EasyLog
