import LearnInternet.Lib.Counting
import LearnInternet.Lib.Runs

/-!
The move-only `Socket` as the owner of a file descriptor, in one process. Objects come and go in any
order; the kernel gives out descriptor numbers and takes them back in `::close`, after which a number
may be given out again.
-/

namespace LearnInternet.Ownership

open LearnInternet

def defaultFd : Int := -1

/-- What happened to descriptors: one was handed to a new `Socket`, or passed to `::close` while so
many other live `Socket`s held it. -/
inductive Call where
  | handedIn (fd : Int)
  | closed (fd : Int) (others : Nat)
  deriving DecidableEq, Repr

/-- `sockfd_` of each `Socket` constructed so far, `none` after its destructor; the descriptors that
are open. -/
structure Process where
  sockets : List (Option Int)
  opened : List Int
  calls : List Call
  deriving DecidableEq, Repr

inductive Operation where
  | accept (fd : Int)
  | construct (sockfd : Int)
  | moveConstruct (other : Nat)
  | close (socket : Nat)
  | destroy (socket : Nat)
  deriving DecidableEq, Repr

inductive Refused where
  | notFree
  | notUnowned
  | notLive
  deriving DecidableEq, Repr

namespace Process

def start : Process := ⟨[], [], []⟩

def holders (process : Process) (fd : Int) : Nat := process.sockets.countP (· == some fd)

def handIns (calls : List Call) (fd : Int) : Nat := calls.countP (· == .handedIn fd)

def isClose (fd : Int) : Call → Bool
  | .closed closed _ => closed == fd
  | .handedIn _ => false

def closes (calls : List Call) (fd : Int) : Nat := calls.countP (isClose fd)

/-- A constructor: of the default one, and after a failed `accept`, the descriptor is `-1`. -/
def construct (process : Process) (sockfd : Int) : Process :=
  { process with
    sockets := process.sockets ++ [some sockfd]
    calls := if sockfd = defaultFd then process.calls else process.calls ++ [.handedIn sockfd] }

def moveConstruct (process : Process) (other : Nat) (sockfd : Int) : Process :=
  { process with sockets := process.sockets.set other (some defaultFd) ++ [some sockfd] }

def close (process : Process) (socket : Nat) (sockfd : Int) : Process :=
  if sockfd ≠ defaultFd then
    { sockets := process.sockets.set socket (some defaultFd)
      opened := process.opened.filter (· ≠ sockfd)
      calls := process.calls ++
        [.closed sockfd ((process.sockets.set socket none).countP (· == some sockfd))] }
  else process

def destroy (process : Process) (socket : Nat) (sockfd : Int) : Process :=
  { process.close socket sockfd with
    sockets := (process.close socket sockfd).sockets.set socket none }

def withLive (process : Process) (socket : Nat) (operation : Int → Process) :
    Except Refused Process :=
  match process.sockets[socket]? with
  | some (some sockfd) => .ok (operation sockfd)
  | _ => .error .notLive

def step (process : Process) : Operation → Except Refused Process
  | .accept fd =>
      if fd < 0 ∨ fd ∈ process.opened then .error .notFree
      else .ok { process with opened := process.opened ++ [fd] }
  | .construct sockfd =>
      if sockfd = defaultFd ∨ (sockfd ∈ process.opened ∧ process.holders sockfd = 0) then
        .ok (process.construct sockfd)
      else .error .notUnowned
  | .moveConstruct other => process.withLive other (process.moveConstruct other)
  | .close socket => process.withLive socket (process.close socket)
  | .destroy socket => process.withLive socket (process.destroy socket)

theorem withLive_cases {process next : Process} {socket : Nat} {operation : Int → Process}
    (done : process.withLive socket operation = .ok next) :
    ∃ sockfd, process.sockets[socket]? = some (some sockfd) ∧ next = operation sockfd := by
  simp only [withLive] at done
  split at done
  · rename_i sockfd live
    exact ⟨sockfd, live, (Except.ok.inj done).symm⟩
  · cases done

/-- Each hand-in of a descriptor is answered by one `::close` at most, and the one that is not yet
answered has one live holder. -/
structure SingleOwner (process : Process) : Prop where
  unique : ∀ fd ≠ defaultFd, process.holders fd ≤ 1
  balance : ∀ fd ≠ defaultFd, process.holders fd + closes process.calls fd = handIns process.calls fd
  alone : ∀ fd others, Call.closed fd others ∈ process.calls → fd ≠ defaultFd ∧ others = 0
  heldOpen : ∀ fd ≠ defaultFd, 0 < process.holders fd → fd ∈ process.opened
  inTurn : ∀ earlier, earlier <+: process.calls → ∀ fd ≠ defaultFd,
    closes earlier fd ≤ handIns earlier fd ∧ handIns earlier fd ≤ closes earlier fd + 1

theorem inTurn_concat {calls : List Call} {call : Call}
    (inTurn : ∀ earlier, earlier <+: calls → ∀ fd ≠ defaultFd,
      closes earlier fd ≤ handIns earlier fd ∧ handIns earlier fd ≤ closes earlier fd + 1)
    {process : Process} (now : process.calls = calls ++ [call])
    (unique : ∀ fd ≠ defaultFd, process.holders fd ≤ 1)
    (balance : ∀ fd ≠ defaultFd,
      process.holders fd + closes process.calls fd = handIns process.calls fd) :
    ∀ earlier, earlier <+: process.calls → ∀ fd ≠ defaultFd,
      closes earlier fd ≤ handIns earlier fd ∧ handIns earlier fd ≤ closes earlier fd + 1 := by
  intro earlier starts fd real
  rw [now, List.prefix_concat_iff] at starts
  cases starts with
  | inl whole =>
      rw [whole, ← now]
      have atMost := unique fd real
      have all := balance fd real
      omega
  | inr before => exact inTurn earlier before fd real

theorem start_singleOwner : start.SingleOwner where
  unique := by simp [start, holders]
  balance := by simp [start, holders, closes, handIns]
  inTurn := by simp [start, closes, handIns]
  alone := by simp [start]
  heldOpen := by simp [start, holders]

def holdsFd (fd : Int) (socket : Option Int) : Nat := if socket = some fd then 1 else 0

@[simp] theorem holdsFd_default {fd : Int} (real : fd ≠ defaultFd) :
    holdsFd fd (some defaultFd) = 0 := by
  simp [holdsFd, real.symm]

@[simp] theorem holdsFd_none (fd : Int) : holdsFd fd none = 0 := by
  simp [holdsFd]

theorem countP_append_one (sockets : List (Option Int)) (socket : Option Int) (fd : Int) :
    (sockets ++ [socket]).countP (· == some fd) =
      sockets.countP (· == some fd) + holdsFd fd socket := by
  simp [List.countP_append, List.countP_cons, holdsFd]

theorem countP_set_one {sockets : List (Option Int)} {index : Nat} {before : Option Int}
    (present : sockets[index]? = some before) (after : Option Int) (fd : Int) :
    (sockets.set index after).countP (· == some fd) + holdsFd fd before =
      sockets.countP (· == some fd) + holdsFd fd after := by
  have counted := Counting.countP_set (p := (· == some fd)) present after
  have asNat : ∀ socket : Option Int, (socket == some fd).toNat = holdsFd fd socket := by
    intro socket
    by_cases same : socket = some fd <;> simp [holdsFd, same]
  simpa only [asNat] using counted

theorem SingleOwner.keep {process next : Process} (owner : process.SingleOwner)
    (calls : next.calls = process.calls) (opened : process.opened ⊆ next.opened)
    (held : ∀ fd ≠ defaultFd, next.holders fd = process.holders fd) : next.SingleOwner := by
  refine ⟨?_, ?_, calls ▸ owner.alone, ?_, calls ▸ owner.inTurn⟩
  · intro fd real
    rw [held fd real]
    exact owner.unique fd real
  · intro fd real
    rw [held fd real, calls]
    exact owner.balance fd real
  · intro fd real positive
    rw [held fd real] at positive
    exact opened (owner.heldOpen fd real positive)

theorem construct_singleOwner {process : Process} {sockfd : Int} (owner : process.SingleOwner)
    (free : sockfd = defaultFd ∨ (sockfd ∈ process.opened ∧ process.holders sockfd = 0)) :
    (process.construct sockfd).SingleOwner := by
  have held : ∀ fd, (process.construct sockfd).holders fd =
      process.holders fd + holdsFd fd (some sockfd) :=
    fun fd => countP_append_one process.sockets (some sockfd) fd
  by_cases absent : sockfd = defaultFd
  · subst absent
    refine owner.keep (by simp [construct]) (List.Subset.refl _) ?_
    intro fd real
    rw [held, holdsFd_default real, Nat.add_zero]
  · have unowned := free.resolve_left absent
    have calls : (process.construct sockfd).calls = process.calls ++ [.handedIn sockfd] := by
      simp [construct, absent]
    have unique : ∀ fd ≠ defaultFd, (process.construct sockfd).holders fd ≤ 1 := by
      intro fd real
      rw [held]
      by_cases same : sockfd = fd
      · subst same
        simp [unowned.2, holdsFd]
      · simpa [holdsFd, same] using owner.unique fd real
    have balance : ∀ fd ≠ defaultFd, (process.construct sockfd).holders fd +
        closes (process.construct sockfd).calls fd =
          handIns (process.construct sockfd).calls fd := by
      intro fd real
      have before := owner.balance fd real
      have closed : closes (process.calls ++ [.handedIn sockfd]) fd = closes process.calls fd := by
        simp [closes, isClose]
      have handed : handIns (process.calls ++ [.handedIn sockfd]) fd =
          handIns process.calls fd + holdsFd fd (some sockfd) := by
        by_cases same : sockfd = fd <;> simp [handIns, holdsFd, same]
      rw [held, calls, closed, handed]
      omega
    refine ⟨unique, balance, ?_, ?_, inTurn_concat owner.inTurn calls unique balance⟩
    · intro fd others member
      simp only [calls, List.mem_append, List.mem_singleton, reduceCtorEq, or_false] at member
      exact owner.alone fd others member
    · intro fd real positive
      rw [held] at positive
      by_cases same : sockfd = fd
      · exact same ▸ unowned.1
      · exact owner.heldOpen fd real (by simpa [holdsFd, same] using positive)

theorem moveConstruct_singleOwner {process : Process} {other : Nat} {sockfd : Int}
    (owner : process.SingleOwner) (live : process.sockets[other]? = some (some sockfd)) :
    (process.moveConstruct other sockfd).SingleOwner := by
  refine owner.keep rfl (List.Subset.refl _) ?_
  intro fd real
  have left := countP_set_one live (some defaultFd) fd
  rw [holdsFd_default real] at left
  simp only [holders, moveConstruct, countP_append_one]
  omega

theorem close_singleOwner {process : Process} {socket : Nat} {sockfd : Int}
    (owner : process.SingleOwner) (live : process.sockets[socket]? = some (some sockfd)) :
    (process.close socket sockfd).SingleOwner := by
  by_cases absent : sockfd = defaultFd
  · simpa [close, absent] using owner
  · have held : ∀ fd ≠ defaultFd,
        (process.close socket sockfd).holders fd + holdsFd fd (some sockfd) =
          process.holders fd := by
      intro fd real
      have left := countP_set_one live (some defaultFd) fd
      rw [holdsFd_default real] at left
      simpa [close, absent, holders] using left
    have own : holdsFd sockfd (some sockfd) = 1 := by simp [holdsFd]
    have sole := owner.unique sockfd absent
    obtain ⟨others, count, calls⟩ : ∃ others, others + 1 = process.holders sockfd ∧
        (process.close socket sockfd).calls = process.calls ++ [.closed sockfd others] := by
      have left := countP_set_one live none sockfd
      rw [own, holdsFd_none] at left
      exact ⟨_, left, by simp [close, absent]⟩
    have unique : ∀ fd ≠ defaultFd, (process.close socket sockfd).holders fd ≤ 1 := by
      intro fd real
      have before := owner.unique fd real
      have after := held fd real
      omega
    have balance : ∀ fd ≠ defaultFd, (process.close socket sockfd).holders fd +
        closes (process.close socket sockfd).calls fd =
          handIns (process.close socket sockfd).calls fd := by
      intro fd real
      have before := owner.balance fd real
      have after := held fd real
      have closed : closes (process.calls ++ [.closed sockfd others]) fd =
          closes process.calls fd + holdsFd fd (some sockfd) := by
        by_cases same : sockfd = fd <;> simp [closes, isClose, holdsFd, same]
      have handed : handIns (process.calls ++ [.closed sockfd others]) fd =
          handIns process.calls fd := by
        simp [handIns]
      rw [calls, closed, handed]
      omega
    refine ⟨unique, balance, ?_, ?_, inTurn_concat owner.inTurn calls unique balance⟩
    · intro fd others member
      simp only [calls, List.mem_append, List.mem_singleton, Call.closed.injEq] at member
      rcases member with earlier | ⟨rfl, rfl⟩
      · exact owner.alone fd others earlier
      · exact ⟨absent, by omega⟩
    · intro fd real positive
      have after := held fd real
      have before := owner.unique fd real
      have different : fd ≠ sockfd := by
        rintro rfl
        omega
      have isOpen := owner.heldOpen fd real (by omega)
      simpa [close, absent, different] using isOpen

theorem destroy_singleOwner {process : Process} {socket : Nat} {sockfd : Int}
    (owner : process.SingleOwner) (live : process.sockets[socket]? = some (some sockfd)) :
    (process.destroy socket sockfd).SingleOwner := by
  have husk : (process.close socket sockfd).sockets[socket]? = some (some defaultFd) := by
    by_cases absent : sockfd = defaultFd
    · simpa [close, absent] using live
    · have bound := (List.getElem?_eq_some_iff.mp live).1
      simp [close, absent, bound]
  refine (close_singleOwner owner live).keep rfl (List.Subset.refl _) ?_
  intro fd real
  have left := countP_set_one husk none fd
  rw [holdsFd_default real, holdsFd_none] at left
  exact left

theorem step_singleOwner {process next : Process} {operation : Operation}
    (owner : process.SingleOwner) (stepped : process.step operation = .ok next) :
    next.SingleOwner := by
  cases operation with
  | accept fd =>
      simp only [step] at stepped
      split at stepped
      · cases stepped
      · cases stepped
        exact owner.keep rfl (List.subset_append_left _ _) fun _ _ => rfl
  | construct sockfd =>
      simp only [step] at stepped
      split at stepped
      · rename_i free
        cases stepped
        exact construct_singleOwner owner free
      · cases stepped
  | moveConstruct other =>
      obtain ⟨sockfd, live, rfl⟩ := withLive_cases stepped
      exact moveConstruct_singleOwner owner live
  | close socket =>
      obtain ⟨sockfd, live, rfl⟩ := withLive_cases stepped
      exact close_singleOwner owner live
  | destroy socket =>
      obtain ⟨sockfd, live, rfl⟩ := withLive_cases stepped
      exact destroy_singleOwner owner live

theorem SingleOwner.closed_since {process : Process} (owner : process.SingleOwner) {fd : Int}
    (real : fd ≠ defaultFd) (unheld : process.holders fd = 0) {before after : List Call}
    (handed : process.calls = before ++ .handedIn fd :: after) :
    ∃ others, Call.closed fd others ∈ after := by
  have turn := owner.inTurn before (handed ▸ List.prefix_append _ _) fd real
  have balance := owner.balance fd real
  have closed : closes process.calls fd = closes before fd + closes after fd := by
    rw [handed]
    simp [closes, isClose]
  have given : handIns process.calls fd = handIns before fd + (handIns after fd + 1) := by
    rw [handed]
    simp [handIns]
  have positive : 0 < closes after fd := by omega
  obtain ⟨call, member, isClosed⟩ := List.countP_pos_iff.mp positive
  cases call with
  | handedIn other => simp [isClose] at isClosed
  | closed other others =>
      simp only [isClose, beq_iff_eq] at isClosed
      exact ⟨others, isClosed ▸ member⟩

/-- In every run a descriptor has one live holder at most, is closed once for each time it was handed
in and never while another `Socket` holds it, and is closed once no `Socket` holds it. -/
theorem run_singleOwner {operations : List Operation} {last : Process}
    (ran : Runs.run step start operations = .ok last) :
    (∀ fd ≠ defaultFd, last.holders fd ≤ 1) ∧
      (∀ fd others, Call.closed fd others ∈ last.calls → fd ≠ defaultFd ∧ others = 0) ∧
      (∀ earlier, earlier <+: last.calls → ∀ fd ≠ defaultFd,
        closes earlier fd ≤ handIns earlier fd ∧ handIns earlier fd ≤ closes earlier fd + 1) ∧
      (∀ fd ≠ defaultFd, last.holders fd = 0 → closes last.calls fd = handIns last.calls fd ∧
        ∀ before after, last.calls = before ++ .handedIn fd :: after →
          ∃ others, Call.closed fd others ∈ after) := by
  have owner : last.SingleOwner :=
    Runs.run_history (motive := fun _ process => process.SingleOwner) start_singleOwner
      (fun _ _ _ _ owned stepped => step_singleOwner owned stepped) ran
  refine ⟨owner.unique, owner.alone, owner.inTurn, ?_⟩
  intro fd real unheld
  have balance := owner.balance fd real
  refine ⟨by omega, ?_⟩
  intro before after handed
  exact owner.closed_since real unheld handed

def reused : List Operation :=
  [.accept 4, .construct 4, .moveConstruct 0, .destroy 0, .close 1, .accept 4, .construct 4,
    .close 1, .destroy 1, .close 2, .destroy 2]

theorem run_singleOwner_reused :
    Runs.run step start reused =
        .ok ⟨[none, none, none], [], [.handedIn 4, .closed 4 0, .handedIn 4, .closed 4 0]⟩ ∧
      Process.holders ⟨[none, none, none], [],
        [.handedIn 4, .closed 4 0, .handedIn 4, .closed 4 0]⟩ 4 ≤ 1 := by
  have ran : Runs.run step start reused =
      .ok ⟨[none, none, none], [], [.handedIn 4, .closed 4 0, .handedIn 4, .closed 4 0]⟩ := by
    decide +kernel
  exact ⟨ran, (run_singleOwner ran).1 4 (by decide)⟩

end Process

end LearnInternet.Ownership
