import LearnInternet.Lib.Runs
import Mathlib.Algebra.Group.Int.Defs

/-!
The copyable `Socket` of `TcpServer_v3` in one process: objects come and go in any order, copies
share the descriptor, and every destructor passes it to `::close`.
-/

namespace LearnInternet.TcpServerV3.Lifetimes

def defaultFd : Int := -1

structure Socket where
  sockfd : Int
  isClosed : Bool
  absent : sockfd = defaultFd → isClosed = true
  deriving DecidableEq

namespace Socket

/-- `sockfd_`, with `is_closed_` as `check_fd` sets it. -/
def checkFd (sockfd : Int) : Socket := ⟨sockfd, decide (sockfd = defaultFd), decide_eq_true⟩

def empty : Socket := checkFd defaultFd

def ofFd (sockfd : Int) : Socket := checkFd sockfd

def copyConstruct (other : Socket) : Socket := checkFd other.sockfd

/-- `operator=`: the descriptor held until now is written over. -/
def assign (_ other : Socket) : Socket := checkFd other.sockfd

/-- What `close()` leaves in the object: the number stays in `sockfd_`. -/
def close (socket : Socket) : Socket := ⟨socket.sockfd, true, fun _ => rfl⟩

/-- `accept_socket`, where `accept` returned the descriptor: it is kept in an `int16_t`. -/
def accepted (fd : Int) : Socket :=
  let sockfd := Int16.ofInt fd
  if sockfd < 0 then ofFd defaultFd else ofFd sockfd.toInt

theorem checkFd_isClosed (sockfd : Int) : (checkFd sockfd).isClosed = false ↔ sockfd ≠ defaultFd :=
  decide_eq_false_iff_not

end Socket

inductive Call where
  | accepted (fd : Int)
  | closed (fd : Int)
  deriving DecidableEq, Repr

/-- How often the descriptor was passed to `::close` since it was last given out; the newest call
stands first. -/
def passedSince (fd : Int) : List Call → Nat
  | [] => 0
  | .accepted other :: earlier => if other = fd then 0 else passedSince fd earlier
  | .closed other :: earlier =>
      if other = fd then passedSince fd earlier + 1 else passedSince fd earlier

theorem passedSince_accepted (fd : Int) (calls : List Call) :
    passedSince fd (.accepted fd :: calls) = 0 := if_pos rfl

theorem passedSince_accepted_of_ne {fd other : Int} (apart : other ≠ fd) (calls : List Call) :
    passedSince other (.accepted fd :: calls) = passedSince other calls := if_neg apart.symm

theorem passedSince_closed (fd : Int) (calls : List Call) :
    passedSince fd (.closed fd :: calls) = passedSince fd calls + 1 := if_pos rfl

theorem passedSince_closed_of_ne {fd other : Int} (apart : other ≠ fd) (calls : List Call) :
    passedSince other (.closed fd :: calls) = passedSince other calls := if_neg apart.symm

/-- The `Socket`s constructed so far, `none` after the destructor. -/
structure Process where
  sockets : List (Option Socket)
  calls : List Call
  deriving DecidableEq

inductive Operation where
  | construct
  | constructFrom (sockfd : Int)
  | accept (outcome : Option Int)
  | copy (other : Nat)
  | assign (socket other : Nat)
  | close (socket : Nat)
  | destroy (socket : Nat)
  deriving DecidableEq, Repr

inductive Refused where
  | notFree
  | notLive
  deriving DecidableEq, Repr

namespace Process

def start : Process := ⟨[], []⟩

def Accepted (process : Process) (fd : Int) : Prop := Call.accepted fd ∈ process.calls

def Unpassed (process : Process) (fd : Int) : Prop := passedSince fd process.calls = 0

instance (process : Process) (fd : Int) : Decidable (process.Accepted fd) :=
  inferInstanceAs (Decidable (Call.accepted fd ∈ process.calls))

instance (process : Process) (fd : Int) : Decidable (process.Unpassed fd) :=
  inferInstanceAs (Decidable (passedSince fd process.calls = 0))

def add (process : Process) (socket : Socket) : Process :=
  { process with sockets := process.sockets ++ [some socket] }

def put (process : Process) (index : Nat) (socket : Option Socket) : Process :=
  { process with sockets := process.sockets.set index socket }

def call (process : Process) (call : Call) : Process :=
  { process with calls := call :: process.calls }

def withLive (process : Process) (index : Nat) (operation : Socket → Except Refused Process) :
    Except Refused Process :=
  match process.sockets[index]? with
  | some (some socket) => operation socket
  | _ => .error .notLive

def step (process : Process) : Operation → Except Refused Process
  | .construct => .ok (process.add .empty)
  | .constructFrom sockfd => .ok (process.add (.ofFd sockfd))
  | .accept none => .ok (process.add (.ofFd defaultFd))
  | .accept (some fd) =>
      if 0 ≤ fd ∧ fd < 2 ^ 31 ∧ ¬(process.Accepted fd ∧ process.Unpassed fd) then
        .ok ((process.call (.accepted fd)).add (.accepted fd))
      else .error .notFree
  | .copy other => process.withLive other fun source => .ok (process.add source.copyConstruct)
  | .assign socket other =>
      process.withLive socket fun target =>
        process.withLive other fun source => .ok (process.put socket (some (target.assign source)))
  | .close socket =>
      process.withLive socket fun target =>
        .ok ((process.call (.closed target.sockfd)).put socket (some target.close))
  | .destroy socket =>
      process.withLive socket fun target =>
        .ok ((process.call (.closed target.sockfd)).put socket none)

def Live (process : Process) (index : Nat) (socket : Socket) : Prop :=
  process.sockets[index]? = some (some socket)

def Held (process : Process) (fd : Int) : Prop :=
  ∃ index socket, process.Live index socket ∧ socket.sockfd = fd

def Alone (process : Process) (index : Nat) (fd : Int) : Prop :=
  ∀ other socket, process.Live other socket → other ≠ index → socket.sockfd = fd →
    socket.isClosed = true

/-- Each descriptor is passed to `::close` once for each time it was given out: not while a `Socket`
counts itself open on it, not twice, and not never once no `Socket` is left to do it. -/
structure Sound (process : Process) : Prop where
  alive : ∀ index socket, process.Live index socket → socket.isClosed = false →
    process.Unpassed socket.sockfd
  atMostOnce : ∀ fd, process.Accepted fd → passedSince fd process.calls ≤ 1
  once : ∀ fd, process.Accepted fd → ¬process.Held fd → passedSince fd process.calls = 1

/-- The number that `accept` returned fits an `int16_t` (or a `Socket` holds it already), no
`Socket` is made of a descriptor that was passed to `::close`, an assignment does not drop the last
holder of an open one, and `close()` and the destructor only meet a descriptor that is still open
and that no other `Socket` counts as open. -/
def Harmless (process : Process) : Operation → Prop
  | .construct => True
  | .constructFrom sockfd => sockfd = defaultFd ∨ process.Unpassed sockfd
  | .accept none => True
  | .accept (some fd) =>
      (Int16.ofInt fd).toInt = fd ∨
        (process.Held fd ∧ (Int16.ofInt fd < 0 ∨ process.Unpassed (Int16.ofInt fd).toInt))
  | .copy other =>
      ∀ source, process.Live other source →
        source.sockfd = defaultFd ∨ process.Unpassed source.sockfd
  | .assign socket other =>
      ∀ target source, process.Live socket target → process.Live other source →
        (source.sockfd = defaultFd ∨ process.Unpassed source.sockfd) ∧
          (process.Accepted target.sockfd → process.Unpassed target.sockfd →
            source.sockfd = target.sockfd ∨
              ∃ index holder, index ≠ socket ∧ process.Live index holder ∧
                holder.sockfd = target.sockfd)
  | .close socket =>
      ∀ target, process.Live socket target →
        process.Alone socket target.sockfd ∧
          (process.Accepted target.sockfd → process.Unpassed target.sockfd)
  | .destroy socket =>
      ∀ target, process.Live socket target →
        process.Alone socket target.sockfd ∧
          (process.Accepted target.sockfd → process.Unpassed target.sockfd)

theorem withLive_cases {process next : Process} {index : Nat}
    {operation : Socket → Except Refused Process}
    (done : process.withLive index operation = .ok next) :
    ∃ socket, process.Live index socket ∧ operation socket = .ok next := by
  simp only [withLive] at done
  split at done
  · rename_i socket live
    exact ⟨socket, live, done⟩
  · cases done

theorem Live.unique {process : Process} {index : Nat} {socket other : Socket}
    (live : process.Live index socket) (otherLive : process.Live index other) : socket = other := by
  simpa [Live, live] using live.symm.trans otherLive

theorem live_add {process : Process} {new : Socket} {index : Nat} {socket : Socket} :
    (process.add new).Live index socket ↔
      process.Live index socket ∨ (index = process.sockets.length ∧ new = socket) := by
  simp only [Live, add]
  rcases Nat.lt_trichotomy index process.sockets.length with inside | rfl | beyond
  · have apart : index ≠ process.sockets.length := by omega
    simp [List.getElem?_append_left inside, apart]
  · simp
  · have apart : index ≠ process.sockets.length := by omega
    have past : process.sockets.length ≤ index := by omega
    have beyondAll : (process.sockets ++ [some new]).length ≤ index := by
      rw [List.length_append, List.length_singleton]
      omega
    simp [List.getElem?_eq_none past, List.getElem?_eq_none beyondAll, apart]

theorem live_put {process : Process} {changed : Nat} {target : Socket}
    (live : process.Live changed target) {new : Option Socket} {index : Nat} {socket : Socket} :
    (process.put changed new).Live index socket ↔
      (index = changed ∧ new = some socket) ∨ (index ≠ changed ∧ process.Live index socket) := by
  have bound := (List.getElem?_eq_some_iff.mp live).1
  simp only [Live, put, List.getElem?_set]
  by_cases same : changed = index
  · subst same
    simp [bound]
  · have apart : index ≠ changed := fun equal => same equal.symm
    simp [same, apart]

theorem held_add {process : Process} {new : Socket} {fd : Int} :
    (process.add new).Held fd ↔ process.Held fd ∨ new.sockfd = fd := by
  constructor
  · rintro ⟨index, socket, live, same⟩
    rcases live_add.mp live with earlier | ⟨-, rfl⟩
    · exact .inl ⟨index, socket, earlier, same⟩
    · exact .inr same
  · rintro (⟨index, socket, live, same⟩ | same)
    · exact ⟨index, socket, live_add.mpr (.inl live), same⟩
    · exact ⟨process.sockets.length, new, live_add.mpr (.inr ⟨rfl, rfl⟩), same⟩

theorem add_sound_iff {process : Process} (sound : process.Sound) (new : Socket) :
    (process.add new).Sound ↔ (new.isClosed = false → process.Unpassed new.sockfd) := by
  constructor
  · intro nextSound
    exact nextSound.alive process.sockets.length new (live_add.mpr (.inr ⟨rfl, rfl⟩))
  · intro opened
    refine ⟨?_, sound.atMostOnce, ?_⟩
    · intro index socket live isOpen
      rcases live_add.mp live with earlier | ⟨-, rfl⟩
      · exact sound.alive index socket earlier isOpen
      · exact opened isOpen
    · intro fd accepted unheld
      rw [held_add, not_or] at unheld
      exact sound.once fd accepted unheld.1

theorem add_checkFd_sound_iff {process : Process} (sound : process.Sound) (sockfd : Int) :
    (process.add (.checkFd sockfd)).Sound ↔ sockfd = defaultFd ∨ process.Unpassed sockfd := by
  rw [add_sound_iff sound, Socket.checkFd_isClosed, Classical.or_iff_not_imp_left]
  exact Iff.rfl

theorem accepted_sound_iff {process : Process} (sound : process.Sound) (fd : Int) (new : Socket) :
    ((process.call (.accepted fd)).add new).Sound ↔
      (new.isClosed = false → new.sockfd = fd ∨ process.Unpassed new.sockfd) ∧
        (new.sockfd = fd ∨ process.Held fd) := by
  have fresh : passedSince fd (process.call (.accepted fd)).calls = 0 :=
    passedSince_accepted fd process.calls
  have kept : ∀ other ≠ fd,
      passedSince other (process.call (.accepted fd)).calls = passedSince other process.calls :=
    fun other apart => passedSince_accepted_of_ne apart process.calls
  constructor
  · intro nextSound
    constructor
    · intro isOpen
      by_cases same : new.sockfd = fd
      · exact .inl same
      · have opened := nextSound.alive process.sockets.length new
          (live_add.mpr (.inr ⟨rfl, rfl⟩)) isOpen
        exact .inr ((kept new.sockfd same).symm.trans opened)
    · by_contra neither
      have passed : passedSince fd (process.call (.accepted fd)).calls = 1 := by
        apply nextSound.once fd List.mem_cons_self
        intro held
        exact neither (held_add.mp held).symm
      omega
  · rintro ⟨opened, holds⟩
    have before : ∀ other ≠ fd, (process.call (.accepted fd)).Accepted other →
        process.Accepted other := by
      intro other apart accepted
      simpa [Accepted, call, apart] using accepted
    refine ⟨?_, ?_, ?_⟩
    · intro index socket live isOpen
      by_cases same : socket.sockfd = fd
      · exact same ▸ fresh
      · apply (kept socket.sockfd same).trans
        rcases live_add.mp live with earlier | ⟨-, rfl⟩
        · exact sound.alive index socket earlier isOpen
        · exact (opened isOpen).resolve_left same
    · intro other accepted
      by_cases same : other = fd
      · subst same
        exact Nat.le_trans (Nat.le_of_eq fresh) (Nat.zero_le 1)
      · exact Nat.le_trans (Nat.le_of_eq (kept other same))
          (sound.atMostOnce other (before other same accepted))
    · intro other accepted unheld
      rw [held_add, not_or] at unheld
      by_cases same : other = fd
      · subst same
        rcases holds with made | held
        · exact absurd made unheld.2
        · exact absurd held unheld.1
      · exact (kept other same).trans
          (sound.once other (before other same accepted) unheld.1)

theorem accept_sound_iff {process : Process} (sound : process.Sound) {fd : Int} (real : 0 ≤ fd) :
    ((process.call (.accepted fd)).add (.accepted fd)).Sound ↔
      (Int16.ofInt fd).toInt = fd ∨
        (process.Held fd ∧ (Int16.ofInt fd < 0 ∨ process.Unpassed (Int16.ofInt fd).toInt)) := by
  rw [accepted_sound_iff sound]
  have negative : Int16.ofInt fd < 0 ↔ (Int16.ofInt fd).toInt < 0 := by
    rw [Int16.lt_iff_toInt_lt, Int16.toInt_zero]
  by_cases below : Int16.ofInt fd < 0
  · have made : Socket.accepted fd = .checkFd defaultFd := if_pos below
    have different : (Int16.ofInt fd).toInt ≠ fd := by
      have isNegative := negative.mp below
      omega
    have other : defaultFd ≠ fd := by
      have value : defaultFd = -1 := rfl
      omega
    rw [made, Socket.checkFd_isClosed]
    simp only [below, different, Socket.checkFd, other, ne_eq, not_true_eq_false, false_or,
      false_implies, true_and, true_or, and_true]
  · have made : Socket.accepted fd = .checkFd (Int16.ofInt fd).toInt := if_neg below
    have present : (Int16.ofInt fd).toInt ≠ defaultFd := by
      have isNegative := mt negative.mpr below
      have value : defaultFd = -1 := rfl
      omega
    rw [made, Socket.checkFd_isClosed]
    simp only [below, present, Socket.checkFd, false_or, ne_eq, not_false_eq_true, true_implies]
    rw [← or_and_left, and_comm]

theorem assign_sound_iff {process : Process} (sound : process.Sound) {index : Nat}
    {target : Socket} (live : process.Live index target) (sockfd : Int) :
    (process.put index (some (.checkFd sockfd))).Sound ↔
      (sockfd = defaultFd ∨ process.Unpassed sockfd) ∧
        (process.Accepted target.sockfd → process.Unpassed target.sockfd →
          sockfd = target.sockfd ∨
            ∃ other holder, other ≠ index ∧ process.Live other holder ∧
              holder.sockfd = target.sockfd) := by
  constructor
  · intro nextSound
    constructor
    · rw [Classical.or_iff_not_imp_left]
      intro present
      exact nextSound.alive index (.checkFd sockfd) ((live_put live).mpr (.inl ⟨rfl, rfl⟩))
        ((Socket.checkFd_isClosed sockfd).mpr present)
    · intro accepted unpassed
      -- The descriptor is still open, so some `Socket` has to be left that will close it.
      by_contra dropped
      have passed : passedSince target.sockfd process.calls = 1 := by
        apply nextSound.once target.sockfd accepted
        rintro ⟨other, holder, nextLive, same⟩
        rcases (live_put live).mp nextLive with ⟨-, made⟩ | ⟨apart, earlier⟩
        · cases made
          exact dropped (.inl same)
        · exact dropped (.inr ⟨other, holder, apart, earlier, same⟩)
      have none : passedSince target.sockfd process.calls = 0 := unpassed
      omega
  · rintro ⟨opened, left⟩
    refine ⟨?_, sound.atMostOnce, ?_⟩
    · intro other socket nextLive isOpen
      rcases (live_put live).mp nextLive with ⟨-, made⟩ | ⟨-, earlier⟩
      · cases made
        exact opened.resolve_left ((Socket.checkFd_isClosed sockfd).mp isOpen)
      · exact sound.alive other socket earlier isOpen
    · intro fd accepted unheld
      by_cases held : process.Held fd
      · obtain ⟨other, holder, earlier, same⟩ := held
        have dropped : other = index := by
          by_contra apart
          exact unheld ⟨other, holder, (live_put live).mpr (.inr ⟨apart, earlier⟩), same⟩
        subst dropped
        cases live.unique earlier
        subst same
        have passed : ¬process.Unpassed target.sockfd := by
          intro unpassed
          rcases left accepted unpassed with kept | ⟨another, holder, apart, earlier, same⟩
          · exact unheld ⟨other, .checkFd sockfd, (live_put live).mpr (.inl ⟨rfl, rfl⟩), kept⟩
          · exact unheld ⟨another, holder, (live_put live).mpr (.inr ⟨apart, earlier⟩), same⟩
        have atMost := sound.atMostOnce target.sockfd accepted
        have atLeast : passedSince target.sockfd process.calls ≠ 0 := passed
        have same : passedSince target.sockfd process.calls = 1 := by omega
        exact same
      · exact sound.once fd accepted held

theorem release_sound_iff {process : Process} (sound : process.Sound) {index : Nat}
    {target : Socket} (live : process.Live index target) {left : Option Socket}
    (husk : ∀ socket, left = some socket → socket = target.close) :
    ((process.call (.closed target.sockfd)).put index left).Sound ↔
      process.Alone index target.sockfd ∧
        (process.Accepted target.sockfd → process.Unpassed target.sockfd) := by
  have passed : passedSince target.sockfd (process.call (.closed target.sockfd)).calls =
      passedSince target.sockfd process.calls + 1 := passedSince_closed target.sockfd process.calls
  have kept : ∀ fd ≠ target.sockfd, passedSince fd (process.call (.closed target.sockfd)).calls =
      passedSince fd process.calls :=
    fun fd apart => passedSince_closed_of_ne apart process.calls
  have before : ∀ fd, (process.call (.closed target.sockfd)).Accepted fd ↔ process.Accepted fd := by
    intro fd
    simp [Accepted, call]
  have liveCall : (process.call (.closed target.sockfd)).Live index target := live
  constructor
  · intro nextSound
    constructor
    · intro other socket earlier apart same
      by_contra isOpen
      have none : passedSince socket.sockfd (process.call (.closed target.sockfd)).calls = 0 :=
        nextSound.alive other socket ((live_put liveCall).mpr (.inr ⟨apart, earlier⟩))
          (Bool.not_eq_true _ ▸ isOpen)
      rw [same, passed] at none
      omega
    · intro accepted
      have atMost : passedSince target.sockfd (process.call (.closed target.sockfd)).calls ≤ 1 :=
        nextSound.atMostOnce target.sockfd ((before _).mpr accepted)
      rw [passed] at atMost
      have none : passedSince target.sockfd process.calls = 0 := by omega
      exact none
  · rintro ⟨alone, unpassed⟩
    refine ⟨?_, ?_, ?_⟩
    · intro other socket nextLive isOpen
      rcases (live_put liveCall).mp nextLive with ⟨-, stays⟩ | ⟨apart, earlier⟩
      · rw [husk socket stays] at isOpen
        cases isOpen
      · have different : socket.sockfd ≠ target.sockfd := by
          intro same
          have closed := alone other socket earlier apart same
          rw [closed] at isOpen
          cases isOpen
        exact (kept _ different).trans (sound.alive other socket earlier isOpen)
    · intro fd accepted
      by_cases same : fd = target.sockfd
      · subst same
        have none : passedSince target.sockfd process.calls = 0 := unpassed ((before _).mp accepted)
        have now : passedSince target.sockfd (process.call (.closed target.sockfd)).calls ≤ 1 := by
          omega
        exact now
      · exact Nat.le_trans (Nat.le_of_eq (kept fd same))
          (sound.atMostOnce fd ((before fd).mp accepted))
    · intro fd accepted unheld
      by_cases same : fd = target.sockfd
      · subst same
        have none : passedSince target.sockfd process.calls = 0 := unpassed ((before _).mp accepted)
        have now : passedSince target.sockfd (process.call (.closed target.sockfd)).calls = 1 := by
          omega
        exact now
      · apply (kept fd same).trans
        apply sound.once fd ((before fd).mp accepted)
        rintro ⟨other, socket, earlier, holds⟩
        have apart : other ≠ index := by
          rintro rfl
          cases live.unique earlier
          exact same holds.symm
        exact unheld ⟨other, socket, (live_put liveCall).mpr (.inr ⟨apart, earlier⟩), holds⟩

theorem step_sound_iff {process next : Process} {operation : Operation} (sound : process.Sound)
    (stepped : process.step operation = .ok next) : next.Sound ↔ process.Harmless operation := by
  cases operation with
  | construct =>
      cases stepped
      have opened := (add_checkFd_sound_iff sound defaultFd).mpr (.inl rfl)
      exact iff_of_true opened trivial
  | constructFrom sockfd =>
      cases stepped
      exact add_checkFd_sound_iff sound sockfd
  | accept outcome =>
      cases outcome with
      | none =>
          cases stepped
          have opened := (add_checkFd_sound_iff sound defaultFd).mpr (.inl rfl)
          exact iff_of_true opened trivial
      | some fd =>
          simp only [step] at stepped
          split at stepped
          · rename_i given
            cases stepped
            exact accept_sound_iff sound given.1
          · cases stepped
  | copy other =>
      obtain ⟨source, live, made⟩ := withLive_cases stepped
      cases made
      refine (add_checkFd_sound_iff sound source.sockfd).trans ⟨?_, fun each => each source live⟩
      intro opened another anotherLive
      exact live.unique anotherLive ▸ opened
  | assign socket other =>
      obtain ⟨target, live, sourced⟩ := withLive_cases stepped
      obtain ⟨source, sourceLive, made⟩ := withLive_cases sourced
      cases made
      refine (assign_sound_iff sound live source.sockfd).trans
        ⟨?_, fun each => each target source live sourceLive⟩
      intro kept another anotherSource anotherLive anotherSourceLive
      cases live.unique anotherLive
      cases sourceLive.unique anotherSourceLive
      exact kept
  | close socket =>
      obtain ⟨target, live, made⟩ := withLive_cases stepped
      cases made
      refine (release_sound_iff sound live ?_).trans ⟨?_, fun each => each target live⟩
      · intro left stays
        exact (Option.some.inj stays).symm
      · intro kept another anotherLive
        exact live.unique anotherLive ▸ kept
  | destroy socket =>
      obtain ⟨target, live, made⟩ := withLive_cases stepped
      cases made
      refine (release_sound_iff sound live ?_).trans ⟨?_, fun each => each target live⟩
      · intro left stays
        cases stays
      · intro kept another anotherLive
        exact live.unique anotherLive ▸ kept

theorem start_sound : start.Sound where
  alive := by simp [start, Live]
  atMostOnce := by simp [start, Accepted]
  once := by simp [start, Accepted]

theorem sound_iff_harmless (operations : List Operation) :
    Runs.Always step Sound start operations ↔
      Runs.EachStep step (fun process operation _ => process.Harmless operation) start
        operations := by
  refine Runs.always_iff_eachStep_of_holding
    (fun _ _ _ (_ : True) (_ : True) _ _ => trivial) ?_ operations trivial start_sound
    (Runs.permits_of_forall fun _ _ => trivial)
  intro process operation next _ _ stepped sound
  exact step_sound_iff sound stepped

/-- A copy made for a call by value closes the descriptor of the original; and `close()`, as `run`
calls it in the parent, and the destructor pass one descriptor twice. -/
theorem copy_closes_original :
    ¬Runs.Always step Sound start [.accept (some 5), .copy 0, .destroy 1] ∧
      ¬Runs.Always step Sound start [.accept (some 5), .close 0, .destroy 0] := by
  constructor
  · intro always
    have ran : Runs.run step start [.accept (some 5), .copy 0, .destroy 1] =
        .ok ⟨[some (.ofFd 5), none], [.closed 5, .accepted 5]⟩ := by decide
    have passed := (always.last ran).alive 0 (.ofFd 5) rfl rfl
    exact absurd passed (by decide)
  · intro always
    have ran : Runs.run step start [.accept (some 5), .close 0, .destroy 0] =
        .ok ⟨[none], [.closed 5, .closed 5, .accepted 5]⟩ := by decide
    have twice := (always.last ran).atMostOnce 5 (by decide)
    exact absurd twice (by decide)

end Process

end LearnInternet.TcpServerV3.Lifetimes
