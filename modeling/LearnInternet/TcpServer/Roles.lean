import LearnInternet.TcpServer.Forking

/-!
What each process of the forking `TcpServer` is at each point of `run`, what it has open, and that a
step of any process keeps this.
-/

namespace LearnInternet.ForkingServer

open Descriptors

/-! What each process is, and what it has open. -/

/-- A table with at most the log more than this one. -/
inductive WithLog (rest : Table File) : Table File → Prop where
  | same : WithLog rest rest
  | opened (number : Nat) (free : number ∉ numbers rest) : WithLog rest (rest ++ [(number, .log)])

/-- A connection is given by its descriptor and its number. -/
def opened (table : Table File) (conn : Option (Nat × Nat)) : Table File :=
  match conn with
  | none => table
  | some (number, index) => (number, .connection index) :: table

def sockOf (conn : Option (Nat × Nat)) : Int :=
  match conn with
  | none => -1
  | some (number, _) => number

structure Beside (rest : Table File) (conn : Option (Nat × Nat)) (table : Table File) : Prop where
  log : WithLog rest table
  free : ∀ number index, conn = some (number, index) → number ∉ numbers table

section Roles

variable (inherited : Table File)

/-- The descriptors of the server between two connections, but for the log. -/
def base : Table File := (lowestFree inherited, .listening) :: inherited

inductive ServerRole : Process → Prop where
  | accepting (table : Table File) (log : WithLog (base inherited) table) :
      ServerRole ⟨initPid, table, .accepting⟩
  | forking (conn : Option (Nat × Nat)) (table : Table File)
      (beside : Beside (base inherited) conn table) :
      ServerRole ⟨initPid, opened table conn, .forking (sockOf conn)⟩
  | parted (conn : Option (Nat × Nat)) (table : Table File)
      (beside : Beside (base inherited) conn table) :
      ServerRole ⟨initPid, opened table conn, .parted (sockOf conn)⟩
  | waiting (table : Table File) (log : WithLog (base inherited) table) :
      ServerRole ⟨initPid, table, .waiting⟩

inductive ChildRole : Process → Prop where
  | entered (conn : Option (Nat × Nat)) (table : Table File)
      (beside : Beside (base inherited) conn table) :
      ChildRole ⟨serverPid, opened table conn, .entered (sockOf conn)⟩
  | deaf (conn : Option (Nat × Nat)) (table : Table File) (beside : Beside inherited conn table) :
      ChildRole ⟨serverPid, opened table conn, .deaf (sockOf conn)⟩
  | leaving (conn : Option (Nat × Nat)) (table : Table File) (beside : Beside inherited conn table) :
      ChildRole ⟨serverPid, opened table conn, .leaving (sockOf conn)⟩
  | exited (status : Status) : ChildRole ⟨serverPid, [], .exited status⟩

/-- The process that serves a connection: a child of the one that forked it, or adopted. -/
inductive HandlerRole : Process → Prop where
  | serving (parent : Pid) (conn : Option (Nat × Nat)) (table : Table File)
      (beside : Beside inherited conn table) :
      HandlerRole ⟨parent, opened table conn, .serving (sockOf conn)⟩
  | leaving (parent : Pid) (conn : Option (Nat × Nat)) (table : Table File)
      (beside : Beside inherited conn table) :
      HandlerRole ⟨parent, opened table conn, .leaving (sockOf conn)⟩
  | exited (parent : Pid) (living : parent ≠ initPid) (status : Status) :
      HandlerRole ⟨parent, [], .exited status⟩

def Plays (pid : Pid) (process : Process) : Prop :=
  if pid = serverPid then ServerRole inherited process
  else if process.parent = serverPid then ChildRole inherited process
  else HandlerRole inherited process

end Roles

def Process.Holds (process : Process) (index : Nat) : Prop :=
  ∃ number, (number, File.connection index) ∈ process.fds

/-- The parent after `fork` and the child that has forked hold a connection they do not use. -/
def Process.Owner (process : Process) : Prop :=
  match process.control with
  | .parted _ => False
  | .leaving _ => process.parent ≠ serverPid
  | _ => True

def Control.Idle (control : Control) : Prop :=
  match control with
  | .accepting => True
  | .forking _ => True
  | _ => False

/-- A process with few descriptors, none of them a connection. -/
structure Modest (inherited : Table File) : Prop where
  bare : ∀ entry ∈ inherited, entry.2 = .inherited ∨ entry.2 = .log
  few : inherited.length < 32766

namespace System

structure Inv (inherited : Table File) (waits : Bool) (system : System) : Prop where
  fresh : ∀ pid, system.nextPid ≤ pid → system.processes pid = none
  low : serverPid < system.nextPid
  elsewhere : system.processes initPid = none
  alive : system.processes serverPid ≠ none
  plays : ∀ pid process, system.processes pid = some process → Plays inherited pid process
  numbered : ∀ pid process index, system.processes pid = some process → process.Holds index →
    index < system.nextConnection
  adopted : ∀ pid process, system.processes pid = some process → pid ≠ serverPid →
    process.parent ≠ serverPid → process.parent = initPid ∨
      ∃ child sock, system.processes process.parent = some child ∧ child.parent = serverPid ∧
        child.control = .leaving sock
  single : waits = true → ∀ first second, system.childOf serverPid first = true →
    system.childOf serverPid second = true → first = second
  idle : waits = true → ∀ process, system.processes serverPid = some process →
    process.control.Idle → ∀ pid, system.childOf serverPid pid = false
  distinct : ∀ first second process other index, system.processes first = some process →
    system.processes second = some other → process.Owner → other.Owner → process.Holds index →
      other.Holds index → first = second

end System

section Tables

variable {inherited rest table : Table File} {conn : Option (Nat × Nat)}

theorem WithLog.subset (log : WithLog rest table) : numbers rest ⊆ numbers table := by
  cases log with
  | same => exact List.Subset.refl _
  | opened number free =>
      rw [numbers_append]
      exact List.subset_append_left _ _

theorem WithLog.length_le (log : WithLog rest table) : table.length ≤ rest.length + 1 := by
  cases log with
  | same => exact Nat.le_succ _
  | opened number free => simp

theorem WithLog.beside (log : WithLog rest table) : Beside rest none table :=
  ⟨log, fun _ _ none => by cases none⟩

theorem Beside.accepted (log : WithLog rest table) (index : Nat) :
    Beside rest (some (lowestFree table, index)) table := by
  refine ⟨log, fun number other same => ?_⟩
  obtain ⟨rfl, -⟩ := Prod.mk.inj (Option.some.inj same)
  exact (lowestFree_spec table).1

theorem lowestFree_small (modest : Modest inherited) (log : WithLog (base inherited) table) :
    toInt16 (lowestFree table) = lowestFree table := by
  have bound := (lowestFree_spec table).2.1
  have few := modest.few
  have more := log.length_le
  rw [base, List.length_cons] at more
  have small : lowestFree table % 65536 = lowestFree table := Nat.mod_eq_of_lt (by omega)
  rw [toInt16, small, if_pos (by omega)]

theorem logOpen_append_log (table : Table File) (number : Nat) :
    logOpen (table ++ [(number, .log)]) = true := by
  simp [logOpen]

theorem logOpen_opened (table : Table File) (conn : Option (Nat × Nat)) :
    logOpen (opened table conn) = logOpen table := by
  cases conn with
  | none => rfl
  | some entry => simp [logOpen, opened]

theorem Beside.openLog (beside : Beside rest conn table) :
    ∃ later, openLog (opened table conn) = opened later conn ∧ Beside rest conn later := by
  rw [ForkingServer.openLog, logOpen_opened]
  cases isOpen : logOpen table with
  | true => exact ⟨table, if_pos rfl, beside⟩
  | false =>
      have free := (lowestFree_spec (opened table conn)).1
      generalize lowestFree (opened table conn) = number at free ⊢
      refine ⟨table ++ [(number, .log)], ?_, ?_, ?_⟩
      · cases conn <;> rfl
      · cases beside.log with
        | same =>
            refine .opened number fun member => free ?_
            cases conn with
            | none => exact member
            | some entry => exact List.mem_cons_of_mem _ member
        | opened other otherFree =>
            rw [logOpen_append_log] at isOpen
            cases isOpen
      · intro sock index isConn member
        rw [numbers_append] at member
        rcases List.mem_append.mp member with inside | last
        · exact beside.free sock index isConn inside
        · obtain rfl : sock = number := List.mem_singleton.mp last
          rw [isConn] at free
          exact free List.mem_cons_self

theorem Beside.closeSock (beside : Beside rest conn table) :
    closeSock (sockOf conn) (opened table conn) = table := by
  cases conn with
  | none => rfl
  | some entry =>
      simp only [ForkingServer.closeSock, sockOf, Int.toNat_natCast, opened]
      exact close_cons_same _ (beside.free _ _ rfl)

theorem Beside.closeSocket (server : Server) (beside : Beside rest conn table) :
    WithLog rest (server.closeSocket (sockOf conn) (opened table conn)) := by
  rw [Server.closeSocket]
  split
  · obtain ⟨later, same, after⟩ := beside.openLog
    rw [same, after.closeSock]
    exact after.log
  · rw [beside.closeSock]
    exact beside.log

theorem Beside.close_listening (beside : Beside (base inherited) conn table) :
    ∃ later, close (lowestFree inherited) (opened table conn) = opened later conn ∧
      Beside inherited conn later := by
  have listening : lowestFree inherited ∈ numbers table := beside.log.subset List.mem_cons_self
  obtain ⟨later, closed, log, fewer⟩ : ∃ later, close (lowestFree inherited) table = later ∧
      WithLog inherited later ∧ numbers later ⊆ numbers table := by
    have first : close (lowestFree inherited) (base inherited) = inherited :=
      close_cons_same _ (lowestFree_spec inherited).1
    cases beside.log with
    | same => exact ⟨inherited, first, .same, List.subset_cons_self _ _⟩
    | opened number free =>
        have notListening : number ≠ lowestFree inherited := by
          rintro rfl
          exact free List.mem_cons_self
        have notInherited : number ∉ numbers inherited :=
          fun member => free (List.mem_cons_of_mem _ member)
        refine ⟨inherited ++ [(number, .log)], ?_, .opened number notInherited, ?_⟩
        · rw [close_append, first, close_cons_ne _ _ notListening]
          rfl
        · exact List.subset_cons_self _ _
  refine ⟨later, ?_, log, fun number index isConn member =>
    beside.free number index isConn (fewer member)⟩
  cases conn with
  | none => exact closed
  | some entry =>
      have different : entry.1 ≠ lowestFree inherited := by
        intro same
        exact beside.free entry.1 entry.2 rfl (same ▸ listening)
      simp only [opened]
      rw [close_cons_ne _ _ different, closed]

theorem holds_opened (bare : ∀ entry ∈ table, ∀ index, entry.2 ≠ .connection index)
    {parent : Pid} {control : Control} {index : Nat} :
    Process.Holds ⟨parent, opened table conn, control⟩ index ↔
      ∃ number, conn = some (number, index) := by
  have none : ∀ number, (number, File.connection index) ∉ table := by
    intro number member
    exact bare _ member index rfl
  cases conn with
  | none => simp [Process.Holds, opened, none]
  | some entry => simp [Process.Holds, opened, none, Prod.ext_iff, eq_comm]

theorem not_holds (bare : ∀ entry ∈ table, ∀ index, entry.2 ≠ .connection index)
    {parent : Pid} {control : Control} {index : Nat} :
    ¬Process.Holds ⟨parent, table, control⟩ index := by
  rintro ⟨number, member⟩
  exact bare _ member index rfl

theorem WithLog.bare (log : WithLog rest table)
    (bare : ∀ entry ∈ rest, ∀ index, entry.2 ≠ .connection index) :
    ∀ entry ∈ table, ∀ index, entry.2 ≠ .connection index := by
  cases log with
  | same => exact bare
  | opened number free =>
      intro entry member index
      rcases List.mem_append.mp member with inside | last
      · exact bare entry inside index
      · rw [List.mem_singleton.mp last]
        simp

theorem Modest.bare_inherited (modest : Modest inherited) (log : WithLog inherited table) :
    ∀ entry ∈ table, ∀ index, entry.2 ≠ .connection index := by
  refine log.bare fun entry member index => ?_
  rcases modest.bare entry member with plain | log
  · simp [plain]
  · simp [log]

theorem Modest.bare_base (modest : Modest inherited) (log : WithLog (base inherited) table) :
    ∀ entry ∈ table, ∀ index, entry.2 ≠ .connection index := by
  refine log.bare fun entry member index => ?_
  rcases List.mem_cons.mp member with rfl | inside
  · simp
  · exact modest.bare_inherited .same entry inside index

end Tables

namespace System

variable {inherited : Table File} {waits : Bool} {system : System} {pid : Pid}
  {process later : Process}

theorem put_same (system : System) (pid : Pid) (later : Process) :
    (system.put pid later).processes pid = some later := if_pos rfl

theorem put_ne {other : Pid} (different : other ≠ pid) :
    (system.put pid later).processes other = system.processes other := if_neg different

theorem childOf_eq_true {parent child : Pid} :
    system.childOf parent child = true ↔
      ∃ process, system.processes child = some process ∧ process.parent = parent := by
  rw [childOf]
  split
  · rename_i none
    simp [none]
  · rename_i process found
    simp [found]

theorem childOf_put (here : system.processes pid = some process) (later : Process)
    (parent : later.parent = process.parent) (server child : Pid) :
    (system.put pid later).childOf server child = system.childOf server child := by
  by_cases same : child = pid
  · rw [same, childOf, childOf, put_same, here]
    simp only [parent]
  · rw [childOf, childOf, put_ne same]

theorem Inv.role (inv : system.Inv inherited waits) (here : system.processes pid = some process)
    (isServer : pid = serverPid) : ServerRole inherited process := by
  have plays := inv.plays pid process here
  rwa [Plays, if_pos isServer] at plays

theorem Inv.put (inv : system.Inv inherited waits) (here : system.processes pid = some process)
    (later : Process) (count : Nat) (more : system.nextConnection ≤ count)
    (parent : later.parent = process.parent)
    (plays : Plays inherited pid later)
    (holds : ∀ index, later.Holds index →
      process.Holds index ∨ system.nextConnection ≤ index ∧ index < count)
    (owner : ∀ index, later.Owner → later.Holds index → process.Owner)
    (stays : process.parent = serverPid → ∀ sock, process.control ≠ .leaving sock)
    (idle : pid = serverPid → waits = true → later.control.Idle →
      ∀ child, system.childOf serverPid child = false) :
    Inv inherited waits ({ system with nextConnection := count }.put pid later) := by
  have childOf (child : Pid) :
      ({ system with nextConnection := count }.put pid later).childOf serverPid child =
        system.childOf serverPid child :=
    childOf_put here later parent serverPid child
  have cases (other : Pid) (found : Process)
      (there : ({ system with nextConnection := count }.put pid later).processes other = some found) :
      other = pid ∧ found = later ∨ other ≠ pid ∧ system.processes other = some found := by
    by_cases same : other = pid
    · rw [same, put_same] at there
      exact .inl ⟨same, (Option.some.inj there).symm⟩
    · rw [put_ne same] at there
      exact .inr ⟨same, there⟩
  constructor
  · intro other high
    have different : other ≠ pid := by
      intro same
      rw [← same, inv.fresh other high] at here
      cases here
    rw [put_ne different]
    exact inv.fresh other high
  · exact inv.low
  · have different : initPid ≠ pid := by
      intro same
      rw [← same, inv.elsewhere] at here
      cases here
    rw [put_ne different]
    exact inv.elsewhere
  · by_cases same : serverPid = pid
    · rw [same, put_same]
      simp
    · rw [put_ne same]
      exact inv.alive
  · intro other found there
    rcases cases other found there with ⟨rfl, rfl⟩ | ⟨-, there⟩
    · exact plays
    · exact inv.plays other found there
  · intro other found index there held
    rcases cases other found there with ⟨rfl, rfl⟩ | ⟨-, there⟩
    · rcases holds index held with before | fresh
      · exact Nat.lt_of_lt_of_le (inv.numbered other process index here before) more
      · exact fresh.2
    · exact Nat.lt_of_lt_of_le (inv.numbered other found index there held) more
  · intro other found there notServer notChild
    have before : found.parent = initPid ∨ ∃ child sock, system.processes found.parent = some child ∧
        child.parent = serverPid ∧ child.control = .leaving sock := by
      rcases cases other found there with ⟨rfl, rfl⟩ | ⟨-, there⟩
      · rw [parent] at notChild ⊢
        exact inv.adopted other process here notServer notChild
      · exact inv.adopted other found there notServer notChild
    rcases before with init | ⟨child, sock, childThere, isChild, leaving⟩
    · exact .inl init
    · refine .inr ⟨child, sock, ?_, isChild, leaving⟩
      have different : found.parent ≠ pid := by
        intro same
        rw [same, here] at childThere
        cases childThere
        exact stays isChild sock leaving
      rw [put_ne different]
      exact childThere
  · intro waiting first second isFirst isSecond
    rw [childOf] at isFirst isSecond
    exact inv.single waiting first second isFirst isSecond
  · intro waiting found there isIdle child
    rw [childOf]
    rcases cases serverPid found there with ⟨same, rfl⟩ | ⟨-, there⟩
    · exact idle same.symm waiting isIdle child
    · exact inv.idle waiting found there isIdle child
  · intro first second one two index firstThere secondThere firstOwner secondOwner firstHolds
      secondHolds
    have fresh {other : Pid} {found : Process} (there : system.processes other = some found)
        (held : found.Holds index) : index < system.nextConnection :=
      inv.numbered other found index there held
    rcases cases first one firstThere with ⟨rfl, rfl⟩ | ⟨-, firstBefore⟩
    · rcases cases second two secondThere with ⟨rfl, rfl⟩ | ⟨-, secondBefore⟩
      · rfl
      · rcases holds index firstHolds with before | ⟨above, -⟩
        · exact inv.distinct first second process two index here secondBefore
            (owner index firstOwner firstHolds) secondOwner before secondHolds
        · exact absurd (fresh secondBefore secondHolds) (Nat.not_lt.mpr above)
    · rcases cases second two secondThere with ⟨rfl, rfl⟩ | ⟨-, secondBefore⟩
      · rcases holds index secondHolds with before | ⟨above, -⟩
        · exact inv.distinct first second one process index firstBefore here firstOwner
            (owner index secondOwner secondHolds) firstHolds before
        · exact absurd (fresh firstBefore firstHolds) (Nat.not_lt.mpr above)
      · exact inv.distinct first second one two index firstBefore secondBefore firstOwner
          secondOwner firstHolds secondHolds

def born (system : System) (child : Process) : System :=
  { system with
    processes := fun other =>
      if other = system.nextPid then some child else system.processes other
    nextPid := system.nextPid + 1 }

theorem Inv.born (inv : system.Inv inherited waits) {child : Process}
    (plays : Plays inherited system.nextPid child)
    (numbered : ∀ index, child.Holds index → index < system.nextConnection)
    (adopted : child.parent ≠ serverPid → ∃ parent sock,
      system.processes child.parent = some parent ∧ parent.parent = serverPid ∧
        parent.control = .leaving sock)
    (alone : child.parent = serverPid → waits = true →
      (∀ other, system.childOf serverPid other = false) ∧
        ∀ server, system.processes serverPid = some server → ¬server.control.Idle)
    (distinct : ∀ other process index, system.processes other = some process → process.Owner →
      process.Holds index → ¬child.Holds index) :
    (system.born child).Inv inherited waits := by
  have low := inv.low
  have same : (system.born child).processes system.nextPid = some child := if_pos rfl
  have ne {other : Pid} (different : other ≠ system.nextPid) :
      (system.born child).processes other = system.processes other := if_neg different
  have known {other : Pid} {found : Process} (there : system.processes other = some found) :
      other ≠ system.nextPid := by
    intro high
    rw [inv.fresh other (Nat.le_of_eq high.symm)] at there
    cases there
  have cases (other : Pid) (found : Process)
      (there : (system.born child).processes other = some found) :
      other = system.nextPid ∧ found = child ∨ system.processes other = some found := by
    by_cases new : other = system.nextPid
    · rw [new, same] at there
      exact .inl ⟨new, (Option.some.inj there).symm⟩
    · rw [ne new] at there
      exact .inr there
  have serverThere : (system.born child).processes serverPid = system.processes serverPid :=
    ne (Nat.ne_of_lt low)
  constructor
  · intro other high
    rw [ne (Nat.ne_of_gt high)]
    exact inv.fresh other (Nat.le_of_succ_le high)
  · exact Nat.lt_succ_of_lt low
  · rw [ne (Nat.ne_of_lt (Nat.lt_trans (by decide) low))]
    exact inv.elsewhere
  · rw [serverThere]
    exact inv.alive
  · intro other found there
    rcases cases other found there with ⟨rfl, rfl⟩ | there
    · exact plays
    · exact inv.plays other found there
  · intro other found index there held
    rcases cases other found there with ⟨-, rfl⟩ | there
    · exact numbered index held
    · exact inv.numbered other found index there held
  · intro other found there notServer notChild
    rcases cases other found there with ⟨-, rfl⟩ | there
    · obtain ⟨parent, sock, parentThere, isChild, leaving⟩ := adopted notChild
      exact .inr ⟨parent, sock, (ne (known parentThere)).trans parentThere, isChild, leaving⟩
    · rcases inv.adopted other found there notServer notChild with
        init | ⟨parent, sock, parentThere, rest⟩
      · exact .inl init
      · exact .inr ⟨parent, sock, (ne (known parentThere)).trans parentThere, rest⟩
  · intro waiting first second isFirst isSecond
    rw [childOf_eq_true] at isFirst isSecond
    obtain ⟨one, firstThere, firstParent⟩ := isFirst
    obtain ⟨two, secondThere, secondParent⟩ := isSecond
    rcases cases first one firstThere with ⟨rfl, rfl⟩ | firstBefore
    · rcases cases second two secondThere with ⟨rfl, -⟩ | secondBefore
      · rfl
      · have none := (alone firstParent waiting).1 second
        rw [childOf_eq_true.mpr ⟨two, secondBefore, secondParent⟩] at none
        cases none
    · rcases cases second two secondThere with ⟨rfl, rfl⟩ | secondBefore
      · have none := (alone secondParent waiting).1 first
        rw [childOf_eq_true.mpr ⟨one, firstBefore, firstParent⟩] at none
        cases none
      · exact inv.single waiting first second (childOf_eq_true.mpr ⟨one, firstBefore, firstParent⟩)
          (childOf_eq_true.mpr ⟨two, secondBefore, secondParent⟩)
  · intro waiting server there isIdle other
    rw [serverThere] at there
    rw [Bool.eq_false_iff]
    intro isChild
    obtain ⟨found, foundThere, parent⟩ := childOf_eq_true.mp isChild
    rcases cases other found foundThere with ⟨-, rfl⟩ | before
    · exact (alone parent waiting).2 server there isIdle
    · have none := inv.idle waiting server there isIdle other
      rw [childOf_eq_true.mpr ⟨found, before, parent⟩] at none
      cases none
  · intro first second one two index firstThere secondThere firstOwner secondOwner firstHolds
      secondHolds
    rcases cases first one firstThere with ⟨rfl, rfl⟩ | firstBefore
    · rcases cases second two secondThere with ⟨rfl, -⟩ | secondBefore
      · rfl
      · exact absurd firstHolds (distinct second two index secondBefore secondOwner secondHolds)
    · rcases cases second two secondThere with ⟨rfl, rfl⟩ | secondBefore
      · exact absurd secondHolds (distinct first one index firstBefore firstOwner firstHolds)
      · exact inv.distinct first second one two index firstBefore secondBefore firstOwner
          secondOwner firstHolds secondHolds

theorem Inv.spawn (inv : system.Inv inherited waits) (here : system.processes pid = some process)
    {parent child : Control}
    (plays : Plays inherited pid { process with control := parent })
    (childPlays : Plays inherited system.nextPid { process with parent := pid, control := child })
    (owner : process.Owner) (parentOwner : ¬Process.Owner { process with control := parent })
    (stays : process.parent = serverPid → ∀ sock, process.control ≠ .leaving sock)
    (adopts : pid ≠ serverPid → process.parent = serverPid ∧ ∃ sock, parent = .leaving sock)
    (idle : ¬parent.Idle)
    (alone : pid = serverPid → waits = true → ∀ child, system.childOf serverPid child = false) :
    (system.spawn pid process parent child).Inv inherited waits := by
  have kept := inv.put here { process with control := parent } system.nextConnection
    (Nat.le_refl _) rfl plays (fun _ held => .inl held) (fun _ owned => absurd owned parentOwner)
    stays (fun _ _ isIdle => absurd isIdle idle)
  apply kept.born childPlays
  · intro index held
    exact inv.numbered pid process index here held
  · intro notServer
    obtain ⟨isChild, sock, leaving⟩ := adopts notServer
    exact ⟨_, sock, put_same _ _ _, isChild, leaving⟩
  · intro isServer waiting
    refine ⟨?_, ?_⟩
    · intro other
      have none := alone isServer waiting other
      rwa [← childOf_put here { process with control := parent } rfl] at none
    · intro server there
      have same : pid = serverPid := isServer
      rw [← same, put_same] at there
      cases there
      exact idle
  · intro other found index there owned held childHeld
    by_cases same : other = pid
    · rw [same, put_same] at there
      cases there
      exact parentOwner owned
    · rw [put_ne same] at there
      exact same (inv.distinct other pid found process index there here owned owner held childHeld)

theorem leave_cases {status : Status} {other : Pid} {found : Process}
    (there : (system.leave pid process status).processes other = some found) :
    other = pid ∧ process.parent ≠ initPid ∧
        found = { process with fds := [], control := .exited status } ∨
      other ≠ pid ∧ ∃ before, system.processes other = some before ∧
        (before.parent = pid ∧ isExited before.control = false ∧
            found = { before with parent := initPid } ∨
          before.parent ≠ pid ∧ found = before) := by
  simp only [leave] at there
  by_cases same : other = pid
  · rw [if_pos same] at there
    by_cases adopted : process.parent = initPid
    · rw [if_pos adopted] at there
      cases there
    · rw [if_neg adopted] at there
      cases there
      exact .inl ⟨same, adopted, rfl⟩
  · rw [if_neg same] at there
    right
    refine ⟨same, ?_⟩
    cases before : system.processes other with
    | none =>
        rw [before] at there
        cases there
    | some orphan =>
        simp only [before] at there
        refine ⟨orphan, rfl, ?_⟩
        by_cases orphaned : orphan.parent = pid
        · rw [if_pos orphaned] at there
          cases exited : isExited orphan.control with
          | true =>
              rw [exited] at there
              cases there
          | false =>
              rw [exited] at there
              cases there
              exact .inl ⟨orphaned, rfl, rfl⟩
        · rw [if_neg orphaned] at there
          cases there
          exact .inr ⟨orphaned, rfl⟩

theorem leave_ne {status : Status} {other : Pid} {found : Process} (different : other ≠ pid)
    (there : system.processes other = some found) (kept : found.parent ≠ pid) :
    (system.leave pid process status).processes other = some found := by
  simp only [leave, if_neg different, there, if_neg kept]

theorem Inv.pid_ne_init (inv : system.Inv inherited waits)
    (here : system.processes pid = some process) : pid ≠ initPid := by
  intro same
  rw [same, inv.elsewhere] at here
  cases here

theorem Inv.server_parent (inv : system.Inv inherited waits)
    (here : system.processes serverPid = some process) : process.parent = initPid := by
  cases inv.role here rfl <;> rfl

theorem Inv.server_stays (inv : system.Inv inherited waits) {server : Process}
    (here : system.processes pid = some process) (notServer : pid ≠ serverPid) (status : Status)
    (there : system.processes serverPid = some server) :
    (system.leave pid process status).processes serverPid = some server := by
  apply leave_ne notServer.symm there
  rw [inv.server_parent there]
  exact (inv.pid_ne_init here).symm

theorem childOf_leave (notServer : pid ≠ serverPid) (here : system.processes pid = some process)
    (status : Status) (child : Pid) :
    (system.leave pid process status).childOf serverPid child = system.childOf serverPid child := by
  have notInit : initPid ≠ serverPid := by decide
  by_cases same : child = pid
  · rw [same]
    simp only [childOf, System.leave, if_true, here]
    split
    · rename_i none
      split at none
      · rename_i isInit
        rw [isInit]
        simp [notInit]
      · cases none
    · rename_i found there
      split at there
      · cases there
      · cases there
        rfl
  · simp only [childOf, System.leave, if_neg same]
    cases system.processes child with
    | none => rfl
    | some orphan =>
        by_cases isOrphan : orphan.parent = pid
        · have other : orphan.parent ≠ serverPid := by
            rw [isOrphan]
            exact notServer
          cases exited : isExited orphan.control with
          | true => simp [isOrphan, exited, notServer]
          | false => simp [isOrphan, exited, notInit, notServer]
        · simp [isOrphan]

theorem not_holds_nil {parent : Pid} {control : Control} {index : Nat} :
    ¬Process.Holds ⟨parent, [], control⟩ index := by
  rintro ⟨number, member⟩
  cases member

theorem Inv.plays_leave (inv : system.Inv inherited waits)
    (here : system.processes pid = some process) (notServer : pid ≠ serverPid) {status : Status}
    {other : Pid} {found : Process}
    (there : (system.leave pid process status).processes other = some found) :
    Plays inherited other found := by
  rcases leave_cases there with
    ⟨rfl, living, rfl⟩ | ⟨-, before, beforeThere, ⟨orphaned, alive, rfl⟩ | ⟨-, rfl⟩⟩
  · rw [Plays, if_neg notServer]
    split
    · rename_i isChild
      obtain ⟨parent, fds, control⟩ := process
      cases isChild
      exact .exited status
    · exact .exited process.parent living status
  · have plays := inv.plays other before beforeThere
    have different : other ≠ serverPid := by
      rintro rfl
      exact inv.pid_ne_init here (orphaned.symm.trans (inv.server_parent beforeThere))
    rw [Plays, if_neg different, if_neg (by rw [orphaned]; exact notServer)] at plays
    rw [Plays, if_neg different, if_neg (show initPid ≠ serverPid by decide)]
    cases plays with
    | serving parent conn table beside => exact .serving initPid conn table beside
    | leaving parent conn table beside => exact .leaving initPid conn table beside
    | exited parent living status => cases alive
  · exact inv.plays other found beforeThere

theorem Inv.adopted_leave (inv : system.Inv inherited waits)
    (here : system.processes pid = some process) (notServer : pid ≠ serverPid) {status : Status}
    {other : Pid} {found : Process}
    (there : (system.leave pid process status).processes other = some found)
    (otherNot : other ≠ serverPid) (notChild : found.parent ≠ serverPid) :
    found.parent = initPid ∨ ∃ child sock,
      (system.leave pid process status).processes found.parent = some child ∧
        child.parent = serverPid ∧ child.control = .leaving sock := by
  have stays {parent : Pid} (other : parent ≠ pid)
      (adopted : parent = initPid ∨ ∃ child sock, system.processes parent = some child ∧
        child.parent = serverPid ∧ child.control = .leaving sock) :
      parent = initPid ∨ ∃ child sock,
        (system.leave pid process status).processes parent = some child ∧
          child.parent = serverPid ∧ child.control = .leaving sock := by
    rcases adopted with init | ⟨child, sock, childThere, isChild, leaving⟩
    · exact .inl init
    · refine .inr ⟨child, sock, leave_ne other childThere ?_, isChild, leaving⟩
      rw [isChild]
      exact notServer.symm
  rcases leave_cases there with ⟨rfl, -, rfl⟩ | ⟨-, before, beforeThere, ⟨-, -, rfl⟩ | ⟨kept, rfl⟩⟩
  · have adopted := inv.adopted other process here notServer notChild
    refine stays ?_ adopted
    intro itself
    have isInit : process.parent = initPid := by
      rcases adopted with init | ⟨child, sock, childThere, isChild, -⟩
      · exact init
      · rw [itself, here] at childThere
        cases childThere
        exact absurd isChild notChild
    exact inv.pid_ne_init here (itself.symm.trans isInit)
  · exact .inl rfl
  · exact stays kept (inv.adopted other found beforeThere otherNot notChild)

/-- Who owns a connection after a process has exited owned it before. -/
theorem owner_of_leave (notServer : pid ≠ serverPid) {status : Status} {other : Pid} {found : Process}
    {index : Nat} (there : (system.leave pid process status).processes other = some found)
    (owner : found.Owner) (held : found.Holds index) :
    ∃ before, system.processes other = some before ∧ before.Owner ∧ before.Holds index := by
  rcases leave_cases there with ⟨-, -, rfl⟩ | ⟨-, before, beforeThere, ⟨orphaned, -, rfl⟩ | ⟨-, rfl⟩⟩
  · exact absurd held not_holds_nil
  · refine ⟨before, beforeThere, ?_, held⟩
    obtain ⟨parent, fds, control⟩ := before
    cases control with
    | leaving sock =>
        have parent_eq : parent = pid := orphaned
        intro isChild
        exact notServer (parent_eq.symm.trans isChild)
    | _ => exact owner
  · exact ⟨found, beforeThere, owner, held⟩

theorem Inv.leave (inv : system.Inv inherited waits) (here : system.processes pid = some process)
    (notServer : pid ≠ serverPid) (status : Status) :
    (system.leave pid process status).Inv inherited waits := by
  obtain ⟨server, serverThere⟩ := Option.ne_none_iff_exists'.mp inv.alive
  have serverStays := inv.server_stays here notServer status serverThere
  constructor
  · intro other high
    have none := inv.fresh other high
    have different : other ≠ pid := by
      intro same
      rw [same, here] at none
      cases none
    simp only [System.leave, if_neg different, none]
  · exact inv.low
  · simp only [System.leave, if_neg (inv.pid_ne_init here).symm, inv.elsewhere]
  · rw [serverStays]
    simp
  · intro other found there
    exact inv.plays_leave here notServer there
  · intro other found index there held
    rcases leave_cases there with ⟨-, -, rfl⟩ | ⟨-, before, beforeThere, ⟨-, -, rfl⟩ | ⟨-, rfl⟩⟩
    · exact absurd held not_holds_nil
    · exact inv.numbered other before index beforeThere held
    · exact inv.numbered other found index beforeThere held
  · intro other found there otherNot notChild
    exact inv.adopted_leave here notServer there otherNot notChild
  · intro waiting first second isFirst isSecond
    rw [childOf_leave notServer here] at isFirst isSecond
    exact inv.single waiting first second isFirst isSecond
  · intro waiting found there isIdle child
    rw [serverStays] at there
    cases there
    rw [childOf_leave notServer here]
    exact inv.idle waiting server serverThere isIdle child
  · intro first second one two index firstThere secondThere firstOwner secondOwner firstHolds
      secondHolds
    obtain ⟨before, beforeThere, beforeOwner, beforeHolds⟩ :=
      owner_of_leave notServer firstThere firstOwner firstHolds
    obtain ⟨other, otherThere, otherOwner, otherHolds⟩ :=
      owner_of_leave notServer secondThere secondOwner secondHolds
    exact inv.distinct first second before other index beforeThere otherThere beforeOwner otherOwner
      beforeHolds otherHolds

theorem Inv.reap (inv : system.Inv inherited waits) {child : Pid} {zombie : Process}
    (there : system.processes child = some zombie) (isChild : zombie.parent = serverPid)
    (exited : isExited zombie.control = true) (notServer : child ≠ serverPid)
    (server : system.processes serverPid = some process) (busy : ¬process.control.Idle) :
    Inv inherited waits { system with
        processes := fun other => if other = child then none else system.processes other } ∧
      (waits = true → ∀ other, childOf { system with
        processes := fun other => if other = child then none else system.processes other }
          serverPid other = false) := by
  have cases (other : Pid) (found : Process)
      (after : (if other = child then none else system.processes other) = some found) :
      other ≠ child ∧ system.processes other = some found := by
    by_cases same : other = child
    · rw [if_pos same] at after
      cases after
    · rw [if_neg same] at after
      exact ⟨same, after⟩
  refine ⟨?_, ?_⟩
  · constructor
    · intro other high
      have none := inv.fresh other high
      simp [none]
    · exact inv.low
    · simp [inv.elsewhere]
    · simp only [if_neg notServer.symm]
      exact inv.alive
    · intro other found after
      exact inv.plays other found (cases other found after).2
    · intro other found index after held
      exact inv.numbered other found index (cases other found after).2 held
    · intro other found after otherNot notChild
      rcases inv.adopted other found (cases other found after).2 otherNot notChild with
        init | ⟨parent, sock, parentThere, parentChild, leaving⟩
      · exact .inl init
      · refine .inr ⟨parent, sock, ?_, parentChild, leaving⟩
        have different : found.parent ≠ child := by
          intro same
          rw [same, there] at parentThere
          cases parentThere
          rw [leaving] at exited
          cases exited
        simp only [if_neg different]
        exact parentThere
    · intro waiting first second isFirst isSecond
      obtain ⟨one, firstThere, firstParent⟩ := childOf_eq_true.mp isFirst
      obtain ⟨two, secondThere, secondParent⟩ := childOf_eq_true.mp isSecond
      exact inv.single waiting first second
        (childOf_eq_true.mpr ⟨one, (cases first one firstThere).2, firstParent⟩)
        (childOf_eq_true.mpr ⟨two, (cases second two secondThere).2, secondParent⟩)
    · intro waiting found after isIdle
      have before := (cases serverPid found after).2
      rw [server] at before
      cases before
      exact absurd isIdle busy
    · intro first second one two index firstThere secondThere
      exact inv.distinct first second one two index (cases first one firstThere).2
        (cases second two secondThere).2
  · intro waiting other
    rw [Bool.eq_false_iff]
    intro stillChild
    obtain ⟨found, after, parent⟩ := childOf_eq_true.mp stillChild
    obtain ⟨different, before⟩ := cases other found after
    exact different (inv.single waiting other child
      (childOf_eq_true.mpr ⟨found, before, parent⟩) (childOf_eq_true.mpr ⟨zombie, there, isChild⟩))

/-! One step of each kind of process. -/

section Steps

variable {next : System} {event : Event} (modest : Modest inherited)

theorem act_logFailed {server : Server} {number : Nat}
    (stepped : act server system pid process (.logFailed number) = .ok next) :
    next = system.leave pid process (.errno number) := by
  obtain ⟨parent, fds, control⟩ := process
  cases control <;> simp only [act, reduceCtorEq] at stepped
  all_goals
    split at stepped
    · cases stepped
    · cases stepped
      rfl

theorem leave_gone {status : Status} (adopted : process.parent = initPid) :
    (system.leave pid process status).processes pid = none := by
  simp only [leave, adopted, if_true]

theorem plays_server {process : Process} (role : ServerRole inherited process) :
    Plays inherited serverPid process := by
  rw [Plays, if_pos rfl]
  exact role

theorem plays_child {process : Process} (notServer : pid ≠ serverPid)
    (role : ChildRole inherited process) : Plays inherited pid process := by
  have parent : process.parent = serverPid := by
    cases role <;> rfl
  rw [Plays, if_neg notServer, if_pos parent]
  exact role

theorem plays_handler {process : Process} (notServer : pid ≠ serverPid)
    (notChild : process.parent ≠ serverPid) (role : HandlerRole inherited process) :
    Plays inherited pid process := by
  rw [Plays, if_neg notServer, if_neg notChild]
  exact role

theorem forking_step (inv : system.Inv inherited waits)
    {conn : Option (Nat × Nat)} {table : Table File} (beside : Beside (base inherited) conn table)
    (here : system.processes serverPid = some ⟨initPid, opened table conn, .forking (sockOf conn)⟩)
    (stepped : act (serverOf inherited waits) system serverPid
      ⟨initPid, opened table conn, .forking (sockOf conn)⟩ event = .ok next) :
    next.Inv inherited waits ∨ next.processes serverPid = none := by
  have none (waiting : waits = true) := inv.idle waiting _ here trivial
  cases event with
  | forked =>
      simp only [act] at stepped
      cases stepped
      left
      have notServer : system.nextPid ≠ serverPid := Nat.ne_of_gt inv.low
      exact inv.spawn here (plays_server (.parted conn table beside))
        (plays_child notServer (.entered conn table beside))
        trivial id (fun isChild => by cases isChild) (fun other => absurd rfl other) id
        (fun _ waiting => none waiting)
  | forkFailed =>
      simp only [act] at stepped
      cases stepped
      exact .inr (leave_gone rfl)
  | logFailed number =>
      obtain rfl := act_logFailed stepped
      exact .inr (leave_gone rfl)
  | _ => simp [act] at stepped

theorem waiting_step (inv : system.Inv inherited waits)
    {table : Table File} (log : WithLog (base inherited) table)
    (here : system.processes serverPid = some ⟨initPid, table, .waiting⟩)
    (stepped : act (serverOf inherited waits) system serverPid
      ⟨initPid, table, .waiting⟩ event = .ok next) :
    next.Inv inherited waits ∨ next.processes serverPid = none := by
  cases event with
  | reaped child =>
      simp only [act] at stepped
      split at stepped
      · cases stepped
      · rename_i zombie there
        split at stepped
        · rename_i reapable
          cases stepped
          left
          obtain ⟨reaped, none⟩ := inv.reap there reapable.1 reapable.2.1 reapable.2.2 here id
          have still : (if serverPid = child then Option.none else system.processes serverPid) =
              some ⟨initPid, table, .waiting⟩ := by
            rw [if_neg reapable.2.2.symm]
            exact here
          exact reaped.put still ⟨initPid, table, .accepting⟩
            system.nextConnection (Nat.le_refl _) rfl (plays_server (.accepting table log))
            (fun _ held => .inl held) (fun _ _ _ => trivial) (fun isChild => by cases isChild)
            (fun _ waiting _ => none waiting)
        · cases stepped
  | noChild =>
      simp only [act] at stepped
      split at stepped
      · rename_i childless
        cases stepped
        left
        refine inv.put here _ system.nextConnection (Nat.le_refl _) rfl
          (plays_server (.accepting table log))
          (fun _ held => .inl held) (fun _ _ _ => trivial) (fun isChild => by cases isChild) ?_
        intro _ _ _ child
        by_cases known : child < system.nextPid
        · simpa using List.all_eq_true.mp childless child (List.mem_range.mpr known)
        · rw [childOf, inv.fresh child (Nat.le_of_not_lt known)]
      · cases stepped
  | _ => simp [act] at stepped

include modest

theorem accepting_step (inv : system.Inv inherited waits)
    {table : Table File} (log : WithLog (base inherited) table)
    (here : system.processes serverPid = some ⟨initPid, table, .accepting⟩)
    (stepped : act (serverOf inherited waits) system serverPid
      ⟨initPid, table, .accepting⟩ event = .ok next) :
    next.Inv inherited waits ∨ next.processes serverPid = none := by
  have none (waiting : waits = true) := inv.idle waiting _ here trivial
  cases event with
  | accepted =>
      have sock : toInt16 (lowestFree table) = lowestFree table := lowestFree_small modest log
      simp only [act, sock] at stepped
      cases stepped
      left
      let conn := some (lowestFree table, system.nextConnection)
      apply inv.put here ⟨initPid, opened table conn, .forking (sockOf conn)⟩
        (system.nextConnection + 1) (Nat.le_succ _) rfl
        (plays_server (.forking conn table (Beside.accepted log _))) _
        (fun _ _ _ => trivial)
        (fun isChild => by cases isChild) (fun _ waiting _ => none waiting)
      intro index held
      obtain ⟨number, same⟩ := (holds_opened (modest.bare_base log)).mp held
      obtain ⟨-, rfl⟩ := Prod.mk.inj (Option.some.inj same)
      exact .inr ⟨Nat.le_refl _, Nat.lt_succ_self _⟩
  | acceptFailed =>
      simp only [act] at stepped
      cases stepped
      left
      obtain ⟨later, same, beside⟩ := log.beside.openLog
      have same : openLog table = later := same
      rw [same]
      exact inv.put here ⟨initPid, later, .forking (-1)⟩ system.nextConnection (Nat.le_refl _) rfl
        (plays_server (.forking Option.none later beside))
        (fun _ held => absurd held (not_holds (modest.bare_base beside.log)))
        (fun _ _ _ => trivial) (fun isChild => by cases isChild)
        (fun _ waiting _ => none waiting)
  | logFailed number =>
      obtain rfl := act_logFailed stepped
      exact .inr (leave_gone rfl)
  | _ => simp [act] at stepped

theorem parted_step (inv : system.Inv inherited waits)
    {conn : Option (Nat × Nat)} {table : Table File} (beside : Beside (base inherited) conn table)
    (here : system.processes serverPid = some ⟨initPid, opened table conn, .parted (sockOf conn)⟩)
    (stepped : act (serverOf inherited waits) system serverPid
      ⟨initPid, opened table conn, .parted (sockOf conn)⟩ event = .ok next) :
    next.Inv inherited waits ∨ next.processes serverPid = none := by
  cases event with
  | moves =>
      simp only [act] at stepped
      cases stepped
      left
      have log := beside.closeSocket (serverOf inherited waits)
      generalize (serverOf inherited waits).closeSocket (sockOf conn) (opened table conn) = later
        at log
      have bare := modest.bare_base log
      have role : ServerRole inherited
          ⟨initPid, later, if waits = true then .waiting else .accepting⟩ := by
        split
        · exact .waiting later log
        · exact .accepting later log
      refine inv.put here _ system.nextConnection (Nat.le_refl _) rfl (plays_server role)
        (fun index held => absurd held (not_holds bare))
        (fun index _ held => absurd held (not_holds bare)) (fun isChild => by cases isChild) ?_
      intro _ waiting isIdle
      simp only [serverOf, waiting, if_true] at isIdle
      exact absurd isIdle id
  | logFailed number =>
      obtain rfl := act_logFailed stepped
      exact .inr (leave_gone rfl)
  | _ => simp [act] at stepped

theorem server_step (inv : system.Inv inherited waits)
    (here : system.processes serverPid = some process)
    (stepped : act (serverOf inherited waits) system serverPid process event = .ok next) :
    next.Inv inherited waits ∨ next.processes serverPid = none := by
  have role := inv.role here rfl
  cases role with
  | accepting table log => exact accepting_step modest inv log here stepped
  | forking conn table beside => exact forking_step inv beside here stepped
  | parted conn table beside => exact parted_step modest inv beside here stepped
  | waiting table log => exact waiting_step inv log here stepped

theorem child_step (inv : system.Inv inherited waits) (here : system.processes pid = some process)
    (notServer : pid ≠ serverPid) (isChild : process.parent = serverPid)
    (stepped : act (serverOf inherited waits) system pid process event = .ok next) :
    next.Inv inherited waits := by
  have role : ChildRole inherited process := by
    have plays := inv.plays pid process here
    rwa [Plays, if_neg notServer, if_pos isChild] at plays
  have elsewhere (control : Control) : pid = serverPid → waits = true → control.Idle →
      ∀ child, system.childOf serverPid child = false := fun same => absurd same notServer
  cases role with
  | entered conn table beside =>
      cases event with
      | moves =>
          obtain ⟨later, closed, after⟩ := beside.close_listening
          simp only [act, serverOf, closed] at stepped
          cases stepped
          refine inv.put here _ system.nextConnection (Nat.le_refl _) rfl
            (plays_child notServer (.deaf conn later after)) ?_ (fun _ _ _ => trivial)
            (fun _ sock leaving => ?_) (elsewhere _)
          · intro index held
            have same := (holds_opened (modest.bare_inherited after.log)).mp held
            exact .inl ((holds_opened (modest.bare_base beside.log)).mpr same)
          · cases leaving
      | _ => simp [act] at stepped
  | deaf conn table beside =>
      cases event with
      | forked =>
          simp only [act] at stepped
          cases stepped
          have handlerNot : system.nextPid ≠ serverPid := Nat.ne_of_gt inv.low
          refine inv.spawn here (plays_child notServer (.leaving conn table beside))
            (plays_handler handlerNot notServer (.serving pid conn table beside)) trivial
            (fun owned => owned rfl) (fun _ sock leaving => ?_) (fun _ => ⟨rfl, _, rfl⟩) id
            (fun same => absurd same notServer)
          cases leaving
      | forkFailed =>
          simp only [act] at stepped
          cases stepped
          refine inv.put here _ system.nextConnection (Nat.le_refl _) rfl
            (plays_child notServer (.leaving conn table beside)) (fun _ held => .inl held)
            (fun _ _ _ => trivial) (fun _ sock leaving => ?_) (elsewhere _)
          cases leaving
      | _ => simp [act] at stepped
  | leaving conn table beside =>
      cases event with
      | moves =>
          simp only [act] at stepped
          cases stepped
          exact inv.leave here notServer (.code .okErr)
      | logFailed number =>
          obtain rfl := act_logFailed stepped
          exact inv.leave here notServer (.errno number)
      | _ => simp [act] at stepped
  | exited status =>
      cases event <;> simp [act] at stepped

theorem handler_step (inv : system.Inv inherited waits) (here : system.processes pid = some process)
    (notServer : pid ≠ serverPid) (notChild : process.parent ≠ serverPid)
    (stepped : act (serverOf inherited waits) system pid process event = .ok next) :
    next.Inv inherited waits := by
  have role : HandlerRole inherited process := by
    have plays := inv.plays pid process here
    rwa [Plays, if_neg notServer, if_neg notChild] at plays
  have elsewhere (control : Control) : pid = serverPid → waits = true → control.Idle →
      ∀ child, system.childOf serverPid child = false := fun same => absurd same notServer
  cases role with
  | serving parent conn table beside =>
      cases event with
      | logs =>
          obtain ⟨later, same, after⟩ := beside.openLog
          simp only [act, same] at stepped
          cases stepped
          refine inv.put here _ system.nextConnection (Nat.le_refl _) rfl
            (plays_handler notServer notChild (.serving parent conn later after)) ?_
            (fun _ _ _ => trivial) (fun same => absurd same notChild) (elsewhere _)
          intro index held
          have same := (holds_opened (modest.bare_inherited after.log)).mp held
          exact .inl ((holds_opened (modest.bare_inherited beside.log)).mpr same)
      | closes =>
          simp only [act] at stepped
          cases stepped
          have log := beside.closeSocket (serverOf inherited waits)
          refine inv.put here _ system.nextConnection (Nat.le_refl _) rfl
            (plays_handler notServer notChild (.serving parent none _ log.beside))
            (fun index held => absurd held (not_holds (modest.bare_inherited log)))
            (fun _ _ _ => trivial) (fun same => absurd same notChild) (elsewhere _)
      | returned =>
          simp only [act] at stepped
          cases stepped
          exact inv.put here _ system.nextConnection (Nat.le_refl _) rfl
            (plays_handler notServer notChild (.leaving parent conn table beside))
            (fun _ held => .inl held)
            (fun _ _ _ => trivial) (fun same => absurd same notChild) (elsewhere _)
      | exits status =>
          simp only [act] at stepped
          cases stepped
          exact inv.leave here notServer status
      | _ => simp [act] at stepped
  | leaving parent conn table beside =>
      cases event with
      | moves =>
          simp only [act] at stepped
          cases stepped
          exact inv.leave here notServer (.code .okErr)
      | logFailed number =>
          obtain rfl := act_logFailed stepped
          exact inv.leave here notServer (.errno number)
      | _ => simp [act] at stepped
  | exited parent living status =>
      cases event <;> simp [act] at stepped

/-- A step keeps the invariant, or the server exits because it could not fork or open its log. -/
theorem step_inv (inv : system.Inv inherited waits) {turn : Pid × Event}
    (stepped : step (serverOf inherited waits) system turn = .ok next) :
    next.Inv inherited waits ∨ next.processes serverPid = none := by
  obtain ⟨pid, event⟩ := turn
  simp only [step] at stepped
  split at stepped
  · cases stepped
  · rename_i process here
    by_cases isServer : pid = serverPid
    · subst isServer
      exact server_step modest inv here stepped
    · by_cases isChild : process.parent = serverPid
      · exact .inl (child_step modest inv here isServer isChild stepped)
      · exact .inl (handler_step modest inv here isServer isChild stepped)

end Steps

end System

end LearnInternet.ForkingServer
