import LearnInternet.Lib.Simulation
import LearnInternet.TcpServer.Roles

/-!
Whole runs of the forking `TcpServer`: what is left of a connection when the server accepts the next
one, that the server always can, and what a server that does not wait leaves behind.
-/

namespace LearnInternet.ForkingServer

open Descriptors

namespace System

variable {inherited : Table File} {waits : Bool} {system : System} {pid : Pid}
  {process later : Process}

def without (system : System) (child : Pid) : System :=
  { system with processes := fun other => if other = child then none else system.processes other }

inductive Effect (server : Server) (system : System) (pid : Pid) (process : Process)
    (event : Event) : System → Prop where
  | changes (later : Process) (count : Nat) (quiet : event ≠ .forked)
      (parent : later.parent = process.parent)
      (waits : later.control = .waiting → server.waits = true) :
      Effect server system pid process event ({ system with nextConnection := count }.put pid later)
  | reaps (child : Pid) (later : Process) (control : process.control = .waiting) :
      Effect server system pid process event ((system.without child).put pid later)
  | spawns (parent child : Control) (forks : event = .forked) (parent_ne : parent ≠ .waiting) :
      Effect server system pid process event (system.spawn pid process parent child)
  | leaves (status : Status) (quiet : event ≠ .forked) :
      Effect server system pid process event (system.leave pid process status)

theorem act_effect {server : Server} {event : Event} {next : System}
    (stepped : act server system pid process event = .ok next) :
    Effect server system pid process event next := by
  have changed (later : Process) (quiet : event ≠ .forked) (parent : later.parent = process.parent)
      (waits : later.control = .waiting → server.waits = true) :
      Effect server system pid process event (system.put pid later) :=
    .changes later system.nextConnection quiet parent waits
  obtain ⟨parent, fds, control⟩ := process
  cases control with
  | accepting =>
      cases event with
      | accepted =>
          simp only [act] at stepped
          split at stepped
          · cases stepped
            exact .changes _ (system.nextConnection + 1) (by simp) rfl (by simp)
          · cases stepped
            exact .changes _ (system.nextConnection + 1) (by simp) rfl (by simp)
      | acceptFailed =>
          cases stepped
          exact changed _ (by simp) rfl (by simp)
      | logFailed number =>
          obtain rfl := act_logFailed stepped
          exact .leaves _ (by simp)
      | _ => cases stepped
  | forking sock =>
      cases event with
      | forked =>
          cases stepped
          exact .spawns _ _ rfl (by simp)
      | forkFailed =>
          cases stepped
          exact .leaves _ (by simp)
      | logFailed number =>
          obtain rfl := act_logFailed stepped
          exact .leaves _ (by simp)
      | _ => cases stepped
  | parted sock =>
      cases event with
      | moves =>
          cases stepped
          refine changed _ (by simp) rfl ?_
          simp
      | logFailed number =>
          obtain rfl := act_logFailed stepped
          exact .leaves _ (by simp)
      | _ => cases stepped
  | waiting =>
      cases event with
      | reaped child =>
          simp only [act] at stepped
          split at stepped
          · cases stepped
          · rename_i zombie there
            split at stepped
            · cases stepped
              exact .reaps child _ rfl
            · cases stepped
      | noChild =>
          simp only [act] at stepped
          split at stepped
          · cases stepped
            exact changed _ (by simp) rfl (by simp)
          · cases stepped
      | _ => cases stepped
  | entered sock =>
      cases event with
      | moves =>
          cases stepped
          exact changed _ (by simp) rfl (by simp)
      | _ => cases stepped
  | deaf sock =>
      cases event with
      | forked =>
          cases stepped
          exact .spawns _ _ rfl (by simp)
      | forkFailed =>
          cases stepped
          exact changed _ (by simp) rfl (by simp)
      | _ => cases stepped
  | serving sock =>
      cases event with
      | logs =>
          cases stepped
          exact changed _ (by simp) rfl (by simp)
      | closes =>
          cases stepped
          exact changed _ (by simp) rfl (by simp)
      | returned =>
          cases stepped
          exact changed _ (by simp) rfl (by simp)
      | exits status =>
          cases stepped
          exact .leaves _ (by simp)
      | _ => cases stepped
  | leaving sock =>
      cases event with
      | moves =>
          cases stepped
          exact .leaves _ (by simp)
      | logFailed number =>
          obtain rfl := act_logFailed stepped
          exact .leaves _ (by simp)
      | _ => cases stepped
  | exited status => cases event <;> cases stepped

theorem step_low {server : Server} {next : System} {turn : Pid × Event}
    (low : serverPid < system.nextPid) (stepped : step server system turn = .ok next) :
    serverPid < next.nextPid := by
  obtain ⟨pid, event⟩ := turn
  simp only [step] at stepped
  split at stepped
  · cases stepped
  · cases act_effect stepped with
    | spawns parent child forks parent_ne => exact Nat.lt_succ_of_lt low
    | _ => exact low

theorem step_gone {server : Server} {next : System} {turn : Pid × Event}
    (gone : system.processes serverPid = none) (low : serverPid < system.nextPid)
    (stepped : step server system turn = .ok next) : next.processes serverPid = none := by
  obtain ⟨pid, event⟩ := turn
  simp only [step] at stepped
  split at stepped
  · cases stepped
  · rename_i process here
    have other : serverPid ≠ pid := by
      intro same
      rw [← same, gone] at here
      cases here
    cases act_effect stepped with
    | changes later count quiet parent waits => exact (put_ne other).trans gone
    | reaps child later control =>
        refine (put_ne other).trans ?_
        simp [without, gone]
    | spawns parent child forks parent_ne =>
        simp only [spawn, if_neg other, if_neg (Nat.ne_of_lt low), gone]
    | leaves status quiet =>
        simp only [System.leave, if_neg other, gone]

theorem start_inv (modest : Modest inherited) (waits : Bool) :
    (start inherited).Inv inherited waits := by
  have only (pid : Pid) (process : Process) (there : (start inherited).processes pid = some process) :
      pid = serverPid ∧ process = ⟨initPid, base inherited, .accepting⟩ := by
    simp only [start] at there
    split at there
    · rename_i same
      exact ⟨same, (Option.some.inj there).symm⟩
    · cases there
  have childless (pid : Pid) : (start inherited).childOf serverPid pid = false := by
    rw [Bool.eq_false_iff]
    intro isChild
    obtain ⟨process, there, parent⟩ := childOf_eq_true.mp isChild
    rw [(only pid process there).2] at parent
    cases parent
  constructor
  · intro pid high
    have different : pid ≠ serverPid := Nat.ne_of_gt high
    simp only [start, if_neg different]
  · exact Nat.lt_succ_self _
  · rfl
  · simp [start]
  · intro pid process there
    obtain ⟨rfl, rfl⟩ := only pid process there
    exact plays_server (.accepting _ .same)
  · intro pid process index there held
    obtain ⟨rfl, rfl⟩ := only pid process there
    exact absurd held (not_holds (modest.bare_base .same))
  · intro pid process there notServer
    exact absurd (only pid process there).1 notServer
  · intro _ first _ isFirst
    rw [childless] at isFirst
    cases isFirst
  · intro _ _ _ _
    exact childless
  · intro first second one two index firstThere secondThere
    rw [(only first one firstThere).1, (only second two secondThere).1]
    exact fun _ _ _ _ => rfl

theorem run_inv (modest : Modest inherited) {turns : List (Pid × Event)} {last : System}
    (ran : Runs.run (step (serverOf inherited waits)) (start inherited) turns = .ok last)
    (alive : last.processes serverPid ≠ none) : last.Inv inherited waits := by
  have either : last.Inv inherited waits ∨
      last.processes serverPid = none ∧ serverPid < last.nextPid := by
    refine Runs.run_history (motive := fun _ system => system.Inv inherited waits ∨
      system.processes serverPid = none ∧ serverPid < system.nextPid)
      (.inl (start_inv modest waits)) ?_ ran
    rintro - system turn next (inv | ⟨gone, low⟩) stepped
    · rcases step_inv modest inv stepped with kept | none
      · exact .inl kept
      · exact .inr ⟨none, step_low inv.low stepped⟩
    · exact .inr ⟨step_gone gone low stepped, step_low low stepped⟩
  rcases either with inv | gone
  · exact inv
  · exact absurd gone.1 alive

/-- Between two connections: the server holds what it held at the start and at most the log more, no
child of it is left, and each connection is with one process, which holds nothing of the server's but
perhaps its log. -/
structure Settled (inherited : Table File) (system : System) : Prop where
  server : ∃ table, WithLog (base inherited) table ∧
    system.processes serverPid = some ⟨initPid, table, .accepting⟩
  childless : ∀ pid process, system.processes pid = some process → process.parent ≠ serverPid
  handlers : ∀ pid process, system.processes pid = some process → pid ≠ serverPid →
    process.parent = initPid ∧
      ∃ conn table, Beside inherited conn table ∧ process.fds = opened table conn
  distinct : ∀ first second process other index, system.processes first = some process →
    system.processes second = some other → process.Holds index → other.Holds index →
      first = second

theorem Inv.settled (inv : system.Inv inherited true)
    (accepting : (system.processes serverPid).map Process.control = some .accepting) :
    system.Settled inherited := by
  obtain ⟨table, log, server⟩ : ∃ table, WithLog (base inherited) table ∧
      system.processes serverPid = some ⟨initPid, table, .accepting⟩ := by
    obtain ⟨process, here, control⟩ := Option.map_eq_some_iff.mp accepting
    have role := inv.role here rfl
    cases role with
    | accepting table log => exact ⟨table, log, here⟩
    | _ => cases control
  have childless (pid : Pid) (process : Process) (there : system.processes pid = some process) :
      process.parent ≠ serverPid := by
    intro isChild
    have none := inv.idle rfl _ server trivial pid
    rw [childOf_eq_true.mpr ⟨process, there, isChild⟩] at none
    cases none
  have parentInit (pid : Pid) (process : Process) (there : system.processes pid = some process)
      (notServer : pid ≠ serverPid) : process.parent = initPid := by
    rcases inv.adopted pid process there notServer (childless pid process there) with init | left
    · exact init
    · obtain ⟨child, sock, childThere, isChild, -⟩ := left
      exact absurd isChild (childless _ child childThere)
  have handler (pid : Pid) (process : Process) (there : system.processes pid = some process)
      (notServer : pid ≠ serverPid) : HandlerRole inherited process := by
    have plays := inv.plays pid process there
    rwa [Plays, if_neg notServer, if_neg (childless pid process there)] at plays
  have owner (pid : Pid) (process : Process) (there : system.processes pid = some process) :
      process.Owner := by
    by_cases isServer : pid = serverPid
    · rw [isServer, server] at there
      cases there
      trivial
    · have parent := childless pid process there
      cases handler pid process there isServer with
      | leaving => exact parent
      | _ => trivial
  refine ⟨⟨table, log, server⟩, childless, ?_, ?_⟩
  · intro pid process there notServer
    have parent := parentInit pid process there notServer
    refine ⟨parent, ?_⟩
    cases handler pid process there notServer with
    | serving other conn table beside => exact ⟨conn, table, beside, rfl⟩
    | leaving other conn table beside => exact ⟨conn, table, beside, rfl⟩
    | exited other living status => exact absurd parent living
  · intro first second process other index firstThere secondThere
    exact inv.distinct first second process other index firstThere secondThere
      (owner first process firstThere) (owner second other secondThere)

def standard : Table File := [(2, .inherited), (1, .inherited), (0, .inherited)]

theorem modest_standard : Modest standard := ⟨by decide, by decide⟩

/-- Two connections; the second is accepted while the first is served. -/
def twoServed : List (Pid × Event) :=
  [(2, .accepted), (2, .forked), (3, .moves), (2, .moves), (3, .forked), (3, .moves), (2, .reaped 3),
    (2, .accepted), (2, .forked), (4, .closes), (5, .moves), (2, .moves), (5, .forked), (5, .moves),
    (2, .reaped 5)]

def Own (system : System) (turn : Pid × Event) : Prop :=
  turn.1 = serverPid ∨ system.childOf serverPid turn.1 = true

def Accepting (system : System) : Prop :=
  (system.processes serverPid).map Process.control = some .accepting

section CanAccept

structure Awaits (inherited : Table File) (pid : Pid) (control : Control) (system : System) :
    Prop where
  inv : system.Inv inherited true
  server : ∃ table, system.processes serverPid = some ⟨initPid, table, .waiting⟩
  notServer : pid ≠ serverPid
  child : ∃ fds, system.processes pid = some ⟨serverPid, fds, control⟩

variable {control : Control}

theorem step_of_act (server : Server) (event : Event) {next : System}
    (here : system.processes pid = some process)
    (acted : act server system pid process event = .ok next) :
    step server system (pid, event) = .ok next := by
  simp only [step, here, acted]

theorem Awaits.after (modest : Modest inherited) (awaits : Awaits inherited pid control system)
    {next : System} {event : Event} {later : Control} {goal : System → Prop}
    (stepped : step (serverOf inherited true) system (pid, event) = .ok next)
    (server : next.processes serverPid = system.processes serverPid)
    (child : ∃ fds, next.processes pid = some ⟨serverPid, fds, later⟩)
    (reach : Awaits inherited pid later next →
      Runs.CanReach (step (serverOf inherited true)) Own goal next) :
    Runs.CanReach (step (serverOf inherited true)) Own goal system := by
  obtain ⟨fds, here⟩ := awaits.child
  obtain ⟨table, waiting⟩ := awaits.server
  have there : next.processes serverPid = some ⟨initPid, table, .waiting⟩ := server.trans waiting
  have permitted : system.Own (pid, event) := .inr (childOf_eq_true.mpr ⟨_, here, rfl⟩)
  rcases step_inv modest awaits.inv stepped with kept | gone
  · exact .after permitted stepped (reach ⟨kept, ⟨table, there⟩, awaits.notServer, child⟩)
  · rw [there] at gone
    cases gone

theorem Awaits.exited {status : Status} (awaits : Awaits inherited pid (.exited status) system) :
    Runs.CanReach (step (serverOf inherited true)) Own Accepting system := by
  obtain ⟨fds, here⟩ := awaits.child
  obtain ⟨table, waiting⟩ := awaits.server
  have reaped : act (serverOf inherited true) system serverPid ⟨initPid, table, .waiting⟩
      (.reaped pid) = .ok ((system.without pid).put serverPid ⟨initPid, table, .accepting⟩) := by
    simp [act, here, isExited, awaits.notServer, without]
  exact .after (.inl rfl) (step_of_act _ _ waiting reaped)
    (.here (by rw [Accepting, put_same]; rfl))

theorem Awaits.leaving (modest : Modest inherited) {sock : Int}
    (awaits : Awaits inherited pid (.leaving sock) system) :
    Runs.CanReach (step (serverOf inherited true)) Own Accepting system := by
  obtain ⟨fds, here⟩ := awaits.child
  obtain ⟨table, waiting⟩ := awaits.server
  have notInit : serverPid ≠ initPid := by decide
  refine awaits.after modest (step_of_act _ .moves here rfl) ?_ ⟨[], ?_⟩
    fun exited : Awaits inherited pid (.exited (.code .okErr)) _ => exited.exited
  · rw [waiting]
    refine leave_ne awaits.notServer.symm waiting ?_
    rintro rfl
    rw [awaits.inv.elsewhere] at here
    cases here
  · simp [System.leave, notInit]

theorem Awaits.deaf (modest : Modest inherited) {sock : Int}
    (awaits : Awaits inherited pid (.deaf sock) system) :
    Runs.CanReach (step (serverOf inherited true)) Own Accepting system := by
  obtain ⟨fds, here⟩ := awaits.child
  have old : pid ≠ system.nextPid := by
    rintro rfl
    rw [awaits.inv.fresh _ (Nat.le_refl _)] at here
    cases here
  refine awaits.after modest (step_of_act _ .forked here rfl) ?_ ⟨fds, ?_⟩
    fun leaving : Awaits inherited pid (.leaving sock) _ => leaving.leaving modest
  · simp only [spawn, if_neg (Nat.ne_of_lt awaits.inv.low), if_neg awaits.notServer.symm]
  · simp only [spawn, if_neg old, if_true]

theorem Awaits.entered (modest : Modest inherited) {sock : Int}
    (awaits : Awaits inherited pid (.entered sock) system) :
    Runs.CanReach (step (serverOf inherited true)) Own Accepting system := by
  obtain ⟨fds, here⟩ := awaits.child
  exact awaits.after modest (step_of_act _ .moves here rfl) (put_ne awaits.notServer.symm)
    ⟨_, put_same _ _ _⟩ fun deaf => deaf.deaf modest

theorem Inv.waiting_can_accept (modest : Modest inherited) (inv : system.Inv inherited true)
    {table : Table File}
    (server : system.processes serverPid = some ⟨initPid, table, .waiting⟩) :
    Runs.CanReach (step (serverOf inherited true)) Own Accepting system := by
  by_cases some : ∃ child, system.childOf serverPid child = true
  · obtain ⟨pid, isChild⟩ := some
    obtain ⟨process, here, parent⟩ := childOf_eq_true.mp isChild
    have notServer : pid ≠ serverPid := by
      rintro rfl
      rw [server] at here
      cases here
      cases parent
    have role : ChildRole inherited process := by
      have plays := inv.plays pid process here
      rwa [Plays, if_neg notServer, if_pos parent] at plays
    have awaits (control : Control) (fds : Table File) (same : process = ⟨serverPid, fds, control⟩) :
        Awaits inherited pid control system := ⟨inv, ⟨table, server⟩, notServer, fds, same ▸ here⟩
    cases role with
    | entered conn own beside => exact (awaits _ _ rfl).entered modest
    | deaf conn own beside => exact (awaits _ _ rfl).deaf modest
    | leaving conn own beside => exact (awaits _ _ rfl).leaving modest
    | exited status => exact (awaits _ _ rfl).exited
  · have childless : (List.range system.nextPid).all
        (fun child => !system.childOf serverPid child) = true := by
      rw [List.all_eq_true]
      intro child _
      simpa using fun isChild => some ⟨child, isChild⟩
    have none : act (serverOf inherited true) system serverPid ⟨initPid, table, .waiting⟩
        .noChild = .ok (system.put serverPid ⟨initPid, table, .accepting⟩) := by
      simp [act, childless]
    exact .after (.inl rfl) (step_of_act _ _ server none) (.here (by rw [Accepting, put_same]; rfl))

theorem Inv.can_accept (modest : Modest inherited) (inv : system.Inv inherited true) :
    Runs.CanReach (step (serverOf inherited true)) Own Accepting system := by
  obtain ⟨server, here⟩ := Option.ne_none_iff_exists'.mp inv.alive
  have parted (state : System) (stateInv : state.Inv inherited true) (fds : Table File) (sock : Int)
      (there : state.processes serverPid = some ⟨initPid, fds, .parted sock⟩) :
      Runs.CanReach (step (serverOf inherited true)) Own Accepting state := by
    have stepped := step_of_act (serverOf inherited true) .moves there rfl
    refine .after (.inl rfl) stepped ?_
    rcases step_inv modest stateInv stepped with kept | gone
    · exact kept.waiting_can_accept modest (put_same _ _ _)
    · rw [put_same] at gone
      cases gone
  cases inv.role here rfl with
  | accepting table log => exact .here (by rw [Accepting, here]; rfl)
  | forking conn table beside =>
      have stepped := step_of_act (serverOf inherited true) .forked here rfl
      have there : (system.spawn serverPid
          ⟨initPid, opened table conn, .forking (sockOf conn)⟩
          (.parted (sockOf conn)) (.entered (sockOf conn))).processes serverPid =
            some ⟨initPid, opened table conn, .parted (sockOf conn)⟩ := by
        simp only [System.spawn, if_neg (Nat.ne_of_lt inv.low), if_true]
      refine .after (.inl rfl) stepped ?_
      rcases step_inv modest inv stepped with kept | gone
      · exact parted _ kept _ _ there
      · rw [there] at gone
        cases gone
  | parted conn table beside => exact parted system inv _ _ here
  | waiting table log => exact inv.waiting_can_accept modest here

end CanAccept

theorem run_can_accept (modest : Modest inherited) {turns : List (Pid × Event)} {last : System}
    (ran : Runs.run (step (serverOf inherited true)) (start inherited) turns = .ok last)
    (alive : last.processes serverPid ≠ none) :
    Runs.CanReach (step (serverOf inherited true)) Own Accepting last :=
  (run_inv modest ran alive).can_accept modest

theorem run_can_accept_two :
    ∃ last, Runs.run (step (serverOf standard true)) (start standard)
        (twoServed.take 9) = .ok last ∧
      Runs.CanReach (step (serverOf standard true)) Own Accepting last := by
  refine ⟨_, rfl, ?_⟩
  have ran : Runs.run (step (serverOf standard true)) (start standard) (twoServed.take 9) =
    .ok _ := rfl
  exact run_can_accept modest_standard ran (Option.some_ne_none _)

/-! The server that does not wait. -/

def children (system : System) : Nat :=
  (List.range system.nextPid).countP (system.childOf serverPid)

theorem children_congr {next : System} (same : next.nextPid = system.nextPid)
    (each : ∀ child, next.childOf serverPid child = system.childOf serverPid child) :
    next.children = system.children := by
  rw [children, children, same]
  exact List.countP_congr fun child _ => by rw [each]

theorem children_spawn (here : system.processes pid = some process) (parent child : Control) :
    (system.spawn pid process parent child).children =
      system.children + if pid = serverPid then 1 else 0 := by
  have known (other : Pid) (old : other < system.nextPid) :
      (system.spawn pid process parent child).childOf serverPid other =
        system.childOf serverPid other := by
    simp only [childOf, spawn, if_neg (Nat.ne_of_lt old)]
    by_cases same : other = pid
    · rw [same, here, if_pos rfl]
    · rw [if_neg same]
  have new : (system.spawn pid process parent child).childOf serverPid system.nextPid =
      decide (pid = serverPid) := by
    simp [childOf, spawn]
  have rest : (List.range system.nextPid).countP
      ((system.spawn pid process parent child).childOf serverPid) = system.children := by
    refine List.countP_congr fun other member => ?_
    rw [known other (List.mem_range.mp member)]
  calc (system.spawn pid process parent child).children
      = (List.range (system.nextPid + 1)).countP
          ((system.spawn pid process parent child).childOf serverPid) := rfl
    _ = system.children + if pid = serverPid then 1 else 0 := by
        rw [List.range_succ, List.countP_append, rest, List.countP_singleton, new]
        simp

structure Litter (inherited : Table File) (turns : List (Pid × Event)) (system : System) :
    Prop where
  inv : system.Inv inherited false
  awake : ∀ process, system.processes serverPid = some process → process.control ≠ .waiting
  all : system.children = turns.count (serverPid, .forked)

theorem Litter.step (modest : Modest inherited) {turns : List (Pid × Event)} {turn : Pid × Event}
    {next : System} (before : Litter inherited turns system)
    (stepped : step (serverOf inherited false) system turn = .ok next) :
    Litter inherited (turns ++ [turn]) next ∨ next.processes serverPid = none := by
  rcases step_inv modest before.inv stepped with kept | gone
  · left
    obtain ⟨pid, event⟩ := turn
    simp only [System.step] at stepped
    split at stepped
    · cases stepped
    · rename_i process here
      have counted (quiet : event ≠ .forked) :
          (turns ++ [(pid, event)]).count (serverPid, Event.forked) =
            turns.count (serverPid, Event.forked) := by
        simp [List.count_append, quiet]
      cases act_effect stepped with
      | changes later count quiet parent waits =>
          refine ⟨kept, ?_, ?_⟩
          · intro server there
            by_cases same : serverPid = pid
            · rw [same, put_same] at there
              cases there
              intro waiting
              cases waits waiting
            · rw [put_ne same] at there
              exact before.awake server there
          · rw [counted quiet, ← before.all]
            exact children_congr rfl fun child => childOf_put here later parent serverPid child
      | reaps child later control =>
          have isServer : pid = serverPid := by
            by_contra notServer
            have plays := before.inv.plays pid process here
            rw [Plays, if_neg notServer] at plays
            split at plays
            · cases plays <;> cases control
            · cases plays <;> cases control
          subst isServer
          exact absurd control (before.awake process here)
      | spawns parent child forks parent_ne =>
          refine ⟨kept, ?_, ?_⟩
          · intro server there
            have old : serverPid ≠ system.nextPid := Nat.ne_of_lt before.inv.low
            simp only [spawn, if_neg old] at there
            split at there
            · cases there
              exact parent_ne
            · exact before.awake server there
          · rw [children_spawn here, before.all, forks, List.count_append, List.count_singleton]
            simp
      | leaves status quiet =>
          have notServer : pid ≠ serverPid := by
            rintro rfl
            have init : process.parent = initPid := by
              cases before.inv.role here rfl <;> rfl
            apply kept.alive
            simp [System.leave, init]
          refine ⟨kept, ?_, ?_⟩
          · intro server there
            simp only [System.leave, if_neg notServer.symm] at there
            split at there
            · cases there
            · rename_i orphan orphanThere
              have awake := before.awake orphan orphanThere
              split at there
              · split at there
                · cases there
                · cases there
                  exact awake
              · cases there
                exact awake
          · rw [counted quiet, ← before.all]
            exact children_congr rfl (childOf_leave notServer here status)
  · exact .inr gone

theorem run_never_reaps (modest : Modest inherited) {turns : List (Pid × Event)} {last : System}
    (ran : Runs.run (step (serverOf inherited false)) (start inherited) turns = .ok last)
    (alive : last.processes serverPid ≠ none) :
    last.children = turns.count (serverPid, .forked) := by
  have either : Litter inherited turns last ∨
      last.processes serverPid = none ∧ serverPid < last.nextPid := by
    refine Runs.run_history (motive := fun turns system => Litter inherited turns system ∨
      system.processes serverPid = none ∧ serverPid < system.nextPid) (.inl ?_) ?_ ran
    · refine ⟨start_inv modest false, ?_, rfl⟩
      intro process there
      cases there
      simp
    · rintro turns system turn next (before | ⟨gone, low⟩) stepped
      · rcases before.step modest stepped with after | none
        · exact .inl after
        · exact .inr ⟨none, step_low before.inv.low stepped⟩
      · exact .inr ⟨step_gone gone low stepped, step_low low stepped⟩
  rcases either with litter | gone
  · exact litter.all
  · exact absurd gone.1 alive

def twoLeft : List (Pid × Event) :=
  [(2, .accepted), (2, .forked), (2, .moves), (2, .accepted), (3, .moves), (3, .forked), (3, .moves),
    (2, .forked), (4, .returned), (4, .moves)]

theorem run_never_reaps_two :
    ∃ last, Runs.run (step (serverOf standard false)) (start standard) twoLeft = .ok last ∧
      last.children = 2 := by
  refine ⟨_, rfl, ?_⟩
  have ran : Runs.run (step (serverOf standard false)) (start standard) twoLeft = .ok _ := rfl
  exact run_never_reaps modest_standard ran (Option.some_ne_none _)

end System

end LearnInternet.ForkingServer
