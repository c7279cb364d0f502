import LearnInternet.Lib.Counting
import LearnInternet.Lib.Distinct
import LearnInternet.Lib.Runs
import LearnInternet.Chat.Server

/-!
Every datagram reaches each other client once: what the loop of `start` hands to the thread pool,
and what becomes of the objects it allocates, over any interleaving with the workers.
-/

namespace LearnInternet.Chat

def Datagram.text (datagram : Datagram) : Bytes :=
  Text.takeUntil 0 (datagram.payload.take (msgMax - 1))

def SockaddrIn.client (peer : SockaddrIn) : Client :=
  (inetNtoa peer.sinAddr, (ntohs peer.sinPort).toInt16)

theorem client_injective : Function.Injective SockaddrIn.client := by
  intro left right same
  have address : left.sinAddr = right.sinAddr := inetNtoa_injective (Prod.mk.inj same).1
  have port : left.sinPort = right.sinPort := by
    rw [← htons_ntohs left.sinPort, ← htons_ntohs right.sinPort,
      ← UInt16.toUInt16_toInt16 (ntohs left.sinPort), (Prod.mk.inj same).2,
      UInt16.toUInt16_toInt16]
  cases left
  cases right
  simp only at address port
  rw [address, port]

def senders (received : List Datagram) : List SockaddrIn :=
  (received.map Datagram.peer).eraseDups

theorem senders_append (received : List Datagram) (datagram : Datagram) :
    senders (received ++ [datagram]) =
      if datagram.peer ∈ senders received then senders received
      else senders received ++ [datagram.peer] := by
  simp only [senders, List.map_append, List.map_cons, List.map_nil, List.mem_eraseDups]
  exact Distinct.eraseDups_concat _ _

structure Addressed (datagram : Datagram) (client : SockaddrIn) (task : Task) : Prop where
  msg : task.arg.msg = datagram.text
  ip : task.arg.ip = inetNtoa client.sinAddr
  port : htons task.arg.port.toUInt16 = client.sinPort

/-- The tasks of a sequence of datagrams: one for each sender so far but the own one. -/
inductive FanOut : List Datagram → List Task → Prop where
  | none : FanOut [] []
  | next {received : List Datagram} {submitted tasks : List Task} (datagram : Datagram)
      (before : FanOut received submitted)
      (others : List.Forall₂ (Addressed datagram)
        ((senders (received ++ [datagram])).filter (· ≠ datagram.peer)) tasks) :
      FanOut (received ++ [datagram]) (submitted ++ tasks)

namespace Worker

def held : Worker → List Task
  | .waiting => []
  | .running task => [task]
  | .sent task => [task]

end Worker

namespace ChatServer

def running (server : ChatServer) : List Nat :=
  (server.workers.flatMap Worker.held).map Task.object

def queued (server : ChatServer) : List Nat := server.taskQueue.map Task.object

/-- Every object is deleted, queued or held by a worker, and only one of these. -/
def Accounted (server : ChatServer) : Prop :=
  (server.deleted ++ server.queued ++ server.running).Perm (List.range server.allocated)

theorem count_set {workers : List Worker} {worker : Nat} {before : Worker}
    (present : workers[worker]? = some before) (after : Worker) (object : Nat) :
    (((workers.set worker after).flatMap Worker.held).map Task.object).count object +
        (before.held.map Task.object).count object =
      ((workers.flatMap Worker.held).map Task.object).count object +
        (after.held.map Task.object).count object := by
  have moved := (Counting.flatMap_set_perm Worker.held present after).map Task.object
  have counted := moved.count_eq object
  rw [List.map_append, List.map_append, List.count_append, List.count_append] at counted
  exact counted

theorem accounted_of_steps {server next : ChatServer} {event : Event}
    (accounted : server.Accounted) (steps : server.Steps event next) : next.Accounted := by
  simp only [Accounted, List.perm_iff_count, List.count_append] at accounted ⊢
  intro object
  have counted := accounted object
  cases steps with
  | getMsg outcome uninitialised top =>
      simp only [ChatServer.getMsg, addClient]
      split
      · exact counted
      · exact counted
  | visit it rest front later visiting waiting =>
      simp only [visitClient]
      split
      · simp only [queued, running, sendTask, List.map_append, List.map_cons, List.map_nil,
          List.range_succ, List.count_append] at counted ⊢
        omega
      · simp only [queued, running, List.range_succ, List.count_append] at counted ⊢
        omega
  | popMsg front later visiting waiting => exact counted
  | takeTask worker task later idle queue =>
      have moved := count_set idle (.running task) object
      simp only [queued, running, queue, List.map_cons, List.count_cons, Worker.held,
        List.map_nil, List.count_nil] at counted moved ⊢
      omega
  | sendMsg worker task running =>
      have moved := count_set running (.sent task) object
      simp only [queued, ChatServer.running, Worker.held] at counted moved ⊢
      omega
  | deleteArg worker task sent =>
      have moved := count_set sent .waiting object
      simp only [queued, running, List.count_append, Worker.held, List.map_cons,
        List.map_nil, List.count_nil] at counted moved ⊢
      omega

theorem addClient_clientList (server : ChatServer) (senderIp : Bytes) (senderPort : Int16) :
    (server.addClient senderIp senderPort).clientList =
      if (senderIp, senderPort) ∈ server.clientList then server.clientList
      else server.clientList ++ [(senderIp, senderPort)] := by
  simp only [addClient, Int16.toInt16_toUInt16]
  split
  · rfl
  · rfl

theorem addClient_frame (server : ChatServer) (senderIp : Bytes) (senderPort : Int16) :
    (server.addClient senderIp senderPort).waitingQueue = server.waitingQueue ∧
      (server.addClient senderIp senderPort).submitted = server.submitted := by
  simp only [addClient]
  split
  · exact ⟨rfl, rfl⟩
  · exact ⟨rfl, rfl⟩

theorem visitClient_clientList (server : ChatServer) (front : Waiting) (it : Client) :
    (server.visitClient front it).clientList = server.clientList := by
  simp only [visitClient]
  split
  · rfl
  · rfl

def Idle (server : ChatServer) : Prop := server.queued = [] ∧ server.running = []

theorem Accounted.freed {server : ChatServer} (accounted : server.Accounted) (idle : server.Idle) :
    server.deleted.Perm (List.range server.allocated) := by
  rw [Accounted, idle.1, idle.2, List.append_nil, List.append_nil] at accounted
  exact accounted

end ChatServer

structure Trace where
  server : ChatServer
  received : List Datagram

namespace Trace

def start : Trace := ⟨ChatServer.initial, []⟩

def step (trace : Trace) (event : Event) : Except Stop Trace :=
  match trace.server.step event with
  | .error stop => .error stop
  | .ok server =>
      match event with
      | .getMsg (some datagram) _ => .ok ⟨server, trace.received ++ [datagram]⟩
      | _ => .ok ⟨server, trace.received⟩

/-- The rounds that are over have shared their datagrams, the present one has served the clients
visited so far. -/
inductive Round (trace : Trace) : Prop where
  | top (point : trace.server.point = .top) (waiting : trace.server.waitingQueue = [])
      (fanOut : FanOut trace.received trace.server.submitted)
  | visiting (datagram : Datagram) (earlier : List Datagram) (visited rest : List SockaddrIn)
      (before tasks : List Task)
      (point : trace.server.point = .visiting (rest.map SockaddrIn.client))
      (waiting : trace.server.waitingQueue =
        [⟨datagram.text, datagram.peer.client.1, datagram.peer.client.2⟩])
      (received : trace.received = earlier ++ [datagram])
      (listed : senders trace.received = visited ++ rest)
      (submitted : trace.server.submitted = before ++ tasks)
      (fanOut : FanOut earlier before)
      (served : List.Forall₂ (Addressed datagram) (visited.filter (· ≠ datagram.peer)) tasks)

structure Inv (trace : Trace) : Prop where
  listed : trace.server.clientList = (senders trace.received).map SockaddrIn.client
  round : trace.Round
  accounted : trace.server.Accounted

def Succeeds : Event → Prop
  | .getMsg none _ => False
  | _ => True

theorem start_inv : Inv start where
  listed := rfl
  round := .top rfl rfl .none
  accounted := List.Perm.refl []

theorem getMsg_listed {server : ChatServer} {received : List Datagram}
    (listed : server.clientList = (senders received).map SockaddrIn.client) (datagram : Datagram)
    (uninitialised : Int16) :
    (server.getMsg (some datagram) uninitialised).clientList =
      (senders (received ++ [datagram])).map SockaddrIn.client := by
  have known : datagram.peer.client ∈ server.clientList ↔ datagram.peer ∈ senders received := by
    rw [listed, List.mem_map_of_injective client_injective]
  have got : (server.getMsg (some datagram) uninitialised).clientList =
      (server.addClient datagram.peer.client.1 datagram.peer.client.2).clientList := rfl
  rw [got, ChatServer.addClient_clientList, senders_append]
  simp only [known]
  split
  · exact listed
  · rw [List.map_append, listed]
    rfl

theorem getMsg_round {trace : Trace} (inv : trace.Inv) (top : trace.server.point = .top)
    (datagram : Datagram) (uninitialised : Int16) :
    Round ⟨{ trace.server.getMsg (some datagram) uninitialised with
      point := .visiting (trace.server.getMsg (some datagram) uninitialised).clientList },
        trace.received ++ [datagram]⟩ := by
  cases inv.round with
  | visiting _ _ _ _ _ _ point => simp [top] at point
  | top point waiting fanOut =>
      have kept := trace.server.addClient_frame datagram.peer.client.1 datagram.peer.client.2
      apply Round.visiting datagram trace.received [] (senders (trace.received ++ [datagram]))
        trace.server.submitted []
      · exact congrArg Point.visiting (getMsg_listed inv.listed datagram uninitialised)
      · have queue : (trace.server.getMsg (some datagram) uninitialised).waitingQueue =
            (trace.server.addClient datagram.peer.client.1 datagram.peer.client.2).waitingQueue ++
              [⟨datagram.text, datagram.peer.client.1, datagram.peer.client.2⟩] := rfl
        simp only [queue, kept.1, waiting, List.nil_append]
      · rfl
      · rfl
      · rw [List.append_nil]
        exact kept.2
      · exact fanOut
      · exact List.Forall₂.nil

theorem visit_round {trace : Trace} (round : trace.Round) {it : Client} {rest : List Client}
    {front : Waiting} {later : List Waiting} (visiting : trace.server.point = .visiting (it :: rest))
    (waiting : trace.server.waitingQueue = front :: later) :
    Round ⟨{ trace.server.visitClient front it with point := .visiting rest }, trace.received⟩ := by
  cases round with
  | top point => simp [visiting] at point
  | visiting datagram earlier visited remaining before tasks point queue received listed submitted
      fanOut served =>
      cases remaining with
      | nil => simp [visiting] at point
      | cons client remaining =>
          rw [visiting] at point
          simp only [List.map_cons, Point.visiting.injEq, List.cons.injEq] at point
          obtain ⟨rfl, rfl⟩ := point
          rw [waiting] at queue
          obtain ⟨rfl, rfl⟩ := List.cons.inj queue
          have skips : (datagram.peer.client.1 ≠ client.client.1 ∨
              datagram.peer.client.2 ≠ client.client.2) ↔ client ≠ datagram.peer := by
            rw [← not_and_or, ← Prod.ext_iff, client_injective.eq_iff, eq_comm]
          by_cases own : client = datagram.peer
          · have stays : trace.server.visitClient
                ⟨datagram.text, datagram.peer.client.1, datagram.peer.client.2⟩ client.client =
                { trace.server with
                  allocated := trace.server.allocated + 1
                  deleted := trace.server.deleted ++ [trace.server.allocated] } :=
              if_neg (fun differs => skips.mp differs own)
            apply Round.visiting datagram earlier (visited ++ [client]) remaining before tasks
            · rfl
            · rw [stays]
              exact waiting
            · exact received
            · simpa using listed
            · rw [stays]
              exact submitted
            · exact fanOut
            · simpa [List.filter_append, own] using served
          · have sends : trace.server.visitClient
                ⟨datagram.text, datagram.peer.client.1, datagram.peer.client.2⟩ client.client =
                { trace.server with allocated := trace.server.allocated + 1 }.sendTask
                  ⟨trace.server.allocated,
                    ⟨datagram.text, client.client.1, client.client.2⟩⟩ :=
              if_pos (skips.mpr own)
            apply Round.visiting datagram earlier (visited ++ [client]) remaining before
              (tasks ++ [⟨trace.server.allocated,
                ⟨datagram.text, client.client.1, client.client.2⟩⟩])
            · rfl
            · rw [sends]
              exact waiting
            · exact received
            · simpa using listed
            · rw [sends]
              simp only [ChatServer.sendTask, submitted, List.append_assoc]
            · exact fanOut
            · rw [List.filter_append]
              apply List.rel_append served
              have kept : [client].filter (· ≠ datagram.peer) = [client] := by simp [own]
              rw [kept]
              refine .cons ⟨rfl, rfl, ?_⟩ .nil
              exact (congrArg htons (UInt16.toUInt16_toInt16 _)).trans (htons_ntohs _)

theorem popMsg_round {trace : Trace} (round : trace.Round) {front : Waiting}
    {later : List Waiting} (visiting : trace.server.point = .visiting [])
    (waiting : trace.server.waitingQueue = front :: later) :
    Round ⟨{ trace.server with waitingQueue := later, point := .top }, trace.received⟩ := by
  cases round with
  | top point => simp [visiting] at point
  | visiting datagram earlier visited remaining before tasks point queue received listed submitted
      fanOut served =>
      rw [visiting] at point
      have none : remaining = [] := by simpa using point.symm
      rw [none, List.append_nil, received] at listed
      rw [waiting] at queue
      apply Round.top
      · rfl
      · exact (List.cons.inj queue).2
      · simp only [received, submitted]
        apply FanOut.next datagram fanOut
        rw [listed]
        exact served

theorem Round.worker {trace : Trace} {server : ChatServer} (round : trace.Round)
    (same : server.point = trace.server.point ∧ server.waitingQueue = trace.server.waitingQueue ∧
      server.submitted = trace.server.submitted) : Round ⟨server, trace.received⟩ := by
  obtain ⟨samePoint, sameQueue, sameSubmitted⟩ := same
  cases round with
  | top point waiting fanOut =>
      apply Round.top
      · exact samePoint.trans point
      · exact sameQueue.trans waiting
      · simp only [sameSubmitted]
        exact fanOut
  | visiting datagram earlier visited remaining before tasks point queue received listed submitted
      fanOut served =>
      exact .visiting datagram earlier visited remaining before tasks (samePoint.trans point)
        (sameQueue.trans queue) received listed (sameSubmitted.trans submitted) fanOut served

theorem step_inv (trace : Trace) (event : Event) (next : Trace) (inv : trace.Inv)
    (succeeds : Succeeds event) (stepped : trace.step event = .ok next) : next.Inv := by
  simp only [step] at stepped
  split at stepped
  · cases stepped
  · rename_i server serverStepped
    have steps := ChatServer.steps_of_ok serverStepped
    have accounted := ChatServer.accounted_of_steps inv.accounted steps
    cases steps with
    | getMsg outcome uninitialised top =>
        cases outcome with
        | none => cases succeeds
        | some datagram =>
            cases stepped
            exact ⟨getMsg_listed inv.listed datagram uninitialised,
              getMsg_round inv top datagram uninitialised, accounted⟩
    | visit it rest front later visiting waiting =>
        cases stepped
        refine ⟨?_, visit_round inv.round visiting waiting, accounted⟩
        exact (ChatServer.visitClient_clientList _ _ _).trans inv.listed
    | popMsg front later visiting waiting =>
        cases stepped
        exact ⟨inv.listed, popMsg_round inv.round visiting waiting, accounted⟩
    | takeTask worker task later idle queue =>
        cases stepped
        exact ⟨inv.listed, inv.round.worker ⟨rfl, rfl, rfl⟩, accounted⟩
    | sendMsg worker task running =>
        cases stepped
        exact ⟨inv.listed, inv.round.worker ⟨rfl, rfl, rfl⟩, accounted⟩
    | deleteArg worker task sent =>
        cases stepped
        exact ⟨inv.listed, inv.round.worker ⟨rfl, rfl, rfl⟩, accounted⟩

structure FansOut (trace : Trace) : Prop where
  defined : ∀ event, trace.server.step event ≠ .error .emptyQueue
  queue : trace.server.point = .top → trace.server.waitingQueue = []
  clients : trace.server.point = .top →
    trace.server.clientList = (senders trace.received).map SockaddrIn.client
  distinct : trace.server.clientList.Nodup
  handed : trace.server.point = .top → FanOut trace.received trace.server.submitted
  once : trace.server.deleted.Nodup
  alive : ∀ object ∈ trace.server.queued ++ trace.server.running, object ∉ trace.server.deleted
  freed : trace.server.Idle → trace.server.deleted.Perm (List.range trace.server.allocated)

theorem Round.defined {trace : Trace} (round : trace.Round) (event : Event) :
    trace.server.step event ≠ .error .emptyQueue := by
  intro undefined
  have queued : ∀ rest, trace.server.point = .visiting rest → trace.server.waitingQueue ≠ [] := by
    intro rest visiting
    cases round with
    | top point => simp [visiting] at point
    | visiting _ _ _ _ _ _ _ waiting => simp [waiting]
  cases event with
  | getMsg outcome uninitialised =>
      simp only [ChatServer.step] at undefined
      split at undefined <;> cases undefined
  | visit =>
      simp only [ChatServer.step] at undefined
      split at undefined
      · rename_i it rest visiting
        split at undefined
        · rename_i empty
          exact queued _ visiting empty
        · cases undefined
      · cases undefined
  | popMsg =>
      simp only [ChatServer.step] at undefined
      split at undefined
      · rename_i visiting
        split at undefined
        · rename_i empty
          exact queued _ visiting empty
        · cases undefined
      · cases undefined
  | takeTask worker =>
      simp only [ChatServer.step] at undefined
      split at undefined <;> cases undefined
  | sendMsg worker =>
      simp only [ChatServer.step] at undefined
      split at undefined <;> cases undefined
  | deleteArg worker =>
      simp only [ChatServer.step] at undefined
      split at undefined <;> cases undefined

theorem Inv.fansOut {trace : Trace} (inv : trace.Inv) : trace.FansOut := by
  have nodup := inv.accounted.nodup_iff.mpr (List.nodup_range)
  rw [List.append_assoc, List.nodup_append] at nodup
  constructor
  · exact inv.round.defined
  · intro top
    cases inv.round with
    | top _ waiting _ => exact waiting
    | visiting _ _ _ _ _ _ point => simp [top] at point
  · intro _
    exact inv.listed
  · rw [inv.listed]
    exact (Distinct.nodup_eraseDups _).map client_injective
  · intro top
    cases inv.round with
    | top _ _ fanOut => exact fanOut
    | visiting _ _ _ _ _ _ point => simp [top] at point
  · exact nodup.1
  · intro object pending gone
    exact nodup.2.2 object gone object pending rfl
  · exact inv.accounted.freed

theorem run_fansOut (events : List Event) (last : Trace)
    (succeed : ∀ event ∈ events, Succeeds event) (ran : Runs.run step start events = .ok last) :
    last.FansOut :=
  (Runs.run_keeps step_inv start_inv succeed ran).fansOut

def greetings : List Event :=
  [.getMsg (some ⟨⟨⟨10, 0, 0, 1⟩, 80⟩, [104, 105]⟩) 0, .visit, .popMsg,
    .getMsg (some ⟨⟨⟨10, 0, 0, 2⟩, 65535⟩, [111, 107]⟩) 0, .visit, .visit, .popMsg,
    .takeTask 1, .sendMsg 1, .deleteArg 1]

theorem run_fansOut_greetings :
    ∃ last, Runs.run step start greetings = .ok last ∧ last.FansOut := by
  have runs : (Runs.run step start greetings).isOk = true := by decide +kernel
  obtain ⟨last, ran⟩ := Runs.run_of_isOk runs
  refine ⟨last, ran, run_fansOut greetings last ?_ ran⟩
  simp [greetings, Succeeds]

end Trace

end LearnInternet.Chat
