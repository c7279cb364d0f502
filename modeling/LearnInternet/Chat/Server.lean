import LearnInternet.Chat.Address
import LearnInternet.Lib.Text

/-!
The `ChatServer`: the loop of `start` in its own thread, and the workers of the thread pool, which
send and delete what the loop hands to `SendTask`.
-/

namespace LearnInternet.Chat

structure Datagram where
  peer : SockaddrIn
  payload : Bytes
  deriving DecidableEq, Repr

/-- What `get_msg_` learns from `UdpServer::recv` and puts into `waiting_queue_`. -/
structure Waiting where
  buff : Bytes
  senderIp : Bytes
  senderPort : Int16
  deriving DecidableEq

def msgMax : Nat := 1024

/-- A failing `recvfrom` leaves the variables of the caller as they are. -/
def UdpServer.recv (outcome : Option Datagram) (before : Waiting) : Waiting :=
  match outcome with
  | none => before
  | some datagram =>
      { buff := Text.takeUntil 0 (datagram.payload.take (msgMax - 1))
        senderIp := inetNtoa datagram.peer.sinAddr
        senderPort := (ntohs datagram.peer.sinPort).toInt16 }

abbrev Client := Bytes × Int16

structure TaskArg where
  msg : Bytes
  ip : Bytes
  port : Int16
  deriving DecidableEq

structure Task where
  object : Nat
  arg : TaskArg
  deriving DecidableEq

structure Outgoing where
  msg : Bytes
  dstIp : Bytes
  dstPort : Int16
  deriving DecidableEq

/-- A worker: waiting for a task, at the beginning of `send_task_`, or before its `delete`. -/
inductive Worker where
  | waiting
  | running (task : Task)
  | sent (task : Task)
  deriving DecidableEq

/-- Where `start` is: at the top of its loop, or before the clients it has still to visit. -/
inductive Point where
  | top
  | visiting (rest : List Client)
  deriving DecidableEq

structure ChatServer where
  waitingQueue : List Waiting
  clientList : List Client
  point : Point
  taskQueue : List Task
  workers : List Worker
  submitted : List Task
  /-- How many objects `new` has made, and those that `delete` has taken. -/
  allocated : Nat
  deleted : List Nat
  outgoing : List Outgoing
  deriving DecidableEq

inductive Stop where
  | notEnabled
  | emptyQueue
  deriving DecidableEq, Repr

inductive Event where
  | getMsg (outcome : Option Datagram) (uninitialised : Int16)
  | visit
  | popMsg
  | takeTask (worker : Nat)
  | sendMsg (worker : Nat)
  | deleteArg (worker : Nat)
  deriving DecidableEq

namespace ChatServer

def initial : ChatServer where
  waitingQueue := []
  clientList := []
  point := .top
  taskQueue := []
  workers := List.replicate 3 .waiting
  submitted := []
  allocated := 0
  deleted := []
  outgoing := []

/-- `push_back` converts a `pair<string, uint16_t>` to the `pair<string, int16_t>` of the list. -/
def addClient (server : ChatServer) (senderIp : Bytes) (senderPort : Int16) : ChatServer :=
  if (senderIp, senderPort) ∈ server.clientList then server
  else
    { server with
      clientList := server.clientList ++ [(senderIp, senderPort.toUInt16.toInt16)] }

def getMsg (server : ChatServer) (outcome : Option Datagram) (uninitialised : Int16) :
    ChatServer :=
  let waiting := UdpServer.recv outcome ⟨[], [], uninitialised⟩
  let listed := server.addClient waiting.senderIp waiting.senderPort
  { listed with waitingQueue := listed.waitingQueue ++ [waiting] }

def sendTask (server : ChatServer) (task : Task) : ChatServer :=
  { server with
    taskQueue := server.taskQueue ++ [task]
    submitted := server.submitted ++ [task] }

def visitClient (server : ChatServer) (front : Waiting) (it : Client) : ChatServer :=
  let arg := Task.mk server.allocated ⟨front.buff, it.1, it.2⟩
  let made := { server with allocated := server.allocated + 1 }
  if front.senderIp ≠ it.1 ∨ front.senderPort ≠ it.2 then made.sendTask arg
  else { made with deleted := made.deleted ++ [arg.object] }

def outgoingOf (arg : TaskArg) : Outgoing where
  msg := arg.ip ++ ascii "/" ++ Decimal.intToBytes arg.port.toInt ++ ascii " say: " ++ arg.msg
  dstIp := arg.ip
  dstPort := arg.port

def step (server : ChatServer) : Event → Except Stop ChatServer
  | .getMsg outcome uninitialised =>
      match server.point with
      | .visiting _ => .error .notEnabled
      | .top =>
          let got := server.getMsg outcome uninitialised
          .ok { got with point := .visiting got.clientList }
  | .visit =>
      match server.point with
      | .visiting (it :: rest) =>
          match server.waitingQueue with
          | [] => .error .emptyQueue
          | front :: _ => .ok { server.visitClient front it with point := .visiting rest }
      | _ => .error .notEnabled
  | .popMsg =>
      match server.point with
      | .visiting [] =>
          match server.waitingQueue with
          | [] => .error .emptyQueue
          | _ :: later => .ok { server with waitingQueue := later, point := .top }
      | _ => .error .notEnabled
  | .takeTask worker =>
      match server.workers[worker]?, server.taskQueue with
      | some .waiting, task :: later =>
          .ok { server with
            taskQueue := later
            workers := server.workers.set worker (.running task) }
      | _, _ => .error .notEnabled
  | .sendMsg worker =>
      match server.workers[worker]? with
      | some (.running task) =>
          .ok { server with
            outgoing := server.outgoing ++ [outgoingOf task.arg]
            workers := server.workers.set worker (.sent task) }
      | _ => .error .notEnabled
  | .deleteArg worker =>
      match server.workers[worker]? with
      | some (.sent task) =>
          .ok { server with
            deleted := server.deleted ++ [task.object]
            workers := server.workers.set worker .waiting }
      | _ => .error .notEnabled

inductive Steps (server : ChatServer) : Event → ChatServer → Prop where
  | getMsg (outcome : Option Datagram) (uninitialised : Int16) (top : server.point = .top) :
      Steps server (.getMsg outcome uninitialised)
        { server.getMsg outcome uninitialised with
          point := .visiting (server.getMsg outcome uninitialised).clientList }
  | visit (it : Client) (rest : List Client) (front : Waiting) (later : List Waiting)
      (visiting : server.point = .visiting (it :: rest))
      (waiting : server.waitingQueue = front :: later) :
      Steps server .visit { server.visitClient front it with point := .visiting rest }
  | popMsg (front : Waiting) (later : List Waiting) (visiting : server.point = .visiting [])
      (waiting : server.waitingQueue = front :: later) :
      Steps server .popMsg { server with waitingQueue := later, point := .top }
  | takeTask (worker : Nat) (task : Task) (later : List Task)
      (idle : server.workers[worker]? = some .waiting) (queue : server.taskQueue = task :: later) :
      Steps server (.takeTask worker)
        { server with
          taskQueue := later
          workers := server.workers.set worker (.running task) }
  | sendMsg (worker : Nat) (task : Task)
      (running : server.workers[worker]? = some (.running task)) :
      Steps server (.sendMsg worker)
        { server with
          outgoing := server.outgoing ++ [outgoingOf task.arg]
          workers := server.workers.set worker (.sent task) }
  | deleteArg (worker : Nat) (task : Task) (sent : server.workers[worker]? = some (.sent task)) :
      Steps server (.deleteArg worker)
        { server with
          deleted := server.deleted ++ [task.object]
          workers := server.workers.set worker .waiting }

theorem steps_of_ok {server next : ChatServer} {event : Event}
    (stepped : server.step event = .ok next) : server.Steps event next := by
  cases event with
  | getMsg outcome uninitialised =>
      simp only [step] at stepped
      split at stepped
      · cases stepped
      · rename_i top
        cases stepped
        exact .getMsg outcome uninitialised top
  | visit =>
      simp only [step] at stepped
      split at stepped
      · rename_i it rest visiting
        split at stepped
        · cases stepped
        · rename_i front later waiting
          cases stepped
          exact .visit it rest front later visiting waiting
      · cases stepped
  | popMsg =>
      simp only [step] at stepped
      split at stepped
      · rename_i visiting
        split at stepped
        · cases stepped
        · rename_i front later waiting
          cases stepped
          exact .popMsg front later visiting waiting
      · cases stepped
  | takeTask worker =>
      simp only [step] at stepped
      split at stepped
      · rename_i task later idle queue
        cases stepped
        exact .takeTask worker task later idle queue
      · cases stepped
  | sendMsg worker =>
      simp only [step] at stepped
      split at stepped
      · rename_i task running
        cases stepped
        exact .sendMsg worker task running
      · cases stepped
  | deleteArg worker =>
      simp only [step] at stepped
      split at stepped
      · rename_i task sent
        cases stepped
        exact .deleteArg worker task sent
      · cases stepped

end ChatServer

end LearnInternet.Chat
