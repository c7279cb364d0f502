import LearnInternet.Lib.Descriptors
import LearnInternet.Socket

/-!
The processes of the forking `TcpServer`: for each connection `run` forks a child, which forks the
process that serves the connection and exits. The server of `TcpServer_v3` does not wait for the
child, the ones of the calculator and of the HTTP server do.
-/

namespace LearnInternet.ForkingServer

open Descriptors

abbrev Pid := Nat

/-- The process that adopts the children of processes that have exited, and waits for them. -/
def initPid : Pid := 1

def serverPid : Pid := 2

/-- What a descriptor stands for; connections are numbered in the order they are accepted. -/
inductive File where
  | inherited
  | listening
  | log
  | connection (index : Nat)
  deriving DecidableEq, Repr

/-- What a process exits with: `errno` when it cannot open the log. -/
inductive Status where
  | code (code : ErrCode)
  | errno (number : Nat)
  deriving DecidableEq, Repr

/-- Where a process is in `run`; `sock` is its `sockfd_`, which is `-1` without a connection. -/
inductive Control where
  | accepting
  | forking (sock : Int)
  | parted (sock : Int)
  | waiting
  /-- The child, before it closes the listening socket and after. -/
  | entered (sock : Int)
  | deaf (sock : Int)
  | serving (sock : Int)
  /-- Before `sock.reset(); exit(OK_ERR);`. -/
  | leaving (sock : Int)
  | exited (status : Status)
  deriving DecidableEq, Repr

structure Process where
  parent : Pid
  fds : Table File
  control : Control
  deriving DecidableEq, Repr

structure System where
  processes : Pid → Option Process
  nextPid : Pid
  nextConnection : Nat

structure Server where
  listenSocketFd : Nat
  waits : Bool
  closeLogs : Bool
  deriving DecidableEq, Repr

inductive Event where
  | accepted
  | acceptFailed
  /-- A line is to be written to the log, and `fopen` fails. -/
  | logFailed (number : Nat)
  | forked
  | forkFailed
  | moves
  | reaped (child : Pid)
  | noChild
  | logs
  | closes
  | returned
  | exits (status : Status)
  deriving DecidableEq, Repr

inductive Stuck where
  | blocked
  deriving DecidableEq, Repr

def toInt16 (number : Nat) : Int :=
  if number % 65536 < 32768 then (number % 65536 : Nat) else (number % 65536 : Nat) - 65536

def logOpen (fds : Table File) : Bool := fds.any fun entry => decide (entry.2 = .log)

/-- The first line that a process writes to the log opens it, for as long as the process lives. -/
def openLog (fds : Table File) : Table File :=
  if logOpen fds then fds else fds ++ [(lowestFree fds, .log)]

def closeSock (sock : Int) (fds : Table File) : Table File :=
  if sock = -1 then fds else close sock.toNat fds

def Server.closeSocket (server : Server) (sock : Int) (fds : Table File) : Table File :=
  closeSock sock (if server.closeLogs then openLog fds else fds)

namespace System

def put (system : System) (pid : Pid) (process : Process) : System :=
  { system with
    processes := fun other => if other = pid then some process else system.processes other }

def isExited (control : Control) : Bool :=
  match control with
  | .exited _ => true
  | _ => false

/-- A process that exits stays until its parent waits for it; its own children are adopted. -/
def leave (system : System) (pid : Pid) (process : Process) (status : Status) : System :=
  { system with
    processes := fun other =>
      if other = pid then
        if process.parent = initPid then none
        else some { process with fds := [], control := .exited status }
      else
        match system.processes other with
        | none => none
        | some orphan =>
            if orphan.parent = pid then
              if isExited orphan.control then none else some { orphan with parent := initPid }
            else some orphan }

def childOf (system : System) (parent child : Pid) : Bool :=
  match system.processes child with
  | none => false
  | some process => decide (process.parent = parent)

def spawn (system : System) (pid : Pid) (process : Process) (parent child : Control) : System :=
  { system with
    processes := fun other =>
      if other = system.nextPid then some { process with parent := pid, control := child }
      else if other = pid then some { process with control := parent }
      else system.processes other
    nextPid := system.nextPid + 1 }

def act (server : Server) (system : System) (pid : Pid) (process : Process) (event : Event) :
    Except Stuck System :=
  match process.control, event with
  | .accepting, .accepted =>
      let number := lowestFree process.fds
      let fds := (number, .connection system.nextConnection) :: process.fds
      let system := { system with nextConnection := system.nextConnection + 1 }
      if toInt16 number < 0 then
        .ok (system.put pid { process with fds := openLog fds, control := .forking (-1) })
      else .ok (system.put pid { process with fds, control := .forking (toInt16 number) })
  | .accepting, .acceptFailed =>
      .ok (system.put pid { process with fds := openLog process.fds, control := .forking (-1) })
  | .forking sock, .forked => .ok (system.spawn pid process (.parted sock) (.entered sock))
  | .forking _, .forkFailed => .ok (system.leave pid process (.code .forkErr))
  | .accepting, .logFailed number
  | .forking _, .logFailed number =>
      if logOpen process.fds then .error .blocked
      else .ok (system.leave pid process (.errno number))
  | .parted _, .logFailed number
  | .leaving _, .logFailed number =>
      if logOpen process.fds ∨ server.closeLogs = false then .error .blocked
      else .ok (system.leave pid process (.errno number))
  | .parted sock, .moves =>
      .ok (system.put pid
        { process with
          fds := server.closeSocket sock process.fds
          control := if server.waits then .waiting else .accepting })
  | .waiting, .reaped child =>
      match system.processes child with
      | none => .error .blocked
      | some zombie =>
          if zombie.parent = pid ∧ isExited zombie.control = true ∧ child ≠ pid then
            .ok ({ system with
                processes := fun other => if other = child then none else system.processes other }.put
              pid { process with control := .accepting })
          else .error .blocked
  | .waiting, .noChild =>
      if (List.range system.nextPid).all fun child => !system.childOf pid child then
        .ok (system.put pid { process with control := .accepting })
      else .error .blocked
  | .entered sock, .moves =>
      .ok (system.put pid
        { process with fds := close server.listenSocketFd process.fds, control := .deaf sock })
  | .deaf sock, .forked => .ok (system.spawn pid process (.leaving sock) (.serving sock))
  | .deaf sock, .forkFailed => .ok (system.put pid { process with control := .leaving sock })
  | .serving _, .logs => .ok (system.put pid { process with fds := openLog process.fds })
  | .serving sock, .closes =>
      .ok (system.put pid
        { process with fds := server.closeSocket sock process.fds, control := .serving (-1) })
  | .serving sock, .returned => .ok (system.put pid { process with control := .leaving sock })
  | .serving _, .exits status => .ok (system.leave pid process status)
  | .leaving _, .moves => .ok (system.leave pid process (.code .okErr))
  | _, _ => .error .blocked

def step (server : Server) (system : System) (turn : Pid × Event) : Except Stuck System :=
  match system.processes turn.1 with
  | none => .error .blocked
  | some process => act server system turn.1 process turn.2

/-- After `init` and `listen_socket`, in a process with these descriptors. The log is one of them for
the HTTP server, whose `init` writes to it before it makes the socket. -/
def start (inherited : Table File) : System where
  processes := fun pid =>
    if pid = serverPid then
      some ⟨initPid, (lowestFree inherited, .listening) :: inherited, .accepting⟩
    else none
  nextPid := serverPid + 1
  nextConnection := 0

/-- The servers that wait are those whose `Socket::close` writes to the log. -/
def serverOf (inherited : Table File) (waits : Bool) : Server :=
  ⟨lowestFree inherited, waits, waits⟩

end System

end LearnInternet.ForkingServer
