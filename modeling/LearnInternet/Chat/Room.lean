import LearnInternet.Chat.Attribution
import LearnInternet.Chat.Client
import LearnInternet.Chat.Destination
import LearnInternet.Chat.PooledServer
import LearnInternet.Lib.Network

/-!
A chat: several `ChatClient`s, the `ChatServer` over its thread pool, and a network between them that
may lose, double and reorder the datagrams.
-/

namespace LearnInternet.Chat

/-- A client at its address, and what has arrived at its socket. -/
structure Talker where
  address : SockaddrIn
  udp : UdpClient
  arrivals : List Bytes
  deriving DecidableEq

def Talker.printed (talker : Talker) : Printed :=
  ChatClient.recvMsg talker.udp (talker.arrivals.map some)

/-- A datagram names the client that it comes from or goes to. -/
structure Room where
  talkers : List Talker
  server : PooledServer
  toServer : Network Datagram
  toClients : Network Datagram

namespace Room

inductive Event where
  /-- A line of input; where `sendto` fails the datagram is lost. -/
  | say (talker : Nat) (text : Bytes)
  | hear (index : Nat) (uninitialised : Int16)
  | serve (event : PooledServer.Event)
  | read (talker : Nat) (index : Nat)
  | mishapToServer (mishap : Network.Mishap)
  | mishapToClients (mishap : Network.Mishap)
  deriving DecidableEq

def start (sockets : List (SockaddrIn × UdpClient)) : Room where
  talkers := sockets.map fun socket => ⟨socket.1, socket.2, []⟩
  server := PooledServer.start
  toServer := .empty
  toClients := .empty

def serve (room : Room) (event : PooledServer.Event) (toServer : Network Datagram) :
    Except Stop Room :=
  match room.server.step event with
  | .error stop => .error stop
  | .ok server =>
      let sent := server.server.outgoing.drop room.server.server.outgoing.length
      .ok { room with server, toServer, toClients := room.toClients.send (sent.map UdpServer.send) }

def step (room : Room) : Event → Except Stop Room
  | .say talker text =>
      match room.talkers[talker]? with
      | none => .error .notEnabled
      | some sender =>
          if sender.udp.isInit then
            .ok { room with toServer := room.toServer.send [⟨sender.address, text⟩] }
          else .ok room
  | .hear index uninitialised =>
      match room.toServer.underway[index]? with
      | none => .error .notEnabled
      | some datagram =>
          room.serve (.getMsg (some datagram) uninitialised) (room.toServer.arrive index datagram)
  | .serve event =>
      match event with
      | .getMsg _ _ => .error .notEnabled
      | event => room.serve event room.toServer
  | .read talker index =>
      match room.talkers[talker]?, room.toClients.underway[index]? with
      | some reader, some datagram =>
          if datagram.peer = reader.address then
            let arrivals := reader.arrivals ++ [datagram.payload]
            .ok { room with
              talkers := room.talkers.set talker { reader with arrivals }
              toClients := room.toClients.arrive index datagram }
          else .error .notEnabled
      | _, _ => .error .notEnabled
  | .mishapToServer mishap => .ok { room with toServer := room.toServer.befall mishap }
  | .mishapToClients mishap => .ok { room with toClients := room.toClients.befall mishap }

inductive Steps (room : Room) : Event → Room → Prop where
  | say (talker : Nat) (text : Bytes) (sender : Talker)
      (present : room.talkers[talker]? = some sender) (isInit : sender.udp.isInit = true) :
      Steps room (.say talker text)
        { room with toServer := room.toServer.send [⟨sender.address, text⟩] }
  | mute (talker : Nat) (text : Bytes) (sender : Talker)
      (present : room.talkers[talker]? = some sender) (isInit : sender.udp.isInit = false) :
      Steps room (.say talker text) room
  | hear (index : Nat) (uninitialised : Int16) (datagram : Datagram) (next : Room)
      (underway : room.toServer.underway[index]? = some datagram)
      (served : room.serve (.getMsg (some datagram) uninitialised)
        (room.toServer.arrive index datagram) = .ok next) :
      Steps room (.hear index uninitialised) next
  | serve (event : PooledServer.Event) (next : Room) (own : event.heard = [])
      (succeeds : PooledServer.Succeeds event)
      (served : room.serve event room.toServer = .ok next) : Steps room (.serve event) next
  | read (talker : Nat) (index : Nat) (reader : Talker) (datagram : Datagram)
      (present : room.talkers[talker]? = some reader)
      (underway : room.toClients.underway[index]? = some datagram)
      (own : datagram.peer = reader.address) :
      Steps room (.read talker index)
        { room with
          talkers := room.talkers.set talker
            { reader with arrivals := reader.arrivals ++ [datagram.payload] }
          toClients := room.toClients.arrive index datagram }
  | mishapToServer (mishap : Network.Mishap) :
      Steps room (.mishapToServer mishap) { room with toServer := room.toServer.befall mishap }
  | mishapToClients (mishap : Network.Mishap) :
      Steps room (.mishapToClients mishap) { room with toClients := room.toClients.befall mishap }

theorem steps_of_ok {room next : Room} {event : Event} (stepped : room.step event = .ok next) :
    room.Steps event next := by
  cases event with
  | say talker text =>
      simp only [step] at stepped
      split at stepped
      · cases stepped
      · rename_i sender present
        split at stepped
        · rename_i isInit
          cases stepped
          exact .say talker text sender present isInit
        · rename_i mute
          cases stepped
          exact .mute talker text sender present (Bool.eq_false_iff.mpr mute)
  | hear index uninitialised =>
      simp only [step] at stepped
      split at stepped
      · cases stepped
      · rename_i datagram underway
        exact .hear index uninitialised datagram next underway stepped
  | serve event =>
      cases event with
      | getMsg outcome uninitialised => cases stepped
      | _ => exact .serve _ next rfl trivial stepped
  | read talker index =>
      simp only [step] at stepped
      split at stepped
      · rename_i reader datagram present underway
        split at stepped
        · rename_i own
          cases stepped
          exact .read talker index reader datagram present underway own
        · cases stepped
      · cases stepped
  | mishapToServer mishap =>
      cases stepped
      exact .mishapToServer mishap
  | mishapToClients mishap =>
      cases stepped
      exact .mishapToClients mishap

/-! ### What holds in every state -/

def spoken (sockets : List (SockaddrIn × UdpClient)) : Event → List Datagram
  | .say talker text =>
      match sockets[talker]? with
      | some (address, udp) => if udp.isInit then [⟨address, text⟩] else []
      | none => []
  | _ => []

def said (sockets : List (SockaddrIn × UdpClient)) (events : List Event) : List Datagram :=
  events.flatMap (spoken sockets)

structure Inv (sockets : List (SockaddrIn × UdpClient)) (events : List Event) (room : Room) :
    Prop where
  sockets_eq : room.talkers.map (fun talker => (talker.address, talker.udp)) = sockets
  said : room.toServer.sent = said sockets events
  serves : room.server.Serves room.toServer.arrived
  sent : room.toClients.sent = room.server.server.outgoing.map UdpServer.send
  read : ∀ talker ∈ room.talkers, talker.arrivals =
    (room.toClients.arrived.filter (·.peer = talker.address)).map Datagram.payload

variable {sockets : List (SockaddrIn × UdpClient)} {events : List Event} {room next : Room}

theorem said_append (sockets : List (SockaddrIn × UdpClient)) (events : List Event)
    (event : Event) : Room.said sockets (events ++ [event]) =
      Room.said sockets events ++ spoken sockets event := by
  simp [Room.said]

theorem start_inv (sockets : List (SockaddrIn × UdpClient)) : Inv sockets [] (start sockets) where
  sockets_eq := by
    rw [start, List.map_map]
    exact List.map_id sockets
  said := rfl
  serves := PooledServer.start_serves
  sent := rfl
  read := by
    intro talker member
    obtain ⟨socket, -, rfl⟩ := List.mem_map.mp member
    rfl

theorem Inv.socket (inv : Inv sockets events room) {index : Nat} {talker : Talker}
    (present : room.talkers[index]? = some talker) :
    sockets[index]? = some (talker.address, talker.udp) := by
  rw [← inv.sockets_eq, List.getElem?_map, present]
  rfl

theorem Inv.serve (inv : Inv sockets events room) {event : PooledServer.Event}
    {toServer : Network Datagram} {seen : Event} (succeeds : PooledServer.Succeeds event)
    (sent : toServer.sent = room.toServer.sent) (quiet : spoken sockets seen = [])
    (arrived : toServer.arrived = room.toServer.arrived ++ event.heard)
    (served : room.serve event toServer = .ok next) : Inv sockets (events ++ [seen]) next := by
  simp only [Room.serve] at served
  split at served
  · cases served
  · rename_i server stepped
    cases served
    obtain ⟨serves, grows⟩ := PooledServer.step_serves inv.serves succeeds stepped
    refine ⟨inv.sockets_eq, ?_, ?_, ?_, inv.read⟩
    · rw [said_append, quiet, List.append_nil]
      exact sent.trans inv.said
    · rw [arrived]
      exact serves
    · simp only [Network.send, inv.sent]
      rw [← List.map_append, List.prefix_iff_eq_append.mp grows]

theorem Inv.quiet (inv : Inv sockets events room) {seen : Event} (quiet : spoken sockets seen = [])
    {toServer toClients : Network Datagram} (sent : toServer.sent = room.toServer.sent)
    (arrived : toServer.arrived = room.toServer.arrived)
    (sentBack : toClients.sent = room.toClients.sent)
    (arrivedBack : toClients.arrived = room.toClients.arrived) :
    Inv sockets (events ++ [seen]) { room with toServer, toClients } where
  sockets_eq := inv.sockets_eq
  said := by
    rw [said_append, quiet, List.append_nil]
    exact sent.trans inv.said
  serves := by
    simp only [arrived]
    exact inv.serves
  sent := sentBack.trans inv.sent
  read := by
    simp only [arrivedBack]
    exact inv.read

theorem Inv.reads (inv : Inv sockets events room) (distinct : (sockets.map Prod.fst).Nodup)
    {index underway : Nat} {reader : Talker} {datagram : Datagram}
    (present : room.talkers[index]? = some reader) (own : datagram.peer = reader.address) :
    Inv sockets (events ++ [.read index underway])
      { room with
        talkers := room.talkers.set index
          { reader with arrivals := reader.arrivals ++ [datagram.payload] }
        toClients := room.toClients.arrive underway datagram } := by
  have addresses : (room.talkers.map Talker.address).Nodup := by
    rw [← inv.sockets_eq, List.map_map] at distinct
    exact distinct
  refine ⟨?_, ?_, inv.serves, inv.sent, ?_⟩
  · rw [← inv.sockets_eq]
    exact Distinct.keys_set present rfl
  · rw [said_append]
    exact inv.said.trans (List.append_nil _).symm
  · simp only [Network.arrive, List.filter_append, List.map_append]
    refine Distinct.forall_mem_set_of_keys addresses present ?_ ?_
    · rw [inv.read reader (List.mem_of_getElem? present)]
      simp [own]
    · intro talker member other
      rw [inv.read talker member]
      simp [own, Ne.symm other]

theorem step_inv (distinct : (sockets.map Prod.fst).Nodup) {event : Event}
    (inv : Inv sockets events room) (stepped : room.step event = .ok next) :
    Inv sockets (events ++ [event]) next := by
  cases steps_of_ok stepped with
  | say talker text sender present isInit =>
      refine ⟨inv.sockets_eq, ?_, inv.serves, inv.sent, inv.read⟩
      have spoken_eq : spoken sockets (.say talker text) = [⟨sender.address, text⟩] := by
        simp [spoken, inv.socket present, isInit]
      rw [said_append, spoken_eq, ← inv.said]
      rfl
  | mute talker text sender present isInit =>
      apply inv.quiet
      · simp [spoken, inv.socket present, isInit]
      · rfl
      · rfl
      · rfl
      · rfl
  | hear index uninitialised datagram next underway served =>
      refine inv.serve ?_ ?_ ?_ ?_ served
      · trivial
      · rfl
      · rfl
      · rfl
  | serve event next own succeeds served =>
      refine inv.serve succeeds rfl rfl ?_ served
      rw [own, List.append_nil]
  | read talker index reader datagram present underway own => exact inv.reads distinct present own
  | mishapToServer mishap => exact inv.quiet rfl (by simp) (by simp) rfl rfl
  | mishapToClients mishap => exact inv.quiet rfl rfl rfl (by simp) (by simp)

theorem run_inv (distinct : (sockets.map Prod.fst).Nodup) {last : Room}
    (ran : Runs.run step (start sockets) events = .ok last) : Inv sockets events last := by
  apply Runs.run_history (start_inv sockets) _ ran
  intro events room event next inv stepped
  exact step_inv distinct inv stepped

/-! ### What the clients print -/

end Room

/-- The line for a message: the server puts the address of the reader before it. -/
def Talker.line (talker : Talker) (text : Bytes) : Bytes :=
  UdpClient.text
    (ChatServer.outgoingOf ⟨text, talker.address.client.1, talker.address.client.2⟩).msg

theorem outgoingOf_ne_nil (arg : TaskArg) : (ChatServer.outgoingOf arg).msg ≠ [] := by
  have slash : ascii "/" = [47] := rfl
  simp [ChatServer.outgoingOf, slash]

theorem Addressed.send {datagram : Datagram} {client : SockaddrIn} {task : Task}
    (addressed : Addressed datagram client task) :
    UdpServer.send (ChatServer.outgoingOf task.arg) =
      ⟨client, (ChatServer.outgoingOf
        ⟨datagram.text, client.client.1, client.client.2⟩).msg⟩ := by
  have recipient : (task.arg.ip, task.arg.port) = client.client := addressed.recipient
  have arg : task.arg = ⟨datagram.text, client.client.1, client.client.2⟩ := by
    rw [← recipient, ← addressed.msg]
  have address : (⟨inetAddr task.arg.ip, htons task.arg.port.toUInt16⟩ : SockaddrIn) = client := by
    rw [addressed.ip, inetAddr_inetNtoa, addressed.port]
  rw [← arg]
  simp only [UdpServer.send, ChatServer.outgoingOf, address]

def Task.Relays (task : Task) (received : List Datagram) : Prop :=
  ∃ datagram ∈ received, ∃ client ∈ senders received,
    Addressed datagram client task ∧ client ≠ datagram.peer

theorem mem_senders {received : List Datagram} {peer : SockaddrIn} :
    peer ∈ senders received ↔ ∃ datagram ∈ received, datagram.peer = peer := by
  rw [senders, List.mem_eraseDups, List.mem_map]

theorem Task.Relays.mono {task : Task} {received : List Datagram} (relays : task.Relays received)
    (later : List Datagram) : task.Relays (received ++ later) := by
  obtain ⟨datagram, member, client, known, addressed⟩ := relays
  refine ⟨datagram, List.mem_append_left _ member, client, ?_, addressed⟩
  obtain ⟨first, heard, same⟩ := mem_senders.mp known
  exact mem_senders.mpr ⟨first, List.mem_append_left _ heard, same⟩

theorem served_addressed {datagram : Datagram} {clients : List SockaddrIn} {tasks : List Task}
    (served : List.Forall₂ (Addressed datagram) clients tasks) :
    ∀ task ∈ tasks, ∃ client ∈ clients, Addressed datagram client task := by
  induction served with
  | nil => simp
  | @cons client task clients tasks addressed rest ih =>
      intro other member
      rcases List.mem_cons.mp member with rfl | later
      · exact ⟨client, List.mem_cons_self, addressed⟩
      · obtain ⟨found, inside, foundAddressed⟩ := ih other later
        exact ⟨found, List.mem_cons_of_mem _ inside, foundAddressed⟩

theorem served_relays {datagram : Datagram} {earlier : List Datagram} {visited : List SockaddrIn}
    {tasks : List Task} (known : visited ⊆ senders (earlier ++ [datagram]))
    (served : List.Forall₂ (Addressed datagram) (visited.filter (· ≠ datagram.peer)) tasks) :
    ∀ task ∈ tasks, task.Relays (earlier ++ [datagram]) := by
  intro task member
  obtain ⟨client, inside, addressed⟩ := served_addressed served task member
  rw [List.mem_filter, decide_eq_true_eq] at inside
  exact ⟨datagram, by simp, client, known inside.1, addressed, inside.2⟩

theorem FanOut.relays {received : List Datagram} {submitted : List Task}
    (fanOut : FanOut received submitted) : ∀ task ∈ submitted, task.Relays received := by
  induction fanOut with
  | none => simp
  | next datagram before others ih =>
      intro task member
      rcases List.mem_append.mp member with earlier | now
      · exact (ih task earlier).mono _
      · exact served_relays (List.Subset.refl _) others task now

theorem Trace.Round.relays {trace : Trace} (round : trace.Round) :
    ∀ task ∈ trace.server.submitted, task.Relays trace.received := by
  cases round with
  | top point waiting fanOut => exact fanOut.relays
  | visiting datagram earlier visited rest before tasks point waiting received listed submitted
      fanOut served =>
      intro task member
      have known : visited ⊆ senders (earlier ++ [datagram]) := by
        rw [← received, listed]
        exact List.subset_append_left _ _
      rw [submitted, List.mem_append] at member
      rw [received]
      rcases member with old | new
      · exact (fanOut.relays task old).mono _
      · exact served_relays known served task new

namespace PooledServer

/-- Whatever is sent goes to a client that was heard before, and another one has said it. -/
theorem Serves.outgoing {pooled : PooledServer} {received : List Datagram}
    (serves : pooled.Serves received) :
    ∀ outgoing ∈ pooled.server.outgoing, ∃ datagram ∈ received, ∃ client ∈ senders received,
      client ≠ datagram.peer ∧ UdpServer.send outgoing =
        ⟨client, (ChatServer.outgoingOf
          ⟨datagram.text, client.client.1, client.client.2⟩).msg⟩ := by
  obtain ⟨relay, refines, inv, rfl⟩ := serves
  intro outgoing member
  have same : pooled.server.outgoing = relay.trace.server.outgoing := by
    rw [refines.same]
    rfl
  rw [same, inv.taken.outgoing_eq] at member
  obtain ⟨task, sent, rfl⟩ := List.mem_map.mp member
  obtain ⟨datagram, heard, client, known, addressed, other⟩ :=
    inv.trace.round.relays task (inv.taken.submitted_of_sent sent)
  exact ⟨datagram, heard, client, known, other, addressed.send⟩

theorem sends_tasksFor {received : List Datagram} {tasks : List Task}
    (relays : ∀ task ∈ tasks, task.Relays received) (client : SockaddrIn) :
    ((tasks.map fun task => UdpServer.send (ChatServer.outgoingOf task.arg)).filter
        (·.peer = client)).map Datagram.payload =
      ((tasksFor client.client tasks).map (·.arg.msg)).map fun text =>
        (ChatServer.outgoingOf ⟨text, client.client.1, client.client.2⟩).msg := by
  induction tasks with
  | nil => rfl
  | cons task tasks ih =>
      have later := ih (fun other member => relays other (by simp [member]))
      obtain ⟨datagram, -, goal, -, addressed, -⟩ := relays task (by simp)
      have recipient := addressed.recipient
      rw [List.map_cons, addressed.send]
      by_cases own : goal = client
      · subst own
        have chosen : tasksFor goal.client (task :: tasks) =
            task :: tasksFor goal.client tasks :=
          List.filter_cons_of_pos (by simp [recipient])
        rw [List.filter_cons_of_pos (by simp), List.map_cons, later, chosen, List.map_cons,
          List.map_cons, addressed.msg]
      · have skipped : tasksFor client.client (task :: tasks) = tasksFor client.client tasks :=
          List.filter_cons_of_neg (by simp [recipient, client_injective.eq_iff, own])
        rw [List.filter_cons_of_neg (by simpa using own), later, skipped]

/-- Between two rounds, with every worker asleep, a client has been sent what others have said since
it was heard first. -/
theorem Serves.all {pooled : PooledServer} {received : List Datagram}
    (serves : pooled.Serves received) (top : pooled.server.point = .top)
    (asleep : ∀ thread ∈ pooled.pool.threadList, thread = .waiting) (client : SockaddrIn) :
    (((pooled.server.outgoing.map UdpServer.send).filter (·.peer = client)).map
        Datagram.payload).Perm
      ((messagesFor client received).map fun text =>
        (ChatServer.outgoingOf ⟨text, client.client.1, client.client.2⟩).msg) := by
  obtain ⟨relay, refines, inv, rfl⟩ := serves
  have sent := (drained_of_waiting refines inv.books asleep).sent
  have point : relay.trace.server.point = .top := by
    rw [refines.same]
    exact top
  have submitted : relay.trace.server.submitted = pooled.server.submitted := by
    rw [refines.same]
    rfl
  have relays := inv.trace.round.relays
  have messages := fanOut_messages (inv.trace.fansOut.handed point) client
  rw [submitted] at relays messages
  rw [← messages, ← sends_tasksFor relays client]
  have sends := ((sent.map UdpServer.send).filter (·.peer = client)).map Datagram.payload
  rw [List.map_map] at sends
  exact sends

end PooledServer

namespace Room

variable {sockets : List (SockaddrIn × UdpClient)} {events : List Event} {room : Room}

theorem printed_lines {talker : Talker} (isInit : talker.udp.isInit = true)
    (some : [] ∉ talker.arrivals) :
    talker.printed = ⟨talker.arrivals.map UdpClient.text, false⟩ := by
  have all : talker.arrivals.takeWhile (· ≠ []) = talker.arrivals := by
    rw [List.takeWhile_eq_self_iff]
    intro payload member
    rw [decide_eq_true_eq]
    exact ne_of_mem_of_not_mem member some
  rw [Talker.printed, ChatClient.recvMsg_datagrams isInit, all, decide_eq_false some]

theorem printed_mute {talker : Talker} (isInit : talker.udp.isInit = false) :
    talker.printed = ⟨[], true⟩ := by
  rw [Talker.printed, ChatClient.recvMsg]
  cases talker.arrivals with
  | nil => simp [ChatClient.recvMsgFrom, isInit]
  | cons payload later => simp [ChatClient.recvMsgFrom, UdpClient.recv, isInit]

theorem serve_ok {next : Room} {event : PooledServer.Event} {toServer : Network Datagram}
    (served : room.serve event toServer = .ok next) :
    ∃ server items, room.server.step event = .ok server ∧
      next = ⟨room.talkers, server, toServer, room.toClients.send items⟩ := by
  simp only [Room.serve] at served
  split at served
  · cases served
  · rename_i server stepped
    cases served
    exact ⟨server, _, stepped, rfl⟩

structure Honest (room : Room) : Prop where
  toServer : room.toServer.Genuine
  toClients : room.toClients.Genuine

theorem start_honest (sockets : List (SockaddrIn × UdpClient)) : Honest (start sockets) :=
  ⟨Network.empty_genuine, Network.empty_genuine⟩

theorem step_honest {event : Event} {next : Room} (honest : room.Honest)
    (stepped : room.step event = .ok next) : next.Honest := by
  obtain ⟨toServer, toClients⟩ := honest
  cases steps_of_ok stepped with
  | say talker text sender present isInit => exact ⟨toServer.send _, toClients⟩
  | mute talker text sender present isInit => exact ⟨toServer, toClients⟩
  | hear index uninitialised datagram next underway served =>
      obtain ⟨server, items, -, rfl⟩ := serve_ok served
      exact ⟨toServer.arrive underway, toClients.send items⟩
  | serve event next own succeeds served =>
      obtain ⟨server, items, -, rfl⟩ := serve_ok served
      exact ⟨toServer, toClients.send items⟩
  | read talker index reader datagram present underway own =>
      exact ⟨toServer, toClients.arrive underway⟩
  | mishapToServer mishap => exact ⟨toServer.befall mishap, toClients⟩
  | mishapToClients mishap => exact ⟨toServer, toClients.befall mishap⟩

theorem run_honest {last : Room} (ran : Runs.run step (start sockets) events = .ok last) :
    last.Honest := by
  apply Runs.run_history (start_honest sockets) _ ran
  intro events room event next before stepped
  exact step_honest before stepped

theorem mem_said {datagram : Datagram} (member : datagram ∈ said sockets events) :
    ∃ talker address udp text, .say talker text ∈ events ∧
      sockets[talker]? = some (address, udp) ∧ datagram = ⟨address, text⟩ := by
  obtain ⟨event, inside, spoke⟩ := List.mem_flatMap.mp member
  cases event with
  | say talker text =>
      simp only [spoken] at spoke
      split at spoke
      · rename_i address udp present
        split at spoke
        · exact ⟨talker, address, udp, text, inside, present, List.mem_singleton.mp spoke⟩
        · cases spoke
      · cases spoke
  | _ => cases spoke

theorem Inv.speaker (inv : Inv sockets events room) (honest : room.Honest) {datagram : Datagram}
    (heard : datagram ∈ room.toServer.arrived) :
    ∃ index speaker text, .say index text ∈ events ∧ room.talkers[index]? = some speaker ∧
      datagram = ⟨speaker.address, text⟩ := by
  have sent := honest.toServer datagram (List.mem_append_left _ heard)
  rw [inv.said] at sent
  obtain ⟨index, address, udp, text, said, present, rfl⟩ := mem_said sent
  rw [← inv.sockets_eq, List.getElem?_map] at present
  obtain ⟨speaker, there, same⟩ := Option.map_eq_some_iff.mp present
  obtain ⟨rfl, rfl⟩ := Prod.mk.inj same
  exact ⟨index, speaker, text, said, there, rfl⟩

theorem Inv.arrivals (inv : Inv sockets events room) (honest : room.Honest) {talker : Talker}
    (member : talker ∈ room.talkers) : ∀ payload ∈ talker.arrivals,
      ∃ datagram ∈ room.toServer.arrived, datagram.peer ≠ talker.address ∧
        payload = (ChatServer.outgoingOf
          ⟨datagram.text, talker.address.client.1, talker.address.client.2⟩).msg := by
  intro payload arrived
  rw [inv.read talker member] at arrived
  obtain ⟨carried, inside, rfl⟩ := List.mem_map.mp arrived
  rw [List.mem_filter, decide_eq_true_eq] at inside
  have sent := honest.toClients carried (List.mem_append_left _ inside.1)
  rw [inv.sent] at sent
  obtain ⟨outgoing, made, rfl⟩ := List.mem_map.mp sent
  obtain ⟨datagram, heard, client, -, other, goes⟩ := inv.serves.outgoing outgoing made
  rw [goes] at inside ⊢
  obtain ⟨-, rfl⟩ := inside
  exact ⟨datagram, heard, other.symm, rfl⟩

/-- Whatever the network and the scheduler do, the loop of `recv_msg_` goes on, and each line that a
client prints is the line of something that another client has said. -/
theorem run_prints (sockets : List (SockaddrIn × UdpClient)) (events : List Event) (last : Room)
    (distinct : (sockets.map Prod.fst).Nodup)
    (ran : Runs.run step (start sockets) events = .ok last) :
    ∀ talker ∈ last.talkers, talker.printed.returned = !talker.udp.isInit ∧
      ∀ line ∈ talker.printed.lines, ∃ index speaker text, .say index text ∈ events ∧
        last.talkers[index]? = some speaker ∧ speaker.address ≠ talker.address ∧
        line = talker.line (Datagram.text ⟨speaker.address, text⟩) := by
  have inv := run_inv distinct ran
  have honest := run_honest ran
  intro talker member
  cases isInit : talker.udp.isInit with
  | false =>
      rw [printed_mute isInit]
      exact ⟨rfl, by simp⟩
  | true =>
      have carries := inv.arrivals honest member
      have some : [] ∉ talker.arrivals := by
        intro empty
        obtain ⟨datagram, -, -, same⟩ := carries [] empty
        exact outgoingOf_ne_nil _ same.symm
      rw [printed_lines isInit some]
      refine ⟨rfl, ?_⟩
      intro line printed
      obtain ⟨payload, arrived, rfl⟩ := List.mem_map.mp printed
      obtain ⟨datagram, heard, other, rfl⟩ := carries payload arrived
      obtain ⟨index, speaker, text, said, there, rfl⟩ := inv.speaker honest heard
      exact ⟨index, speaker, text, said, there, other, rfl⟩

def pair : List (SockaddrIn × UdpClient) :=
  [(⟨⟨10, 0, 0, 1⟩, htons 5000⟩, ⟨true⟩), (⟨⟨10, 0, 0, 1⟩, htons 5001⟩, ⟨true⟩)]

def registers : List Event := [.say 0 (ascii "hi"), .hear 0 0, .serve (.visit []), .serve .popMsg]

def answers : List Event :=
  [.hear 0 0, .serve (.visit []), .serve (.visit []), .serve .popMsg, .serve (.lock 1),
    .serve (.sendMsg 1), .serve (.deleteArg 1)]

/-- What the second client says is heard twice, and one of the two lines is lost. -/
def doubled : List Event :=
  registers ++ [.say 1 (ascii "hello"), .mishapToServer (.double 0)] ++ answers ++ answers ++
    [.mishapToClients (.lose 0), .read 0 0]

theorem run_prints_doubled :
    ∃ last, Runs.run step (start pair) doubled = .ok last ∧
      ∀ talker ∈ last.talkers, talker.printed.returned = !talker.udp.isInit ∧
        ∀ line ∈ talker.printed.lines, ∃ index speaker text, .say index text ∈ doubled ∧
          last.talkers[index]? = some speaker ∧ speaker.address ≠ talker.address ∧
          line = talker.line (Datagram.text ⟨speaker.address, text⟩) := by
  have runs : (Runs.run step (start pair) doubled).isOk = true := by decide +kernel
  obtain ⟨last, ran⟩ := Runs.run_of_isOk runs
  exact ⟨last, ran, run_prints pair doubled last (by decide) ran⟩

/-! ### What they print over a network that only reorders -/

def Faithful : Event → Prop
  | .mishapToServer _ => False
  | .mishapToClients _ => False
  | _ => True

structure Exact (room : Room) : Prop where
  toServer : room.toServer.Complete
  toClients : room.toClients.Complete

theorem start_exact (sockets : List (SockaddrIn × UdpClient)) : Exact (start sockets) :=
  ⟨Network.empty_complete, Network.empty_complete⟩

theorem step_exact (room : Room) (event : Event) (next : Room) (complete : room.Exact)
    (faithful : Faithful event) (stepped : room.step event = .ok next) : next.Exact := by
  obtain ⟨toServer, toClients⟩ := complete
  cases steps_of_ok stepped with
  | say talker text sender present isInit => exact ⟨toServer.send _, toClients⟩
  | mute talker text sender present isInit => exact ⟨toServer, toClients⟩
  | hear index uninitialised datagram next underway served =>
      obtain ⟨server, items, -, rfl⟩ := serve_ok served
      exact ⟨toServer.arrive underway, toClients.send items⟩
  | serve event next own succeeds served =>
      obtain ⟨server, items, -, rfl⟩ := serve_ok served
      exact ⟨toServer, toClients.send items⟩
  | read talker index reader datagram present underway own =>
      exact ⟨toServer, toClients.arrive underway⟩
  | mishapToServer mishap => cases faithful
  | mishapToClients mishap => cases faithful

/-- Nothing is under way, and the server can only wait for a datagram. -/
structure Still (room : Room) : Prop where
  toServer : room.toServer.underway = []
  toClients : room.toClients.underway = []
  top : room.server.server.point = .top
  asleep : ∀ thread ∈ room.server.pool.threadList, thread = .waiting

structure AtRest (room : Room) : Prop extends room.Still where
  queue : room.server.pool.taskQueue = []

/-- Where no datagram is lost or doubled, and all is at rest, the server has heard each thing said
once, and a client has printed a line for each thing that others have said since it was heard. -/
theorem run_prints_all (sockets : List (SockaddrIn × UdpClient)) (events : List Event) (last : Room)
    (distinct : (sockets.map Prod.fst).Nodup) (faithful : ∀ event ∈ events, Faithful event)
    (ran : Runs.run step (start sockets) events = .ok last) (atRest : last.Still) :
    last.toServer.arrived.Perm (said sockets events) ∧
      ∀ talker ∈ last.talkers, talker.udp.isInit = true → talker.printed.lines.Perm
        ((messagesFor talker.address last.toServer.arrived).map talker.line) := by
  have inv := run_inv distinct ran
  have complete := Runs.run_keeps step_exact (start_exact sockets) faithful ran
  refine ⟨inv.said ▸ complete.toServer.perm atRest.toServer, ?_⟩
  intro talker member isInit
  have carried := complete.toClients.perm atRest.toClients
  rw [inv.sent] at carried
  have read := ((carried.filter (·.peer = talker.address)).map Datagram.payload)
  rw [← inv.read talker member] at read
  have arrivals := read.trans (inv.serves.all atRest.top atRest.asleep talker.address)
  have some : [] ∉ talker.arrivals := by
    intro empty
    obtain ⟨text, -, same⟩ := List.mem_map.mp (arrivals.mem_iff.mp empty)
    exact outgoingOf_ne_nil _ same
  rw [printed_lines isInit some]
  have lines := arrivals.map UdpClient.text
  rw [List.map_map] at lines
  exact lines

def carried : List Event :=
  registers ++ [.say 1 (ascii "hello")] ++ answers ++
    [.read 0 0, .serve (.lock 0), .serve (.lock 1), .serve (.lock 2)]

theorem run_prints_all_carried :
    ∃ last, Runs.run step (start pair) carried = .ok last ∧ last.Still ∧
      last.toServer.arrived.Perm (said pair carried) ∧
      ∀ talker ∈ last.talkers, talker.udp.isInit = true → talker.printed.lines.Perm
        ((messagesFor talker.address last.toServer.arrived).map talker.line) := by
  have rests : (Runs.run step (start pair) carried).toOption.map (fun last =>
      (last.toServer.underway, last.toClients.underway, last.server.server.point,
        last.server.pool.threadList)) =
      some ([], [], .top, [.waiting, .waiting, .waiting]) := by
    decide +kernel
  cases ran : Runs.run step (start pair) carried with
  | error stop =>
      rw [ran] at rests
      cases rests
  | ok last =>
      rw [ran] at rests
      simp only [Except.toOption, Option.map_some, Option.some.injEq, Prod.mk.injEq] at rests
      obtain ⟨toServer, toClients, top, threads⟩ := rests
      have atRest : last.Still := by
        refine ⟨toServer, toClients, top, ?_⟩
        rw [threads]
        decide
      refine ⟨last, rfl, atRest, run_prints_all pair carried last (by decide) ?_ ran atRest⟩
      simp [carried, registers, answers, Faithful]

end Room

end LearnInternet.Chat
