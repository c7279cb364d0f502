import LearnInternet.Lib.Counting
import LearnInternet.Chat.FanOut

/-!
What the workers send: the datagram a message was made for, the name it bears, and the order in which
the messages reach a client.
-/

namespace LearnInternet.Chat

/-- A run with the datagram each object was made for and the task of each call of
`UdpServer::send`. -/
structure Relay where
  trace : Trace
  origin : List Datagram
  sent : List Task

def Worker.unsent : Worker → List Task
  | .running task => [task]
  | _ => []

namespace ChatServer

def unsent (server : ChatServer) : List Task := server.workers.flatMap Worker.unsent

theorem getMsg_pool (server : ChatServer) (outcome : Option Datagram) (uninitialised : Int16) :
    (server.getMsg outcome uninitialised).submitted = server.submitted ∧
      (server.getMsg outcome uninitialised).taskQueue = server.taskQueue ∧
      (server.getMsg outcome uninitialised).workers = server.workers ∧
      (server.getMsg outcome uninitialised).outgoing = server.outgoing ∧
      (server.getMsg outcome uninitialised).allocated = server.allocated := by
  simp only [getMsg, addClient]
  split
  · exact ⟨rfl, rfl, rfl, rfl, rfl⟩
  · exact ⟨rfl, rfl, rfl, rfl, rfl⟩

def taskFor (server : ChatServer) (front : Waiting) (it : Client) : Task :=
  ⟨server.allocated, ⟨front.buff, it.1, it.2⟩⟩

theorem visitClient_sends {server : ChatServer} {front : Waiting} {it : Client}
    (differs : front.senderIp ≠ it.1 ∨ front.senderPort ≠ it.2) :
    server.visitClient front it =
      { server with allocated := server.allocated + 1 }.sendTask (server.taskFor front it) :=
  if_pos differs

theorem visitClient_deletes {server : ChatServer} {front : Waiting} {it : Client}
    (own : ¬ (front.senderIp ≠ it.1 ∨ front.senderPort ≠ it.2)) :
    server.visitClient front it =
      { server with
        allocated := server.allocated + 1
        deleted := server.deleted ++ [server.allocated] } :=
  if_neg own

end ChatServer

namespace Trace

theorem server_step {trace next : Trace} {event : Event} (stepped : trace.step event = .ok next) :
    trace.server.step event = .ok next.server := by
  simp only [step] at stepped
  split at stepped
  · cases stepped
  · rename_i server serverStepped
    split at stepped
    · cases stepped
      exact serverStepped
    · cases stepped
      exact serverStepped

theorem Round.current {trace : Trace} (round : trace.Round) {it : Client} {rest : List Client}
    {front : Waiting} {later : List Waiting} (visiting : trace.server.point = .visiting (it :: rest))
    (waiting : trace.server.waitingQueue = front :: later) :
    ∃ datagram client, trace.received.getLast? = some datagram ∧ it = SockaddrIn.client client ∧
      front = ⟨datagram.text, datagram.peer.client.1, datagram.peer.client.2⟩ := by
  cases round with
  | top point => simp [visiting] at point
  | visiting datagram earlier visited remaining before tasks point queue received =>
      cases remaining with
      | nil => simp [visiting] at point
      | cons client remaining =>
          rw [visiting] at point
          rw [waiting] at queue
          simp only [List.map_cons, Point.visiting.injEq, List.cons.injEq] at point
          refine ⟨datagram, client, ?_, point.1, (List.cons.inj queue).1⟩
          rw [received]
          exact List.getLast?_concat

end Trace

namespace Relay

def start : Relay := ⟨Trace.start, [], []⟩

def madeFor (relay : Relay) : Event → List Datagram
  | .visit => relay.trace.received.getLast?.toList
  | _ => []

def sends (relay : Relay) : Event → List Task
  | .sendMsg worker => (relay.trace.server.workers[worker]?).elim [] Worker.unsent
  | _ => []

def step (relay : Relay) (event : Event) : Except Stop Relay :=
  match relay.trace.step event with
  | .error stop => .error stop
  | .ok trace => .ok ⟨trace, relay.origin ++ relay.madeFor event, relay.sent ++ relay.sends event⟩

/-- Every task submitted is for a client other than the sender of the datagram it was made for, and
the tasks are numbered in the order of their submission. -/
structure Made (server : ChatServer) (origin : List Datagram) : Prop where
  length_eq : origin.length = server.allocated
  addressed : ∀ task ∈ server.submitted, ∃ datagram client,
    origin[task.object]? = some datagram ∧ Addressed datagram client task ∧
      client ≠ datagram.peer
  numbered : (server.submitted.map Task.object).Pairwise (· < ·)

/-- The tasks are taken in the order of their submission, and a task that is taken is sent or still
held unsent by a worker. -/
structure Taken (server : ChatServer) (sent : List Task) : Prop where
  inOrder : ∃ taken, server.submitted = taken ++ server.taskQueue ∧
    taken.Perm (sent ++ server.unsent)
  outgoing_eq : server.outgoing = sent.map fun task => ChatServer.outgoingOf task.arg

structure Inv (relay : Relay) : Prop where
  trace : relay.trace.Inv
  made : Made relay.trace.server relay.origin
  taken : Taken relay.trace.server relay.sent

theorem start_inv : Inv start where
  trace := Trace.start_inv
  made := ⟨rfl, by simp [start, Trace.start, ChatServer.initial], .nil⟩
  taken := ⟨⟨[], rfl, List.Perm.nil⟩, rfl⟩

theorem Made.object_lt {server : ChatServer} {origin : List Datagram} (made : Made server origin)
    {task : Task} (member : task ∈ server.submitted) : task.object < server.allocated := by
  obtain ⟨datagram, client, known, -⟩ := made.addressed task member
  rw [← made.length_eq]
  exact (List.getElem?_eq_some_iff.mp known).1

theorem Made.same {server next : ChatServer} {origin : List Datagram} (made : Made server origin)
    (allocated : next.allocated = server.allocated) (submitted : next.submitted = server.submitted) :
    Made next origin where
  length_eq := made.length_eq.trans allocated.symm
  addressed := by
    rw [submitted]
    exact made.addressed
  numbered := by
    rw [submitted]
    exact made.numbered

theorem Made.grow {server next : ChatServer} {origin : List Datagram} (made : Made server origin)
    (datagram : Datagram) (allocated : next.allocated = server.allocated + 1)
    (submitted : next.submitted = server.submitted ∨
      ∃ task client, next.submitted = server.submitted ++ [task] ∧
        task.object = server.allocated ∧ Addressed datagram client task ∧
          client ≠ datagram.peer) : Made next (origin ++ [datagram]) := by
  have kept : ∀ task ∈ server.submitted, ∃ known client,
      (origin ++ [datagram])[task.object]? = some known ∧ Addressed known client task ∧
        client ≠ known.peer := by
    intro task member
    obtain ⟨known, client, found, addressed⟩ := made.addressed task member
    refine ⟨known, client, ?_, addressed⟩
    rw [List.getElem?_append_left (List.getElem?_eq_some_iff.mp found).1]
    exact found
  have length : (origin ++ [datagram]).length = next.allocated := by
    rw [List.length_append, made.length_eq, allocated, List.length_singleton]
  rcases submitted with same | ⟨task, client, more, object, addressed⟩
  · refine ⟨length, ?_, ?_⟩
    · rw [same]
      exact kept
    · rw [same]
      exact made.numbered
  · refine ⟨length, ?_, ?_⟩
    · intro other member
      rw [more, List.mem_append, List.mem_singleton] at member
      rcases member with old | rfl
      · exact kept other old
      · refine ⟨datagram, client, ?_, addressed⟩
        rw [object, ← made.length_eq]
        exact List.getElem?_concat_length
    · rw [more, List.map_append, List.pairwise_append]
      refine ⟨made.numbered, List.pairwise_singleton _ _, ?_⟩
      intro earlier old later new
      obtain ⟨other, member, rfl⟩ := List.mem_map.mp old
      rw [List.map_singleton, List.mem_singleton] at new
      rw [new, object]
      exact made.object_lt member

theorem Taken.same {server next : ChatServer} {sent : List Task} (taken : Taken server sent)
    (submitted : next.submitted = server.submitted) (queue : next.taskQueue = server.taskQueue)
    (unsent : next.unsent = server.unsent) (outgoing : next.outgoing = server.outgoing) :
    Taken next sent where
  inOrder := by
    rw [submitted, queue, unsent]
    exact taken.inOrder
  outgoing_eq := outgoing.trans taken.outgoing_eq

theorem Taken.submit {server next : ChatServer} {sent : List Task} (taken : Taken server sent)
    {task : Task} (submitted : next.submitted = server.submitted ++ [task])
    (queue : next.taskQueue = server.taskQueue ++ [task]) (unsent : next.unsent = server.unsent)
    (outgoing : next.outgoing = server.outgoing) : Taken next sent where
  inOrder := by
    obtain ⟨earlier, split, perm⟩ := taken.inOrder
    refine ⟨earlier, ?_, ?_⟩
    · rw [submitted, queue, split, List.append_assoc]
    · rw [unsent]
      exact perm
  outgoing_eq := outgoing.trans taken.outgoing_eq

theorem visit_made {relay : Relay} (inv : relay.Inv) {it : Client} {rest : List Client}
    {front : Waiting} {later : List Waiting}
    (visiting : relay.trace.server.point = .visiting (it :: rest))
    (waiting : relay.trace.server.waitingQueue = front :: later) :
    Made { relay.trace.server.visitClient front it with point := .visiting rest }
      (relay.origin ++ relay.madeFor .visit) := by
  obtain ⟨datagram, client, last, rfl, rfl⟩ := inv.trace.round.current visiting waiting
  have madeFor : relay.madeFor .visit = [datagram] := by simp [Relay.madeFor, last]
  have differs : (datagram.peer.client.1 ≠ client.client.1 ∨
      datagram.peer.client.2 ≠ client.client.2) ↔ client ≠ datagram.peer := by
    rw [← not_and_or, ← Prod.ext_iff, client_injective.eq_iff, eq_comm]
  rw [madeFor]
  by_cases own : client = datagram.peer
  · rw [ChatServer.visitClient_deletes (fun other => differs.mp other own)]
    exact inv.made.grow datagram rfl (.inl rfl)
  · rw [ChatServer.visitClient_sends (differs.mpr own)]
    refine inv.made.grow datagram rfl (.inr ⟨_, client, rfl, rfl, ⟨rfl, rfl, ?_⟩, own⟩)
    exact (congrArg htons (UInt16.toUInt16_toInt16 _)).trans (htons_ntohs _)

theorem visit_taken {server : ChatServer} {sent : List Task} (taken : Taken server sent)
    (front : Waiting) (it : Client) (rest : List Client) :
    Taken { server.visitClient front it with point := .visiting rest } sent := by
  by_cases differs : front.senderIp ≠ it.1 ∨ front.senderPort ≠ it.2
  · rw [ChatServer.visitClient_sends differs]
    exact taken.submit rfl rfl rfl rfl
  · rw [ChatServer.visitClient_deletes differs]
    exact taken.same rfl rfl rfl rfl

theorem take_taken {server : ChatServer} {sent : List Task} (taken : Taken server sent)
    {worker : Nat} {task : Task} {later : List Task}
    (idle : server.workers[worker]? = some .waiting) (queue : server.taskQueue = task :: later) :
    Taken { server with taskQueue := later, workers := server.workers.set worker (.running task) }
      sent where
  inOrder := by
    obtain ⟨earlier, split, perm⟩ := taken.inOrder
    refine ⟨earlier ++ [task], ?_, ?_⟩
    · rw [split, queue, List.append_assoc, List.singleton_append]
    · have moved := Counting.flatMap_set_perm Worker.unsent idle (.running task)
      simp only [Worker.unsent, List.append_nil] at moved
      refine (perm.append_right [task]).trans ?_
      rw [List.append_assoc]
      exact moved.symm.append_left sent
  outgoing_eq := taken.outgoing_eq

theorem send_taken {server : ChatServer} {sent : List Task} (taken : Taken server sent)
    {worker : Nat} {task : Task} (running : server.workers[worker]? = some (.running task)) :
    Taken
      { server with
        outgoing := server.outgoing ++ [ChatServer.outgoingOf task.arg]
        workers := server.workers.set worker (.sent task) } (sent ++ [task]) where
  inOrder := by
    obtain ⟨earlier, split, perm⟩ := taken.inOrder
    refine ⟨earlier, split, perm.trans ?_⟩
    have moved := Counting.flatMap_set_perm Worker.unsent running (.sent task)
    simp only [Worker.unsent, List.append_nil] at moved
    rw [List.append_assoc]
    exact (moved.symm.trans List.perm_append_comm).append_left sent
  outgoing_eq := by
    rw [List.map_append, taken.outgoing_eq]
    rfl

theorem delete_taken {server : ChatServer} {sent : List Task} (taken : Taken server sent)
    {worker : Nat} {task : Task} (present : server.workers[worker]? = some (.sent task)) :
    Taken
      { server with
        deleted := server.deleted ++ [task.object]
        workers := server.workers.set worker .waiting } sent where
  inOrder := by
    obtain ⟨earlier, split, perm⟩ := taken.inOrder
    refine ⟨earlier, split, perm.trans ?_⟩
    have moved := Counting.flatMap_set_perm Worker.unsent present .waiting
    simp only [Worker.unsent, List.append_nil] at moved
    exact moved.symm.append_left sent
  outgoing_eq := taken.outgoing_eq

theorem steps_of_ok {relay next : Relay} {event : Event} (stepped : relay.step event = .ok next) :
    ∃ trace, relay.trace.step event = .ok trace ∧
      relay.trace.server.Steps event trace.server ∧
      next = ⟨trace, relay.origin ++ relay.madeFor event, relay.sent ++ relay.sends event⟩ := by
  simp only [step] at stepped
  split at stepped
  · cases stepped
  · rename_i trace traceStepped
    cases stepped
    exact ⟨trace, traceStepped, ChatServer.steps_of_ok (Trace.server_step traceStepped), rfl⟩

/-- A failed receive does not change what is taken and sent. -/
theorem step_taken {relay next : Relay} {event : Event}
    (taken : Taken relay.trace.server relay.sent) (stepped : relay.step event = .ok next) :
    Taken next.trace.server next.sent := by
  obtain ⟨⟨server, received⟩, -, steps, rfl⟩ := steps_of_ok stepped
  simp only at steps ⊢
  cases steps with
  | getMsg outcome uninitialised top =>
      obtain ⟨submitted, queue, workers, outgoing, -⟩ :=
        relay.trace.server.getMsg_pool outcome uninitialised
      simp only [sends, List.append_nil]
      exact taken.same submitted queue (congrArg (List.flatMap Worker.unsent) workers) outgoing
  | visit it rest front later visiting waiting =>
      simp only [sends, List.append_nil]
      exact visit_taken taken front it rest
  | popMsg front later visiting waiting =>
      simp only [sends, List.append_nil]
      exact taken.same rfl rfl rfl rfl
  | takeTask worker task later idle queue =>
      simp only [sends, List.append_nil]
      exact take_taken taken idle queue
  | sendMsg worker task running =>
      have sent : relay.sends (.sendMsg worker) = [task] := by simp [sends, running, Worker.unsent]
      rw [sent]
      exact send_taken taken running
  | deleteArg worker task present =>
      simp only [sends, List.append_nil]
      exact delete_taken taken present

theorem step_inv (relay : Relay) (event : Event) (next : Relay) (inv : relay.Inv)
    (succeeds : Trace.Succeeds event) (stepped : relay.step event = .ok next) : next.Inv := by
  have taken := step_taken inv.taken stepped
  obtain ⟨⟨server, received⟩, traceStepped, steps, rfl⟩ := steps_of_ok stepped
  refine ⟨Trace.step_inv relay.trace event _ inv.trace succeeds traceStepped, ?_, taken⟩
  simp only at steps ⊢
  cases steps with
  | getMsg outcome uninitialised top =>
      obtain ⟨submitted, -, -, -, allocated⟩ :=
        relay.trace.server.getMsg_pool outcome uninitialised
      simp only [madeFor, List.append_nil]
      exact inv.made.same allocated submitted
  | visit it rest front later visiting waiting => exact visit_made inv visiting waiting
  | _ =>
      simp only [madeFor, List.append_nil]
      exact inv.made.same rfl rfl

/-- The books on the objects and the tasks, which do not depend on what is received. -/
structure Books (relay : Relay) : Prop where
  accounted : relay.trace.server.Accounted
  taken : Taken relay.trace.server relay.sent

theorem Inv.books {relay : Relay} (inv : relay.Inv) : relay.Books :=
  ⟨inv.trace.accounted, inv.taken⟩

theorem step_books (relay : Relay) (event : Event) (next : Relay) (books : relay.Books)
    (stepped : relay.step event = .ok next) : next.Books := by
  obtain ⟨trace, -, steps, rfl⟩ := steps_of_ok stepped
  exact ⟨ChatServer.accounted_of_steps books.accounted steps, step_taken books.taken stepped⟩

end Relay

end LearnInternet.Chat
