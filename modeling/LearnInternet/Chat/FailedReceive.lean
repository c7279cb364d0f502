import LearnInternet.Chat.Relay

/-!
What one iteration of `start` does, for every outcome of `recvfrom`. `UdpServer::recv` tells of a
failure only by leaving the variables of `get_msg_` as they are, and `get_msg_` does not look.
-/

namespace LearnInternet.Chat

def Waiting.sends (front : Waiting) (it : Client) : Bool :=
  decide (front.senderIp ≠ it.1 ∨ front.senderPort ≠ it.2)

theorem Waiting.sends_eq_false {front : Waiting} {it : Client} :
    front.sends it = false ↔ it = (front.senderIp, front.senderPort) := by
  rw [Waiting.sends, decide_eq_false_iff_not, not_or, not_not, not_not, Prod.ext_iff, eq_comm,
    eq_comm (a := front.senderPort)]

namespace ChatServer

def Between : Event → Prop
  | .getMsg _ _ => False
  | .popMsg => False
  | _ => True

/-- In the loop over `clients`, with `before` submitted when it began. -/
structure Visiting (clients : List Client) (front : Waiting) (later : List Waiting)
    (before : List Task) (server : ChatServer) : Prop where
  clientList : server.clientList = clients
  waitingQueue : server.waitingQueue = front :: later
  progress : ∃ visited rest tasks, server.point = .visiting rest ∧ clients = visited ++ rest ∧
    server.submitted = before ++ tasks ∧ tasks.length = visited.countP front.sends

theorem Visiting.visit {clients : List Client} {front : Waiting} {later : List Waiting}
    {before : List Task} {server : ChatServer} {it : Client} {rest : List Client}
    (loop : Visiting clients front later before server)
    (visiting : server.point = .visiting (it :: rest)) :
    Visiting clients front later before
      { server.visitClient front it with point := .visiting rest } := by
  obtain ⟨visited, remaining, tasks, point, split, submitted, made⟩ := loop.progress
  cases visiting.symm.trans point
  have further : clients = (visited ++ [it]) ++ rest := by simp [split]
  by_cases differs : front.senderIp ≠ it.1 ∨ front.senderPort ≠ it.2
  · rw [visitClient_sends differs]
    refine ⟨loop.clientList, loop.waitingQueue, visited ++ [it], rest,
      tasks ++ [server.taskFor front it], rfl, further, ?_, ?_⟩
    · simp only [sendTask, submitted, List.append_assoc]
    · simp [made, Waiting.sends, differs]
  · rw [visitClient_deletes differs]
    refine ⟨loop.clientList, loop.waitingQueue, visited ++ [it], rest, tasks, rfl, further,
      submitted, ?_⟩
    simp [made, Waiting.sends, differs]

theorem visiting_step {clients : List Client} {front : Waiting} {later : List Waiting}
    {before : List Task} (server : ChatServer) (event : Event) (next : ChatServer)
    (loop : Visiting clients front later before server) (between : Between event)
    (stepped : server.step event = .ok next) : Visiting clients front later before next := by
  cases steps_of_ok stepped with
  | getMsg outcome uninitialised top => cases between
  | popMsg front later visiting waiting => cases between
  | visit it rest first queue visiting waiting =>
      cases waiting.symm.trans loop.waitingQueue
      exact loop.visit visiting
  | takeTask worker task queue idle waiting =>
      exact ⟨loop.clientList, loop.waitingQueue, loop.progress⟩
  | sendMsg worker task running => exact ⟨loop.clientList, loop.waitingQueue, loop.progress⟩
  | deleteArg worker task sent => exact ⟨loop.clientList, loop.waitingQueue, loop.progress⟩

theorem iteration {server last : ChatServer} {outcome : Option Datagram} {uninitialised : Int16}
    {between : List Event} (each : ∀ event ∈ between, Between event)
    (ran : Runs.run step server (.getMsg outcome uninitialised :: between ++ [.popMsg]) =
      .ok last) :
    ∃ front later tasks,
      (server.getMsg outcome uninitialised).waitingQueue = front :: later ∧
        last.clientList = (server.getMsg outcome uninitialised).clientList ∧
        last.waitingQueue = later ∧ last.submitted = server.submitted ++ tasks ∧
        tasks.length = last.clientList.countP front.sends := by
  obtain ⟨got, entered, ran⟩ := Runs.run_cons_ok ran
  obtain ⟨done, visited, ran⟩ := Runs.run_append_ok ran
  obtain ⟨popped, stepped, ran⟩ := Runs.run_cons_ok ran
  cases ran
  cases steps_of_ok entered with
  | getMsg _ _ top =>
      have submitted : (server.getMsg outcome uninitialised).submitted = server.submitted :=
        (server.addClient_frame _ _).2
      obtain ⟨front, later, queue⟩ : ∃ front later,
          (server.getMsg outcome uninitialised).waitingQueue = front :: later :=
        List.exists_cons_of_ne_nil (by simp [getMsg])
      have entering : Visiting (server.getMsg outcome uninitialised).clientList front later
          server.submitted { server.getMsg outcome uninitialised with
            point := .visiting (server.getMsg outcome uninitialised).clientList } :=
        ⟨rfl, queue, [], _, [], rfl, rfl, by simp [submitted], rfl⟩
      have loop := Runs.run_keeps visiting_step entering each visited
      obtain ⟨passed, rest, tasks, point, split, handed, made⟩ := loop.progress
      cases steps_of_ok stepped with
      | popMsg first queued visiting waiting =>
          cases visiting.symm.trans point
          cases waiting.symm.trans loop.waitingQueue
          refine ⟨front, later, tasks, queue, loop.clientList, rfl, handed, ?_⟩
          simp only [made, loop.clientList, split, List.append_nil]

theorem mem_addClient {server : ChatServer} {senderIp : Bytes} {senderPort : Int16} {it : Client} :
    it ∈ (server.addClient senderIp senderPort).clientList ↔
      it ∈ server.clientList ∨ it = (senderIp, senderPort) := by
  rw [addClient_clientList]
  split
  · rename_i known
    refine ⟨Or.inl, ?_⟩
    rintro (member | rfl)
    · exact member
    · exact known
  · rw [List.mem_append, List.mem_singleton]

theorem getMsg_none_clientList (server : ChatServer) (uninitialised : Int16) :
    (server.getMsg none uninitialised).clientList =
      if ([], uninitialised) ∈ server.clientList then server.clientList
      else server.clientList ++ [([], uninitialised)] :=
  server.addClient_clientList [] uninitialised

theorem getMsg_none_waitingQueue (server : ChatServer) (uninitialised : Int16) :
    (server.getMsg none uninitialised).waitingQueue =
      server.waitingQueue ++ [⟨[], [], uninitialised⟩] := by
  rw [← (server.addClient_frame [] uninitialised).1]
  rfl

theorem failed_iteration_iff {server last : ChatServer} {uninitialised : Int16}
    {between : List Event} (each : ∀ event ∈ between, Between event)
    (ran : Runs.run step server (.getMsg none uninitialised :: between ++ [.popMsg]) = .ok last) :
    last.clientList = server.clientList ∧ last.submitted = server.submitted ∧
        last.waitingQueue = [] ↔
      server.waitingQueue = [] ∧ server.clientList ≠ [] ∧
        ∀ it ∈ server.clientList, it = ([], uninitialised) := by
  obtain ⟨front, later, tasks, queue, listed, left, submitted, made⟩ := iteration each ran
  rw [getMsg_none_waitingQueue] at queue
  rw [getMsg_none_clientList] at listed
  constructor
  · rintro ⟨same, none, done⟩
    rw [left.symm.trans done] at queue
    obtain ⟨empty, rfl⟩ : server.waitingQueue = [] ∧ front = ⟨[], [], uninitialised⟩ := by
      cases waiting : server.waitingQueue with
      | nil =>
          rw [waiting] at queue
          exact ⟨rfl, (List.cons.inj queue).1.symm⟩
      | cons first rest => simp [waiting] at queue
    have known : ([], uninitialised) ∈ server.clientList := by
      rw [← same, listed]
      split
      · rename_i member
        exact member
      · simp
    have own : ∀ it ∈ server.clientList, it = ([], uninitialised) := by
      rw [submitted, List.append_right_eq_self] at none
      rw [none, same, List.length_nil, eq_comm, List.countP_eq_zero] at made
      intro it member
      exact Waiting.sends_eq_false.mp (Bool.eq_false_iff.mpr (made it member))
    exact ⟨empty, List.ne_nil_of_mem known, own⟩
  · rintro ⟨empty, nonempty, own⟩
    rw [empty] at queue
    obtain ⟨rfl, rfl⟩ := List.cons.inj queue
    obtain ⟨it, member⟩ := List.exists_mem_of_ne_nil _ nonempty
    have known : ([], uninitialised) ∈ server.clientList := own it member ▸ member
    rw [if_pos known] at listed
    have none : tasks = [] := by
      rw [← List.length_eq_zero_iff, made, listed, List.countP_eq_zero]
      intro it member
      rw [Bool.not_eq_true, Waiting.sends_eq_false]
      exact own it member
    refine ⟨listed, ?_, left⟩
    rw [submitted, none, List.append_nil]

end ChatServer

namespace Trace

/-- Every entry is a sender heard of or has no address, and one without an address stands for a
failed `recvfrom`. -/
structure Heard (events : List Event) (trace : Trace) : Prop where
  known : ∀ it ∈ trace.server.clientList,
    it.1 = [] ∨ ∃ datagram ∈ trace.received, it = datagram.peer.client
  failed : (∃ it ∈ trace.server.clientList, it.1 = []) ↔ ∃ event ∈ events, ¬Succeeds event

theorem client_ne_nil (peer : SockaddrIn) : peer.client.1 ≠ [] := by
  simp [SockaddrIn.client, inetNtoa]

theorem Heard.unlisted {events : List Event} {trace : Trace} {event : Event} {server : ChatServer}
    (heard : Heard events trace) (same : server.clientList = trace.server.clientList)
    (succeeds : Succeeds event) : Heard (events ++ [event]) ⟨server, trace.received⟩ := by
  constructor
  · rw [same]
    exact heard.known
  · rw [same, heard.failed]
    simp [or_and_right, exists_or, succeeds]

theorem Heard.listFailure {events : List Event} {trace : Trace} (heard : Heard events trace)
    (uninitialised : Int16) :
    Heard (events ++ [.getMsg none uninitialised])
      ⟨{ trace.server.getMsg none uninitialised with
        point := .visiting (trace.server.getMsg none uninitialised).clientList },
          trace.received⟩ := by
  constructor
  · intro it member
    rcases ChatServer.mem_addClient.mp member with old | rfl
    · exact heard.known it old
    · exact Or.inl rfl
  · constructor
    · rintro -
      exact ⟨.getMsg none uninitialised, by simp, id⟩
    · rintro -
      exact ⟨([], uninitialised), ChatServer.mem_addClient.mpr (Or.inr rfl), rfl⟩

theorem Heard.listSender {events : List Event} {trace : Trace} (heard : Heard events trace)
    (datagram : Datagram) (uninitialised : Int16) :
    Heard (events ++ [.getMsg (some datagram) uninitialised])
      ⟨{ trace.server.getMsg (some datagram) uninitialised with
        point := .visiting (trace.server.getMsg (some datagram) uninitialised).clientList },
          trace.received ++ [datagram]⟩ := by
  constructor
  · intro it member
    rcases ChatServer.mem_addClient.mp member with old | rfl
    · rcases heard.known it old with empty | ⟨earlier, received, same⟩
      · exact Or.inl empty
      · exact Or.inr ⟨earlier, List.mem_append_left _ received, same⟩
    · exact Or.inr ⟨datagram, by simp, rfl⟩
  · have failed : (∃ event ∈ events ++ [.getMsg (some datagram) uninitialised], ¬Succeeds event) ↔
        ∃ event ∈ events, ¬Succeeds event := by
      simp [or_and_right, exists_or, Succeeds]
    rw [failed, ← heard.failed]
    constructor
    · rintro ⟨it, member, empty⟩
      rcases ChatServer.mem_addClient.mp member with old | rfl
      · exact ⟨it, old, empty⟩
      · exact absurd empty (client_ne_nil datagram.peer)
    · rintro ⟨it, member, empty⟩
      exact ⟨it, ChatServer.mem_addClient.mpr (Or.inl member), empty⟩

theorem heard_step (events : List Event) (trace : Trace) (event : Event) (next : Trace)
    (heard : Heard events trace) (stepped : trace.step event = .ok next) :
    Heard (events ++ [event]) next := by
  simp only [step] at stepped
  split at stepped
  · cases stepped
  · rename_i server serverStepped
    cases ChatServer.steps_of_ok serverStepped with
    | getMsg outcome uninitialised top =>
        cases outcome with
        | none =>
            cases stepped
            exact heard.listFailure uninitialised
        | some datagram =>
            cases stepped
            exact heard.listSender datagram uninitialised
    | visit it rest front later visiting waiting =>
        cases stepped
        exact heard.unlisted (ChatServer.visitClient_clientList _ _ _) trivial
    | popMsg front later visiting waiting =>
        cases stepped
        exact heard.unlisted rfl trivial
    | takeTask worker task later idle queue =>
        cases stepped
        exact heard.unlisted rfl trivial
    | sendMsg worker task running =>
        cases stepped
        exact heard.unlisted rfl trivial
    | deleteArg worker task sent =>
        cases stepped
        exact heard.unlisted rfl trivial

theorem start_heard : Heard [] start := ⟨by simp [start, ChatServer.initial],
  by simp [start, ChatServer.initial]⟩

theorem listed_heard_iff {events : List Event} {last : Trace}
    (ran : Runs.run step start events = .ok last) :
    (∀ it ∈ last.server.clientList, ∃ datagram ∈ last.received, it = datagram.peer.client) ↔
      ∀ event ∈ events, Succeeds event := by
  have heard := Runs.run_history start_heard heard_step ran
  constructor
  · intro known event member
    by_contra fails
    obtain ⟨it, listed, empty⟩ := heard.failed.mpr ⟨event, member, fails⟩
    obtain ⟨datagram, -, rfl⟩ := known it listed
    exact client_ne_nil datagram.peer empty
  · intro succeed it listed
    rcases heard.known it listed with empty | known
    · obtain ⟨event, member, fails⟩ := heard.failed.mp ⟨it, listed, empty⟩
      exact absurd (succeed event member) fails
    · exact known

end Trace

/-- What a failed `recvfrom` leaves as it was, and when the list holds only addresses from which
something was received. -/
theorem failed_receive_iff (server last : ChatServer) (uninitialised : Int16)
    (between events : List Event) (trace : Trace) :
    ((∀ event ∈ between, ChatServer.Between event) →
        Runs.run ChatServer.step server (.getMsg none uninitialised :: between ++ [.popMsg]) =
            .ok last →
          (last.clientList = server.clientList ∧ last.submitted = server.submitted ∧
              last.waitingQueue = [] ↔
            server.waitingQueue = [] ∧ server.clientList ≠ [] ∧
              ∀ it ∈ server.clientList, it = ([], uninitialised))) ∧
      (Runs.run Trace.step Trace.start events = .ok trace →
        ((∀ it ∈ trace.server.clientList,
            ∃ datagram ∈ trace.received, it = datagram.peer.client) ↔
          ∀ event ∈ events, Trace.Succeeds event)) := by
  constructor
  · intro each ran
    exact ChatServer.failed_iteration_iff each ran
  · intro ran
    exact Trace.listed_heard_iff ran

def failedOnce : ChatServer :=
  { ChatServer.initial with clientList := [([], 7)], allocated := 1, deleted := [0] }

def failedTwice : ChatServer := { failedOnce with allocated := 2, deleted := [0, 1] }

theorem failed_receive_sample :
    (failedTwice.clientList = failedOnce.clientList ∧
        failedTwice.submitted = failedOnce.submitted ∧ failedTwice.waitingQueue = []) ∧
      ¬∀ it ∈ failedOnce.clientList,
        ∃ datagram ∈ (Trace.mk failedOnce []).received, it = datagram.peer.client := by
  obtain ⟨unchanged, heard⟩ := failed_receive_iff failedOnce failedTwice 7 [.visit]
    [.getMsg none 7, .visit, .popMsg] ⟨failedOnce, []⟩
  constructor
  · exact (unchanged (by simp [ChatServer.Between]) (by decide +kernel)).mpr
      ⟨rfl, by decide, by decide⟩
  · intro known
    have succeeded := (heard rfl).mp known
    exact succeeded (.getMsg none 7) (by simp)

theorem failed_receive_adds :
    ¬∀ (server last : ChatServer) (uninitialised : Int16) (between : List Event),
      (∀ event ∈ between, ChatServer.Between event) →
        Runs.run ChatServer.step server (.getMsg none uninitialised :: between ++ [.popMsg]) =
            .ok last →
          last.clientList = server.clientList ∧ last.submitted = server.submitted ∧
            last.waitingQueue = [] := by
  intro unchanged
  have added := unchanged ChatServer.initial failedOnce 7 [.visit] (by simp [ChatServer.Between])
    (by decide +kernel)
  revert added
  decide

end LearnInternet.Chat
