import LearnInternet.Chat.Relay

/-!
The order in which the messages reach a client: they are taken in the order of their receipt, and one
overtakes another exactly when a worker sends it while another worker holds the other unsent.
-/

namespace LearnInternet.Chat

def Task.recipient (task : Task) : Client := (task.arg.ip, task.arg.port)

def tasksFor (client : Client) (tasks : List Task) : List Task :=
  tasks.filter (·.recipient = client)

/-- What others have said since the client was heard first. -/
def messagesFor (client : SockaddrIn) (received : List Datagram) : List Bytes :=
  ((received.dropWhile (·.peer ≠ client)).filter (·.peer ≠ client)).map Datagram.text

theorem tasksFor_append (client : Client) (earlier later : List Task) :
    tasksFor client (earlier ++ later) = tasksFor client earlier ++ tasksFor client later :=
  List.filter_append _ _

theorem mem_tasksFor {client : Client} {tasks : List Task} {task : Task} :
    task ∈ tasksFor client tasks ↔ task ∈ tasks ∧ task.recipient = client := by
  simp [tasksFor]

theorem messagesFor_append (client : SockaddrIn) (received : List Datagram) (datagram : Datagram) :
    messagesFor client (received ++ [datagram]) =
      messagesFor client received ++
        if client ∈ (senders (received ++ [datagram])).filter (· ≠ datagram.peer)
        then [datagram.text] else [] := by
  have known : received.dropWhile (·.peer ≠ client) = [] ↔ client ∉ senders received := by
    simp only [List.dropWhile_eq_nil_iff, senders, List.mem_eraseDups, List.mem_map,
      decide_eq_true_eq]
    constructor
    · rintro others ⟨other, member, same⟩
      exact others other member same
    · intro unknown other member same
      exact unknown ⟨other, member, same⟩
  have listed : client ∈ (senders (received ++ [datagram])).filter (· ≠ datagram.peer) ↔
      client ∈ senders received ∧ client ≠ datagram.peer := by
    simp only [senders_append, List.mem_filter, decide_eq_true_eq]
    constructor
    · rintro ⟨member, other⟩
      split at member
      · exact ⟨member, other⟩
      · rw [List.mem_append, List.mem_singleton] at member
        exact ⟨member.resolve_right other, other⟩
    · rintro ⟨member, other⟩
      split
      · exact ⟨member, other⟩
      · exact ⟨List.mem_append_left _ member, other⟩
  simp only [messagesFor, List.dropWhile_append, List.isEmpty_iff, known, listed]
  by_cases unknown : client ∉ senders received
  · simp only [unknown, not_false_eq_true, if_true, known.mpr unknown]
    by_cases own : datagram.peer = client
    · simp [own]
    · simp [own]
  · rw [not_not] at unknown
    by_cases own : datagram.peer = client
    · simp [unknown, own]
    · simp [unknown, own, Ne.symm own]

theorem Addressed.recipient {datagram : Datagram} {client : SockaddrIn} {task : Task}
    (addressed : Addressed datagram client task) : task.recipient = client.client := by
  have port : task.arg.port = (ntohs client.sinPort).toInt16 := by
    have back : ntohs (htons task.arg.port.toUInt16) = task.arg.port.toUInt16 := htons_ntohs _
    rw [← addressed.port, back, Int16.toInt16_toUInt16]
  rw [Task.recipient, addressed.ip, port]
  rfl

theorem served_messages {datagram : Datagram} {clients : List SockaddrIn} {tasks : List Task}
    (served : List.Forall₂ (Addressed datagram) clients tasks) (nodup : clients.Nodup)
    (client : SockaddrIn) :
    (tasksFor client.client tasks).map (·.arg.msg) =
      if client ∈ clients then [datagram.text] else [] := by
  induction served with
  | nil => rfl
  | @cons first task clients tasks addressed rest ih =>
      rw [List.nodup_cons] at nodup
      have later := ih nodup.2
      by_cases same : first = client
      · subst same
        rw [if_neg nodup.1, List.map_eq_nil_iff] at later
        have chosen : tasksFor first.client (task :: tasks) =
            task :: tasksFor first.client tasks := List.filter_cons_of_pos (by
          simp [addressed.recipient])
        rw [chosen, later, if_pos List.mem_cons_self, List.map_singleton, addressed.msg]
      · have skipped : tasksFor client.client (task :: tasks) = tasksFor client.client tasks :=
          List.filter_cons_of_neg (by
            simp [addressed.recipient, client_injective.eq_iff, same])
        rw [skipped, later]
        simp [Ne.symm same]

theorem fanOut_messages {received : List Datagram} {submitted : List Task}
    (fanOut : FanOut received submitted) (client : SockaddrIn) :
    (tasksFor client.client submitted).map (·.arg.msg) = messagesFor client received := by
  induction fanOut with
  | none => rfl
  | next datagram before others ih =>
      rw [tasksFor_append, List.map_append, ih, messagesFor_append]
      congr 1
      exact served_messages others ((Distinct.nodup_eraseDups _).filter _) client

namespace Trace

theorem Round.messages {trace : Trace} (round : trace.Round) (client : SockaddrIn) :
    (tasksFor client.client trace.server.submitted).map (·.arg.msg) <+:
      messagesFor client trace.received := by
  cases round with
  | top point waiting fanOut =>
      rw [fanOut_messages fanOut]
  | visiting datagram earlier visited rest before tasks point waiting received listed submitted
      fanOut served =>
      have nodup : (visited ++ rest).Nodup := by
        rw [← listed]
        exact Distinct.nodup_eraseDups _
      have said := served_messages served
        ((List.nodup_append.mp nodup).1.filter (· ≠ datagram.peer)) client
      rw [received] at listed
      rw [received, messagesFor_append, submitted, tasksFor_append, List.map_append,
        fanOut_messages fanOut, List.prefix_append_right_inj, said]
      split
      · rename_i member
        have now : client ∈ (senders (earlier ++ [datagram])).filter (· ≠ datagram.peer) := by
          rw [listed, List.filter_append]
          exact List.mem_append_left _ member
        rw [if_pos now]
      · exact List.nil_prefix

end Trace

namespace Relay

def SentInReceivedOrder (relay : Relay) : Prop :=
  ∀ client : SockaddrIn,
    List.Sublist
      ((relay.trace.server.outgoing.filter
        (fun outgoing => (outgoing.dstIp, outgoing.dstPort) = client.client)).map Outgoing.msg)
      ((messagesFor client relay.trace.received).map fun text =>
        (ChatServer.outgoingOf ⟨text, client.client.1, client.client.2⟩).msg)

/-- The tasks sent to a client are the first of those submitted for it, in the order of their
submission. -/
def InOrder (relay : Relay) : Prop :=
  ∀ client : Client,
    tasksFor client relay.sent <+: tasksFor client relay.trace.server.submitted

structure Handed (relay : Relay) : Prop where
  messages : ∀ client : SockaddrIn,
    (tasksFor client.client relay.trace.server.submitted).map (·.arg.msg) <+:
      messagesFor client relay.trace.received
  taken : ∃ taken, relay.trace.server.submitted = taken ++ relay.trace.server.taskQueue ∧
    taken.Perm (relay.sent ++ relay.trace.server.unsent)
  ordered : relay.InOrder → relay.SentInReceivedOrder

/-- No worker sends a task while another holds an earlier one for the same client unsent. -/
def KeepsTurn (relay : Relay) : Event → Relay → Prop
  | .sendMsg worker, _ =>
      ∀ task, relay.trace.server.workers[worker]? = some (.running task) →
        ∀ other ∈ relay.trace.server.unsent, other.recipient = task.recipient →
          task.object ≤ other.object
  | _, _ => True

theorem Inv.ordered {relay : Relay} (inv : relay.Inv) (inOrder : relay.InOrder) :
    relay.SentInReceivedOrder := by
  intro client
  let say : Bytes → Bytes := fun text =>
    (ChatServer.outgoingOf ⟨text, client.client.1, client.client.2⟩).msg
  have sent : (relay.trace.server.outgoing.filter
      (fun outgoing => (outgoing.dstIp, outgoing.dstPort) = client.client)).map Outgoing.msg =
      ((tasksFor client.client relay.sent).map (·.arg.msg)).map say := by
    rw [inv.taken.outgoing_eq, List.filter_map, List.map_map, List.map_map]
    apply List.map_congr_left
    intro task member
    have recipient : task.recipient = client.client := (mem_tasksFor.mp member).2
    simp only [Function.comp, say, ← recipient]
    rfl
  rw [sent]
  exact (((inOrder client.client).map _).trans (inv.trace.round.messages client)).map say
    |>.sublist

theorem Inv.handed {relay : Relay} (inv : relay.Inv) : relay.Handed :=
  ⟨inv.trace.round.messages, inv.taken.inOrder, inv.ordered⟩

theorem Inv.nodup {relay : Relay} (inv : relay.Inv) :
    (relay.sent ++ relay.trace.server.unsent).Nodup := by
  obtain ⟨taken, split, perm⟩ := inv.taken.inOrder
  have nodup := Distinct.nodup_of_increasing inv.made.numbered
  rw [split] at nodup
  exact perm.nodup_iff.mp (List.nodup_append.mp nodup).1

theorem Inv.unsent_iff {relay : Relay} (inv : relay.Inv) {task : Task}
    (held : task ∈ relay.trace.server.unsent) :
    (∀ other ∈ tasksFor task.recipient relay.trace.server.submitted,
        other ∉ tasksFor task.recipient relay.sent → task.object ≤ other.object) ↔
      ∀ other ∈ relay.trace.server.unsent, other.recipient = task.recipient →
        task.object ≤ other.object := by
  obtain ⟨taken, split, perm⟩ := inv.taken.inOrder
  have numbered := inv.made.numbered
  rw [split, List.map_append, List.pairwise_append] at numbered
  have taskTaken : task ∈ taken := perm.mem_iff.mpr (List.mem_append_right _ held)
  constructor
  · intro least other otherHeld same
    have otherTaken : other ∈ taken := perm.mem_iff.mpr (List.mem_append_right _ otherHeld)
    apply least other
    · rw [mem_tasksFor, split]
      exact ⟨List.mem_append_left _ otherTaken, same⟩
    · intro sent
      exact (List.nodup_append.mp inv.nodup).2.2 other (mem_tasksFor.mp sent).1 other otherHeld rfl
  · intro least other submitted fresh
    rw [mem_tasksFor, split, List.mem_append] at submitted
    obtain ⟨member, same⟩ := submitted
    rcases member with otherTaken | queued
    · rcases List.mem_append.mp (perm.mem_iff.mp otherTaken) with sent | otherHeld
      · exact absurd (mem_tasksFor.mpr ⟨sent, same⟩) fresh
      · exact least other otherHeld same
    · exact Nat.le_of_lt (numbered.2.2 _ (List.mem_map_of_mem taskTaken) _
        (List.mem_map_of_mem queued))

theorem start_inOrder : start.InOrder := by
  intro client
  exact List.prefix_rfl

theorem step_logs {relay next : Relay} {event : Event} (stepped : relay.step event = .ok next) :
    relay.trace.server.submitted <+: next.trace.server.submitted ∧
      next.sent = relay.sent ++ relay.sends event := by
  obtain ⟨⟨server, received⟩, -, steps, rfl⟩ := steps_of_ok stepped
  refine ⟨?_, rfl⟩
  cases steps with
  | getMsg outcome uninitialised top =>
      rw [(relay.trace.server.getMsg_pool outcome uninitialised).1]
  | visit it rest front later visiting waiting =>
      by_cases differs : front.senderIp ≠ it.1 ∨ front.senderPort ≠ it.2
      · rw [ChatServer.visitClient_sends differs]
        exact List.prefix_append _ _
      · rw [ChatServer.visitClient_deletes differs]
  | popMsg front later visiting waiting => exact List.prefix_rfl
  | takeTask worker task later idle queue => exact List.prefix_rfl
  | sendMsg worker task running => exact List.prefix_rfl
  | deleteArg worker task present => exact List.prefix_rfl

theorem inOrder_of_quiet {relay next : Relay} (inOrder : relay.InOrder)
    (submitted : relay.trace.server.submitted <+: next.trace.server.submitted)
    (sent : next.sent = relay.sent) : next.InOrder := by
  intro client
  rw [sent]
  exact (inOrder client).trans (submitted.filter _)

theorem concat_inOrder_iff {relay : Relay} (inv : relay.Inv) (inOrder : relay.InOrder)
    {task : Task} (held : task ∈ relay.trace.server.unsent) :
    (∀ client, tasksFor client (relay.sent ++ [task]) <+:
        tasksFor client relay.trace.server.submitted) ↔
      ∀ other ∈ relay.trace.server.unsent, other.recipient = task.recipient →
        task.object ≤ other.object := by
  have own : tasksFor task.recipient [task] = [task] := by simp [tasksFor]
  have member : task ∈ tasksFor task.recipient relay.trace.server.submitted := by
    obtain ⟨taken, split, perm⟩ := inv.taken.inOrder
    rw [mem_tasksFor, split]
    exact ⟨List.mem_append_left _ (perm.mem_iff.mpr (List.mem_append_right _ held)), rfl⟩
  have fresh : task ∉ tasksFor task.recipient relay.sent := by
    intro sent
    exact (List.nodup_append.mp inv.nodup).2.2 task (mem_tasksFor.mp sent).1 task held rfl
  have increasing := inv.made.numbered.sublist
    ((List.filter_sublist (p := (·.recipient = task.recipient))).map Task.object)
  have grows := Distinct.concat_prefix_iff increasing (inOrder task.recipient) member fresh
  refine Iff.trans ?_ (grows.trans (inv.unsent_iff held))
  constructor
  · intro all
    have itself := all task.recipient
    rw [tasksFor_append, own] at itself
    exact itself
  · intro itself client
    rw [tasksFor_append]
    by_cases same : task.recipient = client
    · rw [← same, own]
      exact itself
    · have none : tasksFor client [task] = [] := by simp [tasksFor, same]
      rw [none, List.append_nil]
      exact inOrder client

theorem send_inOrder_iff {relay next : Relay} {worker : Nat} (inv : relay.Inv)
    (stepped : relay.step (.sendMsg worker) = .ok next) (inOrder : relay.InOrder) :
    next.InOrder ↔ relay.KeepsTurn (.sendMsg worker) next := by
  obtain ⟨⟨server, received⟩, -, steps, rfl⟩ := steps_of_ok stepped
  cases steps with
  | sendMsg worker task running =>
      have held : task ∈ relay.trace.server.unsent :=
        List.mem_flatMap.mpr ⟨.running task, List.mem_of_getElem? running, List.mem_singleton_self _⟩
      have sends : relay.sends (.sendMsg worker) = [task] := by
        simp [Relay.sends, running, Worker.unsent]
      have grows := concat_inOrder_iff inv inOrder held
      simp only [InOrder, KeepsTurn, sends, running, Option.some.injEq, Worker.running.injEq]
      rw [grows]
      constructor
      · rintro least other rfl
        exact least
      · intro least
        exact least task rfl

theorem step_inOrder_iff (relay : Relay) (event : Event) (next : Relay) (inv : relay.Inv)
    (stepped : relay.step event = .ok next) (inOrder : relay.InOrder) :
    next.InOrder ↔ relay.KeepsTurn event next := by
  have logs := step_logs stepped
  cases event with
  | sendMsg worker => exact send_inOrder_iff inv stepped inOrder
  | _ =>
      refine iff_of_true (inOrder_of_quiet inOrder logs.1 ?_) trivial
      rw [logs.2]
      exact List.append_nil _

theorem run_inOrder_iff (events : List Event)
    (succeed : ∀ event ∈ events, Trace.Succeeds event) :
    Runs.Always step Handed start events ∧
      (Runs.Always step InOrder start events ↔ Runs.EachStep step KeepsTurn start events) := by
  have permits : Runs.Permits step (fun _ event => Trace.Succeeds event) start events :=
    Runs.permits_of_forall succeed
  constructor
  · exact Runs.always_of_keeps step_inv (fun relay inv => inv.handed) events start_inv permits
  · apply Runs.always_iff_eachStep_of_keeps step_inv _ events start_inv start_inOrder permits
    intro relay event next inv _ stepped inOrder
    exact step_inOrder_iff relay event next inv stepped inOrder

/-- 10.0.0.2 says two things to 10.0.0.1; the worker with the second is the faster one. -/
def overtaking : List Event :=
  [.getMsg (some ⟨⟨⟨10, 0, 0, 1⟩, htons 5000⟩, ascii "hi"⟩) 0, .visit, .popMsg,
    .getMsg (some ⟨⟨⟨10, 0, 0, 2⟩, htons 5000⟩, ascii "first"⟩) 0, .visit, .visit, .popMsg,
    .getMsg (some ⟨⟨⟨10, 0, 0, 2⟩, htons 5000⟩, ascii "second"⟩) 0, .visit, .visit, .popMsg,
    .takeTask 0, .takeTask 1, .sendMsg 1, .sendMsg 0]

theorem run_inOrder_iff_overtaking :
    Runs.Always step Handed start overtaking ∧
      (Runs.Always step InOrder start overtaking ↔
        Runs.EachStep step KeepsTurn start overtaking) := by
  apply run_inOrder_iff
  simp [overtaking, Trace.Succeeds]

theorem second_overtakes_first :
    ∃ last, Runs.run step start overtaking = .ok last ∧
      messagesFor ⟨⟨10, 0, 0, 1⟩, htons 5000⟩ last.trace.received =
        [ascii "first", ascii "second"] ∧
      last.trace.server.outgoing =
        [⟨ascii "10.0.0.1/5000 say: second", ascii "10.0.0.1", 5000⟩,
          ⟨ascii "10.0.0.1/5000 say: first", ascii "10.0.0.1", 5000⟩] ∧
      ¬ last.SentInReceivedOrder := by
  have sent : (Runs.run step start overtaking).toOption.map (fun last =>
      (messagesFor ⟨⟨10, 0, 0, 1⟩, htons 5000⟩ last.trace.received,
        last.trace.server.outgoing)) =
      some ([ascii "first", ascii "second"],
        [⟨ascii "10.0.0.1/5000 say: second", ascii "10.0.0.1", 5000⟩,
          ⟨ascii "10.0.0.1/5000 say: first", ascii "10.0.0.1", 5000⟩]) := by
    decide +kernel
  cases ran : Runs.run step start overtaking with
  | error stop =>
      rw [ran] at sent
      cases sent
  | ok last =>
      rw [ran] at sent
      simp only [Except.toOption, Option.map_some, Option.some.injEq, Prod.mk.injEq] at sent
      obtain ⟨messages, outgoing⟩ := sent
      refine ⟨last, rfl, messages, outgoing, ?_⟩
      intro inOrder
      have reaches := inOrder ⟨⟨10, 0, 0, 1⟩, htons 5000⟩
      rw [messages, outgoing] at reaches
      revert reaches
      decide +kernel

end Relay

end LearnInternet.Chat
