import LearnInternet.Chat.Relay

/-!
Whom a relayed message names: `send_msg_` prints the address it sends to, with the port as a signed
number, and not the address of the sender.
-/

namespace LearnInternet.Chat

def Datagram.attributed (datagram : Datagram) : Bytes :=
  inetNtoa datagram.peer.sinAddr ++ ascii "/" ++
    Decimal.toBytes (ntohs datagram.peer.sinPort).toNat ++ ascii " say: " ++ datagram.text

theorem intToBytes_eq_toBytes {number : Int} {natural : Nat}
    (same : Decimal.intToBytes number = Decimal.toBytes natural) : number = natural := by
  cases number with
  | ofNat value =>
      have equal : value = natural := Decimal.toBytes_injective same
      rw [equal]
      rfl
  | negSucc value =>
      have sign : (45 : UInt8) ∈ Decimal.toBytes natural := by
        rw [← same]
        exact List.mem_cons_self
      exact absurd sign (Decimal.not_mem_toBytes (by decide) natural)

theorem toUInt16_of_toInt {port : Int16} {number : UInt16} (same : port.toInt = number.toNat) :
    port.toUInt16 = number := by
  have nonneg : 0 ≤ port := by
    rw [Int16.le_iff_toInt_le, same]
    exact Int.natCast_nonneg _
  apply UInt16.toNat_inj.mp
  have natural := port.toNat_toUInt16_of_le nonneg
  rw [natural, Int16.toNatClampNeg, same]
  rfl

/-- No message names its sender: that would be its recipient. -/
theorem outgoingOf_ne_attributed {datagram : Datagram} {client : SockaddrIn} {task : Task}
    (addressed : Addressed datagram client task) (other : client ≠ datagram.peer) :
    (ChatServer.outgoingOf task.arg).msg ≠ datagram.attributed := by
  intro same
  have slash : ascii "/" = [47] := rfl
  simp only [ChatServer.outgoingOf, Datagram.attributed, addressed.msg, addressed.ip] at same
  have names := List.append_cancel_right (List.append_cancel_right same)
  rw [slash, List.append_assoc, List.append_assoc, List.singleton_append, List.singleton_append]
    at names
  obtain ⟨address, -, number⟩ := (List.append_cons_inj_of_notMem
    (not_mem_inetNtoa (by decide) (by decide) _) (Decimal.not_mem_toBytes (by decide) _)).mp names.symm
  have port := toUInt16_of_toInt (intToBytes_eq_toBytes number.symm)
  apply other
  cases client
  have samePort := addressed.port.symm
  rw [port, htons_ntohs] at samePort
  rw [SockaddrIn.mk.injEq]
  exact ⟨(inetNtoa_injective address).symm, samePort⟩

namespace Relay

def Attributed (relay : Relay) : Prop :=
  ∀ (index : Nat) (outgoing : Outgoing) (task : Task) (datagram : Datagram),
    relay.trace.server.outgoing[index]? = some outgoing → relay.sent[index]? = some task →
      relay.origin[task.object]? = some datagram → outgoing.msg = datagram.attributed

theorem Taken.submitted_of_sent {server : ChatServer} {sent : List Task}
    (taken : Taken server sent) {task : Task} (member : task ∈ sent) :
    task ∈ server.submitted := by
  obtain ⟨earlier, split, perm⟩ := taken.inOrder
  rw [split]
  apply List.mem_append_left
  exact perm.mem_iff.mpr (List.mem_append_left _ member)

theorem Inv.not_attributed {relay : Relay} (inv : relay.Inv) (sent : relay.sent ≠ []) :
    ¬ relay.Attributed := by
  intro attributed
  obtain ⟨task, others, first⟩ := List.exists_cons_of_ne_nil sent
  have member : task ∈ relay.sent := by simp [first]
  have submitted := inv.taken.submitted_of_sent member
  obtain ⟨datagram, client, known, addressed, other⟩ := inv.made.addressed task submitted
  apply outgoingOf_ne_attributed addressed other
  apply attributed 0 (ChatServer.outgoingOf task.arg) task datagram
  · rw [inv.taken.outgoing_eq, first]
    rfl
  · rw [first]
    rfl
  · exact known

theorem step_sent {relay next : Relay} {event : Event} (stepped : relay.step event = .ok next) :
    next.sent ≠ [] ↔ relay.sent ≠ [] ∨ ∃ worker, event = .sendMsg worker := by
  obtain ⟨⟨server, received⟩, -, steps, rfl⟩ := steps_of_ok stepped
  cases steps with
  | sendMsg worker task running => simp [sends, running, Worker.unsent]
  | _ => simp [sends]

theorem run_sent {events : List Event} {last : Relay}
    (ran : Runs.run step start events = .ok last) :
    last.sent ≠ [] ↔ ∃ worker, .sendMsg worker ∈ events := by
  apply Runs.run_history _ _ ran
  · simp [start]
  · intro events relay event next before stepped
    rw [step_sent stepped, before]
    simp only [List.mem_append, List.mem_singleton]
    constructor
    · rintro (⟨worker, member⟩ | ⟨worker, rfl⟩)
      · exact ⟨worker, .inl member⟩
      · exact ⟨worker, .inr rfl⟩
    · rintro ⟨worker, member | same⟩
      · exact .inl ⟨worker, member⟩
      · exact .inr ⟨worker, same.symm⟩

theorem run_inv {events : List Event} {last : Relay}
    (succeed : ∀ event ∈ events, Trace.Succeeds event)
    (ran : Runs.run step start events = .ok last) : last.Inv :=
  Runs.run_keeps step_inv start_inv succeed ran

theorem run_attributed_iff (events : List Event) (last : Relay)
    (succeed : ∀ event ∈ events, Trace.Succeeds event)
    (ran : Runs.run step start events = .ok last) :
    last.Attributed ↔ ∀ worker, .sendMsg worker ∉ events := by
  have inv := run_inv succeed ran
  constructor
  · intro attributed worker member
    exact inv.not_attributed ((run_sent ran).mpr ⟨worker, member⟩) attributed
  · intro silent index outgoing task datagram _ sent
    have none : last.sent = [] := by
      by_contra some
      obtain ⟨worker, member⟩ := (run_sent ran).mp some
      exact silent worker member
    simp [none] at sent

def twoClients : List Event :=
  [.getMsg (some ⟨⟨⟨10, 0, 0, 1⟩, htons 5000⟩, ascii "hi"⟩) 0, .visit, .popMsg,
    .getMsg (some ⟨⟨⟨10, 0, 0, 2⟩, htons 65535⟩, ascii "ok"⟩) 0, .visit, .visit, .popMsg,
    .takeTask 1, .sendMsg 1]

theorem run_attributed_iff_twoClients :
    ∃ last, Runs.run step start twoClients = .ok last ∧
      (last.Attributed ↔ ∀ worker, .sendMsg worker ∉ twoClients) := by
  have runs : (Runs.run step start twoClients).isOk = true := by decide +kernel
  obtain ⟨last, ran⟩ := Runs.run_of_isOk runs
  refine ⟨last, ran, run_attributed_iff twoClients last ?_ ran⟩
  simp [twoClients, Trace.Succeeds]

theorem message_names_recipient :
    ∃ last, Runs.run step start twoClients = .ok last ∧
      last.trace.server.outgoing =
        [⟨ascii "10.0.0.1/5000 say: ok", ascii "10.0.0.1", 5000⟩] ∧
      ¬ last.Attributed := by
  have sent : (Runs.run step start twoClients).toOption.map (fun last =>
      (last.trace.server.outgoing, last.sent[0]?.map fun task => last.origin[task.object]?)) =
      some ([⟨ascii "10.0.0.1/5000 say: ok", ascii "10.0.0.1", 5000⟩],
        some (some ⟨⟨⟨10, 0, 0, 2⟩, htons 65535⟩, ascii "ok"⟩)) := by
    decide +kernel
  cases ran : Runs.run step start twoClients with
  | error stop =>
      rw [ran] at sent
      cases sent
  | ok last =>
      rw [ran] at sent
      simp only [Except.toOption, Option.map_some, Option.some.injEq, Prod.mk.injEq] at sent
      obtain ⟨outgoing, origin⟩ := sent
      refine ⟨last, rfl, outgoing, ?_⟩
      intro attributed
      cases first : last.sent[0]? with
      | none => simp [first] at origin
      | some task =>
          rw [first] at origin
          have named := attributed 0 _ task _ (congrArg (·[0]?) outgoing) first
            (Option.some.inj origin)
          revert named
          decide +kernel

end Relay

end LearnInternet.Chat
