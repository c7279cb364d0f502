import LearnInternet.Chat.Room

/-!
A chat can always come to rest: where nobody says more, the rounds end, the workers empty the queue
and the clients read what has been sent to them.
-/

namespace LearnInternet.Chat

namespace MyThreadPool

theorem signals_range (threads : List (Thread Task)) :
    Signals threads (List.range threads.length) := by
  intro waiting
  obtain ⟨thread, member, waits⟩ := List.any_eq_true.mp waiting
  obtain ⟨index, present⟩ := List.mem_iff_getElem?.mp member
  rw [List.any_eq_true]
  refine ⟨index, List.mem_range.mpr (List.getElem?_eq_some_iff.mp present).1, ?_⟩
  rw [present]
  exact waits

end MyThreadPool

namespace PooledServer

variable {pooled : PooledServer} {received : List Datagram}

theorem Serves.waiting (serves : pooled.Serves received) {rest : List Client}
    (visiting : pooled.server.point = .visiting rest) :
    ∃ front, pooled.server.waitingQueue = [front] := by
  obtain ⟨relay, refines, inv, -⟩ := serves
  have point : relay.trace.server.point = .visiting rest := by
    rw [refines.same]
    exact visiting
  have queue : pooled.server.waitingQueue = relay.trace.server.waitingQueue := by
    rw [refines.same]
    rfl
  rw [queue]
  cases inv.trace.round with
  | top top => simp [point] at top
  | visiting datagram earlier visited remaining before tasks _ waiting =>
      exact ⟨_, waiting⟩

theorem Serves.visit_ok (serves : pooled.Serves received) {it : Client} {rest : List Client}
    (visiting : pooled.server.point = .visiting (it :: rest)) :
    ∃ signalled next, pooled.step (.visit signalled) = .ok next ∧
      next.server.point = .visiting rest := by
  obtain ⟨front, waiting⟩ := serves.waiting visiting
  refine ⟨List.range pooled.pool.threadList.length, ?_⟩
  simp only [step, visiting, waiting, work, MyThreadPool.step]
  split
  · by_cases none : pooled.pool.threadList.length < 1
    · simp only [none, if_true]
      exact ⟨_, rfl, rfl⟩
    · simp only [none, if_false, MyThreadPool.signals_range, if_true]
      exact ⟨_, rfl, rfl⟩
  · exact ⟨_, rfl, rfl⟩

theorem Serves.popMsg_ok (serves : pooled.Serves received)
    (visiting : pooled.server.point = .visiting []) :
    ∃ next, pooled.step .popMsg = .ok next ∧ next.server.point = .top := by
  obtain ⟨front, waiting⟩ := serves.waiting visiting
  simp only [step, loop, ChatServer.step, visiting, waiting]
  exact ⟨_, rfl, rfl⟩

theorem getMsg_ok (top : pooled.server.point = .top) (datagram : Datagram)
    (uninitialised : Int16) :
    ∃ next, pooled.step (.getMsg (some datagram) uninitialised) = .ok next := by
  simp only [step, loop, ChatServer.step, top]
  exact ⟨_, rfl⟩

end PooledServer

namespace Room

variable {sockets : List (SockaddrIn × UdpClient)} {room : Room}

/-- Nobody says anything, and the network loses and doubles nothing. -/
def Settling (_ : Room) : Event → Prop
  | .hear _ _ => True
  | .serve _ => True
  | .read _ _ => True
  | _ => False

structure Sane (sockets : List (SockaddrIn × UdpClient)) (room : Room) : Prop where
  distinct : (sockets.map Prod.fst).Nodup
  inv : ∃ events, Inv sockets events room
  honest : room.Honest

theorem Sane.next {event : Event} {next : Room} (sane : room.Sane sockets)
    (stepped : room.step event = .ok next) : next.Sane sockets := by
  obtain ⟨events, inv⟩ := sane.inv
  exact ⟨sane.distinct, ⟨_, step_inv sane.distinct inv stepped⟩, step_honest sane.honest stepped⟩

theorem Sane.serves {event : PooledServer.Event} {server : PooledServer}
    (sane : room.Sane sockets) (own : event.heard = []) (succeeds : PooledServer.Succeeds event)
    (stepped : room.server.step event = .ok server) :
    ∃ next, room.step (.serve event) = .ok next ∧ next.Sane sockets ∧ next.server = server ∧
      next.toServer = room.toServer := by
  have served : ∃ next, room.step (.serve event) = .ok next ∧ next.server = server ∧
      next.toServer = room.toServer := by
    cases event with
    | getMsg outcome uninitialised =>
        cases outcome with
        | none => cases succeeds
        | some datagram => cases own
    | _ =>
        simp only [Room.step, Room.serve, stepped]
        exact ⟨_, rfl, rfl, rfl⟩
  obtain ⟨next, made, same⟩ := served
  exact ⟨next, made, sane.next made, same⟩

theorem Sane.can_end_round (sane : room.Sane sockets) : Runs.CanReach step Settling (fun next =>
    next.Sane sockets ∧ next.server.server.point = .top ∧ next.toServer = room.toServer) room := by
  obtain ⟨events, inv⟩ := sane.inv
  cases point : room.server.server.point with
  | top => exact .here ⟨sane, point, rfl⟩
  | visiting rest =>
      induction rest generalizing room events with
      | nil =>
          obtain ⟨server, stepped, top⟩ := inv.serves.popMsg_ok point
          have own : PooledServer.Succeeds .popMsg := trivial
          obtain ⟨next, made, nextSane, rfl, same⟩ := sane.serves rfl own stepped
          refine .after ?_ made (.here ⟨nextSane, top, same⟩)
          trivial
      | cons it rest ih =>
          obtain ⟨signalled, server, stepped, visited⟩ := inv.serves.visit_ok point
          have own : PooledServer.Succeeds (.visit signalled) := trivial
          obtain ⟨next, made, nextSane, rfl, same⟩ := sane.serves rfl own stepped
          obtain ⟨later, nextInv⟩ := nextSane.inv
          rw [← same]
          refine .after ?_ made (ih nextSane later nextInv visited)
          trivial

theorem Sane.can_hear (sane : room.Sane sockets) : Runs.CanReach step Settling (fun next =>
    next.Sane sockets ∧ next.server.server.point = .top ∧ next.toServer.underway = []) room := by
  induction measured : room.toServer.underway.length generalizing room with
  | zero =>
      apply sane.can_end_round.mono
      rintro next ⟨nextSane, top, same⟩
      refine ⟨nextSane, top, ?_⟩
      rw [same]
      exact List.length_eq_zero_iff.mp measured
  | succ count ih =>
      apply sane.can_end_round.trans
      rintro ended ⟨endedSane, top, same⟩
      rw [← same] at measured
      obtain ⟨datagram, later, underway⟩ := List.exists_cons_of_length_eq_add_one measured
      obtain ⟨server, stepped⟩ := PooledServer.getMsg_ok top datagram 0
      have made : ∃ next, ended.step (.hear 0 0) = .ok next ∧
          next.toServer.underway.length = count := by
        simp only [step, serve, underway, List.getElem?_cons_zero, stepped]
        refine ⟨_, rfl, ?_⟩
        simpa [Network.arrive, underway] using measured
      obtain ⟨next, heard, fewer⟩ := made
      refine .after ?_ heard (ih (endedSane.next heard) fewer)
      trivial

structure Quiet (sockets : List (SockaddrIn × UdpClient)) (room : Room) : Prop where
  sane : room.Sane sockets
  top : room.server.server.point = .top
  heard : room.toServer.underway = []

theorem Quiet.can_sleep (quiet : room.Quiet sockets) : Runs.CanReach step Settling (fun next =>
    next.Quiet sockets ∧ ∀ thread ∈ next.server.pool.threadList, thread = .waiting) room := by
  apply Runs.CanReach.of_variant (Quiet sockets) (fun next => next.server.effort) _ quiet
  intro room quiet
  by_cases asleep : ∀ thread ∈ room.server.pool.threadList, thread = .waiting
  · exact .here (.inl ⟨quiet, asleep⟩)
  · rw [not_forall] at asleep
    obtain ⟨thread, awake⟩ := asleep
    rw [Classical.not_imp] at awake
    obtain ⟨index, present⟩ := List.mem_iff_getElem?.mp awake.1
    have sound : room.server.Sound := by
      obtain ⟨events, inv⟩ := quiet.sane.inv
      obtain ⟨relay, refines, -⟩ := inv.serves
      exact refines.sound
    obtain ⟨event, worker, server, stepped⟩ := sound.worker_ok present awake.2
    obtain ⟨less, -, -, point⟩ := PooledServer.worker_step sound worker stepped
    have own : event.heard = [] ∧ PooledServer.Succeeds event := by
      cases event with
      | getMsg outcome uninitialised => cases worker
      | _ => exact ⟨rfl, trivial⟩
    obtain ⟨next, made, nextSane, rfl, same⟩ := quiet.sane.serves own.1 own.2 stepped
    refine .after ?_ made (.here (.inr ⟨⟨nextSane, ?_, ?_⟩, less⟩))
    · trivial
    · exact point.trans quiet.top
    · rw [same]
      exact quiet.heard

theorem Sane.reader (sane : room.Sane sockets) {datagram : Datagram}
    (underway : datagram ∈ room.toClients.underway) :
    ∃ (index : Nat) (reader : Talker), room.talkers[index]? = some reader ∧
      datagram.peer = reader.address := by
  obtain ⟨events, inv⟩ := sane.inv
  have sent := sane.honest.toClients datagram (List.mem_append_right _ underway)
  rw [inv.sent] at sent
  obtain ⟨outgoing, made, rfl⟩ := List.mem_map.mp sent
  obtain ⟨said, -, client, known, -, goes⟩ := inv.serves.outgoing outgoing made
  obtain ⟨first, heard, rfl⟩ := mem_senders.mp known
  obtain ⟨index, reader, text, -, present, rfl⟩ := inv.speaker sane.honest heard
  exact ⟨index, reader, present, by rw [goes]⟩

theorem Quiet.can_rest (quiet : room.Quiet sockets)
    (asleep : ∀ thread ∈ room.server.pool.threadList, thread = .waiting) :
    Runs.CanReach step Settling AtRest room := by
  induction measured : room.toClients.underway.length generalizing room with
  | zero =>
      obtain ⟨events, inv⟩ := quiet.sane.inv
      obtain ⟨relay, refines, relayInv, -⟩ := inv.serves
      have drained := PooledServer.drained_of_waiting refines relayInv.books asleep
      exact .here
        ⟨⟨quiet.heard, List.length_eq_zero_iff.mp measured, quiet.top, asleep⟩, drained.queue⟩
  | succ count ih =>
      obtain ⟨datagram, later, underway⟩ := List.exists_cons_of_length_eq_add_one measured
      have member : datagram ∈ room.toClients.underway := by
        rw [underway]
        exact List.mem_cons_self
      obtain ⟨index, reader, present, own⟩ := quiet.sane.reader member
      have made : ∃ next, room.step (.read index 0) = .ok next ∧ next.server = room.server ∧
          next.toServer = room.toServer ∧ next.toClients.underway.length = count := by
        simp only [step, present, underway, List.getElem?_cons_zero, own, if_true]
        refine ⟨_, rfl, rfl, rfl, ?_⟩
        simpa [Network.arrive, underway] using measured
      obtain ⟨next, stepped, server, toServer, fewer⟩ := made
      refine .after ?_ stepped (ih ⟨quiet.sane.next stepped, ?_, ?_⟩ ?_ fewer)
      · trivial
      · rw [server]
        exact quiet.top
      · rw [toServer]
        exact quiet.heard
      · rw [server]
        exact asleep

/-- From every state of a chat, over any network, the server and the clients can come to rest. -/
theorem run_can_rest (sockets : List (SockaddrIn × UdpClient)) (events : List Event) (last : Room)
    (distinct : (sockets.map Prod.fst).Nodup)
    (ran : Runs.run step (start sockets) events = .ok last) :
    Runs.CanReach step Settling AtRest last := by
  have sane : last.Sane sockets :=
    ⟨distinct, ⟨events, run_inv distinct ran⟩, run_honest ran⟩
  apply sane.can_hear.trans
  rintro heard ⟨heardSane, top, none⟩
  apply (Quiet.can_sleep ⟨heardSane, top, none⟩).trans
  rintro slept ⟨quiet, asleep⟩
  exact quiet.can_rest asleep

/-- In the middle of a round, with a task in the queue and a datagram on its way. -/
def interrupted : List Event :=
  registers ++
    [.say 1 (ascii "hello"), .mishapToServer (.double 0), .hear 0 0, .serve (.visit [])]

theorem run_can_rest_interrupted :
    ∃ last, Runs.run step (start pair) interrupted = .ok last ∧
      Runs.CanReach step Settling AtRest last := by
  have runs : (Runs.run step (start pair) interrupted).isOk = true := by decide +kernel
  obtain ⟨last, ran⟩ := Runs.run_of_isOk runs
  exact ⟨last, ran, run_can_rest pair interrupted last (by decide) ran⟩

end Room

end LearnInternet.Chat
