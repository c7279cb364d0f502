import LearnInternet.Chat.Server
import LearnInternet.Lib.Distinct
import LearnInternet.Lib.Network
import LearnInternet.Lib.Simulation

/-!
Questions and answers over UDP: the `UdpServer` with the function it is given, and any number of
clients that each ask one question at a time and wait for what comes back.
-/

namespace LearnInternet.Udp

open Chat (SockaddrIn Datagram)

def bufferSize : Nat := 1024

def recvLen (payload : Bytes) : Int16 := Int16.ofNat (payload.take (bufferSize - 1)).length

def text (payload : Bytes) : Bytes := Text.takeUntil 0 (payload.take (bufferSize - 1))

def UdpServer.serve (func : Bytes → Bytes) (payload : Bytes) : List Bytes :=
  if 0 < recvLen payload then [func (text payload)] else []

def UdpClient.output (payload msg : Bytes) : Bytes :=
  if 0 < recvLen payload then text payload else msg

inductive Prompt where
  | reading
  | waiting
  | left
  deriving DecidableEq

structure Client where
  address : SockaddrIn
  isInit : Bool
  prompt : Prompt
  outputBuf : Bytes
  inputs : List Bytes
  printed : List Bytes
  deriving DecidableEq

def quit : Bytes := ascii "quit"

def saying (outputBuf : Bytes) : Bytes := ascii "server say: " ++ outputBuf

namespace Client

def input (client : Client) (line : Bytes) : Client × List Bytes :=
  let read := { client with inputs := client.inputs ++ [line] }
  if line = quit then
    ({ read with prompt := .left, printed := client.printed ++ [ascii "quit!"] }, [])
  else if client.isInit then ({ read with prompt := .waiting }, [line])
  else ({ read with printed := client.printed ++ [saying client.outputBuf] }, [])

def output (client : Client) (payload : Bytes) : Client :=
  let outputBuf := UdpClient.output payload client.outputBuf
  { client with
    prompt := .reading
    outputBuf := outputBuf
    printed := client.printed ++ [saying outputBuf] }

end Client

structure Service where
  clients : List Client
  toServer : Network Datagram
  toClients : Network Datagram

namespace Service

inductive Stop where
  | notEnabled
  deriving DecidableEq

inductive Event where
  | input (client : Nat) (line : Bytes)
  | serve (index : Nat)
  | output (client : Nat) (index : Nat)
  | mishapToServer (mishap : Network.Mishap)
  | mishapToClients (mishap : Network.Mishap)
  deriving DecidableEq

def start (sockets : List (SockaddrIn × Bool)) : Service where
  clients := sockets.map fun socket => ⟨socket.1, socket.2, .reading, [], [], []⟩
  toServer := .empty
  toClients := .empty

variable (func : Bytes → Bytes)

def step (service : Service) : Event → Except Stop Service
  | .input index line =>
      match service.clients[index]? with
      | none => .error .notEnabled
      | some client =>
          if client.prompt = .reading then
            let sent := (client.input line).2.map fun payload => ⟨client.address, payload⟩
            .ok { service with
              clients := service.clients.set index (client.input line).1
              toServer := service.toServer.send sent }
          else .error .notEnabled
  | .serve index =>
      match service.toServer.underway[index]? with
      | none => .error .notEnabled
      | some datagram =>
          let sent := (UdpServer.serve func datagram.payload).map fun result =>
            ⟨datagram.peer, result⟩
          .ok { service with
            toServer := service.toServer.arrive index datagram
            toClients := service.toClients.send sent }
  | .output index underway =>
      match service.clients[index]?, service.toClients.underway[underway]? with
      | some client, some datagram =>
          if client.prompt = .waiting ∧ datagram.peer = client.address then
            .ok { service with
              clients := service.clients.set index (client.output datagram.payload)
              toClients := service.toClients.arrive underway datagram }
          else .error .notEnabled
      | _, _ => .error .notEnabled
  | .mishapToServer mishap =>
      .ok { service with toServer := service.toServer.befall mishap }
  | .mishapToClients mishap =>
      .ok { service with toClients := service.toClients.befall mishap }

inductive Steps (service : Service) : Event → Service → Prop where
  | input (index : Nat) (line : Bytes) (client : Client)
      (present : service.clients[index]? = some client) (reading : client.prompt = .reading) :
      Steps service (.input index line)
        { service with
          clients := service.clients.set index (client.input line).1
          toServer := service.toServer.send
            ((client.input line).2.map fun payload => ⟨client.address, payload⟩) }
  | serve (index : Nat) (datagram : Datagram)
      (underway : service.toServer.underway[index]? = some datagram) :
      Steps service (.serve index)
        { service with
          toServer := service.toServer.arrive index datagram
          toClients := service.toClients.send
            ((UdpServer.serve func datagram.payload).map fun result => ⟨datagram.peer, result⟩) }
  | output (index place : Nat) (client : Client) (datagram : Datagram)
      (present : service.clients[index]? = some client)
      (underway : service.toClients.underway[place]? = some datagram)
      (waiting : client.prompt = .waiting) (own : datagram.peer = client.address) :
      Steps service (.output index place)
        { service with
          clients := service.clients.set index (client.output datagram.payload)
          toClients := service.toClients.arrive place datagram }
  | mishapToServer (mishap : Network.Mishap) :
      Steps service (.mishapToServer mishap)
        { service with toServer := service.toServer.befall mishap }
  | mishapToClients (mishap : Network.Mishap) :
      Steps service (.mishapToClients mishap)
        { service with toClients := service.toClients.befall mishap }

variable {func} {service next : Service}

theorem steps_of_ok {event : Event} (stepped : service.step func event = .ok next) :
    service.Steps func event next := by
  cases event with
  | input index line =>
      simp only [step] at stepped
      split at stepped
      · cases stepped
      · rename_i client present
        split at stepped
        · rename_i reading
          cases stepped
          exact .input index line client present reading
        · cases stepped
  | serve index =>
      simp only [step] at stepped
      split at stepped
      · cases stepped
      · rename_i datagram underway
        cases stepped
        exact .serve index datagram underway
  | output index place =>
      simp only [step] at stepped
      split at stepped
      · rename_i client datagram present underway
        split at stepped
        · rename_i own
          cases stepped
          exact .output index place client datagram present underway own.1 own.2
        · cases stepped
      · cases stepped
  | mishapToServer mishap =>
      cases stepped
      exact .mishapToServer mishap
  | mishapToClients mishap =>
      cases stepped
      exact .mishapToClients mishap

end Service

theorem recvLen_pos {payload : Bytes} : 0 < recvLen payload ↔ payload ≠ [] := by
  have length : (recvLen payload).toInt = (payload.take (bufferSize - 1)).length := by
    apply Int16.toInt_ofNat_of_lt
    rw [List.length_take, bufferSize]
    omega
  rw [Int16.lt_iff_toInt_lt, length, Int16.toInt_zero, Int.natCast_pos, List.length_pos_iff]
  simp [bufferSize]

theorem serve_nonempty (func : Bytes → Bytes) {payload : Bytes} (some : payload ≠ []) :
    UdpServer.serve func payload = [func (text payload)] :=
  if_pos (recvLen_pos.mpr some)

theorem serve_empty (func : Bytes → Bytes) : UdpServer.serve func [] = [] :=
  if_neg (fun pos => recvLen_pos.mp pos rfl)

/-! ### One client -/

/-- A result that is empty leaves the last one in the buffer. -/
def answer (func : Bytes → Bytes) (outputBuf line : Bytes) : Bytes :=
  UdpClient.output (func (text line)) outputBuf

/-- What a client prints that calls the function itself, and what it has last got of it. -/
def conversation (func : Bytes → Bytes) (inputs : List Bytes) : Bytes × List Bytes :=
  inputs.foldl (fun sofar line =>
    if line = quit then (sofar.1, sofar.2 ++ [ascii "quit!"])
    else (answer func sofar.1 line, sofar.2 ++ [saying (answer func sofar.1 line)])) ([], [])

inductive Converses (func : Bytes → Bytes) (client : Client) : List Bytes → List Bytes → Prop where
  | idle (prompt : client.prompt ≠ .waiting)
      (told : (client.outputBuf, client.printed) = conversation func client.inputs) :
      Converses func client [] []
  | asked (earlier : List Bytes) (line : Bytes) (prompt : client.prompt = .waiting)
      (inputs : client.inputs = earlier ++ [line]) (stays : line ≠ quit)
      (told : (client.outputBuf, client.printed) = conversation func earlier) :
      Converses func client [line] []
  | answered (earlier : List Bytes) (line : Bytes) (prompt : client.prompt = .waiting)
      (inputs : client.inputs = earlier ++ [line]) (stays : line ≠ quit)
      (told : (client.outputBuf, client.printed) = conversation func earlier) (some : line ≠ []) :
      Converses func client [] [func (text line)]
  | ignored (earlier : List Bytes) (prompt : client.prompt = .waiting)
      (inputs : client.inputs = earlier ++ [[]])
      (told : (client.outputBuf, client.printed) = conversation func earlier) :
      Converses func client [] []

section Client

variable {func : Bytes → Bytes} {client : Client} {questions answers : List Bytes}

theorem conversation_concat (func : Bytes → Bytes) (inputs : List Bytes) (line : Bytes) :
    conversation func (inputs ++ [line]) =
      if line = quit then
        ((conversation func inputs).1, (conversation func inputs).2 ++ [ascii "quit!"])
      else
        (answer func (conversation func inputs).1 line, (conversation func inputs).2 ++
          [saying (answer func (conversation func inputs).1 line)]) := by
  rw [conversation, List.foldl_concat]
  rfl

theorem Converses.input (converses : Converses func client questions answers)
    (reading : client.prompt = .reading) (isInit : client.isInit = true) (line : Bytes) :
    Converses func (client.input line).1 (questions ++ (client.input line).2) answers := by
  cases converses with
  | idle prompt told =>
      simp only [Client.input]
      by_cases leaves : line = quit
      · simp only [leaves, if_true]
        apply Converses.idle
        · simp
        · rw [conversation_concat, if_pos rfl, ← told]
      · simp only [leaves, if_false, isInit, if_true]
        exact .asked client.inputs line rfl rfl leaves told
  | asked earlier line prompt => simp [reading] at prompt
  | answered earlier line prompt => simp [reading] at prompt
  | ignored earlier prompt => simp [reading] at prompt

theorem Converses.serve {before after : List Bytes} {payload : Bytes}
    (converses : Converses func client (before ++ payload :: after) answers) :
    Converses func client (before ++ after) (answers ++ UdpServer.serve func payload) := by
  generalize under : before ++ payload :: after = questions at converses
  cases converses with
  | idle prompt told => simp at under
  | answered earlier line prompt inputs stays told some => simp at under
  | ignored earlier prompt inputs told => simp at under
  | asked earlier line prompt inputs stays told =>
      obtain ⟨rfl, rfl, rfl⟩ : before = [] ∧ payload = line ∧ after = [] := by
        cases before with
        | nil => simpa using under
        | cons first rest => simp at under
      by_cases some : payload = []
      · subst some
        rw [serve_empty]
        exact .ignored earlier prompt inputs told
      · rw [serve_nonempty func some]
        exact .answered earlier payload prompt inputs stays told some

theorem Converses.output {before after : List Bytes} {payload : Bytes}
    (converses : Converses func client questions (before ++ payload :: after)) :
    Converses func (client.output payload) questions (before ++ after) := by
  generalize under : before ++ payload :: after = answers at converses
  cases converses with
  | idle prompt told => simp at under
  | asked earlier line prompt inputs stays told => simp at under
  | ignored earlier prompt inputs told => simp at under
  | answered earlier line prompt inputs stays told some =>
      obtain ⟨rfl, rfl, rfl⟩ : before = [] ∧ payload = func (text line) ∧ after = [] := by
        cases before with
        | nil => simpa using under
        | cons first rest => simp at under
      apply Converses.idle
      · simp [Client.output]
      · obtain ⟨buf, printed⟩ := Prod.mk.inj told
        simp only [Client.output, inputs, conversation_concat, if_neg stays, buf, printed]
        rfl

theorem Converses.tells (converses : Converses func client questions answers) :
    (client.prompt ≠ .waiting → client.printed = (conversation func client.inputs).2) ∧
      (client.prompt = .waiting → ∃ earlier line, client.inputs = earlier ++ [line] ∧
        line ≠ quit ∧ client.printed = (conversation func earlier).2) := by
  cases converses with
  | idle prompt told =>
      exact ⟨fun _ => (Prod.mk.inj told).2, fun waiting => absurd waiting prompt⟩
  | asked earlier line prompt inputs stays told =>
      exact ⟨fun ready => absurd prompt ready,
        fun _ => ⟨earlier, line, inputs, stays, (Prod.mk.inj told).2⟩⟩
  | answered earlier line prompt inputs stays told some =>
      exact ⟨fun ready => absurd prompt ready,
        fun _ => ⟨earlier, line, inputs, stays, (Prod.mk.inj told).2⟩⟩
  | ignored earlier prompt inputs told =>
      exact ⟨fun ready => absurd prompt ready,
        fun _ => ⟨earlier, [], inputs, by decide, (Prod.mk.inj told).2⟩⟩

theorem Converses.silent (converses : Converses func client questions answers)
    (empty : client.inputs.getLast? = some []) :
    answers = [] := by
  cases converses with
  | idle prompt told => rfl
  | asked earlier line prompt inputs stays told => rfl
  | ignored earlier prompt inputs told => rfl
  | answered earlier line prompt inputs stays told nonempty =>
      rw [inputs, List.getLast?_concat, Option.some.injEq] at empty
      exact absurd empty nonempty

theorem Converses.pending (converses : Converses func client questions answers)
    (waiting : client.prompt = .waiting) (nonempty : client.inputs.getLast? ≠ some []) :
    (∃ answer, answers = [answer]) ∨ ∃ line, line ≠ [] ∧ questions = [line] ∧ answers = [] := by
  cases converses with
  | idle prompt told => exact absurd waiting prompt
  | answered earlier line prompt inputs stays told some => exact .inl ⟨_, rfl⟩
  | asked earlier line prompt inputs stays told =>
      refine .inr ⟨line, ?_, rfl, rfl⟩
      rintro rfl
      rw [inputs, List.getLast?_concat] at nonempty
      exact nonempty rfl
  | ignored earlier prompt inputs told =>
      rw [inputs, List.getLast?_concat] at nonempty
      exact absurd rfl nonempty

end Client

/-! ### All clients -/

def pending (network : Network Datagram) (address : SockaddrIn) : List Bytes :=
  (network.underway.filter (·.peer = address)).map Datagram.payload

section Pending

variable {network : Network Datagram} {address : SockaddrIn} {datagram : Datagram} {index : Nat}

theorem pending_send (network : Network Datagram) (peer address : SockaddrIn)
    (payloads : List Bytes) :
    pending (network.send (payloads.map fun payload => ⟨peer, payload⟩)) address =
      pending network address ++ if peer = address then payloads else [] := by
  have own : ((payloads.map fun payload => (⟨peer, payload⟩ : Datagram)).filter
      (·.peer = address)).map Datagram.payload = if peer = address then payloads else [] := by
    induction payloads with
    | nil => simp
    | cons payload payloads ih =>
        by_cases same : peer = address
        · simp only [same, if_true] at ih ⊢
          simp [ih]
        · simp only [same, if_false] at ih ⊢
          simp [same]
  rw [← own, pending, pending, Network.send, List.filter_append, List.map_append]

theorem pending_arrive_other (underway : network.underway[index]? = some datagram)
    (other : datagram.peer ≠ address) :
    pending (network.arrive index datagram) address = pending network address := by
  rw [pending, Network.filter_arrive_other _ underway (decide_eq_false other)]
  rfl

theorem pending_arrive_own (underway : network.underway[index]? = some datagram)
    (own : datagram.peer = address) : ∃ before after,
      pending network address = before ++ datagram.payload :: after ∧
        pending (network.arrive index datagram) address = before ++ after := by
  obtain ⟨before, after, here, there⟩ :=
    Network.filter_arrive_own (·.peer = address) underway (decide_eq_true own)
  refine ⟨before.map Datagram.payload, after.map Datagram.payload, ?_, ?_⟩
  · rw [pending, here, List.map_append, List.map_cons]
  · rw [pending, there, List.map_append]

end Pending

namespace Service

variable {func : Bytes → Bytes} {sockets : List (SockaddrIn × Bool)} {service next : Service}
  {event : Event}

def Faithful : Event → Prop
  | .mishapToServer _ => False
  | .mishapToClients _ => False
  | _ => True

structure Inv (func : Bytes → Bytes) (sockets : List (SockaddrIn × Bool)) (service : Service) :
    Prop where
  distinct : (sockets.map Prod.fst).Nodup
  sockets_eq : service.clients.map (fun client => (client.address, client.isInit)) = sockets
  each : ∀ client ∈ service.clients, client.isInit = true → Converses func client
    (pending service.toServer client.address) (pending service.toClients client.address)

theorem start_inv (func : Bytes → Bytes) (distinct : (sockets.map Prod.fst).Nodup) :
    Inv func sockets (start sockets) where
  distinct := distinct
  sockets_eq := by
    rw [start, List.map_map]
    exact List.map_id sockets
  each := by
    intro client member isInit
    obtain ⟨socket, -, rfl⟩ := List.mem_map.mp member
    exact .idle (by simp) rfl

theorem addresses_nodup (distinct : (sockets.map Prod.fst).Nodup)
    (same : service.clients.map (fun client => (client.address, client.isInit)) = sockets) :
    (service.clients.map Client.address).Nodup := by
  rw [← same, List.map_map] at distinct
  exact distinct

theorem input_kept (client : Client) (line : Bytes) :
    ((client.input line).1.address, (client.input line).1.isInit) =
      (client.address, client.isInit) := by
  simp only [Client.input]
  split
  · rfl
  · split <;> rfl

theorem step_inv (service : Service) (event : Event) (next : Service)
    (inv : Inv func sockets service) (faithful : Faithful event)
    (stepped : service.step func event = .ok next) : Inv func sockets next := by
  have addresses := addresses_nodup inv.distinct inv.sockets_eq
  cases steps_of_ok stepped with
  | input index line client present reading =>
      have kept := input_kept client line
      refine ⟨inv.distinct, ?_, ?_⟩
      · rw [← inv.sockets_eq]
        exact Distinct.keys_set present kept
      · obtain ⟨address, isInit⟩ := Prod.mk.inj kept
        simp only [pending_send]
        refine Distinct.forall_mem_set_of_keys addresses present ?_ ?_
        · rw [address, isInit, if_pos rfl]
          intro initialised
          exact (inv.each client (List.mem_of_getElem? present) initialised).input reading
            initialised line
        · intro other member different initialised
          rw [if_neg (Ne.symm different), List.append_nil]
          exact inv.each other member initialised
  | serve index datagram underway =>
      refine ⟨inv.distinct, inv.sockets_eq, ?_⟩
      intro client member initialised
      have converses := inv.each client member initialised
      simp only [pending_send]
      by_cases own : datagram.peer = client.address
      · obtain ⟨before, after, here, there⟩ := pending_arrive_own underway own
        rw [here] at converses
        rw [there, if_pos own]
        exact converses.serve
      · rw [pending_arrive_other underway own, if_neg own, List.append_nil]
        exact converses
  | output index place client datagram present underway waiting own =>
      refine ⟨inv.distinct, ?_, ?_⟩
      · rw [← inv.sockets_eq]
        exact Distinct.keys_set present rfl
      · refine Distinct.forall_mem_set_of_keys addresses present ?_ ?_
        · intro initialised
          have converses := inv.each client (List.mem_of_getElem? present) initialised
          obtain ⟨before, after, here, there⟩ := pending_arrive_own underway own
          rw [here] at converses
          have answered := converses.output
          rw [← there] at answered
          exact answered
        · intro other member different initialised
          have apart : datagram.peer ≠ other.address := by
            rw [own]
            exact Ne.symm different
          rw [pending_arrive_other underway apart]
          exact inv.each other member initialised
  | mishapToServer mishap => cases faithful
  | mishapToClients mishap => cases faithful

theorem run_inv (distinct : (sockets.map Prod.fst).Nodup) {events : List Event} {last : Service}
    (faithful : ∀ event ∈ events, Faithful event)
    (ran : Runs.run (step func) (start sockets) events = .ok last) : Inv func sockets last :=
  Runs.run_keeps step_inv (start_inv func distinct) faithful ran

/-- Where the network neither loses nor doubles datagrams, each client prints what it would print if
it called the function itself. -/
theorem run_converses (func : Bytes → Bytes) (sockets : List (SockaddrIn × Bool))
    (events : List Event) (last : Service) (distinct : (sockets.map Prod.fst).Nodup)
    (faithful : ∀ event ∈ events, Faithful event)
    (ran : Runs.run (step func) (start sockets) events = .ok last) :
    ∀ client ∈ last.clients, client.isInit = true →
      (client.prompt ≠ .waiting → client.printed = (conversation func client.inputs).2) ∧
        (client.prompt = .waiting → ∃ earlier line, client.inputs = earlier ++ [line] ∧
          line ≠ quit ∧ client.printed = (conversation func earlier).2) := by
  intro client member isInit
  have inv : Inv func sockets last := run_inv distinct faithful ran
  exact (inv.each client member isInit).tells

/-! ### Which questions are answered -/

def Returned (index : Nat) (service : Service) : Prop :=
  ∃ client, service.clients[index]? = some client ∧ client.prompt ≠ .waiting

def Waits (index : Nat) (line : Bytes) (service : Service) : Prop :=
  ∃ client, service.clients[index]? = some client ∧ client.isInit = true ∧
    client.prompt = .waiting ∧ client.inputs.getLast? = some line

theorem exists_underway {network : Network Datagram} {address : SockaddrIn} {payload : Bytes}
    {rest : List Bytes} (some : pending network address = payload :: rest) :
    ∃ (index : Nat) (datagram : Datagram), network.underway[index]? = Option.some datagram ∧
      datagram.peer = address := by
  have member : payload ∈ pending network address := by simp [some]
  obtain ⟨datagram, chosen, -⟩ := List.mem_map.mp member
  rw [List.mem_filter, decide_eq_true_eq] at chosen
  obtain ⟨index, present⟩ := List.mem_iff_getElem?.mp chosen.1
  exact ⟨index, datagram, present, chosen.2⟩

theorem can_output {index : Nat} {client : Client} {payload : Bytes} {rest : List Bytes}
    (present : service.clients[index]? = some client) (waiting : client.prompt = .waiting)
    (answered : pending service.toClients client.address = payload :: rest) :
    Runs.CanReach (step func) (fun _ event => Faithful event) (Returned index) service := by
  obtain ⟨place, datagram, underway, own⟩ := exists_underway answered
  have made : ∃ next, service.step func (.output index place) = .ok next ∧ Returned index next := by
    simp only [step, present, underway, waiting, own, and_self, if_true]
    refine ⟨_, rfl, client.output datagram.payload, ?_, by simp [Client.output]⟩
    exact List.getElem?_set_self (List.getElem?_eq_some_iff.mp present).1
  obtain ⟨next, stepped, returned⟩ := made
  refine .after ?_ stepped (.here returned)
  trivial

theorem Inv.can_return (inv : Inv func sockets service) {index : Nat} {client : Client}
    (present : service.clients[index]? = some client) (isInit : client.isInit = true)
    (waiting : client.prompt = .waiting) (nonempty : client.inputs.getLast? ≠ some []) :
    Runs.CanReach (step func) (fun _ event => Faithful event) (Returned index) service := by
  have converses := inv.each client (List.mem_of_getElem? present) isInit
  rcases converses.pending waiting nonempty with ⟨answer, answered⟩ | ⟨line, some, asked, none⟩
  · exact can_output present waiting answered
  · obtain ⟨place, datagram, underway, own⟩ := exists_underway asked
    have made : ∃ next, service.step func (.serve place) = .ok next ∧
        next.clients = service.clients ∧
        pending next.toClients client.address = [func (text line)] := by
      obtain ⟨before, after, here, -⟩ := pending_arrive_own underway own
      have payload : datagram.payload = line := by
        rw [asked] at here
        cases before with
        | nil => exact (List.cons.inj here).1.symm
        | cons first rest => simp at here
      simp only [step, underway]
      refine ⟨_, rfl, rfl, ?_⟩
      rw [pending_send, none, if_pos own, payload, serve_nonempty func some, List.nil_append]
    obtain ⟨next, stepped, clients, answered⟩ := made
    refine .after ?_ stepped (can_output (clients ▸ present) waiting answered)
    trivial

theorem step_waits {index : Nat} (service : Service) (event : Event) (next : Service)
    (stuck : Inv func sockets service ∧ Waits index [] service) (faithful : Faithful event)
    (stepped : service.step func event = .ok next) :
    Inv func sockets next ∧ Waits index [] next := by
  obtain ⟨inv, client, present, isInit, waiting, empty⟩ := stuck
  refine ⟨step_inv service event next inv faithful stepped, ?_⟩
  have silent := (inv.each client (List.mem_of_getElem? present) isInit).silent empty
  cases steps_of_ok stepped with
  | input other line changed there reading =>
      have different : other ≠ index := by
        rintro rfl
        cases present.symm.trans there
        rw [waiting] at reading
        cases reading
      exact ⟨client, (List.getElem?_set_ne different).trans present, isInit, waiting, empty⟩
  | serve place datagram underway => exact ⟨client, present, isInit, waiting, empty⟩
  | output other place changed datagram there underway waits own =>
      have different : other ≠ index := by
        rintro rfl
        cases present.symm.trans there
        obtain ⟨before, after, here, -⟩ := pending_arrive_own underway own
        rw [silent] at here
        simp at here
      exact ⟨client, (List.getElem?_set_ne different).trans present, isInit, waiting, empty⟩
  | mishapToServer mishap => cases faithful
  | mishapToClients mishap => cases faithful

/-- A client that waits can get its answer just when its question was not an empty line, whatever the
function is. -/
theorem run_can_return_iff (func : Bytes → Bytes) (sockets : List (SockaddrIn × Bool))
    (events : List Event) (last : Service) (distinct : (sockets.map Prod.fst).Nodup)
    (faithful : ∀ event ∈ events, Faithful event)
    (ran : Runs.run (step func) (start sockets) events = .ok last) (index : Nat) (line : Bytes)
    (waits : last.Waits index line) :
    Runs.CanReach (step func) (fun _ event => Faithful event) (Returned index) last ↔
      line ≠ [] := by
  have inv : Inv func sockets last := run_inv distinct faithful ran
  constructor
  · rintro ⟨later, after, permits, more, client, present, returned⟩ rfl
    have kept : Inv func sockets after ∧ Waits index [] after := by
      refine Runs.run_permitted (motive := fun _ service =>
        Inv func sockets service ∧ Waits index [] service) ?_ ⟨inv, waits⟩ permits more
      intro _ service event next stuck allowed stepped
      exact step_waits service event next stuck allowed stepped
    obtain ⟨-, other, there, -, waiting, -⟩ := kept
    cases present.symm.trans there
    exact returned waiting
  · intro nonempty
    obtain ⟨client, present, isInit, waiting, asked⟩ := waits
    apply inv.can_return present isInit waiting
    rw [asked]
    simpa using nonempty

/-! ### Over any network -/

/-- The client at the address has read the line and sent it: it is initialised and did not quit. -/
def Asked (sockets : List (SockaddrIn × Bool)) (events : List Event) (address : SockaddrIn)
    (line : Bytes) : Prop :=
  ∃ index, Event.input index line ∈ events ∧ sockets[index]? = some (address, true) ∧ line ≠ quit

def Told (func : Bytes → Bytes) (sockets : List (SockaddrIn × Bool)) (events : List Event)
    (address : SockaddrIn) (outputBuf : Bytes) : Prop :=
  outputBuf = [] ∨ ∃ line, Asked sockets events address line ∧ outputBuf = text (func (text line))

theorem Asked.mono {events : List Event} {address : SockaddrIn} {line : Bytes}
    (asked : Asked sockets events address line) (event : Event) :
    Asked sockets (events ++ [event]) address line := by
  obtain ⟨index, member, sent⟩ := asked
  exact ⟨index, List.mem_append_left _ member, sent⟩

theorem Told.mono {events : List Event} {address : SockaddrIn} {outputBuf : Bytes}
    (told : Told func sockets events address outputBuf) (event : Event) :
    Told func sockets (events ++ [event]) address outputBuf :=
  told.imp_right fun ⟨line, asked, same⟩ => ⟨line, asked.mono event, same⟩

def Says (func : Bytes → Bytes) (sockets : List (SockaddrIn × Bool)) (events : List Event)
    (client : Client) : Prop :=
  Told func sockets events client.address client.outputBuf ∧
    ∀ line ∈ client.printed, line = ascii "quit!" ∨
      ∃ outputBuf, Told func sockets events client.address outputBuf ∧ line = saying outputBuf

theorem Says.mono {events : List Event} {client : Client}
    (holds : Says func sockets events client) (event : Event) :
    Says func sockets (events ++ [event]) client := by
  refine ⟨holds.1.mono event, fun line printed => ?_⟩
  exact (holds.2 line printed).imp_right fun ⟨buf, told, same⟩ => ⟨buf, told.mono event, same⟩

structure Honest (func : Bytes → Bytes) (sockets : List (SockaddrIn × Bool)) (events : List Event)
    (service : Service) : Prop where
  distinct : (sockets.map Prod.fst).Nodup
  sockets_eq : service.clients.map (fun client => (client.address, client.isInit)) = sockets
  toServer : service.toServer.Genuine
  toClients : service.toClients.Genuine
  asked : ∀ datagram ∈ service.toServer.sent, Asked sockets events datagram.peer datagram.payload
  answered : ∀ datagram ∈ service.toClients.sent,
    ∃ line, Asked sockets events datagram.peer line ∧ datagram.payload = func (text line)
  each : ∀ client ∈ service.clients, Says func sockets events client

theorem start_honest (func : Bytes → Bytes) (distinct : (sockets.map Prod.fst).Nodup) :
    Honest func sockets [] (start sockets) where
  distinct := distinct
  sockets_eq := (start_inv func distinct).sockets_eq
  toServer := Network.empty_genuine
  toClients := Network.empty_genuine
  asked := by simp [start, Network.empty]
  answered := by simp [start, Network.empty]
  each := by
    intro client member
    obtain ⟨socket, -, rfl⟩ := List.mem_map.mp member
    exact ⟨.inl rfl, by simp⟩

theorem mem_send {network : Network Datagram} {peer : SockaddrIn} {payloads : List Bytes}
    {datagram : Datagram}
    (member : datagram ∈
      (network.send (payloads.map fun payload => ⟨peer, payload⟩)).sent) :
    datagram ∈ network.sent ∨ datagram.peer = peer ∧ datagram.payload ∈ payloads := by
  rcases List.mem_append.mp member with old | new
  · exact .inl old
  · obtain ⟨payload, inside, rfl⟩ := List.mem_map.mp new
    exact .inr ⟨rfl, inside⟩

theorem input_sends {client : Client} {line payload : Bytes}
    (sent : payload ∈ (client.input line).2) :
    client.isInit = true ∧ line ≠ quit ∧ payload = line := by
  simp only [Client.input] at sent
  split at sent
  · cases sent
  · rename_i notQuit
    split at sent
    · rename_i isInit
      exact ⟨isInit, notQuit, List.mem_singleton.mp sent⟩
    · cases sent

theorem Says.input {events : List Event} {client : Client}
    (holds : Says func sockets events client) (event : Event) (line : Bytes) :
    Says func sockets (events ++ [event]) (client.input line).1 := by
  have later := holds.mono event
  simp only [Client.input]
  split
  · refine ⟨later.1, fun said printed => ?_⟩
    rcases List.mem_append.mp printed with old | new
    · exact later.2 said old
    · exact .inl (List.mem_singleton.mp new)
  · split
    · exact later
    · refine ⟨later.1, fun said printed => ?_⟩
      rcases List.mem_append.mp printed with old | new
      · exact later.2 said old
      · exact .inr ⟨_, later.1, List.mem_singleton.mp new⟩

theorem Says.output {events : List Event} {client : Client} {payload line : Bytes}
    (holds : Says func sockets events client) (event : Event)
    (asked : Asked sockets events client.address line) (same : payload = func (text line)) :
    Says func sockets (events ++ [event]) (client.output payload) := by
  have later := holds.mono event
  have told : Told func sockets (events ++ [event]) client.address
      (UdpClient.output payload client.outputBuf) := by
    rw [UdpClient.output]
    split
    · exact .inr ⟨line, asked.mono event, by rw [same]⟩
    · exact later.1
  refine ⟨told, fun said printed => ?_⟩
  rcases List.mem_append.mp printed with old | new
  · exact later.2 said old
  · exact .inr ⟨_, told, List.mem_singleton.mp new⟩

theorem step_honest {events : List Event} (honest : Honest func sockets events service)
    (stepped : service.step func event = .ok next) :
    Honest func sockets (events ++ [event]) next := by
  have asked : ∀ datagram ∈ service.toServer.sent,
      Asked sockets (events ++ [event]) datagram.peer datagram.payload :=
    fun datagram member => (honest.asked datagram member).mono event
  have answered : ∀ datagram ∈ service.toClients.sent, ∃ line,
      Asked sockets (events ++ [event]) datagram.peer line ∧
        datagram.payload = func (text line) := by
    intro datagram member
    obtain ⟨line, before, same⟩ := honest.answered datagram member
    exact ⟨line, before.mono event, same⟩
  have each : ∀ client ∈ service.clients, Says func sockets (events ++ [event]) client :=
    fun client member => (honest.each client member).mono event
  have addresses := addresses_nodup honest.distinct honest.sockets_eq
  cases steps_of_ok stepped with
  | input index line client present reading =>
      refine ⟨honest.distinct, ?_, honest.toServer.send _, honest.toClients, ?_, answered, ?_⟩
      · rw [← honest.sockets_eq]
        exact Distinct.keys_set present (input_kept client line)
      · intro datagram member
        rcases mem_send member with old | ⟨peer, payload⟩
        · exact asked datagram old
        · obtain ⟨isInit, notQuit, same⟩ := input_sends payload
          rw [peer, same]
          refine ⟨index, by simp, ?_, notQuit⟩
          rw [← honest.sockets_eq, List.getElem?_map, present, ← isInit]
          rfl
      · refine Distinct.forall_mem_set_of_keys addresses present ?_ ?_
        · exact (honest.each client (List.mem_of_getElem? present)).input _ line
        · exact fun other member _ => each other member
  | serve index datagram underway =>
      refine ⟨honest.distinct, honest.sockets_eq, honest.toServer.arrive underway,
        honest.toClients.send _, asked, ?_, each⟩
      intro result member
      rcases mem_send member with old | ⟨peer, payload⟩
      · exact answered result old
      · have heard := honest.toServer datagram
          (List.mem_append_right _ (List.mem_of_getElem? underway))
        rw [UdpServer.serve] at payload
        split at payload
        · exact ⟨datagram.payload, peer ▸ asked datagram heard, List.mem_singleton.mp payload⟩
        · cases payload
  | output index place client datagram present underway waiting own =>
      have sent := honest.toClients datagram
        (List.mem_append_right _ (List.mem_of_getElem? underway))
      obtain ⟨line, before, same⟩ := honest.answered datagram sent
      refine ⟨honest.distinct, ?_, honest.toServer, honest.toClients.arrive underway, asked,
        answered, ?_⟩
      · rw [← honest.sockets_eq]
        exact Distinct.keys_set present rfl
      · refine Distinct.forall_mem_set_of_keys addresses present ?_ ?_
        · exact (honest.each client (List.mem_of_getElem? present)).output _ (own ▸ before) same
        · exact fun other member _ => each other member
  | mishapToServer mishap =>
      refine ⟨honest.distinct, honest.sockets_eq, honest.toServer.befall mishap, honest.toClients,
        ?_, answered, each⟩
      simpa using asked
  | mishapToClients mishap =>
      refine ⟨honest.distinct, honest.sockets_eq, honest.toServer,
        honest.toClients.befall mishap, asked, ?_, each⟩
      simpa using answered

/-- Whatever becomes of the datagrams, a client prints answers to its own questions only. -/
theorem run_tells_own (func : Bytes → Bytes) (sockets : List (SockaddrIn × Bool))
    (events : List Event) (last : Service) (distinct : (sockets.map Prod.fst).Nodup)
    (ran : Runs.run (step func) (start sockets) events = .ok last) :
    ∀ client ∈ last.clients, ∀ line ∈ client.printed, line = ascii "quit!" ∨
      ∃ outputBuf, Told func sockets events client.address outputBuf ∧ line = saying outputBuf := by
  have honest : Honest func sockets events last := by
    apply Runs.run_history (start_honest func distinct) _ ran
    intro events service event next before stepped
    exact step_honest before stepped
  exact fun client member => (honest.each client member).2

/-! Two clients of the server of `test.cc`. -/

def howAreYou (msg : Bytes) : Bytes :=
  if msg = ascii "How are you?" then ascii "I am fine!" else ascii "I dont understand!"

def pair : List (SockaddrIn × Bool) :=
  [(⟨⟨10, 0, 0, 1⟩, 5000⟩, true), (⟨⟨10, 0, 0, 2⟩, 5000⟩, true)]

def asks : List Event :=
  [.input 0 (ascii "How are you?"), .input 1 (ascii "hi"), .serve 1, .serve 0, .output 0 1,
    .input 0 (ascii "quit"), .output 1 0, .input 1 (ascii "hi")]

theorem run_converses_asks :
    ∃ last, Runs.run (step howAreYou) (start pair) asks = .ok last ∧
      ∀ client ∈ last.clients, client.isInit = true →
        (client.prompt ≠ .waiting → client.printed = (conversation howAreYou client.inputs).2) ∧
          (client.prompt = .waiting → ∃ earlier line, client.inputs = earlier ++ [line] ∧
            line ≠ quit ∧ client.printed = (conversation howAreYou earlier).2) := by
  have runs : (Runs.run (step howAreYou) (start pair) asks).isOk = true := by decide +kernel
  obtain ⟨last, ran⟩ := Runs.run_of_isOk runs
  refine ⟨last, ran, run_converses howAreYou pair asks last (by decide) ?_ ran⟩
  simp [asks, Faithful]

theorem run_can_return_iff_asks :
    ∃ last, Runs.run (step howAreYou) (start pair) asks = .ok last ∧
      (Runs.CanReach (step howAreYou) (fun _ event => Faithful event) (Returned 1) last ↔
        ascii "hi" ≠ []) := by
  have waiting : (Runs.run (step howAreYou) (start pair) asks).toOption.map (fun last =>
      last.clients[1]?.map fun client =>
        (client.isInit, client.prompt, client.inputs.getLast?)) =
      some (some (true, .waiting, some (ascii "hi"))) := by
    decide +kernel
  cases ran : Runs.run (step howAreYou) (start pair) asks with
  | error stop =>
      rw [ran] at waiting
      cases waiting
  | ok last =>
      rw [ran] at waiting
      simp only [Except.toOption, Option.map_some, Option.some.injEq] at waiting
      obtain ⟨client, present, same⟩ := Option.map_eq_some_iff.mp waiting
      simp only [Prod.mk.injEq] at same
      refine ⟨last, rfl, ?_⟩
      refine run_can_return_iff howAreYou pair asks last (by decide) ?_ ran 1 (ascii "hi") ?_
      · simp [asks, Faithful]
      · exact ⟨client, present, same⟩

/-- An answer that comes twice is taken for the answer to the next question. -/
def asksTwice : List Event :=
  [.input 0 (ascii "How are you?"), .mishapToServer (.double 0), .serve 0, .serve 0, .output 0 0,
    .input 0 (ascii "hi"), .mishapToServer (.lose 0), .output 0 0]

theorem run_tells_own_asksTwice :
    ∃ last, Runs.run (step howAreYou) (start pair) asksTwice = .ok last ∧
      ∀ client ∈ last.clients, ∀ line ∈ client.printed, line = ascii "quit!" ∨
        ∃ outputBuf, Told howAreYou pair asksTwice client.address outputBuf ∧
          line = saying outputBuf := by
  have runs : (Runs.run (step howAreYou) (start pair) asksTwice).isOk = true := by decide +kernel
  obtain ⟨last, ran⟩ := Runs.run_of_isOk runs
  exact ⟨last, ran, run_tells_own howAreYou pair asksTwice last (by decide) ran⟩

end Service

end LearnInternet.Udp
