import LearnInternet.Calculator.Input
import LearnInternet.Calculator.Session
import LearnInternet.Calculator.Waiting
import LearnInternet.Lib.Simulation

/-!
The two calculator programs and the connection between them. The client writes a request for each
expression it reads and waits for the reply; both ends read any part of what is in flight to them.
-/

namespace LearnInternet.Calculator

open LearnInternet CalculatorServer

/-- Where `CalculatorClient::run` is: at `getline`, in its wait, or left by an exception. -/
inductive Prompt where
  | reading
  | waiting
  | left (abort : Abort)
  deriving DecidableEq

/-- `CalculatorServer::run` between two reads of its `obtain`, as long as it has no ending. -/
structure Serving where
  server : ProtocolServer
  memory : Nat → Info
  ending : Option Ending

structure Talk where
  client : ProtocolClient
  prompt : Prompt
  printed : List Result
  serving : Serving
  /-- The bytes in flight to the server, and to the client. -/
  requests : Bytes
  replies : Bytes

namespace Talk

inductive Event where
  | typed (line : Bytes)
  | serverReads (chunk : Chunk)
  /-- `leftover` is what the fresh `Result` of `deserialize` holds. -/
  | clientReads (chunk : Chunk) (leftover : Result)
  /-- The client is gone and the server has read all it sent. -/
  | serverSeesEnd
  deriving DecidableEq

inductive Stuck where
  | blocked
  deriving DecidableEq

/-- A read in `obtain`, and what `run` does up to the next. -/
def serve (json : JsonCpp) (serving : Serving) (chunk : Chunk) : Serving :=
  let sock := serving.server.sock
  let buff := serving.server.buff ++ Socket.cText chunk
  match readFrame (ProtocolServer.deserialize json (serving.memory 0)) buff with
  | .error abort => ⟨⟨buff, sock⟩, serving.memory, some (.aborted abort)⟩
  | .ok none => ⟨⟨buff, sock⟩, serving.memory, none⟩
  | .ok (some (message, buff)) =>
      match compute message with
      | none => ⟨⟨buff, sock⟩, serving.memory, some .undefinedOperation⟩
      | some result =>
          let delivered := (ProtocolServer.mk buff sock).deliver json result
          ⟨delivered.2, fun round => serving.memory (round + 1),
            if delivered.1 then none else some .returned⟩

/-- What a socket has been given for the wire since it had given `before`. -/
def added (before after : Socket) : Bytes := after.wire.drop before.wire.length

def step (json : JsonCpp) (talk : Talk) (event : Event) : Except Stuck Talk :=
  match event, talk.prompt with
  | .typed line, .reading =>
      match CalculatorClient.ask json talk.client line with
      | (.error abort, client) => .ok { talk with client := client, prompt := .left abort }
      | (.ok _, client) =>
          .ok { talk with
            client := client
            prompt := .waiting
            requests := talk.requests ++ added talk.client.sock client.sock }
  | .clientReads chunk leftover, .waiting =>
      if chunk.bytes <+: talk.replies then
        let sock := { talk.client.sock with incoming := [.data chunk] }
        let obtained := (ProtocolClient.mk talk.client.buff sock).obtain json leftover ⟨0⟩
        let replies := talk.replies.drop chunk.bytes.length
        match obtained.result with
        | .error abort =>
            .ok { talk with client := obtained.client, prompt := .left abort, replies := replies }
        | .ok false => .ok { talk with client := obtained.client, replies := replies }
        | .ok true =>
            .ok { talk with
              client := obtained.client
              prompt := .reading
              printed := talk.printed ++ [obtained.value]
              replies := replies }
      else .error .blocked
  | .serverReads chunk, _ =>
      if talk.serving.ending = none ∧ chunk.bytes <+: talk.requests then
        let serving := serve json talk.serving chunk
        .ok { talk with
          serving := serving
          requests := talk.requests.drop chunk.bytes.length
          replies := talk.replies ++ added talk.serving.server.sock serving.server.sock }
      else .error .blocked
  | .serverSeesEnd, .left _ =>
      if talk.serving.ending = none ∧ talk.requests = [] then
        .ok { talk with serving := { talk.serving with ending := some .returned } }
      else .error .blocked
  | _, _ => .error .blocked

def start (memory : Nat → Info) : Talk :=
  ⟨⟨[], Socket.ofChunks []⟩, .reading, [], ⟨⟨[], Socket.ofChunks []⟩, memory, none⟩, [], []⟩

def asks (event : Event) : List Info :=
  match event with
  | .typed line =>
      match CalculatorClient.readInfo line with
      | .ok info => [info]
      | .error _ => []
  | _ => []

/-- A buffer does not end within the three bytes behind its first line break. -/
def Apart (text : Bytes) : Prop :=
  ∀ index, Text.findFirstOf crlf text = some index → index + 4 ≤ text.length

instance (text : Bytes) : Decidable (Apart text) :=
  inferInstanceAs (Decidable (∀ index ∈ Text.findFirstOf crlf text, index + 4 ≤ text.length))

/-- No read ends just behind the digits of a frame, what is typed is no division by zero, and
jsoncpp reads back what it writes for it and for its answer. -/
def Calm (json : JsonCpp) (talk : Talk) (event : Event) : Prop :=
  match event with
  | .typed line => ∀ info, CalculatorClient.readInfo line = .ok info →
      json.Writes info.object ∧ json.Writes (CalculatorServer.answer info).object ∧
        ¬DividesByZero info
  | .serverReads chunk => Apart (talk.serving.server.buff ++ chunk.bytes)
  | .clientReads chunk _ => Apart (talk.client.buff ++ chunk.bytes)
  | .serverSeesEnd => True

/-! The server of a conversation is `CalculatorServer::run`. -/

def serveAll (json : JsonCpp) (serving : Serving) : List Chunk → Serving
  | [] => serving
  | chunk :: chunks =>
      match serving.ending with
      | some _ => serving
      | none => serveAll json (serve json serving chunk) chunks

section Serves

variable {json : JsonCpp}

theorem serveAll_ended {serving : Serving} {ending : Ending} (ended : serving.ending = some ending)
    (chunks : List Chunk) : serveAll json serving chunks = serving := by
  cases chunks with
  | nil => rfl
  | cons chunk chunks => rw [serveAll, ended]

theorem serveAll_append {serving : Serving} (before after : List Chunk) :
    serveAll json serving (before ++ after) = serveAll json (serveAll json serving before) after := by
  induction before generalizing serving with
  | nil => rfl
  | cons chunk before ih =>
      rw [List.cons_append, serveAll, serveAll]
      cases ended : serving.ending with
      | some ending => exact (serveAll_ended ended after).symm
      | none => exact ih

def reads (events : List Event) : List Chunk :=
  events.filterMap fun event =>
    match event with
    | .serverReads chunk => some chunk
    | _ => none

/-- The server has done what `serveAll` does with its reads; as long as it has no ending it is in the
same state. -/
def Serves (json : JsonCpp) (memory : Nat → Info) (events : List Event) (talk : Talk) : Prop :=
  let serving := serveAll json (start memory).serving (reads events)
  serving.server = talk.serving.server ∧ (talk.serving.ending = none → serving = talk.serving)

theorem step_serving {talk next : Talk} {event : Event} (stepped : step json talk event = .ok next) :
    (∃ chunk, event = .serverReads chunk ∧ talk.serving.ending = none ∧
        next.serving = serve json talk.serving chunk) ∨
      reads [event] = [] ∧ next.serving.server = talk.serving.server ∧
        (next.serving.ending = none → next.serving = talk.serving) := by
  cases event with
  | typed line =>
      right
      cases prompt : talk.prompt with
      | reading =>
          simp only [step, prompt] at stepped
          split at stepped <;> cases stepped <;> exact ⟨rfl, rfl, fun _ => rfl⟩
      | waiting => simp [step, prompt] at stepped
      | left abort => simp [step, prompt] at stepped
  | serverReads chunk =>
      left
      simp only [step] at stepped
      split at stepped
      · rename_i permitted
        cases stepped
        exact ⟨chunk, rfl, permitted.1, rfl⟩
      · cases stepped
  | clientReads chunk leftover =>
      right
      cases prompt : talk.prompt with
      | reading => simp [step, prompt] at stepped
      | waiting =>
          simp only [step, prompt] at stepped
          split at stepped
          · split at stepped <;> cases stepped <;> exact ⟨rfl, rfl, fun _ => rfl⟩
          · cases stepped
      | left abort => simp [step, prompt] at stepped
  | serverSeesEnd =>
      right
      cases prompt : talk.prompt with
      | reading => simp [step, prompt] at stepped
      | waiting => simp [step, prompt] at stepped
      | left abort =>
          simp only [step, prompt] at stepped
          split at stepped
          · cases stepped
            exact ⟨rfl, rfl, fun ended => by cases ended⟩
          · cases stepped

theorem Serves.step {memory : Nat → Info} {events : List Event} {talk next : Talk} {event : Event}
    (serves : Serves json memory events talk) (stepped : step json talk event = .ok next) :
    Serves json memory (events ++ [event]) next := by
  have reads_append : reads (events ++ [event]) = reads events ++ reads [event] :=
    List.filterMap_append
  rw [Serves, reads_append]
  rcases step_serving stepped with ⟨chunk, rfl, running, served⟩ | ⟨none, server, kept⟩
  · have after : serveAll json (start memory).serving (reads events ++ [chunk]) = next.serving := by
      rw [serveAll_append, serves.2 running, served, serveAll, running]
      rfl
    exact ⟨congrArg Serving.server after, fun _ => after⟩
  · rw [none, List.append_nil]
    refine ⟨serves.1.trans server.symm, fun running => ?_⟩
    have same := kept running
    rw [same] at running ⊢
    exact serves.2 running

end Serves

/-! One frame in flight. -/

section Frames

variable {text buff more : Bytes}

theorem not_ready (same : buff ++ more = frame text) (size : text.length < 1000)
    (apart : Apart buff) (short : buff.length < frameLength text.length) :
    ¬ProtocolClient.Ready buff := by
  have digits := width_le (show text.length < 2 ^ 31 by omega)
  rintro ⟨index, found, ready⟩
  by_cases long : width text.length < buff.length
  · obtain ⟨tail, rfl, -⟩ := frame_prefix (same.trans (List.append_nil _).symm) long
    rw [findFirstOf_header] at found
    cases found
    have enough := apart _ (findFirstOf_header _ _)
    have width_mod : width text.length % 2 ^ 16 = width text.length := Nat.mod_eq_of_lt (by omega)
    have number := ready text.length (by rw [take_width]; exact Decimal.stoi_toBytes (by omega))
    rw [width_mod] at number
    rw [frameLength] at short
    omega
  · have inDigits : buff <+: Decimal.toBytes text.length := by
      refine List.prefix_of_prefix_length_le (List.prefix_append buff more) ?_
        (Nat.le_of_not_lt long)
      rw [same, frame, List.append_assoc, List.append_assoc]
      exact List.prefix_append _ _
    have noBreak : Text.findFirstOf crlf buff = none :=
      Text.findFirstOf_eq_none.mpr fun byte member => digit_not_mem_crlf (inDigits.subset member)
    rw [noBreak] at found
    cases found

theorem frame_complete (same : buff ++ more = frame text)
    (long : frameLength text.length ≤ buff.length) : buff = frame text ∧ more = [] := by
  have sizes := congrArg List.length same
  rw [List.length_append, length_frame] at sizes
  have none : more = [] := List.eq_nil_of_length_eq_zero (by omega)
  rw [none, List.append_nil] at same
  exact ⟨same, none⟩

theorem frame_ne_nil (text : Bytes) : frame text ≠ [] := by
  simp [frame, crlf]

theorem read_frame {chunk : Chunk} {flight : Bytes} (same : buff ++ flight = frame text)
    (size : text.length < 1000) (noZero : 0 ∉ text) (reads : chunk.bytes <+: flight)
    (apart : Apart (buff ++ chunk.bytes)) :
    (buff ++ Socket.cText chunk = frame text ∧ flight.drop chunk.bytes.length = []) ∨
      ¬ProtocolClient.Ready (buff ++ Socket.cText chunk) ∧
        flight.drop chunk.bytes.length ≠ [] ∧
        buff ++ Socket.cText chunk ++ flight.drop chunk.bytes.length = frame text := by
  obtain ⟨rest, rfl⟩ := reads
  have whole : (buff ++ chunk.bytes) ++ rest = frame text := by
    rw [List.append_assoc, same]
  have all : Socket.cText chunk = chunk.bytes := by
    refine Socket.cText_eq_bytes fun zero => noZero_frame noZero ?_
    rw [← whole]
    simp [zero]
  rw [all, List.drop_left]
  by_cases complete : frameLength text.length ≤ (buff ++ chunk.bytes).length
  · exact .inl (frame_complete whole complete)
  · have short := Nat.lt_of_not_le complete
    refine .inr ⟨not_ready whole size apart short, ?_, whole⟩
    rintro rfl
    rw [← length_frame, ← whole, List.append_nil] at short
    exact Nat.lt_irrefl _ short

end Frames

/-! The programs take turns. -/

/-- What is true between two steps, for the requests the client has made: nothing is in flight while
it reads a line; otherwise its last request is on its way, or the reply is. -/
inductive Lockstep (json : JsonCpp) : List Info → Talk → Prop where
  | between {infos : List Info} {client server : Socket} {prompt : Prompt} {memory : Nat → Info}
      {ending : Option Ending} (clientKernel : client.kernel = []) (serverKernel : server.kernel = [])
      (idle : prompt = .reading ∧ ending = none ∨
        (∃ abort, prompt = .left abort) ∧ (ending = none ∨ ending = some .returned))
      (sent : server.sent = infos.map (reply json)) :
      Lockstep json infos
        ⟨⟨[], client⟩, prompt, infos.map CalculatorServer.answer, ⟨⟨[], server⟩, memory, ending⟩, [], []⟩
  | asking {before : List Info} {asked : Info} {client server : Socket} {memory : Nat → Info}
      {held flight : Bytes} (clientKernel : client.kernel = []) (serverKernel : server.kernel = [])
      (request : json.Writes asked.object)
      (answered : json.Writes (CalculatorServer.answer asked).object)
      (defined : ¬DividesByZero asked)
      (same : held ++ flight = ProtocolClient.serialize json asked) (missing : flight ≠ [])
      (sent : server.sent = before.map (reply json)) :
      Lockstep json (before ++ [asked])
        ⟨⟨[], client⟩, .waiting, before.map CalculatorServer.answer, ⟨⟨held, server⟩, memory, none⟩,
          flight, []⟩
  | replying {before : List Info} {asked : Info} {client server : Socket} {memory : Nat → Info}
      {held flight : Bytes} (clientKernel : client.kernel = []) (serverKernel : server.kernel = [])
      (answered : json.Writes (CalculatorServer.answer asked).object)
      (same : held ++ flight = reply json asked) (missing : flight ≠ [])
      (sent : server.sent = (before ++ [asked]).map (reply json)) :
      Lockstep json (before ++ [asked])
        ⟨⟨held, client⟩, .waiting, before.map CalculatorServer.answer, ⟨⟨[], server⟩, memory, none⟩,
          [], flight⟩

section Steps

variable {json : JsonCpp}

theorem added_send {sock : Socket} (takes : sock.kernel = []) (msg : Bytes) :
    added sock (sock.send msg).2 = msg := by
  simp [added, Socket.send, takes]

theorem send_kernel {sock : Socket} (takes : sock.kernel = []) (msg : Bytes) :
    (sock.send msg).1 = true ∧ (sock.send msg).2.kernel = [] := by
  simp [Socket.send, takes]

theorem serve_waits {serving : Serving} {chunk : Chunk} (running : serving.ending = none)
    (unready : ¬ProtocolClient.Ready (serving.server.buff ++ Socket.cText chunk)) :
    serve json serving chunk =
      { serving with
        server := ⟨serving.server.buff ++ Socket.cText chunk, serving.server.sock⟩ } := by
  have waits := (ProtocolClient.readFrame_eq_none_iff
    (ProtocolServer.deserialize json (serving.memory 0)) _).mpr unready
  simp only [serve, waits, running]

theorem serve_answers {serving : Serving} {chunk : Chunk} {asked : Info}
    (request : json.Writes asked.object) (defined : ¬DividesByZero asked)
    (takes : serving.server.sock.kernel = [])
    (whole : serving.server.buff ++ Socket.cText chunk = ProtocolClient.serialize json asked) :
    serve json serving chunk =
      ⟨⟨[], (serving.server.sock.send (reply json asked)).2⟩,
        fun round => serving.memory (round + 1), none⟩ := by
  have looked := readFrame_whole (serving.memory 0) request []
  rw [List.append_nil] at looked
  have computed : compute asked = some (CalculatorServer.answer asked) := by
    rw [compute_eq, if_neg defined]
  have sends : (serving.server.sock.send
      (ProtocolServer.serialize json (CalculatorServer.answer asked))).1 = true :=
    (send_kernel takes _).1
  simp only [serve, whole, looked, computed, ProtocolServer.deliver, sends]
  rfl

theorem step_request (talk : Talk) {chunk : Chunk} {asked : Info}
    (running : talk.serving.ending = none) (reads : chunk.bytes <+: talk.requests)
    (request : json.Writes asked.object) (defined : ¬DividesByZero asked)
    (takes : talk.serving.server.sock.kernel = [])
    (whole : talk.serving.server.buff ++ Socket.cText chunk = ProtocolClient.serialize json asked) :
    step json talk (.serverReads chunk) =
      .ok { talk with
        serving := ⟨⟨[], (talk.serving.server.sock.send (reply json asked)).2⟩,
          fun round => talk.serving.memory (round + 1), none⟩
        requests := talk.requests.drop chunk.bytes.length
        replies := talk.replies ++ reply json asked } := by
  simp only [step]
  rw [if_pos ⟨running, reads⟩, serve_answers request defined takes whole]
  simp only [added_send takes]

theorem step_reply (talk : Talk) {chunk : Chunk} (leftover : Result) {asked : Info}
    (waits : talk.prompt = .waiting) (reads : chunk.bytes <+: talk.replies)
    (answered : json.Writes (CalculatorServer.answer asked).object)
    (whole : talk.client.buff ++ Socket.cText chunk = reply json asked) :
    step json talk (.clientReads chunk leftover) =
      .ok { talk with
        client := ⟨[], { talk.client.sock with incoming := [] }⟩
        prompt := .reading
        printed := talk.printed ++ [CalculatorServer.answer asked]
        replies := talk.replies.drop chunk.bytes.length } := by
  have looked := ProtocolClient.readFrame_whole leftover answered []
  rw [List.append_nil] at looked
  simp only [step, waits]
  rw [if_pos reads]
  simp only [ProtocolClient.obtain, Socket.recv, whole, reply, looked]

theorem Lockstep.types {infos : List Info} {talk next : Talk} {line : Bytes}
    (lockstep : Lockstep json infos talk) (calm : Calm json talk (.typed line))
    (stepped : step json talk (.typed line) = .ok next) :
    Lockstep json (infos ++ asks (.typed line)) next := by
  cases lockstep with
  | between clientKernel serverKernel idle sent =>
      rcases idle with ⟨rfl, rfl⟩ | ⟨⟨abort, rfl⟩, -⟩
      · cases read : CalculatorClient.readInfo line with
        | error abort =>
            simp only [step, CalculatorClient.ask, read] at stepped
            cases stepped
            simp only [asks, read, List.append_nil]
            exact .between clientKernel serverKernel (.inr ⟨⟨abort, rfl⟩, .inl rfl⟩) sent
        | ok info =>
            obtain ⟨request, answered, defined⟩ := calm info read
            simp only [step, CalculatorClient.ask, read, ProtocolClient.deliver] at stepped
            cases stepped
            simp only [asks, read]
            have flight := added_send clientKernel (ProtocolClient.serialize json info)
            refine .asking (send_kernel clientKernel _).2 serverKernel request answered defined flight
              ?_ sent
            rw [List.nil_append, flight]
            exact frame_ne_nil _
      · cases stepped
  | asking => cases stepped
  | replying => cases stepped

theorem Lockstep.serves {infos : List Info} {talk next : Talk} {chunk : Chunk}
    (lockstep : Lockstep json infos talk) (calm : Calm json talk (.serverReads chunk))
    (stepped : step json talk (.serverReads chunk) = .ok next) : Lockstep json infos next := by
  have nothing : ¬chunk.bytes <+: [] := fun empty => chunk.nonempty (List.prefix_nil.mp empty)
  cases lockstep with
  | between => simp [step, nothing] at stepped
  | replying => simp [step, nothing] at stepped
  | asking clientKernel serverKernel request answered defined same missing sent =>
      rename_i before asked client server memory held flight
      by_cases reads : chunk.bytes <+: flight
      · have frames : held ++ flight = frame (json.write asked.object) := same
        rcases read_frame frames request.short request.noZero reads calm with
          ⟨whole, none⟩ | ⟨unready, more, rest⟩
        · rw [step_request _ rfl reads request defined serverKernel whole] at stepped
          cases stepped
          simp only [none]
          refine .replying clientKernel (send_kernel serverKernel _).2 answered rfl ?_ ?_
          · exact frame_ne_nil _
          · simp [sent]
        · simp only [step, true_and, if_pos reads] at stepped
          rw [serve_waits rfl unready] at stepped
          cases stepped
          have silent : added server server = [] := List.drop_length
          simp only [List.nil_append, silent]
          exact .asking clientKernel serverKernel request answered defined rest more sent
      · simp [step, reads] at stepped

theorem Lockstep.reads {infos : List Info} {talk next : Talk} {chunk : Chunk} {leftover : Result}
    (lockstep : Lockstep json infos talk) (calm : Calm json talk (.clientReads chunk leftover))
    (stepped : step json talk (.clientReads chunk leftover) = .ok next) :
    Lockstep json infos next := by
  have nothing : ¬chunk.bytes <+: [] := fun empty => chunk.nonempty (List.prefix_nil.mp empty)
  cases lockstep with
  | between clientKernel serverKernel idle sent =>
      rcases idle with ⟨rfl, rfl⟩ | ⟨⟨abort, rfl⟩, -⟩
      · cases stepped
      · cases stepped
  | asking => simp [step, nothing] at stepped
  | replying clientKernel serverKernel answered same missing sent =>
      rename_i before asked client server memory held flight
      by_cases reads : chunk.bytes <+: flight
      · have frames : held ++ flight = frame (json.write (CalculatorServer.answer asked).object) :=
          same
        rcases read_frame frames answered.short answered.noZero reads calm with
          ⟨whole, none⟩ | ⟨unready, more, rest⟩
        · rw [step_reply _ leftover rfl reads answered whole] at stepped
          cases stepped
          have printed : before.map CalculatorServer.answer ++ [CalculatorServer.answer asked] =
              (before ++ [asked]).map CalculatorServer.answer := by simp
          simp only [none, printed]
          exact .between clientKernel serverKernel (.inl ⟨rfl, rfl⟩) sent
        · simp only [step, if_pos reads] at stepped
          rw [ProtocolClient.obtain_unready _ _ unready] at stepped
          cases stepped
          exact .replying clientKernel serverKernel answered rest more sent
      · simp [step, reads] at stepped

theorem Lockstep.ends {infos : List Info} {talk next : Talk} (lockstep : Lockstep json infos talk)
    (stepped : step json talk .serverSeesEnd = .ok next) : Lockstep json infos next := by
  cases lockstep with
  | between clientKernel serverKernel idle sent =>
      rcases idle with ⟨rfl, rfl⟩ | ⟨⟨abort, rfl⟩, -⟩
      · cases stepped
      · simp only [step] at stepped
        split at stepped
        · cases stepped
          exact .between clientKernel serverKernel (.inr ⟨⟨abort, rfl⟩, .inr rfl⟩) sent
        · cases stepped
  | asking => cases stepped
  | replying => cases stepped

theorem Lockstep.step {infos : List Info} {talk next : Talk} {event : Event}
    (lockstep : Lockstep json infos talk) (calm : Calm json talk event)
    (stepped : step json talk event = .ok next) : Lockstep json (infos ++ asks event) next := by
  cases event with
  | typed line => exact lockstep.types calm stepped
  | serverReads chunk => exact (List.append_nil infos).symm ▸ lockstep.serves calm stepped
  | clientReads chunk leftover => exact (List.append_nil infos).symm ▸ lockstep.reads calm stepped
  | serverSeesEnd => exact (List.append_nil infos).symm ▸ lockstep.ends stepped

theorem start_lockstep (memory : Nat → Info) : Lockstep json [] (start memory) :=
  .between rfl rfl (.inl ⟨rfl, rfl⟩) rfl

theorem run_lockstep {memory : Nat → Info} {events : List Event} {last : Talk}
    (calm : Runs.Permits (step json) (Calm json) (start memory) events)
    (ran : Runs.run (step json) (start memory) events = .ok last) :
    Lockstep json (events.flatMap asks) last := by
  refine Runs.run_permitted (motive := fun events talk => Lockstep json (events.flatMap asks) talk)
    ?_ (start_lockstep memory) calm ran
  intro events talk event next before permitted stepped
  rw [List.flatMap_append, List.flatMap_singleton]
  exact before.step permitted stepped

/-- What the client has printed are the answers to its requests, one by one; the last one is missing
while it waits. -/
def Answered (infos : List Info) (talk : Talk) : Prop :=
  talk.printed <+: infos.map CalculatorServer.answer ∧ infos.length ≤ talk.printed.length + 1 ∧
    (talk.prompt ≠ .waiting → talk.printed = infos.map CalculatorServer.answer)

theorem Lockstep.answered {infos : List Info} {talk : Talk} (lockstep : Lockstep json infos talk) :
    Answered infos talk := by
  cases lockstep with
  | between clientKernel serverKernel idle sent =>
      exact ⟨List.prefix_refl _, by simp, fun _ => rfl⟩
  | asking =>
      refine ⟨?_, by simp, fun other => absurd rfl other⟩
      rw [List.map_append]
      exact List.prefix_append _ _
  | replying =>
      refine ⟨?_, by simp, fun other => absurd rfl other⟩
      rw [List.map_append]
      exact List.prefix_append _ _

theorem Lockstep.replied {infos : List Info} {talk : Talk} (lockstep : Lockstep json infos talk)
    (idle : talk.prompt ≠ .waiting) : talk.serving.server.sock.sent = infos.map (reply json) := by
  cases lockstep with
  | between clientKernel serverKernel idle sent => exact sent
  | asking => exact absurd rfl idle
  | replying => exact absurd rfl idle

theorem apart_frame (text : Bytes) : Apart (frame text) := by
  intro index found
  have split := frame_append text []
  rw [List.append_nil] at split
  rw [split, findFirstOf_header] at found
  cases found
  rw [length_frame, frameLength]
  omega

theorem exists_chunk {held flight text : Bytes} (same : held ++ flight = frame text)
    (size : text.length < 1000) (noZero : 0 ∉ text) (missing : flight ≠ []) :
    ∃ chunk : Chunk, chunk.bytes = flight ∧ held ++ Socket.cText chunk = frame text ∧
      Apart (held ++ chunk.bytes) := by
  have digits := width_le (show text.length < 2 ^ 31 by omega)
  have sizes := congrArg List.length same
  rw [List.length_append, length_frame, frameLength] at sizes
  let chunk : Chunk := ⟨flight, missing, by simp only [maxStr]; omega⟩
  have all : Socket.cText chunk = flight := by
    apply Socket.cText_eq_bytes
    intro zero
    apply noZero_frame noZero
    rw [← same]
    exact List.mem_append_right held zero
  refine ⟨chunk, rfl, ?_, ?_⟩
  · rw [all, same]
  · exact same ▸ apart_frame text

theorem can_answer {infos : List Info} {talk : Talk} (lockstep : Lockstep json infos talk)
    (stays : ∀ abort, talk.prompt ≠ .left abort) :
    Runs.CanReach (step json) (Calm json)
      (fun talk => talk.prompt = .reading ∧ Lockstep json infos talk) talk := by
  have replied {infos : List Info} {before : List Info} {asked : Info} {client server : Socket}
      {memory : Nat → Info} {held flight : Bytes}
      (lockstep : Lockstep json infos ⟨⟨held, client⟩, .waiting, before.map CalculatorServer.answer,
        ⟨⟨[], server⟩, memory, none⟩, [], flight⟩)
      (answered : json.Writes (CalculatorServer.answer asked).object)
      (same : held ++ flight = reply json asked) (missing : flight ≠ []) :
      Runs.CanReach (step json) (Calm json)
        (fun talk => talk.prompt = .reading ∧ Lockstep json infos talk)
        ⟨⟨held, client⟩, .waiting, before.map CalculatorServer.answer,
          ⟨⟨[], server⟩, memory, none⟩, [], flight⟩ := by
    obtain ⟨chunk, rfl, whole, apart⟩ := exists_chunk same answered.short answered.noZero missing
    have stepped := step_reply
      ⟨⟨held, client⟩, .waiting, before.map CalculatorServer.answer, ⟨⟨[], server⟩, memory, none⟩, [],
        chunk.bytes⟩ ⟨0⟩ rfl (List.prefix_refl _) answered whole
    refine .after ?_ stepped (.here ⟨rfl, lockstep.reads apart stepped⟩)
    exact apart
  have now := lockstep
  cases lockstep with
  | between clientKernel serverKernel idle sent =>
      rcases idle with ⟨rfl, -⟩ | ⟨⟨abort, rfl⟩, -⟩
      · exact .here ⟨rfl, now⟩
      · exact absurd rfl (stays abort)
  | asking clientKernel serverKernel request answered defined same missing sent =>
      rename_i before asked client server memory held flight
      obtain ⟨chunk, rfl, whole, apart⟩ :=
        exists_chunk same request.short request.noZero missing
      have stepped := step_request
        ⟨⟨[], client⟩, .waiting, before.map CalculatorServer.answer, ⟨⟨held, server⟩, memory, none⟩,
          chunk.bytes, []⟩ rfl (List.prefix_refl _) request defined serverKernel whole
      have after := now.serves apart stepped
      simp only [List.drop_length] at stepped after
      refine .after ?_ stepped (replied after answered rfl (frame_ne_nil _))
      exact apart
  | replying clientKernel serverKernel answered same missing sent =>
      exact replied now answered same missing

/-- As long as no exception has ended the client, it can come back to its prompt. -/
theorem run_can_answer (memory : Nat → Info) {events : List Event} {last : Talk}
    (calm : Runs.Permits (step json) (Calm json) (start memory) events)
    (ran : Runs.run (step json) (start memory) events = .ok last)
    (stays : ∀ abort, last.prompt ≠ .left abort) :
    Runs.CanReach (step json) (Calm json)
      (fun talk => talk.prompt = .reading ∧
        talk.printed = (events.flatMap asks).map CalculatorServer.answer) last := by
  refine (can_answer (run_lockstep calm ran) stays).mono fun talk reached => ?_
  obtain ⟨reading, lockstep⟩ := reached
  exact ⟨reading, lockstep.answered.2.2 (by simp [reading])⟩

end Steps

/-! The request and the reply of `1 + 2`, each read in two pieces. -/

def sumJson : JsonCpp :=
  tableJson [ProtocolServer.onePlusTwo.object,
    (CalculatorServer.answer ProtocolServer.onePlusTwo).object]

def sumRequest : Bytes := ProtocolClient.serialize sumJson ProtocolServer.onePlusTwo

def sumReply : Bytes := reply sumJson ProtocolServer.onePlusTwo

def asksSum : List Event :=
  [.typed (ascii "1 + 2"), .serverReads ⟨sumRequest.take 8, by decide, by decide⟩,
    .serverReads ⟨sumRequest.drop 8, by decide, by decide⟩,
    .clientReads ⟨sumReply.take 2, by decide, by decide⟩ ⟨0⟩]

def noise (_ : Nat) : Info := ⟨5, 5, 5⟩

theorem asksSum_calm : Runs.Permits (step sumJson) (Calm sumJson) (start noise) asksSum := by
  have typed : Calm sumJson (start noise) (.typed (ascii "1 + 2")) := by
    intro info read
    have same : CalculatorClient.readInfo (ascii "1 + 2") = .ok ProtocolServer.onePlusTwo := by
      decide
    rw [same] at read
    cases read
    exact ⟨tableJson_writes (by decide) (by decide) (by decide) (by decide) (by decide),
      tableJson_writes (by decide) (by decide) (by decide) (by decide) (by decide), by decide⟩
  refine (Runs.permits_cons rfl _).mpr ⟨typed, ?_⟩
  refine (Runs.permits_cons rfl _).mpr ⟨(by decide : Apart _), ?_⟩
  refine (Runs.permits_cons rfl _).mpr ⟨(by decide : Apart _), ?_⟩
  refine (Runs.permits_cons rfl _).mpr ⟨(by decide : Apart _), trivial⟩

theorem run_can_answer_sum :
    ∃ last, Runs.run (step sumJson) (start noise) asksSum = .ok last ∧ last.prompt = .waiting ∧
      Runs.CanReach (step sumJson) (Calm sumJson)
        (fun talk => talk.prompt = .reading ∧
          talk.printed = (asksSum.flatMap asks).map CalculatorServer.answer) last := by
  refine ⟨_, rfl, rfl, ?_⟩
  have ran : Runs.run (step sumJson) (start noise) asksSum = .ok _ := rfl
  exact run_can_answer noise asksSum_calm ran (by simp)

end Talk

end LearnInternet.Calculator
