import LearnInternet.Lib.Decimal
import LearnInternet.Lib.Text

/-!
The connected `Socket` of the HTTP server and of the calculator programs (`Socket.cc` is the same
text in both). A peer is the list of what successive `read` calls return; after the last of them
it has closed its side.
-/

namespace LearnInternet

inductive ErrCode where
  | okErr
  | addrErr
  | bindErr
  | sockErr
  | listenErr
  | readErr
  | forkErr
  | protocolErr
  deriving DecidableEq, Repr

/-- How control leaves a function without returning: the process exits or an exception escapes. -/
inductive Abort where
  | exit (code : ErrCode)
  | invalidArgument
  | outOfRange
  | resizeFailed
  deriving DecidableEq, Repr

def Abort.ofConversion : Decimal.ConversionError → Abort
  | .invalidArgument => .invalidArgument
  | .outOfRange => .outOfRange

def maxStr : Nat := 1024

/-- The bytes of one successful `read(sockfd_, cbuff, MAX_STR - 1)`. -/
structure Chunk where
  bytes : Bytes
  nonempty : bytes ≠ []
  bound : bytes.length ≤ maxStr - 1
  deriving DecidableEq

inductive ReadEvent where
  | data (chunk : Chunk)
  | error
  deriving DecidableEq

/-- What one `::send` does with a message: it takes a number of its bytes, or fails. -/
inductive SendEvent where
  | accepted (count : Nat)
  | failed
  deriving DecidableEq, Repr

structure Socket where
  incoming : List ReadEvent
  /-- Answers of the following `::send` calls; a kernel whose list has ended takes all it is given. -/
  kernel : List SendEvent
  sent : List Bytes
  wire : Bytes
  deriving DecidableEq

namespace Socket

def ofChunks (chunks : List Chunk) : Socket where
  incoming := chunks.map ReadEvent.data
  kernel := []
  sent := []
  wire := []

/-- `buff += cbuff` stops at the first zero byte of `cbuff`. -/
def cText (chunk : Chunk) : Bytes := Text.takeUntil 0 chunk.bytes

def recv (sock : Socket) (buff : Bytes) : Except Abort (Bool × Bytes × Socket) :=
  match sock.incoming with
  | [] => .ok (false, buff, sock)
  | .error :: _ => .error (.exit .readErr)
  | .data chunk :: rest => .ok (true, buff ++ cText chunk, { sock with incoming := rest })

def send (sock : Socket) (msg : Bytes) : Bool × Socket :=
  match sock.kernel with
  | [] => (true, { sock with sent := sock.sent ++ [msg], wire := sock.wire ++ msg })
  | .accepted count :: rest =>
      (true, { sock with
        kernel := rest
        sent := sock.sent ++ [msg]
        wire := sock.wire ++ msg.take count })
  | .failed :: rest => (false, { sock with kernel := rest, sent := sock.sent ++ [msg] })

@[simp] theorem send_sent (sock : Socket) (msg : Bytes) :
    (sock.send msg).2.sent = sock.sent ++ [msg] := by
  simp only [send]
  split <;> rfl

@[simp] theorem send_incoming (sock : Socket) (msg : Bytes) :
    (sock.send msg).2.incoming = sock.incoming := by
  simp only [send]
  split <;> rfl

def AcceptsWhole (kernel : List SendEvent) (msg : Bytes) : Prop :=
  match kernel with
  | [] => True
  | .accepted count :: _ => msg.length ≤ count
  | .failed :: _ => False

theorem send_wire_iff (sock : Socket) {msg : Bytes} (nonempty : msg ≠ []) :
    (sock.send msg).2.wire = sock.wire ++ msg ↔ AcceptsWhole sock.kernel msg := by
  obtain ⟨incoming, kernel, sent, wire⟩ := sock
  cases kernel with
  | nil => simp [send, AcceptsWhole]
  | cons event rest =>
      cases event with
      | accepted count => simp [send, AcceptsWhole]
      | failed => simpa [send, AcceptsWhole] using nonempty

structure Received where
  result : Except Abort Bool
  buff : Bytes
  sock : Socket

def recvUntilFrom (done : Bytes → Bool) (sock : Socket) (buff : Bytes) : List ReadEvent → Received
  | [] => ⟨.ok false, buff, { sock with incoming := [] }⟩
  | .error :: rest => ⟨.error (.exit .readErr), buff, { sock with incoming := .error :: rest }⟩
  | .data chunk :: rest =>
      if done (buff ++ cText chunk) then
        ⟨.ok true, buff ++ cText chunk, { sock with incoming := rest }⟩
      else recvUntilFrom done { sock with incoming := rest } (buff ++ cText chunk) rest

/-- `while(true) { if(!recv(buff)) return false; if(done(buff)) break; }`. -/
def recvUntil (done : Bytes → Bool) (sock : Socket) (buff : Bytes) : Received :=
  recvUntilFrom done sock buff sock.incoming

theorem recvUntilFrom_output (done : Bytes → Bool) (sock : Socket) (buff : Bytes)
    (events : List ReadEvent) :
    (sock.recvUntilFrom done buff events).sock.kernel = sock.kernel ∧
      (sock.recvUntilFrom done buff events).sock.wire = sock.wire := by
  induction events generalizing sock buff with
  | nil => exact ⟨rfl, rfl⟩
  | cons event rest ih =>
      cases event with
      | error => exact ⟨rfl, rfl⟩
      | data chunk =>
          simp only [recvUntilFrom]
          split
          · exact ⟨rfl, rfl⟩
          · exact ih _ _

theorem recvUntil_step (done : Bytes → Bool) (sock : Socket) (buff : Bytes) :
    sock.recvUntil done buff =
      match sock.recv buff with
      | .error abort => ⟨.error abort, buff, sock⟩
      | .ok (false, buff, sock) => ⟨.ok false, buff, sock⟩
      | .ok (true, buff, sock) =>
          if done buff then ⟨.ok true, buff, sock⟩ else sock.recvUntil done buff := by
  obtain ⟨incoming, kernel, sent, wire⟩ := sock
  cases incoming with
  | nil => rfl
  | cons event rest =>
      cases event with
      | error => rfl
      | data chunk =>
          simp only [recvUntil, recv, recvUntilFrom]

def pendingText (sock : Socket) : Bytes :=
  (sock.incoming.map fun event =>
    match event with
    | .data chunk => cText chunk
    | .error => []).flatten

def Healthy (sock : Socket) : Prop := ∀ event ∈ sock.incoming, event ≠ ReadEvent.error

theorem ofChunks_healthy (chunks : List Chunk) : (ofChunks chunks).Healthy := by
  intro event member
  obtain ⟨chunk, -, rfl⟩ := List.mem_map.mp member
  simp

@[simp] theorem ofChunks_pendingText (chunks : List Chunk) :
    (ofChunks chunks).pendingText = (chunks.map cText).flatten := by
  simp [pendingText, ofChunks, Function.comp_def]

theorem not_mem_pendingText (sock : Socket) : 0 ∉ sock.pendingText := by
  intro member
  obtain ⟨text, inside, member⟩ := List.mem_flatten.mp member
  obtain ⟨event, -, rfl⟩ := List.mem_map.mp inside
  cases event with
  | error => simp at member
  | data chunk => exact Text.not_mem_takeUntil 0 chunk.bytes member

theorem cText_eq_bytes {chunk : Chunk} (noZero : 0 ∉ chunk.bytes) : cText chunk = chunk.bytes :=
  Text.takeUntil_eq_self noZero

theorem flatten_cText {chunks : List Chunk}
    (noZero : 0 ∉ (chunks.map Chunk.bytes).flatten) :
    (chunks.map cText).flatten = (chunks.map Chunk.bytes).flatten := by
  congr 1
  apply List.map_congr_left
  intro chunk member
  apply cText_eq_bytes
  intro zero
  exact noZero (List.mem_flatten.mpr ⟨chunk.bytes, List.mem_map_of_mem member, zero⟩)

theorem recvUntil_healthy (done : Bytes → Bool) (sock : Socket) (buff : Bytes)
    (healthy : sock.Healthy) :
    let received := sock.recvUntil done buff
    received.buff ++ received.sock.pendingText = buff ++ sock.pendingText ∧
      received.sock.Healthy ∧ received.sock.sent = sock.sent ∧
      ((received.result = .ok true ∧ done received.buff = true) ∨
        (received.result = .ok false ∧ received.sock.incoming = [] ∧
          (sock.incoming ≠ [] → done received.buff = false))) := by
  obtain ⟨incoming, kernel, sent, wire⟩ := sock
  simp only [recvUntil]
  induction incoming generalizing buff with
  | nil => simp [recvUntilFrom, pendingText, Healthy]
  | cons event rest ih =>
      cases event with
      | error => exact absurd rfl (healthy .error (by simp))
      | data chunk =>
          have restHealthy : Healthy ⟨rest, kernel, sent, wire⟩ :=
            fun event member => healthy event (by simp [show event ∈ rest from member])
          simp only [recvUntilFrom]
          by_cases finished : done (buff ++ cText chunk) = true
          · simp only [finished, if_true]
            refine ⟨by simp [pendingText], restHealthy, trivial, Or.inl ⟨trivial, trivial⟩⟩
          · simp only [finished, Bool.false_eq_true, if_false]
            obtain ⟨text, stillHealthy, sentSame, outcome⟩ := ih (buff ++ cText chunk) restHealthy
            cases rest with
            | nil =>
                refine ⟨by simp [recvUntilFrom, pendingText], by simp [recvUntilFrom, Healthy],
                  rfl, Or.inr ⟨rfl, rfl, fun _ => ?_⟩⟩
                simpa [recvUntilFrom] using finished
            | cons next rest =>
                refine ⟨?_, stillHealthy, sentSame, ?_⟩
                · rw [text]
                  simp [pendingText]
                · rcases outcome with success | ⟨failed, ended, unfinished⟩
                  · exact Or.inl success
                  · exact Or.inr ⟨failed, ended, fun _ => unfinished (by simp)⟩

/-! ### Any number of reads -/

def recvAll (sock : Socket) (buff : Bytes) : Nat → Except Abort (Bytes × Socket)
  | 0 => .ok (buff, sock)
  | calls + 1 =>
      match sock.recv buff with
      | .error abort => .error abort
      | .ok (_, buff, sock) => recvAll sock buff calls

theorem cText_eq_iff (chunk : Chunk) : cText chunk = chunk.bytes ↔ 0 ∉ chunk.bytes :=
  Text.takeUntil_eq_self_iff

theorem recvAll_data (chunks : List Chunk) (rest : List ReadEvent) (sock : Socket) (buff : Bytes) :
    { sock with incoming := chunks.map ReadEvent.data ++ rest }.recvAll buff chunks.length =
      .ok (buff ++ (chunks.map cText).flatten, { sock with incoming := rest }) := by
  induction chunks generalizing buff with
  | nil => simp [recvAll]
  | cons chunk chunks ih =>
      have received : { sock with
          incoming := (chunk :: chunks).map ReadEvent.data ++ rest }.recv buff =
          .ok (true, buff ++ cText chunk,
            { sock with incoming := chunks.map ReadEvent.data ++ rest }) := rfl
      rw [List.length_cons, recvAll, received]
      simp only [ih, List.map_cons, List.flatten_cons, List.append_assoc]

/-- After a sequence of reads the buffer holds all their bytes exactly when none of them is zero. -/
theorem recvAll_whole_iff (chunks : List Chunk) (rest : List ReadEvent) (sock : Socket)
    (buff : Bytes) :
    ∃ received,
      { sock with incoming := chunks.map ReadEvent.data ++ rest }.recvAll buff chunks.length =
        .ok (received, { sock with incoming := rest }) ∧
      (received = buff ++ (chunks.map Chunk.bytes).flatten ↔
        ∀ chunk ∈ chunks, 0 ∉ chunk.bytes) := by
  refine ⟨_, recvAll_data chunks rest sock buff, ?_⟩
  rw [List.append_cancel_left_eq,
    Text.flatten_eq_iff_of_prefix fun chunk _ => Text.takeUntil_prefix 0 chunk.bytes]
  simp only [cText_eq_iff]

def readWithZero : Chunk := ⟨[65, 0, 66], by decide, by decide⟩

theorem recvAll_loses_bytes :
    ¬∀ (chunks : List Chunk) (buff : Bytes),
      (ofChunks chunks).recvAll buff chunks.length =
        .ok (buff ++ (chunks.map Chunk.bytes).flatten, ofChunks []) := by
  intro whole
  have received := whole [readWithZero] []
  revert received
  decide

end Socket

end LearnInternet
