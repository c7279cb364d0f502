import LearnInternet.Calculator.Frames

/-!
`CalculatorServer::run` of the second server, over a `ProtocolServer`. The operands are promoted to
`int`; an operation that is undefined there has no value, and ends the session.
-/

namespace LearnInternet.Calculator

open LearnInternet

structure Result where
  v : Int16
  deriving DecidableEq, Repr

def Result.object (result : Result) : JsonObject := [("result", result.v.toInt)]

namespace ProtocolServer

def serialize (json : JsonCpp) (result : Result) : Bytes := frame (json.write result.object)

def deliver (json : JsonCpp) (server : ProtocolServer) (result : Result) :
    Bool × ProtocolServer :=
  let sent := server.sock.send (serialize json result)
  (sent.1, { server with sock := sent.2 })

end ProtocolServer

/-- An `int` of 32 bits: a result outside is undefined. -/
def toInt32 (value : Int) : Option Int :=
  if -2 ^ 31 ≤ value ∧ value < 2 ^ 31 then some value else none

def quotient (left right : Int) : Option Int :=
  if right = 0 then none else toInt32 (left.tdiv right)

/-- `%` is undefined where the quotient is. -/
def remainder (left right : Int) : Option Int :=
  match quotient left right with
  | none => none
  | some _ => toInt32 (left.tmod right)

def otherwise : Int16 := Int16.ofInt 114514

namespace CalculatorServer

/-- The `switch` over `info_.oper_`; the sum, difference, product, quotient or remainder is narrowed
to `int16_t`. -/
def compute (info : Info) : Option Result :=
  let x := info.x.toInt
  let y := info.y.toInt
  let narrowed := fun value : Option Int => value.map fun number => Result.mk (Int16.ofInt number)
  if info.oper = 43 then narrowed (toInt32 (x + y))
  else if info.oper = 45 then narrowed (toInt32 (x - y))
  else if info.oper = 42 then narrowed (toInt32 (x * y))
  else if info.oper = 47 then narrowed (quotient x y)
  else if info.oper = 37 then narrowed (remainder x y)
  else some ⟨otherwise⟩

inductive Ending where
  | returned
  | aborted (abort : Abort)
  | undefinedOperation
  deriving DecidableEq, Repr

structure Session where
  ending : Ending
  server : ProtocolServer
  deriving DecidableEq

def Session.replies (session : Session) : List Bytes := session.server.sock.sent

def zeroInfo : Info := ⟨0, 0, 0⟩

/-- The loop of `run`; the fresh `Info` of a round holds the next of `memory`. -/
def runFor (json : JsonCpp) : Nat → (Nat → Info) → Info → ProtocolServer → Session
  | 0, _, _, server => ⟨.returned, server⟩
  | rounds + 1, memory, info, server =>
      let obtained := server.obtain json (memory 0) info
      match obtained.result with
      | .error abort => ⟨.aborted abort, obtained.server⟩
      | .ok false => ⟨.returned, obtained.server⟩
      | .ok true =>
          match compute obtained.info with
          | none => ⟨.undefinedOperation, obtained.server⟩
          | some result =>
              let delivered := obtained.server.deliver json result
              if delivered.1 then
                runFor json rounds (fun round => memory (round + 1)) zeroInfo delivered.2
              else ⟨.returned, delivered.2⟩

/-- Every round reads from the socket, so its reads bound the rounds. -/
def run (json : JsonCpp) (memory : Nat → Info) (info : Info) (server : ProtocolServer) : Session :=
  runFor json (server.sock.incoming.length + 1) memory info server

theorem toInt32_some {value : Int} (low : -2 ^ 31 ≤ value) (high : value < 2 ^ 31) :
    toInt32 value = some value := if_pos ⟨low, high⟩

theorem int16_bounds (value : Int16) : -2 ^ 15 ≤ value.toInt ∧ value.toInt < 2 ^ 15 :=
  ⟨value.le_toInt, value.toInt_lt⟩

theorem product_bounds (left right : Int16) :
    -2 ^ 31 ≤ left.toInt * right.toInt ∧ left.toInt * right.toInt < 2 ^ 31 := by
  have leftBounds := int16_bounds left
  have rightBounds := int16_bounds right
  have size : (left.toInt * right.toInt).natAbs ≤ 2 ^ 15 * 2 ^ 15 := by
    rw [Int.natAbs_mul]
    exact Nat.mul_le_mul (by omega) (by omega)
  omega

theorem quotient_some (left right : Int16) (nonzero : right.toInt ≠ 0) :
    quotient left.toInt right.toInt = some (left.toInt.tdiv right.toInt) := by
  have bounds := int16_bounds left
  have size := Int.natAbs_tdiv_le_natAbs left.toInt right.toInt
  rw [quotient, if_neg nonzero]
  exact toInt32_some (by omega) (by omega)

theorem remainder_some (left right : Int16) (nonzero : right.toInt ≠ 0) :
    remainder left.toInt right.toInt = some (left.toInt.tmod right.toInt) := by
  have bounds := int16_bounds left
  have size : (left.toInt.tmod right.toInt).natAbs ≤ left.toInt.natAbs := by
    rw [Int.natAbs_tmod]
    exact Nat.mod_le _ _
  rw [remainder, quotient_some left right nonzero]
  exact toInt32_some (by omega) (by omega)

theorem obtainFrom_reads (json : JsonCpp) (leftover info : Info) (server : ProtocolServer)
    (events : List ReadEvent)
    (taken : (server.obtainFrom json leftover info events).result = .ok true) :
    (server.obtainFrom json leftover info events).server.sock.incoming.length < events.length := by
  induction events generalizing server with
  | nil => simp [ProtocolServer.obtainFrom] at taken
  | cons event rest ih =>
      cases event with
      | error => simp [ProtocolServer.obtainFrom] at taken
      | data chunk =>
          simp only [ProtocolServer.obtainFrom] at taken ⊢
          split at taken
          · simp at taken
          · rename_i waits
            have fewer := ih _ taken
            simp only [List.length_cons]
            omega
          · simp

theorem obtain_reads (json : JsonCpp) (leftover info : Info) (server : ProtocolServer)
    (taken : (server.obtain json leftover info).result = .ok true) :
    (server.obtain json leftover info).server.sock.incoming.length <
      server.sock.incoming.length :=
  obtainFrom_reads json leftover info server server.sock.incoming taken

theorem deliver_incoming (json : JsonCpp) (server : ProtocolServer) (result : Result) :
    (server.deliver json result).2.sock.incoming = server.sock.incoming :=
  Socket.send_incoming server.sock _

theorem runFor_enough (json : JsonCpp) (rounds : Nat) (memory : Nat → Info) (info : Info)
    (server : ProtocolServer) (enough : server.sock.incoming.length < rounds) :
    runFor json rounds memory info server = run json memory info server := by
  have both : ∀ left right (memory : Nat → Info) (info : Info) (server : ProtocolServer),
      server.sock.incoming.length < left → server.sock.incoming.length < right →
        runFor json left memory info server = runFor json right memory info server := by
    intro left
    induction left with
    | zero => intro right memory info server impossible; omega
    | succ left ih =>
        intro right memory info server leftEnough rightEnough
        obtain ⟨right, rfl⟩ := Nat.exists_eq_succ_of_ne_zero (show right ≠ 0 by omega)
        have reads := obtain_reads json (memory 0) info server
        simp only [runFor]
        cases taken : (server.obtain json (memory 0) info).result with
        | error abort => rfl
        | ok more =>
            cases more with
            | false => rfl
            | true =>
                have fewer := reads taken
                simp only
                cases compute (server.obtain json (memory 0) info).info with
                | none => rfl
                | some result =>
                    simp only
                    split
                    · refine ih right _ zeroInfo _ ?_ ?_
                      · rw [deliver_incoming]
                        omega
                      · rw [deliver_incoming]
                        omega
                    · rfl
  exact both rounds _ memory info server enough (Nat.lt_succ_self _)

theorem run_step (json : JsonCpp) (memory : Nat → Info) (info : Info) (server : ProtocolServer) :
    run json memory info server =
      let obtained := server.obtain json (memory 0) info
      match obtained.result with
      | .error abort => ⟨.aborted abort, obtained.server⟩
      | .ok false => ⟨.returned, obtained.server⟩
      | .ok true =>
          match compute obtained.info with
          | none => ⟨.undefinedOperation, obtained.server⟩
          | some result =>
              let delivered := obtained.server.deliver json result
              if delivered.1 then
                run json (fun round => memory (round + 1)) zeroInfo delivered.2
              else ⟨.returned, delivered.2⟩ := by
  have reads := obtain_reads json (memory 0) info server
  rw [run, runFor]
  simp only
  cases taken : (server.obtain json (memory 0) info).result with
  | error abort => rfl
  | ok more =>
      cases more with
      | false => rfl
      | true =>
          have fewer := reads taken
          simp only
          cases compute (server.obtain json (memory 0) info).info with
          | none => rfl
          | some result =>
              simp only
              rw [runFor_enough]
              rw [deliver_incoming]
              exact fewer

theorem run_data (json : JsonCpp) (memory : Nat → Info) (info : Info) (buff : Bytes)
    (sock : Socket) (chunk : Chunk) (rest : List ReadEvent) :
    run json memory info ⟨buff, { sock with incoming := .data chunk :: rest }⟩ =
      match readFrame (ProtocolServer.deserialize json (memory 0))
          (buff ++ Socket.cText chunk) with
      | .error abort =>
          ⟨.aborted abort, ⟨buff ++ Socket.cText chunk, { sock with incoming := rest }⟩⟩
      | .ok none =>
          run json memory info ⟨buff ++ Socket.cText chunk, { sock with incoming := rest }⟩
      | .ok (some (message, buff)) =>
          let server := ProtocolServer.mk buff { sock with incoming := rest }
          match compute message with
          | none => ⟨.undefinedOperation, server⟩
          | some result =>
              let delivered := server.deliver json result
              if delivered.1 then
                run json (fun round => memory (round + 1)) zeroInfo delivered.2
              else ⟨.returned, delivered.2⟩ := by
  have obtained := ProtocolServer.obtain_step json (memory 0) info
    ⟨buff, { sock with incoming := .data chunk :: rest }⟩
  simp only [Socket.recv] at obtained
  rw [run_step, obtained]
  cases readFrame (ProtocolServer.deserialize json (memory 0)) (buff ++ Socket.cText chunk) with
  | error abort => rfl
  | ok taken =>
      cases taken with
      | none =>
          simp only
          rw [run_step]
      | some message => rfl

theorem run_closed (json : JsonCpp) (memory : Nat → Info) (info : Info) (buff : Bytes)
    (sock : Socket) :
    run json memory info ⟨buff, { sock with incoming := [] }⟩ =
      ⟨.returned, ⟨buff, { sock with incoming := [] }⟩⟩ := rfl

end CalculatorServer

def fastWrite (object : JsonObject) : Bytes :=
  let members := ["oper", "result", "x", "y"].filterMap fun name =>
    (object.lookup name).map fun value => ascii "\"" ++ ascii name ++ ascii "\":" ++
      Decimal.intToBytes value
  ascii "\x7b" ++ [44].intercalate members ++ ascii "\x7d\n"

def tableJson (known : List JsonObject) : JsonCpp where
  write := fastWrite
  parse text := (known.find? fun object => fastWrite object = text).map fun object name =>
    (object.lookup name).getD 0

theorem tableJson_writes {known : List JsonObject} {object : JsonObject}
    (found : known.find? (fun other => fastWrite other = fastWrite object) = some object)
    (single : ∀ entry ∈ object, object.lookup entry.1 = some entry.2)
    (noZero : 0 ∉ fastWrite object) (short : (fastWrite object).length < 1000)
    (opens : [123, 34] <+: fastWrite object) : (tableJson known).Writes object where
  parsedBack := by
    refine ⟨fun name => (object.lookup name).getD 0, ?_, ?_⟩
    · simp [tableJson, found]
    · intro entry member
      simp [single entry member]
  noZero := noZero
  short := short
  opens := opens

end LearnInternet.Calculator
