import LearnInternet.Calculator.Server

/-!
Whole sessions of the calculator: what is replied to a sequence of requests each of which is
received whole.
-/

namespace LearnInternet.Calculator

open LearnInternet

namespace CalculatorServer

/-- What a request asks for: the mathematical result as a signed 16-bit integer, and one value for
everything else. -/
def answer (info : Info) : Result :=
  let x := info.x.toInt
  let y := info.y.toInt
  if info.oper = 43 then ⟨Int16.ofInt (x + y)⟩
  else if info.oper = 45 then ⟨Int16.ofInt (x - y)⟩
  else if info.oper = 42 then ⟨Int16.ofInt (x * y)⟩
  else if info.oper = 47 ∧ y ≠ 0 then ⟨Int16.ofInt (x.tdiv y)⟩
  else if info.oper = 37 ∧ y ≠ 0 then ⟨Int16.ofInt (x.tmod y)⟩
  else ⟨otherwise⟩

def DividesByZero (info : Info) : Prop := (info.oper = 47 ∨ info.oper = 37) ∧ info.y = 0

instance (info : Info) : Decidable (DividesByZero info) :=
  inferInstanceAs (Decidable ((info.oper = 47 ∨ info.oper = 37) ∧ info.y = 0))

theorem int16_toInt_eq_zero {value : Int16} : value.toInt = 0 ↔ value = 0 := by
  constructor
  · intro zero
    exact Int16.toInt.inj zero
  · rintro rfl
    rfl

theorem quotient_zero (left : Int) : quotient left 0 = none := if_pos rfl

theorem compute_eq (info : Info) :
    compute info = if DividesByZero info then none else some (answer info) := by
  have xBounds := int16_bounds info.x
  have yBounds := int16_bounds info.y
  have product := product_bounds info.x info.y
  simp only [compute, answer, DividesByZero, ← int16_toInt_eq_zero]
  by_cases plus : info.oper = 43
  · simp [plus, toInt32_some (show -2 ^ 31 ≤ info.x.toInt + info.y.toInt by omega) (by omega)]
  by_cases minus : info.oper = 45
  · simp [minus, toInt32_some (show -2 ^ 31 ≤ info.x.toInt - info.y.toInt by omega) (by omega)]
  by_cases times : info.oper = 42
  · simp [times, toInt32_some product.1 product.2]
  by_cases divides : info.oper = 47
  · by_cases zero : info.y.toInt = 0
    · simp [divides, zero, quotient_zero]
    · simp [divides, zero, quotient_some]
  by_cases modulo : info.oper = 37
  · by_cases zero : info.y.toInt = 0
    · simp [modulo, zero, remainder, quotient_zero]
    · simp [modulo, zero, remainder_some]
  · simp [plus, minus, times, divides, modulo]

def peer (chunks : List Chunk) (sent : List Bytes) (wire : Bytes) : Socket :=
  ⟨chunks.map ReadEvent.data, [], sent, wire⟩

theorem run_chunk (json : JsonCpp) (memory : Nat → Info) (info : Info) (buff : Bytes)
    (chunk : Chunk) (chunks : List Chunk) (sent : List Bytes) (wire : Bytes) :
    run json memory info ⟨buff, peer (chunk :: chunks) sent wire⟩ =
      match readFrame (ProtocolServer.deserialize json (memory 0))
          (buff ++ Socket.cText chunk) with
      | .error abort => ⟨.aborted abort, ⟨buff ++ Socket.cText chunk, peer chunks sent wire⟩⟩
      | .ok none => run json memory info ⟨buff ++ Socket.cText chunk, peer chunks sent wire⟩
      | .ok (some (message, buff)) =>
          match compute message with
          | none => ⟨.undefinedOperation, ⟨buff, peer chunks sent wire⟩⟩
          | some result =>
              let reply := ProtocolServer.serialize json result
              run json (fun round => memory (round + 1)) zeroInfo
                ⟨buff, peer chunks (sent ++ [reply]) (wire ++ reply)⟩ :=
  run_data json memory info buff (peer chunks sent wire) chunk (chunks.map ReadEvent.data)

variable {json : JsonCpp}

def reply (json : JsonCpp) (info : Info) : Bytes := ProtocolServer.serialize json (answer info)

theorem run_from (chunks : List Chunk) (infos : List Info) (buff : Bytes) (memory : Nat → Info)
    (info : Info) (sent : List Bytes) (wire : Bytes)
    (writes : ∀ asked ∈ infos, json.Writes asked.object)
    (noZero : 0 ∉ (chunks.map Chunk.bytes).flatten)
    (stream : buff ++ (chunks.map Chunk.bytes).flatten =
      (infos.map (ProtocolClient.serialize json)).flatten)
    (paced : Paced buff.length (chunks.map fun chunk => chunk.bytes.length)
      (infos.map fun asked => (json.write asked.object).length)) :
    let session := run json memory info ⟨buff, peer chunks sent wire⟩
    (session.ending = .returned ∧ session.replies = sent ++ infos.map (reply json)) ↔
      ∀ asked ∈ infos, ¬DividesByZero asked := by
  induction chunks generalizing infos buff memory info sent wire with
  | nil =>
      cases infos with
      | nil =>
          have closed : run json memory info ⟨buff, peer [] sent wire⟩ =
              ⟨.returned, ⟨buff, peer [] sent wire⟩⟩ :=
            run_closed json memory info buff (peer [] sent wire)
          rw [closed]
          simp [Session.replies, peer]
      | cons asked infos => exact paced.elim
  | cons chunk chunks ih =>
      cases infos with
      | nil =>
          have nonempty := chunk.nonempty
          simp [nonempty] at stream
      | cons asked infos =>
          have askedWrites := writes asked (by simp)
          simp only [List.map_cons, List.flatten_cons] at stream noZero
          have text : Socket.cText chunk = chunk.bytes :=
            Socket.cText_eq_bytes fun zero => noZero (List.mem_append_left _ zero)
          have restNoZero : 0 ∉ (chunks.map Chunk.bytes).flatten :=
            fun zero => noZero (List.mem_append_right _ zero)
          have same : (buff ++ chunk.bytes) ++ (chunks.map Chunk.bytes).flatten =
              ProtocolClient.serialize json asked ++
                (infos.map (ProtocolClient.serialize json)).flatten := by
            rw [List.append_assoc, stream]
          have size : (buff ++ chunk.bytes).length = buff.length + chunk.bytes.length :=
            List.length_append
          simp only [List.map_cons, Paced, ← size] at paced
          rw [run_chunk, text]
          by_cases complete : frameLength (json.write asked.object).length ≤
              (buff ++ chunk.bytes).length
          · obtain ⟨rest, split⟩ := serialize_split same complete
            have left : (buff ++ chunk.bytes).length -
                frameLength (json.write asked.object).length = rest.length := by
              rw [split, List.length_append, length_serialize]
              omega
            rw [if_pos complete, left] at paced
            rw [split, List.append_assoc] at same
            simp only [split, readFrame_whole _ askedWrites, compute_eq]
            by_cases undefined : DividesByZero asked
            · simp [undefined]
            · have tail := ih infos rest (fun round => memory (round + 1)) zeroInfo
                (sent ++ [reply json asked]) (wire ++ reply json asked)
                (fun other member => writes other (by simp [member])) restNoZero
                (List.append_cancel_left same) paced
              simpa [undefined, reply] using tail
          · rw [if_neg complete] at paced
            rw [readFrame_waits _ askedWrites same (by omega) paced.1]
            exact ih (asked :: infos) (buff ++ chunk.bytes) memory info sent wire writes restNoZero
              (by rw [same]; simp) (by simpa using paced.2)

/-- Requests that are received whole are answered one by one, each with what it asks for, and the
session returns, exactly when none of them divides by zero. -/
theorem run_answers_iff (json : JsonCpp) (memory : Nat → Info) (info : Info) (infos : List Info)
    (chunks : List Chunk) (writes : ∀ asked ∈ infos, json.Writes asked.object)
    (cut : (chunks.map Chunk.bytes).flatten =
      (infos.map (ProtocolClient.serialize json)).flatten)
    (paced : Paced 0 (chunks.map fun chunk => chunk.bytes.length)
      (infos.map fun asked => (json.write asked.object).length)) :
    let session := run json memory info (ProtocolServer.ofSocket (Socket.ofChunks chunks))
    (session.ending = .returned ∧
        session.replies = infos.map fun asked => ProtocolServer.serialize json (answer asked)) ↔
      ∀ asked ∈ infos, ¬DividesByZero asked :=
  run_from chunks infos [] memory info [] [] writes (cut ▸ ProtocolServer.noZero_requests writes) cut paced

def dividesMinimum : Info := ⟨-32768, -1, 47⟩

def dividesByZero : Info := ⟨1, 0, 47⟩

def divisionJson : JsonCpp := tableJson [dividesMinimum.object, dividesByZero.object]

def divisionRead : Chunk :=
  ⟨ProtocolClient.serialize divisionJson dividesMinimum, by decide, by decide⟩

theorem divisionJson_writes : divisionJson.Writes dividesMinimum.object :=
  tableJson_writes (by decide) (by decide) (by decide) (by decide) (by decide)

theorem run_answers_division :
    let session := run divisionJson (fun _ => ⟨5, 5, 5⟩) ⟨7, 7, 7⟩
      (ProtocolServer.ofSocket (Socket.ofChunks [divisionRead]))
    session.ending = .returned ∧
      session.replies = [ProtocolServer.serialize divisionJson ⟨-32768⟩] :=
  (run_answers_iff divisionJson (fun _ => ⟨5, 5, 5⟩) ⟨7, 7, 7⟩ [dividesMinimum] [divisionRead]
    (by simpa using divisionJson_writes) (by decide) (by decide)).mpr (by decide)

def zeroRead : Chunk :=
  ⟨ProtocolClient.serialize divisionJson dividesByZero, by decide, by decide⟩

theorem run_divides_by_zero :
    divisionJson.Writes dividesByZero.object ∧
      zeroRead.bytes = ([dividesByZero].map (ProtocolClient.serialize divisionJson)).flatten ∧
      Paced 0 [zeroRead.bytes.length] [(divisionJson.write dividesByZero.object).length] ∧
      let session := run divisionJson (fun _ => ⟨5, 5, 5⟩) ⟨7, 7, 7⟩
        (ProtocolServer.ofSocket (Socket.ofChunks [zeroRead]))
      session.ending = .undefinedOperation ∧ session.replies = [] ∧
        session.replies ≠ [ProtocolServer.serialize divisionJson (answer dividesByZero)] :=
  ⟨tableJson_writes (by decide) (by decide) (by decide) (by decide) (by decide), by decide,
    by decide, by decide +kernel⟩

end CalculatorServer

end LearnInternet.Calculator
