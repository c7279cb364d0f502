import LearnInternet.Calculator.Leftover

/-!
`ProtocolServer::obtain` against any peer: what the buffer has to look like after each read for no
exception to escape, and for true to be returned for whole frames only.
-/

namespace LearnInternet.Calculator

open LearnInternet

def Header (text : Bytes) (index : Nat) (value : Int) : Prop :=
  Text.findFirstOf crlf text = some index ∧ Decimal.stoi (text.take index) = .ok value

/-- `msg_len` is a `uint16_t`: the length of the frame fits, or is so much too long that the message
cut off still ends behind its first line. -/
def LengthFits (index number : Nat) : Prop :=
  index + number + 4 < 2 ^ 16 ∨ (65534 ≤ number ∧ index + number + 4 < 2 ^ 17)

instance (index number : Nat) : Decidable (LengthFits index number) :=
  inferInstanceAs (Decidable (index + number + 4 < 2 ^ 16 ∨
    (65534 ≤ number ∧ index + number + 4 < 2 ^ 17)))

section Look

variable {text : Bytes} {index : Nat} {value : Int}

theorem Header.bound (header : Header text index value) : index < text.length := by
  have found := header.1
  simp only [Text.findFirstOf, List.findIdx?_eq_some_iff_getElem] at found
  exact found.choose

theorem findFirstOf_take (found : Text.findFirstOf crlf text = some index) (len : Nat) :
    Text.findFirstOf crlf (text.take len) = if index < len then some index else none := by
  simp only [Text.findFirstOf] at found ⊢
  rw [List.findIdx?_take, found]
  by_cases inside : index < len <;> simp [Option.guard, inside]

theorem readFrame_unbroken {α : Type} (deserialize : Bytes → Except Abort α)
    (unbroken : Text.findFirstOf crlf text = none) : readFrame deserialize text = .ok none := by
  simp [readFrame, unbroken]

theorem readFrame_found {α : Type} (deserialize : Bytes → Except Abort α)
    (found : Text.findFirstOf crlf text = some index) :
    readFrame deserialize text =
      match Decimal.stoi (text.take index) with
      | .error error => .error (Abort.ofConversion error)
      | .ok value =>
          if sizeSub (sizeSub text.length (index % 2 ^ 16)) 4 < (value % 2 ^ 16).toNat then .ok none
          else takeMessage deserialize text
            ((index % 2 ^ 16 + 2 + (value % 2 ^ 16).toNat + 2) % 2 ^ 16) := by
  have nonempty : text.length ≠ 0 := by
    intro empty
    rw [List.eq_nil_of_length_eq_zero empty] at found
    cases found
  rw [readFrame, if_neg (by simp [nonempty, found])]
  cases number : Decimal.stoi (text.take index) with
  | error error => simp only [firstBreak, found, Option.getD_some, number]
  | ok value => simp only [firstBreak, found, Option.getD_some, number]

theorem takeMessage_ne_none {α : Type} (deserialize : Bytes → Except Abort α) (buff : Bytes)
    (msgLen : Nat) : takeMessage deserialize buff msgLen ≠ .ok none := by
  simp only [takeMessage]
  split <;> simp

theorem parsePayload_take (json : JsonCpp) (header : Header text index value) {len : Nat}
    (small : index < 2 ^ 16) (long : index < len) :
    parsePayload json (text.take len) =
      if (text.take len).length < index + 2 then .error .outOfRange
      else .ok (json.parse (((text.take len).drop (index + 2)).take (value % 2 ^ 16).toNat)) := by
  have kept : Nat.min index len = index := Nat.min_eq_left (Nat.le_of_lt long)
  have number : Decimal.stoi ((text.take len).take index) = .ok value := by
    rw [List.take_take, show min index len = index from kept]
    exact header.2
  simp only [parsePayload, firstBreak, findFirstOf_take header.1, if_pos long, Option.getD_some,
    Nat.mod_eq_of_lt small, number]

theorem parsePayload_unbroken (json : JsonCpp) {msg : Bytes} (short : msg.length < 2 ^ 16)
    (unbroken : Text.findFirstOf crlf msg = none) : ∃ abort, parsePayload json msg = .error abort := by
  simp only [parsePayload, firstBreak, unbroken, Option.getD_none]
  have place : npos % 2 ^ 16 = 65535 := by decide
  rw [place]
  cases Decimal.stoi (msg.take 65535) with
  | error error => exact ⟨_, rfl⟩
  | ok value =>
      refine ⟨.outOfRange, ?_⟩
      simp only
      rw [if_pos (by omega)]

theorem takeMessage_fits (json : JsonCpp) (leftover : Info) (header : Header text index value)
    (fits : LengthFits index (value % 2 ^ 16).toNat)
    (enough : index + 4 + (value % 2 ^ 16).toNat ≤ text.length) :
    ∃ message, takeMessage (ProtocolServer.deserialize json leftover) text
        ((index % 2 ^ 16 + 2 + (value % 2 ^ 16).toNat + 2) % 2 ^ 16) =
      .ok (some (message, text.drop ((index + (value % 2 ^ 16).toNat + 4) % 2 ^ 16))) := by
  generalize number : (value % 2 ^ 16).toNat = size at fits enough
  have sizeBound : size < 2 ^ 16 := by omega
  simp only [LengthFits] at fits
  have small : index < 2 ^ 16 := by omega
  have len : (index % 2 ^ 16 + 2 + size + 2) % 2 ^ 16 = (index + size + 4) % 2 ^ 16 := by omega
  have long : index + 2 ≤ (index + size + 4) % 2 ^ 16 := by omega
  have within : (index + size + 4) % 2 ^ 16 ≤ text.length := by omega
  rw [len]
  simp only [takeMessage, ProtocolServer.deserialize,
    parsePayload_take json header small (show index < (index + size + 4) % 2 ^ 16 by omega),
    List.length_take, Nat.min_eq_left within]
  rw [if_neg (by omega)]
  cases json.parse _ with
  | none => exact ⟨leftover, rfl⟩
  | some value => exact ⟨_, rfl⟩

theorem takeMessage_unfit (json : JsonCpp) (leftover : Info) (header : Header text index value)
    (unfit : ¬LengthFits index (value % 2 ^ 16).toNat) :
    ∃ abort, takeMessage (ProtocolServer.deserialize json leftover) text
        ((index % 2 ^ 16 + 2 + (value % 2 ^ 16).toNat + 2) % 2 ^ 16) = .error abort := by
  generalize number : (value % 2 ^ 16).toNat = size at unfit
  have sizeBound : size < 2 ^ 16 := by omega
  simp only [LengthFits] at unfit
  generalize cut : (index % 2 ^ 16 + 2 + size + 2) % 2 ^ 16 = len
  have lenBound : len < 2 ^ 16 := by omega
  have refused : ∃ abort, parsePayload json (text.take len) = .error abort := by
    by_cases long : index < len
    · refine ⟨.outOfRange, ?_⟩
      rw [parsePayload_take json header (by omega) long, if_pos]
      rw [List.length_take]
      omega
    · apply parsePayload_unbroken
      · rw [List.length_take]
        omega
      · rw [findFirstOf_take header.1, if_neg long]
  obtain ⟨abort, error⟩ := refused
  exact ⟨abort, by simp [takeMessage, ProtocolServer.deserialize, error]⟩

theorem sizeSub_wait {length area number : Nat} (room : area + 4 ≤ length) :
    sizeSub (sizeSub length area) 4 < number ↔ length < area + 4 + number := by
  rw [sizeSub_of_le (show area ≤ length by omega), sizeSub_of_le (by omega)]
  omega

theorem sizeSub_wrapped {length area number : Nat} (inside : area < length)
    (short : length < area + 4) (small : number < 2 ^ 16) :
    ¬sizeSub (sizeSub length area) 4 < number := by
  rw [sizeSub_of_le (show area ≤ length by omega), sizeSub, if_neg (by omega)]
  omega

end Look

def HeldSizes (text : Bytes) (index : Nat) (value : Int) : Prop :=
  0 ≤ value ∧ index + 2 + value.toNat + 2 ≤ text.length

def HeldBytes (text : Bytes) (index : Nat) (value : Int) : Prop :=
  0 ≤ value ∧ ∃ payload rest, payload.length = value.toNat ∧
    text = text.take index ++ crlf ++ payload ++ crlf ++ rest

theorem HeldBytes.sizes {text : Bytes} {index : Nat} {value : Int}
    (held : HeldBytes text index value) (inside : index ≤ text.length) :
    HeldSizes text index value := by
  obtain ⟨natural, payload, rest, size, split⟩ := held
  have length := congrArg List.length split
  simp only [List.length_append, List.length_take, crlf, List.length_cons, List.length_nil, size,
    Nat.min_eq_left inside] at length
  exact ⟨natural, by omega⟩

section Calls

variable (held : Bytes → Nat → Int → Prop)

def Answers (before : ProtocolServer) (obtained : ProtocolServer.Obtained) : Prop :=
  match obtained.result with
  | .error _ => False
  | .ok false => True
  | .ok true =>
      ∃ consumed index value,
        before.sock.incoming = consumed ++ obtained.server.sock.incoming ∧
          Header (before.buff ++ Socket.pendingText { before.sock with incoming := consumed })
            index value ∧
          held (before.buff ++ Socket.pendingText { before.sock with incoming := consumed })
            index value

def Survives (json : JsonCpp) : Nat → (Nat → Info) → Info → ProtocolServer → Prop
  | 0, _, _, _ => True
  | calls + 1, memory, info, server =>
      let obtained := server.obtain json (memory 0) info
      Answers held server obtained ∧
        (∀ more, obtained.result = .ok more →
          Survives json calls (fun call => memory (call + 1)) obtained.info obtained.server)

/-- After each read: the bytes before the first CR or LF are a number, the buffer does not end within
the three bytes behind them, and as soon as it is long enough a frame is held whose length fits. -/
def Orderly : Bytes → List Bytes → Prop
  | _, [] => True
  | buff, read :: reads =>
      match Text.findFirstOf crlf (buff ++ read) with
      | none => Orderly (buff ++ read) reads
      | some index =>
          match Decimal.stoi ((buff ++ read).take index) with
          | .error _ => False
          | .ok value =>
              index % 2 ^ 16 + 4 ≤ (buff ++ read).length ∧
                if (buff ++ read).length < index % 2 ^ 16 + 4 + (value % 2 ^ 16).toNat then
                  Orderly (buff ++ read) reads
                else
                  LengthFits index (value % 2 ^ 16).toNat ∧ held (buff ++ read) index value ∧
                    Orderly ((buff ++ read).drop ((index + (value % 2 ^ 16).toNat + 4) % 2 ^ 16))
                      reads

theorem survives_closed (json : JsonCpp) (calls : Nat) (memory : Nat → Info) (info : Info)
    (buff : Bytes) : Survives held json calls memory info ⟨buff, Socket.ofChunks []⟩ := by
  induction calls generalizing memory info with
  | zero => trivial
  | succ calls ih =>
      refine ⟨trivial, ?_⟩
      intro more _
      exact ih _ _

theorem pendingText_cons (sock : Socket) (chunk : Chunk) (rest : List ReadEvent) :
    Socket.pendingText { sock with incoming := .data chunk :: rest } =
      Socket.cText chunk ++ Socket.pendingText { sock with incoming := rest } := by
  simp [Socket.pendingText]

variable {held}

theorem answers_cons {obtained : ProtocolServer.Obtained} {rest : List ReadEvent}
    (fewer : obtained.result = .ok true → obtained.server.sock.incoming.length ≤ rest.length)
    (buff : Bytes) (sock : Socket) (chunk : Chunk) :
    Answers held ⟨buff, { sock with incoming := .data chunk :: rest }⟩ obtained ↔
      Answers held ⟨buff ++ Socket.cText chunk, { sock with incoming := rest }⟩ obtained := by
  simp only [Answers]
  rcases result : obtained.result with abort | _ | _
  · exact Iff.rfl
  · exact Iff.rfl
  · simp only
    constructor
    · rintro ⟨consumed, index, value, split, header, holds⟩
      cases consumed with
      | nil =>
          have sizes := congrArg List.length split
          have short := fewer result
          simp only [List.nil_append, List.length_cons] at sizes
          omega
      | cons first consumed =>
          rw [List.cons_append, List.cons.injEq] at split
          obtain ⟨rfl, split⟩ := split
          rw [pendingText_cons, ← List.append_assoc] at header holds
          exact ⟨consumed, index, value, split, header, holds⟩
    · rintro ⟨consumed, index, value, split, header, holds⟩
      refine ⟨.data chunk :: consumed, index, value, by rw [split]; rfl, ?_, ?_⟩
      · rw [pendingText_cons, ← List.append_assoc]
        exact header
      · rw [pendingText_cons, ← List.append_assoc]
        exact holds

theorem survives_chunk (json : JsonCpp) (calls : Nat) (memory : Nat → Info) (info : Info)
    (buff : Bytes) (chunk : Chunk) (chunks : List Chunk) :
    Survives held json (calls + 1) memory info ⟨buff, Socket.ofChunks (chunk :: chunks)⟩ ↔
      match readFrame (ProtocolServer.deserialize json (memory 0))
          (buff ++ Socket.cText chunk) with
      | .error _ => False
      | .ok none =>
          Survives held json (calls + 1) memory info
            ⟨buff ++ Socket.cText chunk, Socket.ofChunks chunks⟩
      | .ok (some (message, rest)) =>
          (∃ index value, Header (buff ++ Socket.cText chunk) index value ∧
            held (buff ++ Socket.cText chunk) index value) ∧
            Survives held json calls (fun call => memory (call + 1)) message
              ⟨rest, Socket.ofChunks chunks⟩ := by
  have obtained := obtain_chunk json (memory 0) info buff chunk chunks
  rcases look : readFrame (ProtocolServer.deserialize json (memory 0))
      (buff ++ Socket.cText chunk) with abort | _ | ⟨message, rest⟩
  · rw [look] at obtained
    simp [Survives, obtained, Answers]
  · rw [look] at obtained
    have reads := CalculatorServer.obtain_reads json (memory 0) info
      ⟨buff ++ Socket.cText chunk, Socket.ofChunks chunks⟩
    simp only [Survives, obtained]
    apply and_congr_left'
    exact answers_cons (fun taken => Nat.le_of_lt (reads taken)) buff (Socket.ofChunks chunks) chunk
  · rw [look] at obtained
    simp only [Survives, obtained]
    have answers : Answers held ⟨buff, Socket.ofChunks (chunk :: chunks)⟩
        ⟨.ok true, message, ⟨rest, Socket.ofChunks chunks⟩⟩ ↔
          ∃ index value, Header (buff ++ Socket.cText chunk) index value ∧
            held (buff ++ Socket.cText chunk) index value := by
      constructor
      · rintro ⟨consumed, index, value, split, header, holds⟩
        have single : consumed = [.data chunk] :=
          List.append_cancel_right (split.symm.trans rfl)
        subst single
        rw [pendingText_cons, Socket.pendingText, List.map_nil, List.flatten_nil,
          List.append_nil] at header holds
        exact ⟨index, value, header, holds⟩
      · rintro ⟨index, value, header, holds⟩
        refine ⟨[.data chunk], index, value, rfl, ?_, ?_⟩
        · rw [pendingText_cons, Socket.pendingText, List.map_nil, List.flatten_nil,
            List.append_nil]
          exact header
        · rw [pendingText_cons, Socket.pendingText, List.map_nil, List.flatten_nil,
            List.append_nil]
          exact holds
    rw [answers]
    simp

theorem survives_succ (json : JsonCpp) (memory : Nat → Info) (info : Info)
    (server : ProtocolServer) :
    (∀ calls, Survives held json (calls + 1) memory info server) ↔
      ∀ calls, Survives held json calls memory info server := by
  constructor
  · intro each calls
    cases calls with
    | zero => trivial
    | succ calls => exact each calls
  · intro each calls
    exact each (calls + 1)

theorem Header.exists_iff {text : Bytes} {index : Nat} {value : Int}
    (header : Header text index value) :
    (∃ other number, Header text other number ∧ held text other number) ↔
      held text index value := by
  constructor
  · rintro ⟨other, number, again, holds⟩
    obtain rfl := Option.some.inj (again.1.symm.trans header.1)
    obtain rfl := Except.ok.inj (again.2.symm.trans header.2)
    exact holds
  · intro holds
    exact ⟨index, value, header, holds⟩

theorem survives_iff_orderly (json : JsonCpp)
    (sizes : ∀ text index value, Header text index value → held text index value →
      index + 4 ≤ text.length)
    (chunks : List Chunk) (buff : Bytes) (memory : Nat → Info) (info : Info) :
    (∀ calls, Survives held json calls memory info ⟨buff, Socket.ofChunks chunks⟩) ↔
      Orderly held buff (chunks.map Socket.cText) := by
  induction chunks generalizing buff memory info with
  | nil =>
      have closed := fun calls => survives_closed held json calls memory info buff
      simp [closed, Orderly]
  | cons chunk chunks ih =>
      rw [← survives_succ]
      simp only [survives_chunk, List.map_cons, Orderly]
      generalize buff ++ Socket.cText chunk = text
      cases found : Text.findFirstOf crlf text with
      | none =>
          rw [readFrame_unbroken _ found]
          exact (survives_succ json memory info _).trans (ih text memory info)
      | some index =>
          rw [readFrame_found _ found]
          cases number : Decimal.stoi (text.take index) with
          | error error =>
              simp only [number]
              simp
          | ok value =>
              have header : Header text index value := ⟨found, number⟩
              have inside := header.bound
              have small : (value % 2 ^ 16).toNat < 2 ^ 16 := by omega
              simp only [number]
              by_cases room : index % 2 ^ 16 + 4 ≤ text.length
              · by_cases waits : text.length < index % 2 ^ 16 + 4 + (value % 2 ^ 16).toNat
                · rw [if_pos ((sizeSub_wait room).mpr waits)]
                  simp only [room, waits, true_and, if_true]
                  exact (survives_succ json memory info _).trans (ih text memory info)
                · rw [if_neg (fun less => waits ((sizeSub_wait room).mp less))]
                  simp only [room, waits, true_and, if_false]
                  by_cases fits : LengthFits index (value % 2 ^ 16).toNat
                  · have whole : index % 2 ^ 16 = index := by
                      simp only [LengthFits] at fits
                      omega
                    obtain ⟨message, taken⟩ := takeMessage_fits json (memory 0) header fits
                      (by omega)
                    rw [taken]
                    simp only [header.exists_iff, fits, true_and]
                    rw [← ih _ (fun call => memory (call + 1)) message]
                    exact forall_and_left _ _
                  · obtain ⟨abort, refused⟩ := takeMessage_unfit json (memory 0) header fits
                    rw [refused]
                    simp only [fits, false_and, forall_const]
              · have short : text.length < index % 2 ^ 16 + 4 := Nat.lt_of_not_le room
                have wrapped := sizeSub_wrapped (Nat.lt_of_le_of_lt (Nat.mod_le _ _) inside) short
                  small
                rw [if_neg wrapped]
                simp only [room, false_and, iff_false]
                intro each
                have first := each 0
                have taken := takeMessage_ne_none (ProtocolServer.deserialize json (memory 0)) text
                  ((index % 2 ^ 16 + 2 + (value % 2 ^ 16).toNat + 2) % 2 ^ 16)
                rcases look : takeMessage (ProtocolServer.deserialize json (memory 0)) text
                    ((index % 2 ^ 16 + 2 + (value % 2 ^ 16).toNat + 2) % 2 ^ 16) with
                  abort | _ | ⟨message, rest⟩
                · rw [look] at first
                  exact first
                · exact taken look
                · rw [look] at first
                  have enough := sizes text index value header (header.exists_iff.mp first.1)
                  have least := Nat.mod_le index (2 ^ 16)
                  omega

end Calls

/-- Against any peer each call of `obtain` returns, and true for whole frames only, exactly when the
reads are orderly; a frame may be taken to be held by its sizes or byte for byte. -/
theorem obtain_survives_iff (json : JsonCpp) (memory : Nat → Info) (info : Info)
    (chunks : List Chunk) :
    ((∀ calls, Survives HeldBytes json calls memory info
        (ProtocolServer.ofSocket (Socket.ofChunks chunks))) ↔
      Orderly HeldBytes [] (chunks.map Socket.cText)) ∧
      ((∀ calls, Survives HeldSizes json calls memory info
          (ProtocolServer.ofSocket (Socket.ofChunks chunks))) ↔
        Orderly HeldSizes [] (chunks.map Socket.cText)) := by
  have enough : ∀ text index value, HeldSizes text index value → index + 4 ≤ text.length := by
    intro text index value held
    have size := held.2
    omega
  constructor
  · apply survives_iff_orderly
    intro text index value header held
    exact enough text index value (held.sizes (Nat.le_of_lt header.bound))
  · apply survives_iff_orderly
    intro text index value _ held
    exact enough text index value held

def sshRead : Chunk := ⟨ascii "SSH-2.0-Go\r\n", by decide, by decide⟩

theorem obtain_throws_ssh :
    0 ∉ sshRead.bytes ∧
      ((ProtocolServer.ofSocket (Socket.ofChunks [sshRead])).obtain talkJson ⟨5, 5, 5⟩
        ⟨0, 0, 0⟩).result = .error .invalidArgument := by
  decide +kernel

end LearnInternet.Calculator
