import LearnInternet.Calculator.Peers

/-!
`while(!protocol_->obtain(result_)) {}`, the client's wait for a reply. `obtain` returns false for
bytes that are missing and for a peer that has gone, and the loop does not tell them apart.
-/

namespace LearnInternet.Calculator

open LearnInternet

namespace ProtocolClient

/-- The loop for a number of rounds, `none` when it is not left in them. `memory` is what the fresh
`Result` of each round holds. -/
def wait (json : JsonCpp) : Nat → (Nat → Result) → ProtocolClient → Result → Option Obtained
  | 0, _, _, _ => none
  | rounds + 1, memory, client, value =>
      let obtained := client.obtain json (memory 0) value
      match obtained.result with
      | .ok false =>
          wait json rounds (fun round => memory (round + 1)) obtained.client obtained.value
      | _ => some obtained

def Ends (json : JsonCpp) (memory : Nat → Result) (client : ProtocolClient) (value : Result) :
    Prop := ∃ rounds obtained, client.wait json rounds memory value = some obtained

/-- A text that `obtain` does not wait with: it has a line break, and the bytes before it are no
number, or fewer than four bytes follow them (the size test wraps around), or as many as the number
says and four more. -/
def Ready (text : Bytes) : Prop :=
  ∃ index, Text.findFirstOf crlf text = some index ∧
    ∀ value, Decimal.stoi (text.take index) = .ok value →
      text.length < index % 2 ^ 16 + 4 ∨
        index % 2 ^ 16 + 4 + (value % 2 ^ 16).toNat ≤ text.length

theorem sizeSub_waits_iff {length area number : Nat} (inside : area < length)
    (small : number < 2 ^ 16) :
    sizeSub (sizeSub length area) 4 < number ↔
      ¬(length < area + 4 ∨ area + 4 + number ≤ length) := by
  by_cases short : length < area + 4
  · have wrapped := sizeSub_wrapped inside short small
    simp only [wrapped, short, true_or, not_true_eq_false]
  · rw [sizeSub_wait (by omega)]
    omega

theorem readFrame_eq_none_iff {α : Type} (deserialize : Bytes → Except Abort α) (text : Bytes) :
    readFrame deserialize text = .ok none ↔ ¬Ready text := by
  cases found : Text.findFirstOf crlf text with
  | none => simp [readFrame_unbroken deserialize found, Ready, found]
  | some index =>
      rw [readFrame_found deserialize found]
      simp only [Ready, found, Option.some.injEq, exists_eq_left']
      cases number : Decimal.stoi (text.take index) with
      | error failure => simp
      | ok value =>
          have inside : index % 2 ^ 16 < text.length :=
            Nat.lt_of_le_of_lt (Nat.mod_le _ _) (Header.bound ⟨found, number⟩)
          have waits := sizeSub_waits_iff inside (show (value % 2 ^ 16).toNat < 2 ^ 16 by omega)
          simp only [Except.ok.injEq, forall_eq']
          rw [← waits]
          split
          · rename_i short
            simp only [short]
          · rename_i long
            simp only [long, takeMessage_ne_none]

section Steps

variable (json : JsonCpp) (memory : Nat → Result) (value : Result)

theorem wait_of_false {client next : ProtocolClient} {left : Result}
    (obtained : client.obtain json (memory 0) value = ⟨.ok false, left, next⟩) (rounds : Nat) :
    client.wait json (rounds + 1) memory value =
      next.wait json rounds (fun round => memory (round + 1)) left := by
  rw [wait, obtained]

theorem ends_of_false {client next : ProtocolClient} {left : Result}
    (obtained : client.obtain json (memory 0) value = ⟨.ok false, left, next⟩) :
    client.Ends json memory value ↔ next.Ends json (fun round => memory (round + 1)) left := by
  constructor
  · rintro ⟨rounds, last, waited⟩
    cases rounds with
    | zero => cases waited
    | succ rounds =>
        rw [wait_of_false json memory value obtained] at waited
        exact ⟨rounds, last, waited⟩
  · rintro ⟨rounds, last, waited⟩
    refine ⟨rounds + 1, last, ?_⟩
    rw [wait_of_false json memory value obtained]
    exact waited

theorem wait_closed (rounds : Nat) (buff : Bytes) (sock : Socket) :
    (ProtocolClient.mk buff { sock with incoming := [] }).wait json rounds memory value = none := by
  induction rounds generalizing memory with
  | zero => rfl
  | succ rounds ih =>
      rw [wait_of_false json memory value rfl]
      exact ih _

theorem ends_of_left {client : ProtocolClient}
    (left : (client.obtain json (memory 0) value).result ≠ .ok false) :
    client.Ends json memory value := by
  refine ⟨1, client.obtain json (memory 0) value, ?_⟩
  rw [wait]
  split
  · rename_i waited
    exact absurd waited left
  · rfl

variable {json}

theorem obtain_unready {leftover : Result} {buff : Bytes} {sock : Socket} {chunk : Chunk}
    (rest : List ReadEvent) (unready : ¬Ready (buff ++ Socket.cText chunk)) :
    (ProtocolClient.mk buff { sock with incoming := .data chunk :: rest }).obtain json leftover
        value =
      ⟨.ok false, value, ⟨buff ++ Socket.cText chunk, { sock with incoming := rest }⟩⟩ := by
  have waits := (readFrame_eq_none_iff (deserialize json leftover) _).mpr unready
  simp only [obtain, Socket.recv, waits]

theorem obtain_ready {leftover : Result} {buff : Bytes} {sock : Socket} {chunk : Chunk}
    (rest : List ReadEvent) (ready : Ready (buff ++ Socket.cText chunk)) :
    ((ProtocolClient.mk buff { sock with incoming := .data chunk :: rest }).obtain json leftover
        value).result ≠ .ok false := by
  have looks : readFrame (deserialize json leftover) (buff ++ Socket.cText chunk) ≠ .ok none :=
    fun waits => (readFrame_eq_none_iff _ _).mp waits ready
  simp only [obtain, Socket.recv]
  split
  · simp
  · rename_i waits
    exact absurd waits looks
  · simp

theorem ends_chunk (buff : Bytes) (sock : Socket) (chunk : Chunk) (rest : List ReadEvent) :
    (ProtocolClient.mk buff { sock with incoming := .data chunk :: rest }).Ends json memory value ↔
      Ready (buff ++ Socket.cText chunk) ∨
        (ProtocolClient.mk (buff ++ Socket.cText chunk) { sock with incoming := rest }).Ends json
          (fun round => memory (round + 1)) value := by
  by_cases ready : Ready (buff ++ Socket.cText chunk)
  · simp only [ready, true_or, iff_true]
    exact ends_of_left json memory value (obtain_ready value rest ready)
  · simp only [ready, false_or]
    exact ends_of_false json memory value (obtain_unready value rest ready)

/-- Whatever the server sends before it closes, the wait ends exactly if after some read the buffer
was ready. -/
theorem wait_ends_iff (chunks : List Chunk) (buff : Bytes) (sock : Socket) :
    (ProtocolClient.mk buff { sock with incoming := chunks.map ReadEvent.data }).Ends json memory
        value ↔
      ∃ taken, taken ≠ [] ∧ taken <+: chunks ∧ Ready (buff ++ (taken.map Socket.cText).flatten) := by
  induction chunks generalizing buff memory with
  | nil =>
      constructor
      · rintro ⟨rounds, obtained, waited⟩
        rw [List.map_nil, wait_closed] at waited
        cases waited
      · rintro ⟨taken, nonempty, inside, -⟩
        exact absurd (List.prefix_nil.mp inside) nonempty
  | cons chunk chunks ih =>
      rw [List.map_cons, ends_chunk, ih]
      constructor
      · rintro (ready | ⟨taken, nonempty, inside, ready⟩)
        · exact ⟨[chunk], by simp, by simp, by simpa using ready⟩
        · exact ⟨chunk :: taken, by simp, by simpa using inside, by simpa using ready⟩
      · rintro ⟨taken, nonempty, inside, ready⟩
        cases taken with
        | nil => exact absurd rfl nonempty
        | cons first taken =>
            obtain ⟨rfl, later⟩ := List.cons_prefix_cons.mp inside
            cases taken with
            | nil => exact Or.inl (by simpa using ready)
            | cons next taken =>
                exact Or.inr ⟨next :: taken, by simp, later, by simpa using ready⟩

end Steps

def halfReply : Chunk := ⟨ascii "13\r\n\x7b\"result", by decide, by decide⟩

theorem wait_spins :
    ¬∀ chunks : List Chunk,
      (ProtocolClient.mk [] (Socket.ofChunks chunks)).Ends talkJson (fun _ => ⟨0⟩) ⟨0⟩ := by
  intro ends
  have unready : ¬Ready ([] ++ Socket.cText halfReply) := by
    rw [← readFrame_eq_none_iff (deserialize talkJson ⟨0⟩)]
    decide
  rcases (ends_chunk _ _ [] (Socket.ofChunks []) halfReply []).mp (ends [halfReply]) with
    ready | ⟨rounds, obtained, waited⟩
  · exact unready ready
  · have spins := wait_closed talkJson (fun _ => ⟨0⟩) ⟨0⟩ rounds ([] ++ Socket.cText halfReply)
      (Socket.ofChunks [])
    cases spins.symm.trans waited

end ProtocolClient

end LearnInternet.Calculator
