import LearnInternet.Lib.Decimal
import LearnInternet.Lib.Text

/-!
`TcpClient::recv`. It lets `read` fill all of `cbuff` and writes the terminator behind what was read.
-/

namespace LearnInternet

structure TcpClient where
  isInit : Bool
  deriving DecidableEq, Repr

namespace TcpClient

def maxBuff : Nat := 1024

/-- `cbuff` with whatever the stack holds there. -/
structure CBuff where
  bytes : Bytes
  size : bytes.length = maxBuff
  deriving DecidableEq

/-- The bytes of one successful `::read(socket_fd_, cbuff, sizeof(cbuff))`. -/
structure Read where
  bytes : Bytes
  nonempty : bytes ≠ []
  bound : bytes.length ≤ maxBuff

inductive ReadResult where
  | data (read : Read)
  | closed
  | error

inductive Undefined where
  | pastEnd (index : Nat)
  deriving DecidableEq, Repr

def CBuff.set (cbuff : CBuff) (index : Nat) (value : UInt8) : Except Undefined CBuff :=
  if index < maxBuff then
    .ok ⟨cbuff.bytes.set index value, by rw [List.length_set, cbuff.size]⟩
  else .error (.pastEnd index)

def CBuff.fill (cbuff : CBuff) (read : Read) : CBuff where
  bytes := read.bytes ++ cbuff.bytes.drop read.bytes.length
  size := by
    rw [List.length_append, List.length_drop, cbuff.size]
    exact Nat.add_sub_cancel' read.bound

/-- What is returned and what `buff` holds then; `buff = cbuff` stops at the first zero byte. -/
def recv (client : TcpClient) (cbuff : CBuff) (result : ReadResult) (buff : Bytes) :
    Except Undefined (Bool × Bytes) :=
  if ¬client.isInit then .ok (false, buff)
  else
    match result with
    | .error => .ok (false, buff)
    | .closed => .ok (false, buff)
    | .data read =>
        match (cbuff.fill read).set read.bytes.length 0 with
        | .error undefined => .error undefined
        | .ok cbuff => .ok (true, Text.takeUntil 0 cbuff.bytes)

structure Call where
  cbuff : CBuff
  read : Read

def recvAll (client : TcpClient) (buff : Bytes) : List Call → Except Undefined (List Bytes)
  | [] => .ok []
  | call :: later =>
      match recv client call.cbuff (.data call.read) buff with
      | .error undefined => .error undefined
      | .ok (_, buff) =>
          match recvAll client buff later with
          | .error undefined => .error undefined
          | .ok texts => .ok (buff :: texts)

theorem takeUntil_fill {cbuff : CBuff} {read : Read} (noZero : 0 ∉ read.bytes)
    (short : read.bytes.length < maxBuff) :
    Text.takeUntil 0 ((cbuff.fill read).bytes.set read.bytes.length 0) = read.bytes := by
  obtain ⟨old, rest, split⟩ : ∃ old rest, cbuff.bytes.drop read.bytes.length = old :: rest := by
    apply List.exists_cons_of_length_pos
    rw [List.length_drop, cbuff.size]
    omega
  have filled : (cbuff.fill read).bytes = read.bytes ++ old :: rest := by
    rw [← split]
    rfl
  rw [filled, List.set_append_right _ _ (Nat.le_refl _), Nat.sub_self, List.set_cons_zero,
    Text.takeUntil_append_stop, Text.takeUntil_eq_self noZero]

theorem recv_data {client : TcpClient} (initialised : client.isInit = true) (cbuff : CBuff)
    {read : Read} (noZero : 0 ∉ read.bytes) (buff : Bytes) :
    recv client cbuff (.data read) buff =
      if read.bytes.length < maxBuff then .ok (true, read.bytes)
      else .error (.pastEnd read.bytes.length) := by
  simp only [recv, initialised, not_true_eq_false, if_false, CBuff.set]
  by_cases short : read.bytes.length < maxBuff
  · simp only [if_pos short, takeUntil_fill noZero short]
  · simp only [if_neg short]

theorem recvAll_eq {client : TcpClient} (initialised : client.isInit = true) (calls : List Call)
    (noZero : ∀ call ∈ calls, 0 ∉ call.read.bytes)
    (short : ∀ call ∈ calls, call.read.bytes.length < maxBuff)
    (buff : Bytes) :
    recvAll client buff calls = .ok (calls.map fun call => call.read.bytes) := by
  induction calls generalizing buff with
  | nil => rfl
  | cons call later ih =>
      have received := recv_data initialised call.cbuff (noZero call (by simp)) buff
      rw [if_pos (short call (by simp))] at received
      have others := ih (fun other member => noZero other (by simp [member]))
        (fun other member => short other (by simp [member])) call.read.bytes
      simp only [recvAll, received, others, List.map_cons]

theorem short_of_recvAll {client : TcpClient} (initialised : client.isInit = true)
    {calls : List Call} (noZero : ∀ call ∈ calls, 0 ∉ call.read.bytes) {buff : Bytes} {texts : List Bytes}
    (received : recvAll client buff calls = .ok texts) :
    ∀ call ∈ calls, call.read.bytes.length < maxBuff := by
  induction calls generalizing buff texts with
  | nil => simp
  | cons call later ih =>
      have first := recv_data initialised call.cbuff (noZero call (by simp)) buff
      simp only [recvAll] at received
      by_cases short : call.read.bytes.length < maxBuff
      · rw [if_pos short] at first
        simp only [first] at received
        split at received
        · cases received
        · rename_i others laterReceived
          intro other member
          rcases List.mem_cons.mp member with rfl | inLater
          · exact short
          · exact ih (fun other member => noZero other (by simp [member])) laterReceived other inLater
      · rw [if_neg short] at first
        simp only [first] at received
        cases received

/-- Successive calls give the stream back as it was cut exactly when no `read` fills `cbuff`; one that
does puts the terminator behind its end. -/
theorem recvAll_reproduces_iff (client : TcpClient) (initialised : client.isInit = true)
    (stream : Bytes) (noZero : 0 ∉ stream) (calls : List Call)
    (cut : (calls.map fun call => call.read.bytes).flatten = stream) (buff : Bytes) :
    (∃ texts, recvAll client buff calls = .ok texts ∧ texts.flatten = stream) ↔
      ∀ call ∈ calls, call.read.bytes.length < maxBuff := by
  have each : ∀ call ∈ calls, 0 ∉ call.read.bytes := by
    intro call member zero
    apply noZero
    rw [← cut, List.mem_flatten]
    exact ⟨call.read.bytes, List.mem_map_of_mem member, zero⟩
  constructor
  · rintro ⟨texts, received, -⟩
    exact short_of_recvAll initialised each received
  · intro short
    exact ⟨_, recvAll_eq initialised calls each short buff, cut⟩

def clearedCBuff : CBuff := ⟨List.replicate maxBuff 0, List.length_replicate⟩

def greeting : Call := ⟨clearedCBuff, ⟨[104, 105], by decide, by decide⟩⟩

theorem recvAll_reproduces_greeting :
    ∃ texts, recvAll ⟨true⟩ [] [greeting, greeting] = .ok texts ∧
      texts.flatten = [104, 105, 104, 105] :=
  (recvAll_reproduces_iff ⟨true⟩ rfl [104, 105, 104, 105] (by decide) [greeting, greeting] rfl []).mpr
    (by decide)

theorem recv_past_end :
    ¬∀ (client : TcpClient), client.isInit = true → ∀ (stream : Bytes), 0 ∉ stream →
      ∀ calls : List Call, (calls.map fun call => call.read.bytes).flatten = stream →
        ∀ buff, ∃ texts, recvAll client buff calls = .ok texts ∧ texts.flatten = stream := by
  intro reproduces
  have noZero : (0 : UInt8) ∉ List.replicate maxBuff 97 := by simp
  have full : (List.replicate maxBuff (97 : UInt8)).length = maxBuff := List.length_replicate
  have nonempty : List.replicate maxBuff (97 : UInt8) ≠ [] :=
    List.ne_nil_of_length_pos (by rw [full]; decide)
  let call : Call := ⟨clearedCBuff, ⟨List.replicate maxBuff 97, nonempty, Nat.le_of_eq full⟩⟩
  obtain ⟨texts, received, -⟩ := reproduces ⟨true⟩ rfl (List.replicate maxBuff 97) noZero [call]
    (List.append_nil _) []
  have each : ∀ other ∈ [call], 0 ∉ other.read.bytes := by
    intro other member
    rw [List.mem_singleton.mp member]
    exact noZero
  exact absurd full (Nat.ne_of_lt (short_of_recvAll rfl each received call (by simp)))

end TcpClient

end LearnInternet
