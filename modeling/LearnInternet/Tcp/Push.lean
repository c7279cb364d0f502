import LearnInternet.Tcp.Transmission

/-!
`push` keeps the invariant of the transmission: what one call of `push_simple_mode_` takes, the loop
around it, and the probe of a closed window.
-/

namespace LearnInternet.Tcp

namespace TCPSender

/-! What one call of `push_simple_mode_` takes. -/

/-- The count it pops and asks `peek` for, in a message that already has a `SYN` or not. -/
def request (space : UInt64) (syn : Bool) : Nat :=
  let free := space - UInt64.ofNat syn.toNat
  if 0 < free ∧ free ≤ 1000 then space.toNat else if 1000 < free then 1000 else 0

def requested (sender : TCPSender) : Nat := request sender.space (!sender.isSyned)

def Lossless (sender : TCPSender) : Prop :=
  sender.input.bytesBuffered ≤ ByteStream.readBytesSize ∨
    sender.requested ≤ ByteStream.readBytesSize

instance (sender : TCPSender) : Decidable sender.Lossless := inferInstanceAs (Decidable (_ ∨ _))

def segment (sender : TCPSender) (fin : Bool) : TCPSenderMessage :=
  { sender.makeEmptyMessage with
    syn := !sender.isSyned
    payload := sender.input.peek.take sender.requested
    fin }

def filled (sender : TCPSender) (fin : Bool) : TCPSender :=
  { sender with
    isSyned := true
    input := sender.input.pop sender.requested
    isFined := sender.isFined || fin }

theorem fillSyn_eq (sender : TCPSender) :
    sender.fillSyn sender.makeEmptyMessage =
      ({ sender with isSyned := true }, { sender.makeEmptyMessage with syn := !sender.isSyned }) := by
  cases syned : sender.isSyned with
  | false => simp [fillSyn, syned]
  | true => cases sender; simp_all [fillSyn, makeEmptyMessage]

theorem fillPayload_eq (sender : TCPSender) (message : TCPSenderMessage)
    (empty : message.payload = []) (unmarked : message.fin = false) :
    sender.fillPayload message =
      ({ sender with input := sender.input.pop (request sender.space message.syn) },
        { message with payload := sender.input.peek.take (request sender.space message.syn) }) := by
  have length : message.sequenceLength = message.syn.toNat := by
    simp [TCPSenderMessage.sequenceLength, empty, unmarked]
  simp only [fillPayload, length, request]
  split
  · rfl
  · split
    · rfl
    · rw [ByteStream.pop_zero, List.take_zero, ← empty]

theorem fillFin_eq (sender : TCPSender) (message : TCPSenderMessage)
    (unmarked : message.fin = false) :
    ∃ fin : Bool,
      (fin = true → sender.isFined = false ∧
        0 < sender.space - UInt64.ofNat message.sequenceLength ∧
        sender.input.isFinished = true) ∧
      sender.fillFin message =
        ({ sender with isFined := sender.isFined || fin }, { message with fin }) := by
  simp only [fillFin]
  split
  · rename_i ends
    refine ⟨true, ?_, ?_⟩
    · intro _
      exact ⟨ends.1, ends.2.1, ends.2.2.1⟩
    · simp
  · refine ⟨false, ?_, ?_⟩
    · simp
    · rw [Bool.or_false, ← unmarked]

structure Ends (sender : TCPSender) : Prop where
  unfinned : sender.isFined = false
  room : 0 < sender.space - UInt64.ofNat (sender.segment false).sequenceLength
  closed : sender.input.close = true
  empty : (sender.input.pop sender.requested).buffer = []

theorem pushSimpleMode_eq (sender : TCPSender) :
    ∃ fin : Bool, (fin = true → sender.Ends) ∧
      sender.pushSimpleMode = (sender.filled fin).launch (sender.segment fin) := by
  have filled := fillPayload_eq { sender with isSyned := true }
    { sender.makeEmptyMessage with syn := !sender.isSyned } rfl rfl
  obtain ⟨fin, ends, fined⟩ := fillFin_eq
    { sender with isSyned := true, input := sender.input.pop sender.requested }
    { sender.makeEmptyMessage with
      syn := !sender.isSyned
      payload := sender.input.peek.take sender.requested } rfl
  refine ⟨fin, ?_, ?_⟩
  · intro marked
    obtain ⟨unfinned, room, finished⟩ := ends marked
    simp only [ByteStream.isFinished, Bool.and_eq_true, decide_eq_true_eq] at finished
    exact ⟨unfinned, room, finished.1, List.eq_nil_of_length_eq_zero finished.2⟩
  · simp only [pushSimpleMode, fillSyn_eq, filled]
    exact congrArg (fun pair => launch pair.1 pair.2) fined

theorem filled_stays {sender : TCPSender} {fin : Bool}
    (none : (sender.segment fin).sequenceLength = 0) (lossless : sender.Lossless) :
    sender.Stays (sender.filled fin) := by
  have parts : sender.isSyned = true ∧ sender.input.peek.take sender.requested = [] ∧
      fin = false := by
    simpa [TCPSenderMessage.sequenceLength, segment, and_assoc] using none
  obtain ⟨syned, empty, unmarked⟩ := parts
  rw [ByteStream.peek_take lossless] at empty
  constructor
  · rfl
  · have split := List.take_append_drop sender.requested sender.input.buffer
    rw [empty, List.nil_append] at split
    exact split
  · simp only [filled]
    rw [ByteStream.pop_bytesPopped, empty, List.length_nil, Nat.add_zero]
  · rfl
  · exact syned.symm
  · simp [filled, unmarked]
  · intro sent member
    exact member

theorem launch_sends {sender : TCPSender} {fin : Bool}
    (ends : fin = true → sender.Ends)
    (some : (sender.segment fin).sequenceLength ≠ 0) (lossless : sender.Lossless)
    (unfinned : sender.isFined = false) :
    sender.Sends ⟨sender.nextSeq, sender.segment fin⟩
      ((sender.filled fin).launch (sender.segment fin)) := by
  have payload : (sender.segment fin).payload = sender.input.buffer.take sender.requested :=
    ByteStream.peek_take lossless
  simp only [launch, if_neg some]
  constructor
  · rfl
  · rfl
  · rfl
  · rw [payload]
    exact (List.take_append_drop sender.requested sender.input.buffer).symm
  · rw [payload]
    exact ByteStream.pop_bytesPopped sender.input sender.requested
  · rfl
  · simp [segment, transmit, filled]
  · rfl
  · simp [segment]
  · intro marked
    exact ⟨(ends marked).unfinned, rfl⟩
  · intro _
    exact ⟨unfinned, rfl⟩
  · rfl
  · intro other member
    simp only [messages, transmit, filled, List.mem_append, List.mem_singleton] at member ⊢
    tauto

theorem Sound.pushSimpleMode {sender : TCPSender} {isn : Wrap32} {written : Bytes}
    (sound : sender.Sound isn written) (lossless : sender.Lossless)
    (unfinned : sender.isFined = false) : sender.pushSimpleMode.Sound isn written := by
  obtain ⟨fin, ends, pushed⟩ := sender.pushSimpleMode_eq
  rw [pushed]
  by_cases none : (sender.segment fin).sequenceLength = 0
  · simp only [launch, if_pos none]
    exact sound.moves ⟨filled_stays none lossless, fun _ member => member⟩
  · exact sound.sends (launch_sends ends none lossless unfinned)

theorem pushSimpleMode_isSyned (sender : TCPSender) : sender.pushSimpleMode.isSyned = true := by
  obtain ⟨fin, -, pushed⟩ := sender.pushSimpleMode_eq
  rw [pushed, launch]
  split <;> rfl

theorem pushSimpleMode_input (sender : TCPSender) :
    sender.pushSimpleMode.input = sender.input.pop sender.requested := by
  obtain ⟨fin, -, pushed⟩ := sender.pushSimpleMode_eq
  rw [pushed, launch]
  split <;> rfl

theorem pushSimpleMode_space (sender : TCPSender) :
    ∃ fin : Bool, (fin = true → (sender.input.pop sender.requested).buffer = []) ∧
      sender.pushSimpleMode.space =
        sender.space - UInt64.ofNat (sender.segment fin).sequenceLength := by
  obtain ⟨fin, ends, pushed⟩ := sender.pushSimpleMode_eq
  refine ⟨fin, fun marked => (ends marked).empty, ?_⟩
  rw [pushed, launch]
  split
  · rename_i none
    rw [none]
    simp [space, filled]
  · simp only [space, transmit, filled]
    grind

theorem request_uses_up {space : UInt64} {syn : Bool}
    (small : request space syn ≤ ByteStream.readBytesSize) :
    positiveInt64 (space - UInt64.ofNat (syn.toNat + request space syn)) = false := by
  simp only [request, ByteStream.readBytesSize] at *
  split at small
  · rename_i free
    rw [if_pos free]
    have rest : space - UInt64.ofNat (syn.toNat + space.toNat) = 0 - UInt64.ofNat syn.toNat := by
      rw [UInt64.ofNat_add, UInt64.ofNat_toNat]
      grind
    rw [rest]
    cases syn <;> decide
  · rename_i full
    rw [if_neg full]
    split at small
    · omega
    · rename_i notLong
      have exact : space - UInt64.ofNat syn.toNat = 0 := by
        simp only [UInt64.lt_iff_toNat_lt, UInt64.le_iff_toNat_le] at full notLong
        rw [← UInt64.toNat_inj]
        simp only [UInt64.toNat_ofNat] at *
        omega
      rw [if_neg notLong, Nat.add_zero, exact]
      decide

theorem pushSimpleMode_hasToPush {sender : TCPSender}
    (small : sender.requested ≤ ByteStream.readBytesSize)
    (more : sender.requested < sender.input.bytesBuffered) :
    sender.pushSimpleMode.hasToPush = false := by
  obtain ⟨fin, ends, space_eq⟩ := sender.pushSimpleMode_space
  have unmarked : fin = false := by
    by_contra marked
    have empty := ends (by simpa using marked)
    have left : sender.input.buffer.length ≤ sender.requested := by
      simpa [ByteStream.pop] using empty
    exact absurd more (Nat.not_lt.mpr left)
  have length : (sender.segment fin).sequenceLength =
      (!sender.isSyned).toNat + sender.requested := by
    have taken : (sender.input.peek.take sender.requested).length = sender.requested := by
      rw [ByteStream.peek_take (.inr small), List.length_take]
      exact Nat.min_eq_left (Nat.le_of_lt more)
    simp [TCPSenderMessage.sequenceLength, segment, unmarked, taken]
  have noSpace : positiveInt64 sender.pushSimpleMode.space = false := by
    rw [space_eq, length]
    exact request_uses_up small
  simp [hasToPush, noSpace]

theorem pushSimpleMode_lossless {sender : TCPSender} (lossless : sender.Lossless)
    (again : sender.pushSimpleMode.hasToPush = true) : sender.pushSimpleMode.Lossless := by
  left
  have left : sender.pushSimpleMode.input.bytesBuffered =
      sender.input.bytesBuffered - sender.requested := by
    rw [pushSimpleMode_input]
    simp [ByteStream.bytesBuffered, ByteStream.pop]
  rw [left]
  cases lossless with
  | inl few => omega
  | inr small =>
      by_cases more : sender.requested < sender.input.bytesBuffered
      · rw [pushSimpleMode_hasToPush small more] at again
        cases again
      · omega

theorem hasToPush_iff (sender : TCPSender) :
    sender.hasToPush = true ↔
      positiveInt64 sender.space = true ∧ sender.isFined = false ∧
        0 < sender.input.bytesBuffered := by
  simp [hasToPush, and_assoc]

theorem requested_pos {sender : TCPSender} (syned : sender.isSyned = true)
    (room : positiveInt64 sender.space = true) : 0 < sender.requested := by
  have positive : 0 < sender.space := by
    simp only [positiveInt64, decide_eq_true_eq] at room
    exact room.1
  have number : 0 < sender.space.toNat := UInt64.lt_iff_toNat_lt.mp positive
  simp only [requested, request, syned, Bool.not_true, Bool.toNat_false]
  have free : sender.space - UInt64.ofNat 0 = sender.space := by simp
  rw [free]
  split
  · exact number
  · rename_i long
    split
    · omega
    · rename_i short
      exact absurd ⟨positive, UInt64.not_lt.mp short⟩ long

theorem pushLoop_done {rounds : Nat} {sender : TCPSender} (syned : sender.isSyned = true)
    (enough : sender.input.bytesBuffered ≤ rounds) :
    (pushLoop rounds sender).hasToPush = false := by
  induction rounds generalizing sender with
  | zero =>
      rw [pushLoop, Bool.eq_false_iff]
      intro pushes
      have buffered := (sender.hasToPush_iff.mp pushes).2.2
      omega
  | succ rounds ih =>
      rw [pushLoop]
      split
      · rename_i pushes
        obtain ⟨room, -, buffered⟩ := sender.hasToPush_iff.mp pushes
        apply ih sender.pushSimpleMode_isSyned
        rw [pushSimpleMode_input]
        have taken := requested_pos syned room
        simp only [ByteStream.bytesBuffered, ByteStream.pop, List.length_drop] at *
        omega
      · rename_i stops
        simpa using stops

theorem pushLoop_induction {motive : TCPSender → Prop}
    (keeps : ∀ sender : TCPSender, motive sender → sender.hasToPush = true →
      motive sender.pushSimpleMode)
    (rounds : Nat) {sender : TCPSender} (start : motive sender) :
    motive (pushLoop rounds sender) := by
  induction rounds generalizing sender with
  | zero => exact start
  | succ rounds ih =>
      rw [pushLoop]
      split
      · rename_i pushes
        exact ih (keeps sender start pushes)
      · exact start

section Keeps

variable {motive : TCPSender → Prop}
  (keeps : ∀ sender : TCPSender, motive sender → sender.Lossless → sender.isFined = false →
    motive sender.pushSimpleMode)

include keeps

theorem pushLoop_keeps (rounds : Nat) {sender : TCPSender} (start : motive sender)
    (lossless : sender.hasToPush = true → sender.Lossless) :
    motive (pushLoop rounds sender) := by
  have both : motive (pushLoop rounds sender) ∧
      ((pushLoop rounds sender).hasToPush = true → (pushLoop rounds sender).Lossless) := by
    apply pushLoop_induction (motive := fun sender =>
      motive sender ∧ (sender.hasToPush = true → sender.Lossless)) _ rounds ⟨start, lossless⟩
    rintro sender ⟨holds, whole⟩ pushes
    refine ⟨keeps sender holds (whole pushes) (sender.hasToPush_iff.mp pushes).2.1, ?_⟩
    intro again
    exact pushSimpleMode_lossless (whole pushes) again
  exact both.1

theorem pushSyned_keeps {sender : TCPSender} (start : motive sender)
    (lossless : sender.hasToPush = true → sender.Lossless) : motive sender.pushSyned := by
  have pushed := pushLoop_keeps keeps sender.input.bytesBuffered start lossless
  simp only [pushSyned]
  split
  · rename_i ends
    apply keeps _ pushed
    · left
      rw [ends.2.2.2]
      exact Nat.zero_le _
    · exact ends.1
  · exact pushed

/-- Outside of the probe what each call of `push_simple_mode_` keeps is kept by `push`. -/
theorem pushSimple_keeps {sender : TCPSender} (start : motive sender)
    (order : sender.isFined = true → sender.isSyned = true)
    (lossless : sender.isSyned = false ∨ sender.hasToPush = true → sender.Lossless) :
    motive sender.pushSimple := by
  simp only [pushSimple]
  split
  · apply pushSyned_keeps keeps start
    intro pushes
    exact lossless (.inr pushes)
  · rename_i unsyned
    have whole := lossless (.inl (by simpa using unsyned))
    have unfinned : sender.isFined = false := by
      rw [Bool.eq_false_iff]
      intro fined
      exact unsyned (order fined)
    apply pushSyned_keeps keeps (keeps sender start whole unfinned)
    intro again
    exact pushSimpleMode_lossless whole again

end Keeps

theorem Sound.pushSimple {sender : TCPSender} {isn : Wrap32} {written : Bytes}
    (sound : sender.Sound isn written)
    (lossless : sender.isSyned = false ∨ sender.hasToPush = true → sender.Lossless) :
    sender.pushSimple.Sound isn written := by
  apply pushSimple_keeps (motive := fun sender => sender.Sound isn written) _ sound sound.order
    lossless
  intro sender sound whole unfinned
  exact sound.pushSimpleMode whole unfinned

/-! The probe. -/

theorem cutFirst_bare {message first : TCPSenderMessage} (fresh : message.payload = [])
    (empty : first.payload = []) :
    (cutFirst message first).1.payload = [] ∧
      (cutFirst message first).1.seqno = message.seqno ∧
      (cutFirst message first).2.payload = [] ∧
      (cutFirst message first).2.seqno = first.seqno := by
  simp only [cutFirst, empty, List.length_nil, ne_eq, not_true_eq_false, if_false]
  split
  · exact ⟨fresh, rfl, rfl, rfl⟩
  · split
    · exact ⟨fresh, rfl, rfl, rfl⟩
    · exact ⟨fresh, rfl, empty, rfl⟩

def cutMessage (sender : TCPSender) (syn : Bool) (count : Nat) (fin : Bool) : TCPSenderMessage :=
  { sender.makeEmptyMessage with syn, payload := sender.input.peek.take count, fin }

def cutSender (sender : TCPSender) (syn : Bool) (count : Nat) (fin : Bool) : TCPSender :=
  { sender with
    isSyned := sender.isSyned || syn
    input := sender.input.pop count
    isFined := sender.isFined || fin }

structure Cuts (sender : TCPSender) (syn : Bool) (count : Nat) (fin : Bool) : Prop where
  one : (sender.cutMessage syn count fin).sequenceLength = 1
  single : count ≤ 1
  synOnce : syn = true → sender.isSyned = false
  taken : count ≠ 0 → sender.isSyned = true ∧ sender.input.bytesBuffered ≠ 0
  finOnce : fin = true → sender.isFined = false ∧ sender.isSyned = true

theorem cutStream_cases (sender : TCPSender) :
    sender.cutStream sender.makeEmptyMessage = (sender, sender.makeEmptyMessage) ∨
      ∃ syn count fin, sender.Cuts syn count fin ∧
        sender.cutStream sender.makeEmptyMessage =
          (sender.cutSender syn count fin, sender.cutMessage syn count fin) := by
  simp only [cutStream]
  split
  · rename_i unsyned
    right
    refine ⟨true, 0, false, ?_, ?_⟩
    · constructor <;> simp [cutMessage, TCPSenderMessage.sequenceLength, unsyned]
    · simp [cutSender, cutMessage, makeEmptyMessage, ByteStream.pop_zero]
  · rename_i syned
    rw [Bool.not_eq_false] at syned
    split
    · rename_i buffered
      right
      refine ⟨false, 1, false, ?_, ?_⟩
      · have one : (sender.input.peek.take 1).length = 1 := by
          rw [ByteStream.peek_take (.inr (by decide)), List.length_take]
          exact Nat.min_eq_left (Nat.one_le_iff_ne_zero.mpr buffered)
        constructor <;>
          simp [cutMessage, TCPSenderMessage.sequenceLength, syned, buffered, one]
      · simp [cutSender, cutMessage, makeEmptyMessage]
    · split
      · rename_i ends
        right
        refine ⟨false, 0, true, ?_, ?_⟩
        · constructor <;> simp [cutMessage, TCPSenderMessage.sequenceLength, syned, ends.2]
        · simp [cutSender, cutMessage, makeEmptyMessage, ByteStream.pop_zero]
      · left
        rfl

theorem probe_sends {sender : TCPSender} {syn fin : Bool} {count : Nat}
    (cuts : sender.Cuts syn count fin)
    (unclosed : sender.isFined = true → sender.input.bytesBuffered = 0) :
    sender.Sends ⟨sender.nextSeq, sender.cutMessage syn count fin⟩
      ({ sender.cutSender syn count fin with
          nextSeq := sender.nextSeq + 1, seqFNum := sender.seqFNum + 1 }.probe
        ⟨sender.nextSeq, sender.cutMessage syn count fin⟩) := by
  have short : count ≤ ByteStream.readBytesSize := Nat.le_trans cuts.single (by decide)
  have payload : (sender.cutMessage syn count fin).payload = sender.input.buffer.take count :=
    ByteStream.peek_take (.inr short)
  constructor
  · rfl
  · rfl
  · rfl
  · rw [payload]
    exact (List.take_append_drop count sender.input.buffer).symm
  · rw [payload]
    exact ByteStream.pop_bytesPopped sender.input count
  · rw [cuts.one]
    rfl
  · rfl
  · rfl
  · exact cuts.synOnce
  · intro marked
    obtain ⟨unfinned, syned⟩ := cuts.finOnce marked
    exact ⟨unfinned, by simp [probe, transmit, cutSender, syned]⟩
  · intro filled
    have some : count ≠ 0 := by
      intro none
      rw [payload, none, List.take_zero] at filled
      exact filled rfl
    obtain ⟨syned, buffered⟩ := cuts.taken some
    refine ⟨?_, by simp [probe, transmit, cutSender, syned]⟩
    rw [Bool.eq_false_iff]
    intro fined
    exact buffered (unclosed fined)
  · rfl
  · intro other member
    simp only [messages, probe, transmit, cutSender, List.mem_append, List.mem_singleton]
      at member ⊢
    tauto

def windowCut (message : TCPSenderMessage) : List Numbered → List Numbered
  | [] => []
  | first :: rest =>
      let cut := cutFirst message first.message
      if cut.2.sequenceLength = 0 then rest else { first with message := cut.2 } :: rest

theorem pushZwpMode_of_cons {sender : TCPSender} {first : Numbered} {rest : List Numbered}
    (window : sender.window = first :: rest) :
    sender.pushZwpMode =
      { sender with window := windowCut sender.makeEmptyMessage sender.window }.probe
        ⟨sender.nextSeq, (cutFirst sender.makeEmptyMessage first.message).1⟩ := by
  simp only [pushZwpMode]
  split
  · rename_i head tail headTail
    rw [window] at headTail
    cases headTail
    rw [window]
    rfl
  · rename_i empty
    rw [window] at empty
    cases empty

theorem pushZwpMode_of_nothing {sender : TCPSender} (window : sender.window = [])
    (nothing : sender.cutStream sender.makeEmptyMessage = (sender, sender.makeEmptyMessage)) :
    sender.pushZwpMode = sender := by
  have none : sender.makeEmptyMessage.sequenceLength ≠ 1 := by
    simp [makeEmptyMessage, TCPSenderMessage.sequenceLength]
  simp only [pushZwpMode]
  split
  · rename_i some
    rw [window] at some
    cases some
  · rw [nothing]
    exact if_pos none

theorem pushZwpMode_of_nil {sender : TCPSender} (window : sender.window = []) :
    sender.pushZwpMode = sender ∨
      ∃ syn count fin, sender.Cuts syn count fin ∧
        sender.pushZwpMode =
          { sender.cutSender syn count fin with
              nextSeq := sender.nextSeq + 1, seqFNum := sender.seqFNum + 1 }.probe
            ⟨sender.nextSeq, sender.cutMessage syn count fin⟩ := by
  rcases sender.cutStream_cases with nothing | ⟨syn, count, fin, cuts, cut_eq⟩
  · exact .inl (pushZwpMode_of_nothing window nothing)
  · refine .inr ⟨syn, count, fin, cuts, ?_⟩
    simp only [pushZwpMode]
    split
    · rename_i some
      rw [window] at some
      cases some
    · rw [cut_eq]
      exact if_neg (not_not.mpr cuts.one)

theorem Sound.pushZwpMode {sender : TCPSender} {isn : Wrap32} {written : Bytes}
    (sound : sender.Sound isn written)
    (bare : ∀ first ∈ sender.window.head?, first.message.payload = [])
    (unclosed : sender.window = [] → sender.isFined = true → sender.input.bytesBuffered = 0) :
    sender.pushZwpMode.Sound isn written := by
  cases window : sender.window with
  | cons first rest =>
      have empty : first.message.payload = [] := bare first (by simp [window])
      have firstFits : first.Fits isn written := sound.fits first (by simp [messages, window])
      obtain ⟨probe_payload, probe_seqno, kept_payload, kept_seqno⟩ :=
        cutFirst_bare (rfl : sender.makeEmptyMessage.payload = []) empty
      have probeFits : Numbered.Fits
          ⟨sender.nextSeq, (cutFirst sender.makeEmptyMessage first.message).1⟩ isn written := by
        apply Numbered.fits_of_payload_eq_nil written
        · rw [probe_seqno, ← sound.isn_eq]
          rfl
        · exact probe_payload
      have keptFits : Numbered.Fits
          { first with message := (cutFirst sender.makeEmptyMessage first.message).2 }
          isn written := by
        apply Numbered.fits_of_payload_eq_nil written
        · rw [kept_seqno]
          exact firstFits.seqno
        · exact kept_payload
      rw [pushZwpMode_of_cons window]
      apply sound.stays
      · exact ⟨rfl, rfl, rfl, rfl, rfl, rfl, fun _ member => List.mem_append_left _ member⟩
      · intro sent member
        simp only [messages, probe, transmit, List.mem_append, List.mem_singleton] at member
        rcases member with ((old | rfl) | stays) | old | rfl
        · exact sound.fits sent (by simp [messages, old])
        · exact probeFits
        · rw [window, windowCut] at stays
          split at stays
          · exact sound.fits sent (by simp [messages, window, stays])
          · cases List.mem_cons.mp stays with
            | inl same => exact same ▸ keptFits
            | inr later => exact sound.fits sent (by simp [messages, window, later])
        · exact sound.fits sent (by simp [messages, old])
        · exact probeFits
  | nil =>
      rcases pushZwpMode_of_nil window with stays | ⟨syn, count, fin, cuts, probed⟩
      · rw [stays]
        exact sound
      · rw [probed]
        exact sound.sends (probe_sends cuts (unclosed window))

theorem Sound.push {sender : TCPSender} {isn : Wrap32} {written : Bytes}
    (sound : sender.Sound isn written)
    (simple : sender.zeroWindowProbe = false →
      sender.isSyned = false ∨ sender.hasToPush = true → sender.Lossless)
    (probing : sender.zeroWindowProbe = true ∧ sender.isZeroWindowProbing = false →
      (∀ first ∈ sender.window.head?, first.message.payload = []) ∧
        (sender.window = [] → sender.isFined = true → sender.input.bytesBuffered = 0)) :
    sender.push.Sound isn written := by
  simp only [TCPSender.push]
  split
  · rename_i probes
    exact sound.pushZwpMode (probing probes).1 (probing probes).2
  · split
    · rename_i usual
      exact sound.pushSimple (simple usual)
    · exact sound

end TCPSender

end LearnInternet.Tcp
