import LearnInternet.Chat.Relay

/-!
The `ChatClient`: `UdpClient::Recv` and the loop of `recv_msg_` around it. What comes of the
messages of the server, and of any other datagram.
-/

namespace LearnInternet.Chat

structure UdpClient where
  isInit : Bool
  deriving DecidableEq

namespace UdpClient

def bufferSize : Nat := 1024

/-- A failing `recvfrom` returns -1; a datagram that is too long loses its end. -/
def recv (client : UdpClient) (outcome : Option Bytes) (msg : Bytes) : Int16 × Bytes :=
  if ¬client.isInit then (-1, msg)
  else
    match outcome with
    | none => (-1, msg)
    | some payload =>
        let buffer := payload.take (bufferSize - 1)
        let recvLen := Int16.ofNat buffer.length
        if 0 < recvLen then (recvLen, Text.takeUntil 0 buffer) else (-1, msg)

end UdpClient

structure Printed where
  lines : List Bytes
  returned : Bool
  deriving DecidableEq, Repr

namespace ChatClient

/-- The loop of `recv_msg_`. Where nothing more arrives it is blocked in `recvfrom`. -/
def recvMsgFrom (client : UdpClient) (msgBuf : Bytes) : List (Option Bytes) → Printed
  | [] => ⟨[], !client.isInit⟩
  | outcome :: later =>
      let received := client.recv outcome msgBuf
      if received.1 = -1 then ⟨[], true⟩
      else
        let printed := recvMsgFrom client [] later
        ⟨received.2 :: printed.lines, printed.returned⟩

def recvMsg (client : UdpClient) (arrivals : List (Option Bytes)) : Printed :=
  recvMsgFrom client [] arrivals

end ChatClient

namespace UdpClient

def text (payload : Bytes) : Bytes := Text.takeUntil 0 (payload.take (bufferSize - 1))

theorem recvLen_eq (payload : Bytes) :
    (Int16.ofNat (payload.take (bufferSize - 1)).length).toInt =
      (payload.take (bufferSize - 1)).length := by
  apply Int16.toInt_ofNat_of_lt
  rw [List.length_take, bufferSize]
  omega

theorem recv_datagram {client : UdpClient} (initialised : client.isInit = true)
    (payload msg : Bytes) :
    client.recv (some payload) msg =
      if payload = [] then (-1, msg)
      else (Int16.ofNat (payload.take (bufferSize - 1)).length, text payload) := by
  have received : 0 < Int16.ofNat (payload.take (bufferSize - 1)).length ↔ payload ≠ [] := by
    rw [Int16.lt_iff_toInt_lt, recvLen_eq, Int16.toInt_zero, Int.natCast_pos, List.length_pos_iff]
    simp [bufferSize]
  simp only [recv, initialised, not_true_eq_false, if_false, received, ite_not, text]

theorem recvLen_ne {payload : Bytes} :
    Int16.ofNat (payload.take (bufferSize - 1)).length ≠ -1 := by
  intro same
  have negative := congrArg Int16.toInt same
  rw [recvLen_eq] at negative
  have minus : (-1 : Int16).toInt = -1 := by decide
  omega

end UdpClient

theorem ChatClient.recvMsg_datagrams {client : UdpClient} (initialised : client.isInit = true)
    (datagrams : List Bytes) :
    ChatClient.recvMsg client (datagrams.map some) =
      ⟨(datagrams.takeWhile (· ≠ [])).map UdpClient.text, decide ([] ∈ datagrams)⟩ := by
  have looped : ∀ msgBuf, ChatClient.recvMsgFrom client msgBuf (datagrams.map some) =
      ⟨(datagrams.takeWhile (· ≠ [])).map UdpClient.text, decide ([] ∈ datagrams)⟩ := by
    induction datagrams with
    | nil => simp [ChatClient.recvMsgFrom, initialised]
    | cons payload datagrams ih =>
        intro msgBuf
        simp only [List.map_cons, ChatClient.recvMsgFrom, UdpClient.recv_datagram initialised]
        by_cases empty : payload = []
        · simp [empty]
        · simp only [if_neg empty, if_neg UdpClient.recvLen_ne, ih]
          simp [empty, Ne.symm empty]
  exact looped []

def Plain (payload : Bytes) : Prop :=
  payload ≠ [] ∧ 0 ∉ payload ∧ payload.length ≤ UdpClient.bufferSize - 1

instance (payload : Bytes) : Decidable (Plain payload) :=
  inferInstanceAs (Decidable (_ ∧ _ ∧ _))

theorem UdpClient.text_eq_self {payload : Bytes} (noZero : 0 ∉ payload)
    (short : payload.length ≤ UdpClient.bufferSize - 1) : UdpClient.text payload = payload := by
  rw [UdpClient.text, List.take_of_length_le short, Text.takeUntil_eq_self noZero]

/-- The loop goes on, and has printed what it can print as it is, in the order of arrival. -/
structure Survives (datagrams : List Bytes) (printed : Printed) : Prop where
  lines : (datagrams.filter fun payload => Plain payload).Sublist printed.lines
  stays : printed.returned = false

/-- A datagram without payload ends the loop as an error would. -/
theorem recvMsg_survives_iff (client : UdpClient) (initialised : client.isInit = true)
    (datagrams : List Bytes) :
    Survives datagrams (ChatClient.recvMsg client (datagrams.map some)) ↔ [] ∉ datagrams := by
  rw [ChatClient.recvMsg_datagrams initialised]
  constructor
  · intro survives
    exact of_decide_eq_false survives.stays
  · intro present
    have all : datagrams.takeWhile (· ≠ []) = datagrams := by
      rw [List.takeWhile_eq_self_iff]
      intro payload member
      rw [decide_eq_true_eq]
      exact ne_of_mem_of_not_mem member present
    have plain : (datagrams.filter fun payload => Plain payload).map UdpClient.text =
        datagrams.filter fun payload => Plain payload := by
      conv_rhs => rw [← List.map_id (datagrams.filter fun payload => Plain payload)]
      apply List.map_congr_left
      intro payload member
      obtain ⟨-, noZero, short⟩ := of_decide_eq_true (List.mem_filter.mp member).2
      exact UdpClient.text_eq_self noZero short
    refine ⟨?_, decide_eq_false present⟩
    rw [all, ← plain]
    exact (List.filter_sublist).map UdpClient.text

theorem recvMsg_survives_greetings :
    Survives [[104, 105], [0, 7], [111, 107]]
      (ChatClient.recvMsg ⟨true⟩ [some [104, 105], some [0, 7], some [111, 107]]) :=
  (recvMsg_survives_iff ⟨true⟩ rfl [[104, 105], [0, 7], [111, 107]]).mpr (by decide)

theorem recvMsg_stops_at_empty :
    ¬∀ (client : UdpClient), client.isInit = true → ∀ datagrams : List Bytes,
      Survives datagrams (ChatClient.recvMsg client (datagrams.map some)) := by
  intro survive
  have stays := (survive ⟨true⟩ rfl [[104, 105], [], [111, 107]]).stays
  revert stays
  decide

/-! ### Messages of the server -/

/-- What `send_msg_` puts before a message. -/
def sayPrefix (ip : Bytes) (port : Int16) : Bytes :=
  ip ++ ascii "/" ++ Decimal.intToBytes port.toInt ++ ascii " say: "

theorem zero_not_mem_sayPrefix (addr : InAddr) (port : Int16) :
    0 ∉ sayPrefix (inetNtoa addr) port := by
  have address : 0 ∉ inetNtoa addr := not_mem_inetNtoa (by decide) (by decide) addr
  have number : 0 ∉ Decimal.intToBytes port.toInt :=
    Decimal.not_mem_intToBytes (by decide) (by decide) port.toInt
  have slash : (0 : UInt8) ∉ ascii "/" := by decide
  have say : (0 : UInt8) ∉ ascii " say: " := by decide
  simp [sayPrefix, address, number, slash, say]

theorem length_toBytes_octet (octet : UInt8) :
    1 ≤ (Decimal.toBytes octet.toNat).length ∧ (Decimal.toBytes octet.toNat).length ≤ 3 := by
  have bound := octet.toNat_lt
  exact ⟨List.length_pos_iff.mpr (Decimal.toBytes_ne_nil _),
    (Decimal.length_toBytes_le_iff (by omega)).mpr (by omega)⟩

theorem length_intToBytes_port (port : Int16) :
    1 ≤ (Decimal.intToBytes port.toInt).length ∧ (Decimal.intToBytes port.toInt).length ≤ 6 := by
  have least := port.le_toInt
  have greatest := port.toInt_lt
  cases number : port.toInt with
  | ofNat value =>
      rw [number, Int.ofNat_eq_natCast] at greatest
      have digits : (Decimal.toBytes value).length ≤ 5 :=
        (Decimal.length_toBytes_le_iff (by omega)).mpr (by omega)
      have nonempty := List.length_pos_iff.mpr (Decimal.toBytes_ne_nil value)
      simp only [Decimal.intToBytes]
      omega
  | negSucc value =>
      have digits : (Decimal.toBytes (value + 1)).length ≤ 5 :=
        (Decimal.length_toBytes_le_iff (by omega)).mpr (by omega)
      simp only [Decimal.intToBytes, List.length_cons]
      omega

theorem length_sayPrefix (addr : InAddr) (port : Int16) :
    15 ≤ (sayPrefix (inetNtoa addr) port).length ∧
      (sayPrefix (inetNtoa addr) port).length ≤ 28 := by
  have first := length_toBytes_octet addr.first
  have second := length_toBytes_octet addr.second
  have third := length_toBytes_octet addr.third
  have fourth := length_toBytes_octet addr.fourth
  have number := length_intToBytes_port port
  have slash : (ascii "/").length = 1 := rfl
  have say : (ascii " say: ").length = 6 := rfl
  simp only [sayPrefix, inetNtoa, List.length_append, List.length_cons, slash, say]
  omega

theorem relayed_datagram (server : ChatServer) (sender listener : SockaddrIn) (before : Waiting)
    {message : Bytes} (noZero : 0 ∉ message) (whole : message.length ≤ msgMax - 1) :
    (ChatServer.outgoingOf (server.taskFor (UdpServer.recv (some ⟨sender, message⟩) before)
        listener.client).arg).msg =
      sayPrefix listener.client.1 listener.client.2 ++ message := by
  have kept : Text.takeUntil 0 (message.take (msgMax - 1)) = message := by
    rw [List.take_of_length_le whole, Text.takeUntil_eq_self noZero]
  simp only [ChatServer.outgoingOf, ChatServer.taskFor, UdpServer.recv, kept, sayPrefix]

theorem UdpClient.recv_whole_iff {client : UdpClient} (initialised : client.isInit = true)
    {datagram : Bytes} (nonempty : datagram ≠ []) (noZero : 0 ∉ datagram) (msgBuf : Bytes) :
    client.recv (some datagram) msgBuf = (Int16.ofNat datagram.length, datagram) ↔
      datagram.length ≤ UdpClient.bufferSize - 1 := by
  have noZeroTaken : 0 ∉ datagram.take (UdpClient.bufferSize - 1) :=
    fun zero => noZero (List.mem_of_mem_take zero)
  rw [UdpClient.recv_datagram initialised, if_neg nonempty, UdpClient.text,
    Text.takeUntil_eq_self noZeroTaken]
  constructor
  · intro same
    exact List.take_eq_self_iff _ |>.mp (Prod.mk.inj same).2
  · intro short
    rw [List.take_of_length_le short]

theorem UdpClient.recv_prefixed_iff {client : UdpClient} (initialised : client.isInit = true)
    (listener : SockaddrIn) {message : Bytes} (noZero : 0 ∉ message) (msgBuf : Bytes) :
    let datagram := sayPrefix listener.client.1 listener.client.2 ++ message
    client.recv (some datagram) msgBuf = (Int16.ofNat datagram.length, datagram) ↔
      (sayPrefix listener.client.1 listener.client.2).length + message.length ≤
        UdpClient.bufferSize - 1 := by
  intro datagram
  have room : 15 ≤ (sayPrefix listener.client.1 listener.client.2).length :=
    (length_sayPrefix listener.sinAddr listener.client.2).1
  have nonempty : datagram ≠ [] := by
    rw [← List.length_pos_iff, List.length_append]
    omega
  have noZeroSent : 0 ∉ datagram := by
    rw [List.mem_append]
    rintro (zero | zero)
    · exact zero_not_mem_sayPrefix listener.sinAddr listener.client.2 zero
    · exact noZero zero
  rw [UdpClient.recv_whole_iff initialised nonempty noZeroSent, List.length_append]

theorem relayed_whole_iff (server : ChatServer) (client : UdpClient)
    (initialised : client.isInit = true) (sender listener : SockaddrIn) (before : Waiting)
    (message msgBuf : Bytes) (noZero : 0 ∉ message) (whole : message.length ≤ msgMax - 1) :
    let datagram := (ChatServer.outgoingOf (server.taskFor
      (UdpServer.recv (some ⟨sender, message⟩) before) listener.client).arg).msg
    client.recv (some datagram) msgBuf = (Int16.ofNat datagram.length, datagram) ↔
      (sayPrefix listener.client.1 listener.client.2).length + message.length ≤
        UdpClient.bufferSize - 1 := by
  intro datagram
  have prefixed : datagram = sayPrefix listener.client.1 listener.client.2 ++ message :=
    relayed_datagram server sender listener before noZero whole
  rw [prefixed]
  exact UdpClient.recv_prefixed_iff initialised listener noZero msgBuf

def listeningClient : SockaddrIn := ⟨⟨10, 0, 0, 2⟩, 65535⟩

theorem relayed_whole_greeting :
    let datagram := (ChatServer.outgoingOf (ChatServer.initial.taskFor
      (UdpServer.recv (some ⟨⟨⟨10, 0, 0, 1⟩, 80⟩, [104, 105]⟩) ⟨[], [], 0⟩)
        listeningClient.client).arg).msg
    UdpClient.recv ⟨true⟩ (some datagram) [] = (Int16.ofNat datagram.length, datagram) :=
  (relayed_whole_iff ChatServer.initial ⟨true⟩ rfl ⟨⟨10, 0, 0, 1⟩, 80⟩ listeningClient ⟨[], [], 0⟩
    [104, 105] [] (by decide) (by decide)).mpr (by decide)

theorem relayed_cut :
    ¬∀ (server : ChatServer) (client : UdpClient), client.isInit = true →
      ∀ (sender listener : SockaddrIn) (before : Waiting) (message msgBuf : Bytes),
        0 ∉ message → message.length ≤ msgMax - 1 →
          let datagram := (ChatServer.outgoingOf (server.taskFor
            (UdpServer.recv (some ⟨sender, message⟩) before) listener.client).arg).msg
          client.recv (some datagram) msgBuf = (Int16.ofNat datagram.length, datagram) := by
  intro whole
  obtain ⟨message, noZero, long⟩ : ∃ message : Bytes, 0 ∉ message ∧ message.length = msgMax - 1 :=
    ⟨List.replicate (msgMax - 1) 97, by simp, List.length_replicate⟩
  have received := whole ChatServer.initial ⟨true⟩ rfl ⟨⟨10, 0, 0, 1⟩, 80⟩ listeningClient
    ⟨[], [], 0⟩ message [] noZero (Nat.le_of_eq long)
  have prefixed := relayed_datagram ChatServer.initial ⟨⟨10, 0, 0, 1⟩, 80⟩ listeningClient
    ⟨[], [], 0⟩ noZero (Nat.le_of_eq long)
  simp only [prefixed] at received
  have fits := (UdpClient.recv_prefixed_iff rfl listeningClient noZero []).mp received
  have room : 15 ≤ (sayPrefix listeningClient.client.1 listeningClient.client.2).length :=
    (length_sayPrefix listeningClient.sinAddr listeningClient.client.2).1
  rw [long, msgMax, UdpClient.bufferSize] at fits
  omega

end LearnInternet.Chat
