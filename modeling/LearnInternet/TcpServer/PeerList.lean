import LearnInternet.Chat.Address

/-!
The first `TcpServer`: its `Peer`, and `erase` of a peer from `peer_list_`. The iterator of the loop
in `erase` is a reference to a constant, and nothing moves it on.
-/

namespace LearnInternet.TcpServer

open LearnInternet Chat

structure AddrIn where
  ip : Bytes
  port : UInt16
  addrIn : SockaddrIn
  deriving DecidableEq, Repr

def AddrIn.ofSockaddr (addrIn : SockaddrIn) : AddrIn :=
  ⟨inetNtoa addrIn.sinAddr, ntohs addrIn.sinPort, addrIn⟩

structure Peer where
  sockfd : Int
  addr : AddrIn
  deriving DecidableEq, Repr

/-- `operator==`, which does not look at the `sockaddr_in`. -/
def Peer.equals (peer other : Peer) : Bool :=
  decide (peer.sockfd = other.sockfd ∧ peer.addr.ip = other.addr.ip ∧
    peer.addr.port = other.addr.port)

/-- So many rounds of the loop of `erase`: what it returns and the list it leaves, if it returns. -/
def eraseRounds (peer : Peer) : Nat → List Peer → Option (Bool × List Peer)
  | 0, _ => none
  | _ + 1, [] => some (false, [])
  | rounds + 1, it :: rest =>
      if peer.equals it then some (true, rest) else eraseRounds peer rounds (it :: rest)

def erase (peer : Peer) : List Peer → Option (Bool × List Peer)
  | [] => some (false, [])
  | it :: rest => if peer.equals it then some (true, rest) else none

theorem eraseRounds_eq (peer : Peer) (rounds : Nat) (peerList : List Peer) :
    eraseRounds peer rounds peerList = if rounds = 0 then none else erase peer peerList := by
  induction rounds with
  | zero => rfl
  | succ rounds ih =>
      cases peerList with
      | nil => rfl
      | cons it rest =>
          simp only [eraseRounds, erase, ih]
          split
          · rfl
          · split <;> rfl

theorem erase_eq_some_iff {peer : Peer} {peerList : List Peer} {erased : Bool × List Peer} :
    erase peer peerList = some erased ↔
      ∃ rounds, eraseRounds peer rounds peerList = some erased := by
  simp only [eraseRounds_eq]
  constructor
  · intro ends
    exact ⟨1, ends⟩
  · rintro ⟨rounds, ends⟩
    split at ends
    · cases ends
    · exact ends

/-- `erase` ends having removed the first entry that equals the peer exactly when that is the first
entry of all, or there is none at all. -/
theorem eraseRounds_removes_iff (peer : Peer) (peerList : List Peer) :
    (∃ rounds, eraseRounds peer rounds peerList =
        some (peerList.any peer.equals, peerList.eraseP peer.equals)) ↔
      ∀ it ∈ peerList.head?, peer.equals it = true := by
  rw [← erase_eq_some_iff]
  cases peerList with
  | nil => simp [erase]
  | cons it rest =>
      by_cases same : peer.equals it = true
      · simp [erase, same]
      · simp [erase, same]

def firstPeer : Peer := ⟨5, .ofSockaddr ⟨⟨10, 0, 0, 1⟩, 80⟩⟩

def secondPeer : Peer := ⟨6, .ofSockaddr ⟨⟨10, 0, 0, 2⟩, 80⟩⟩

theorem eraseRounds_second :
    ¬∀ (peer : Peer) (peerList : List Peer), ∃ rounds, eraseRounds peer rounds peerList =
      some (peerList.any peer.equals, peerList.eraseP peer.equals) := by
  intro removes
  have ends := erase_eq_some_iff.mpr (removes secondPeer [firstPeer, secondPeer])
  revert ends
  decide

end LearnInternet.TcpServer
