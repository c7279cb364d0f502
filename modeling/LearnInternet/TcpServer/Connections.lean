import LearnInternet.Lib.Runs
import LearnInternet.TcpServer.PeerList
import Mathlib.Data.List.Nodup

/-!
The connections of the first `TcpServer` and the descriptors the kernel has open for it, over calls
of `accept_peer`, `send` and `recv`. Only `clear` passes a descriptor to `close`.
-/

namespace LearnInternet.TcpServer

open LearnInternet Chat

inductive ReadResult where
  | data
  | endOfStream
  | error
  deriving DecidableEq, Repr

structure Server where
  peerList : List Peer
  listenSocketFd : Int
  opened : List Int
  /-- What `accept` has returned, and what has been passed to `close`. -/
  accepted : List Int
  closed : List Int
  deriving DecidableEq, Repr

inductive Call where
  | acceptPeer (outcome : Option (Int × SockaddrIn))
  | send (peer : Peer) (sent : Bool)
  | recv (peer : Peer) (outcome : ReadResult)
  deriving DecidableEq, Repr

inductive Stop where
  | notEnabled
  | endless
  | exited
  deriving DecidableEq, Repr

/-- The entry with this descriptor is replaced, or the new one appended. -/
def addPeer (peerTmp : Peer) : List Peer → List Peer
  | [] => [peerTmp]
  | it :: rest => if peerTmp.sockfd = it.sockfd then peerTmp :: rest else it :: addPeer peerTmp rest

theorem addPeer_new {peerTmp : Peer} {peerList : List Peer}
    (new : peerTmp.sockfd ∉ peerList.map Peer.sockfd) :
    addPeer peerTmp peerList = peerList ++ [peerTmp] := by
  induction peerList with
  | nil => rfl
  | cons it rest ih =>
      rw [List.map_cons, List.mem_cons, not_or] at new
      rw [addPeer, if_neg new.1, ih new.2, List.cons_append]

theorem mem_addPeer {peerTmp : Peer} {peerList : List Peer} {fd : Int}
    (member : fd ∈ (addPeer peerTmp peerList).map Peer.sockfd) :
    fd = peerTmp.sockfd ∨ fd ∈ peerList.map Peer.sockfd := by
  induction peerList with
  | nil => exact Or.inl (by simpa [addPeer] using member)
  | cons it rest ih =>
      rw [addPeer] at member
      split at member
      · rcases List.mem_cons.mp member with new | old
        · exact Or.inl new
        · exact Or.inr (List.mem_cons_of_mem _ old)
      · rcases List.mem_cons.mp member with first | later
        · exact Or.inr (first ▸ List.mem_cons_self)
        · exact (ih later).imp_right (List.mem_cons_of_mem _)

namespace Server

def start (listenSocketFd : Int) (opened : List Int) : Server :=
  ⟨[], listenSocketFd, opened, [], []⟩

def acceptPeer (server : Server) (fd : Int) (addr : SockaddrIn) : Server :=
  let accepting := { server with
    opened := fd :: server.opened
    accepted := server.accepted ++ [fd] }
  let sockfd := Int16.ofInt fd
  if sockfd < 0 then accepting
  else
    { accepting with
      peerList := addPeer ⟨sockfd.toInt, .ofSockaddr addr⟩ accepting.peerList }

def erasePeer (server : Server) (peer : Peer) : Except Stop Server :=
  match erase peer server.peerList with
  | none => .error .endless
  | some (_, peerList) => .ok { server with peerList := peerList }

def step (server : Server) : Call → Except Stop Server
  | .acceptPeer none => .ok server
  | .acceptPeer (some (fd, addr)) =>
      if 0 ≤ fd ∧ fd < 2 ^ 31 ∧ fd ∉ server.opened then .ok (server.acceptPeer fd addr)
      else .error .notEnabled
  | .send peer sent => if sent then .ok server else server.erasePeer peer
  | .recv peer outcome =>
      match outcome with
      | .data => .ok server
      | .endOfStream => server.erasePeer peer
      | .error => .error .exited

/-- `clear`, whatever `close` returns. -/
def clear (server : Server) : Server :=
  let closed := server.peerList.map Peer.sockfd ++ [server.listenSocketFd]
  { server with
    peerList := []
    opened := server.opened.filter fun fd => fd ∉ closed
    closed := server.closed ++ closed }

/-- An accepted descriptor that an `int16_t` can hold, and a failure of `send` or an end of stream
for which no entry is erased. -/
def Harmless (server : Server) : Call → Prop
  | .acceptPeer none => True
  | .acceptPeer (some (fd, _)) => fd < 2 ^ 15
  | .send peer sent => sent = true ∨ ∀ it ∈ server.peerList, peer.equals it = false
  | .recv peer outcome => outcome ≠ .endOfStream ∨ ∀ it ∈ server.peerList, peer.equals it = false

inductive Steps (server : Server) : Call → Server → Prop where
  | keep (call : Call) (harmless : server.Harmless call) : Steps server call server
  | accept (fd : Int) (addr : SockaddrIn) (nonneg : 0 ≤ fd) (new : fd ∉ server.opened) :
      Steps server (.acceptPeer (some (fd, addr))) (server.acceptPeer fd addr)
  | drop (call : Call) (it : Peer) (rest : List Peer) (first : server.peerList = it :: rest)
      (harmful : ¬server.Harmless call) : Steps server call { server with peerList := rest }

theorem erasePeer_cases {server next : Server} {peer : Peer}
    (erased : server.erasePeer peer = .ok next) :
    server.peerList = [] ∧ next = server ∨
      ∃ it rest, server.peerList = it :: rest ∧ peer.equals it = true ∧
        next = { server with peerList := rest } := by
  cases listed : server.peerList with
  | nil =>
      simp only [erasePeer, listed, erase] at erased
      cases erased
      exact Or.inl ⟨rfl, by rw [← listed]⟩
  | cons it rest =>
      simp only [erasePeer, listed, erase] at erased
      by_cases same : peer.equals it = true
      · rw [if_pos same] at erased
        cases erased
        exact Or.inr ⟨it, rest, rfl, same, rfl⟩
      · rw [if_neg same] at erased
        cases erased

theorem steps_of_erase {server next : Server} {peer : Peer} {call : Call}
    (harmless : server.Harmless call ↔ ∀ it ∈ server.peerList, peer.equals it = false)
    (erased : server.erasePeer peer = .ok next) : server.Steps call next := by
  rcases erasePeer_cases erased with ⟨none, rfl⟩ | ⟨it, rest, first, same, rfl⟩
  · exact .keep call (harmless.mpr (by simp [none]))
  · refine .drop call it rest first ?_
    rw [harmless, first]
    intro others
    have other := others it List.mem_cons_self
    rw [same] at other
    cases other

theorem steps_of_ok {server next : Server} {call : Call} (stepped : server.step call = .ok next) :
    server.Steps call next := by
  cases call with
  | acceptPeer outcome =>
      cases outcome with
      | none =>
          cases stepped
          exact .keep _ trivial
      | some connection =>
          obtain ⟨fd, addr⟩ := connection
          simp only [step] at stepped
          split at stepped
          · rename_i fresh
            cases stepped
            exact .accept fd addr fresh.1 fresh.2.2
          · cases stepped
  | send peer sent =>
      cases sent with
      | true =>
          cases stepped
          exact .keep _ (Or.inl rfl)
      | false =>
          exact steps_of_erase (by simp [Harmless]) stepped
  | recv peer outcome =>
      cases outcome with
      | data =>
          cases stepped
          exact .keep _ (Or.inl nofun)
      | error => cases stepped
      | endOfStream =>
          exact steps_of_erase (by simp [Harmless]) stepped

/-! ### Open connections -/

structure Exact (server : Server) : Prop where
  distinct : (server.peerList.map Peer.sockfd).Nodup
  stillOpen : ∀ fd, fd ∈ server.peerList.map Peer.sockfd ↔ fd ∈ server.accepted ∧ fd ∉ server.closed

structure Inv (server : Server) : Prop where
  listening : server.listenSocketFd ∈ server.opened
  accepted : ∀ fd ∈ server.accepted, fd ∈ server.opened
  others : server.listenSocketFd ∉ server.accepted
  distinct : server.accepted.Nodup
  closed : server.closed = []

theorem start_inv {listenSocketFd : Int} {opened : List Int} (listening : listenSocketFd ∈ opened) :
    (start listenSocketFd opened).Inv :=
  ⟨listening, nofun, nofun, List.nodup_nil, rfl⟩

theorem start_exact (listenSocketFd : Int) (opened : List Int) :
    (start listenSocketFd opened).Exact :=
  ⟨List.nodup_nil, by simp [start]⟩

theorem acceptPeer_descriptors (server : Server) (fd : Int) (addr : SockaddrIn) :
    (server.acceptPeer fd addr).opened = fd :: server.opened ∧
      (server.acceptPeer fd addr).accepted = server.accepted ++ [fd] ∧
      (server.acceptPeer fd addr).closed = server.closed ∧
      (server.acceptPeer fd addr).listenSocketFd = server.listenSocketFd := by
  simp only [acceptPeer]
  split
  · exact ⟨rfl, rfl, rfl, rfl⟩
  · exact ⟨rfl, rfl, rfl, rfl⟩

theorem inv_step (server : Server) (call : Call) (next : Server) (inv : server.Inv)
    (stepped : server.step call = .ok next) : next.Inv := by
  cases steps_of_ok stepped with
  | keep _ harmless => exact inv
  | drop _ it rest first harmful =>
      exact ⟨inv.listening, inv.accepted, inv.others, inv.distinct, inv.closed⟩
  | accept fd addr nonneg new =>
      obtain ⟨opened, accepted, closed, listenSocketFd⟩ := server.acceptPeer_descriptors fd addr
      constructor
      · rw [opened, listenSocketFd]
        exact List.mem_cons_of_mem _ inv.listening
      · rw [opened, accepted]
        intro other member
        rcases List.mem_append.mp member with old | same
        · exact List.mem_cons_of_mem _ (inv.accepted other old)
        · rw [List.mem_singleton.mp same]
          exact List.mem_cons_self
      · rw [accepted, listenSocketFd, List.mem_append, List.mem_singleton]
        rintro (old | same)
        · exact inv.others old
        · exact new (same ▸ inv.listening)
      · rw [accepted, List.nodup_append]
        refine ⟨inv.distinct, List.nodup_singleton fd, ?_⟩
        rintro old oldMember same sameMember rfl
        rw [List.mem_singleton] at sameMember
        exact new (sameMember ▸ inv.accepted old oldMember)
      · exact closed.trans inv.closed

theorem Exact.not_mem {server : Server} (exact : server.Exact) (inv : server.Inv) {fd : Int}
    (new : fd ∉ server.opened) : fd ∉ server.peerList.map Peer.sockfd :=
  fun member => new (inv.accepted fd ((exact.stillOpen fd).mp member).1)

theorem exact_accept {server : Server} (exact : server.Exact) (inv : server.Inv) {fd : Int}
    (addr : SockaddrIn) (nonneg : 0 ≤ fd) (new : fd ∉ server.opened) :
    (server.acceptPeer fd addr).Exact ↔ fd < 2 ^ 15 := by
  obtain ⟨-, accepted, closed, -⟩ := server.acceptPeer_descriptors fd addr
  have unlisted := exact.not_mem inv new
  constructor
  · intro next
    have listed := (next.stillOpen fd).mpr (by simp [accepted, closed, inv.closed])
    simp only [acceptPeer] at listed
    split at listed
    · exact absurd listed unlisted
    · rcases mem_addPeer listed with same | old
      · rw [same]
        exact Int16.toInt_lt _
      · exact absurd old unlisted
  · intro small
    have kept : (Int16.ofInt fd).toInt = fd := Int16.toInt_ofInt_of_le (by omega) small
    have positive : ¬Int16.ofInt fd < 0 := by
      rw [Int16.lt_iff_toInt_lt, kept, Int16.toInt_zero]
      omega
    have appended : (server.acceptPeer fd addr).peerList.map Peer.sockfd =
        server.peerList.map Peer.sockfd ++ [fd] := by
      simp only [acceptPeer, if_neg positive, kept]
      rw [addPeer_new unlisted, List.map_append]
      rfl
    constructor
    · rw [appended, List.nodup_append]
      refine ⟨exact.distinct, List.nodup_singleton fd, ?_⟩
      rintro old oldMember same sameMember rfl
      rw [List.mem_singleton] at sameMember
      exact unlisted (sameMember ▸ oldMember)
    · intro other
      rw [appended, accepted, closed, inv.closed, List.mem_append, List.mem_append,
        exact.stillOpen, inv.closed]
      simp

theorem exact_step (server : Server) (call : Call) (next : Server) (inv : server.Inv) (_ : True)
    (stepped : server.step call = .ok next) (exact : server.Exact) :
    next.Exact ↔ server.Harmless call := by
  cases steps_of_ok stepped with
  | keep _ harmless => exact ⟨fun _ => harmless, fun _ => exact⟩
  | accept fd addr nonneg new => exact exact_accept exact inv addr nonneg new
  | drop _ it rest first harmful =>
      refine ⟨fun dropped => ?_, fun harmless => absurd harmless harmful⟩
      have listed : it.sockfd ∈ server.peerList.map Peer.sockfd := by simp [first]
      have distinct := exact.distinct
      rw [first, List.map_cons, List.nodup_cons] at distinct
      exact absurd ((dropped.stillOpen it.sockfd).mpr ((exact.stillOpen it.sockfd).mp listed))
        distinct.1

theorem Exact.clear {server : Server} (exact : server.Exact) (inv : server.Inv) {fd : Int}
    (accepted : fd ∈ server.accepted) : server.clear.closed.count fd = 1 := by
  have listed := (exact.stillOpen fd).mpr ⟨accepted, by simp [inv.closed]⟩
  have other : server.listenSocketFd ≠ fd := fun same => inv.others (same ▸ accepted)
  simp only [Server.clear, inv.closed, List.nil_append, List.count_append,
    exact.distinct.count, if_pos listed]
  simp [other]

end Server

/-- The list is exactly the set of open connections in every state of a run whose steps are harmless
and in no other run; after such a run `clear` closes each connection once. -/
theorem connections_exact_iff (listenSocketFd : Int) (opened : List Int)
    (listening : listenSocketFd ∈ opened) (calls : List Call) :
    (Runs.Always Server.step Server.Exact (Server.start listenSocketFd opened) calls ↔
        Runs.EachStep Server.step (fun server call _ => server.Harmless call)
          (Server.start listenSocketFd opened) calls) ∧
      (Runs.EachStep Server.step (fun server call _ => server.Harmless call)
          (Server.start listenSocketFd opened) calls →
        ∀ last, Runs.run Server.step (Server.start listenSocketFd opened) calls = .ok last →
          ∀ fd ∈ last.accepted, last.clear.closed.count fd = 1) := by
  have decided : Runs.Always Server.step Server.Exact (Server.start listenSocketFd opened) calls ↔
      _ :=
    Runs.always_iff_eachStep_of_keeps
      (fun server call next inv _ => Server.inv_step server call next inv) Server.exact_step calls
      (Server.start_inv listening) (Server.start_exact listenSocketFd opened)
      (Runs.permits_of_forall fun _ _ => trivial)
  refine ⟨decided, ?_⟩
  intro harmless last ran fd accepted
  have inv := Runs.run_history (motive := fun _ server => Server.Inv server)
    (Server.start_inv listening) (fun _ => Server.inv_step) ran
  exact ((decided.mpr harmless).last ran).clear inv accepted

def twoConnections : List Call :=
  [.acceptPeer (some (5, ⟨⟨10, 0, 0, 1⟩, 80⟩)), .recv firstPeer .data, .acceptPeer none,
    .acceptPeer (some (6, ⟨⟨10, 0, 0, 2⟩, 80⟩)), .send secondPeer true]

theorem connections_exact_two :
    Runs.Always Server.step Server.Exact (Server.start 3 [0, 1, 2, 3]) twoConnections := by
  apply (connections_exact_iff 3 [0, 1, 2, 3] (by decide) twoConnections).1.mpr
  simp [twoConnections, Runs.EachStep, Server.step, Server.Harmless]

theorem connections_leak :
    ¬∀ (listenSocketFd : Int) (opened : List Int), listenSocketFd ∈ opened →
      ∀ calls : List Call,
        Runs.Always Server.step Server.Exact (Server.start listenSocketFd opened) calls := by
  intro always
  have ended := always 3 [0, 1, 2, 3] (by decide)
    [.acceptPeer (some (5, ⟨⟨10, 0, 0, 1⟩, 80⟩)), .recv firstPeer .endOfStream]
  have leaked := ((ended.2 _ rfl).2 _ rfl).stillOpen 5
  revert leaked
  decide

end LearnInternet.TcpServer
