import RelayUpkeep.Peer.Ip

/-! # Peers of the overlay

A peer is known by its identifier alone: two addresses with one identifier speak of the same peer,
whatever sockets and flags they carry. An address records how the peer can be reached: its own
socket, whether inbound traffic is blocked there, and the sockets of the relays that stand in.
-/

namespace RelayUpkeep

/-- The most relay sockets that an advertised address carries. -/
def maxRelays : Nat := 5

/-- A 256-bit identifier. -/
structure PeerId where
  bytes : Vector UInt8 32
  deriving DecidableEq, Repr

namespace PeerId

/-- The identifier with one value in all of its bytes. -/
def uniform (b : UInt8) : PeerId := ⟨Vector.replicate 32 b⟩

def ofBytes? (bs : List UInt8) : Option PeerId :=
  if h : bs.toArray.size = 32 then some ⟨⟨bs.toArray, h⟩⟩ else none

/-- An identifier is shown by its first eight bytes. -/
def text (id : PeerId) : String :=
  Text.hexBytes (id.bytes.toList.take 8)

def fullText (id : PeerId) : String :=
  Text.hexBytes id.bytes.toList

/-- The first byte that differs decides. -/
def compareBytes : List UInt8 → List UInt8 → Ordering
  | [], [] => .eq
  | [], _ :: _ => .lt
  | _ :: _, [] => .gt
  | x :: xs, y :: ys => (Ord.compare x y).then (compareBytes xs ys)

def compare (a b : PeerId) : Ordering :=
  compareBytes a.bytes.toList b.bytes.toList

def describe (id : PeerId) : String :=
  "PeerId([" ++ ", ".intercalate (id.bytes.toList.map fun b => toString b.toNat) ++ "])"

end PeerId

/-- An internet address with the ports of both transports. -/
structure PeerSocket where
  ip : IpAddr
  tcpPort : UInt16
  udpPort : UInt16
  deriving DecidableEq, Repr

namespace PeerSocket

def tcpText (s : PeerSocket) : String := s.ip.withPort s.tcpPort

def udpText (s : PeerSocket) : String := s.ip.withPort s.udpPort

def text (s : PeerSocket) : String :=
  s.ip.text ++ ":" ++ toString s.tcpPort.toNat ++ "/" ++ toString s.udpPort.toNat

def describe (s : PeerSocket) : String :=
  "PeerSocketAddress \x7b ip: " ++ s.ip.text ++ ", tcp_port: " ++ toString s.tcpPort.toNat ++
    ", udp_port: " ++ toString s.udpPort.toNat ++ " \x7d"

end PeerSocket

structure PeerAddress where
  id : PeerId
  socket : PeerSocket
  firewalledTcp : Bool
  firewalledUdp : Bool
  relayed : Bool
  relaySockets : List PeerSocket
  deriving DecidableEq, Repr

namespace PeerAddress

/-- The address of a peer that can be reached directly. -/
def direct (id : PeerId) (socket : PeerSocket) : PeerAddress :=
  ⟨id, socket, false, false, false, []⟩

def withRelaySockets (a : PeerAddress) (sockets : List PeerSocket) : PeerAddress :=
  { a with relaySockets := sockets.take maxRelays }

/-- Whether two addresses speak of the same peer. -/
def same (a b : PeerAddress) : Bool := a.id == b.id

/-- The addresses of a list, one for each peer: the first copy stays. -/
def distinct (as : List PeerAddress) : List PeerAddress :=
  as.foldl (fun kept a => if kept.any (·.same a) then kept else kept ++ [a]) []

def text (a : PeerAddress) : String :=
  a.id.text ++ "@" ++ a.socket.text ++
    if a.relayed then " (relayed via " ++ toString a.relaySockets.length ++ " sockets)" else ""

def describe (a : PeerAddress) : String :=
  "PeerAddress \x7b peer_id: " ++ a.id.describe ++ ", socket: " ++ a.socket.describe ++
    ", firewalled_tcp: " ++ toString a.firewalledTcp ++
    ", firewalled_udp: " ++ toString a.firewalledUdp ++
    ", relayed: " ++ toString a.relayed ++
    ", relay_sockets: [" ++ ", ".intercalate (a.relaySockets.map PeerSocket.describe) ++ "] \x7d"

end PeerAddress

end RelayUpkeep
