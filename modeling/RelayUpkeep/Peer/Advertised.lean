import RelayUpkeep.Peer.Basic

/-! # The address that a node advertises

With relays a node is advertised as relayed and not firewalled, under the sockets of its relays in
their order; without relays as firewalled and not relayed.
-/

namespace RelayUpkeep.PeerAddress

def advertising (current : PeerAddress) (relays : List PeerAddress) : PeerAddress :=
  { current with
    firewalledTcp := relays.isEmpty
    firewalledUdp := relays.isEmpty
    relayed := !relays.isEmpty }.withRelaySockets (relays.map PeerAddress.socket)

@[simp] theorem advertising_id (a : PeerAddress) (rs : List PeerAddress) :
    (a.advertising rs).id = a.id := rfl

@[simp] theorem advertising_socket (a : PeerAddress) (rs : List PeerAddress) :
    (a.advertising rs).socket = a.socket := rfl

/-- What was advertised before is forgotten. -/
@[simp] theorem advertising_advertising (a : PeerAddress) (rs qs : List PeerAddress) :
    (a.advertising rs).advertising qs = a.advertising qs := rfl

end RelayUpkeep.PeerAddress
