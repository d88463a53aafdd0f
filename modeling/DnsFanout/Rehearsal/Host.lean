import DnsFanout.Net.Address

/-! A host whose links are down. It has no address of version 6, and no table that
says which addresses of version 4 are its own, so it lets all of those pass. -/

namespace DnsFanout.Rehearsal

open Net

/-- The address that stands for all, and those that hold one of version 4. -/
def isWildcardOrMapped (groups : List UInt16) : Bool :=
  groups = List.replicate 8 0 || groups.take 6 = List.replicate 5 0 ++ [0xFFFF]

/-- Addresses that are valid on one link only, and those of groups. -/
def needsLink (groups : List UInt16) : Bool :=
  groups.head?.any fun g => g &&& 0xFFC0 == 0xFE80 || g &&& 0xFF00 == 0xFF00

/-- Listening on an address for datagrams and streams. -/
def listen (address : SocketAddress) : Except String Unit :=
  match address.host with
  | .v4 _ => .ok ()
  | .v6 ip =>
    if isWildcardOrMapped ip.groups then .ok ()
    else if needsLink ip.groups then .error "Invalid argument (os error 22)"
    else .error "Cannot assign requested address (os error 99)"

end DnsFanout.Rehearsal
