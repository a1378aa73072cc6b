import DhtStore.Bytes

namespace DhtStore

inductive IpAddress
  | v4 (octets : Octets 4)
  | v6 (octets : Octets 16)
deriving DecidableEq

def IpAddress.bytes : IpAddress → Bytes
  | v4 octets => octets.bytes
  | v6 octets => octets.bytes

/-- A port of a host. An address in version 6 may be valid in one zone only; zone 0 stands for none. -/
inductive Address
  | v4 (host : Octets 4) (port : UInt16)
  | v6 (host : Octets 16) (zone : UInt32) (port : UInt16)
deriving DecidableEq

namespace Address

def ip : Address → IpAddress
  | v4 host _ => .v4 host
  | v6 host _ _ => .v6 host

/-- The address of a host in version 4 from its four numbers. -/
def ofV4 (a b c d : UInt8) (port : UInt16) : Address := v4 ⟨[a, b, c, d], rfl⟩ port

/-- The address that stands for none: all zeros. -/
def unspecified : Address := ofV4 0 0 0 0 0

instance : Inhabited Address := ⟨unspecified⟩

end Address

end DhtStore
