import DhtStore.Draws
import DhtStore.Hash.Crc32c
import DhtStore.Node

namespace DhtStore

/-- What a node mixes into the tokens it issues. -/
abbrev Secret := Octets 20

def IpAddress.tokenUnder (ip : IpAddress) (secret : Secret) : WriteToken :=
  ⟨Bytes.ofNatBE 4 (Crc32c.checksum (ip.bytes ++ secret.bytes)).toNat⟩

/-- The secret drawn last and the one drawn before it. -/
structure TokenSecrets where
  previous : Secret
  current : Secret
deriving DecidableEq

namespace TokenSecrets

/-- The time in milliseconds after which the secrets are due for a rotation. -/
def rotationInterval : Nat := 300000

def isDue (age : Nat) : Bool := decide (rotationInterval < age)

/-- The token for a requester, whatever its zone and its port. -/
def generate (t : TokenSecrets) (requester : Address) : WriteToken :=
  requester.ip.tokenUnder t.current

/-- Whether a token is the requester's under one of the two secrets. -/
def validates (t : TokenSecrets) (requester : Address) (token : WriteToken) : Bool :=
  token = requester.ip.tokenUnder t.current || token = requester.ip.tokenUnder t.previous

/-- Puts a new secret in the place of the current one, which becomes the previous one. So a token stays valid for one
    rotation after the one it was issued in. -/
def rotate (t : TokenSecrets) (secret : Secret) : TokenSecrets := ⟨t.current, secret⟩

def draw (d : Draws) : TokenSecrets × Draws :=
  let (previous, d) := d.next
  let (current, d) := d.next
  (⟨previous, current⟩, d)

/-- The text of secrets in diagnostics, which does not give them away. -/
def debugText (_ : TokenSecrets) : String := "Tokens (_)"

end TokenSecrets

end DhtStore
