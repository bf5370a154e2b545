import SlogaBackend.Base

/-!
# The addresses january may connect to

IPv4 is judged by a list of ranges. IPv6 is allowed only inside global unicast, and there not in
the tunnels and documentation ranges; an IPv4-mapped address is judged as the IPv4 address.
-/

namespace SlogaBackend.January

inductive IpAddr where
  | v4 (ip : BitVec 32)
  | v6 (ip : BitVec 128)

/-- `Ipv4Addr::new`. -/
def ipv4Addr (a b c d : BitVec 8) : BitVec 32 := a ++ b ++ c ++ d

/-- `Ipv6Addr::new`. -/
def ipv6Addr (a b c d e f g h : BitVec 16) : BitVec 128 := a ++ b ++ c ++ d ++ e ++ f ++ g ++ h

/-- The address is in the range of this length, by its mask. -/
def inNet {w : ℕ} (bits net : BitVec w) (len : ℕ) : Bool :=
  let mask := BitVec.allOnes w <<< (w - len)
  bits &&& mask = net &&& mask

def forbiddenV4 : List (BitVec 32 × ℕ) :=
  [(ipv4Addr 0 0 0 0, 8), (ipv4Addr 10 0 0 0, 8), (ipv4Addr 100 64 0 0, 10),
    (ipv4Addr 127 0 0 0, 8),
    (ipv4Addr 169 254 0 0, 16),
    (ipv4Addr 172 16 0 0, 12),
    (ipv4Addr 192 0 0 0, 24),
    (ipv4Addr 192 0 2 0, 24),
    (ipv4Addr 192 88 99 0, 24),
    (ipv4Addr 192 168 0 0, 16),
    (ipv4Addr 198 18 0 0, 15),
    (ipv4Addr 198 51 100 0, 24),
    (ipv4Addr 203 0 113 0, 24),
    (ipv4Addr 224 0 0 0, 4),
    (ipv4Addr 240 0 0 0, 4)]

/-- Global unicast. -/
def allowedV6 : BitVec 128 × ℕ := (ipv6Addr 0x2000 0 0 0 0 0 0 0, 3)

/-- In global unicast. -/
def forbiddenV6 : List (BitVec 128 × ℕ) :=
  [(ipv6Addr 0x2001 0 0 0 0 0 0 0, 23), (ipv6Addr 0x2001 0xdb8 0 0 0 0 0 0, 32),
    (ipv6Addr 0x2002 0 0 0 0 0 0 0, 16),
    (ipv6Addr 0x3fff 0 0 0 0 0 0 0, 20)]

def isForbiddenV4 (ip : BitVec 32) : Bool := forbiddenV4.any fun (net, len) => inNet ip net len

/-- `to_ipv4_mapped`: `::ffff:a.b.c.d`. -/
def toIpv4Mapped (ip : BitVec 128) : Option (BitVec 32) :=
  if ip >>> 32 = 0xffff then some (ip.setWidth 32) else none

def isForbidden : IpAddr → Bool
  | .v4 ip => isForbiddenV4 ip
  | .v6 ip =>
    match toIpv4Mapped ip with
    | some mapped => isForbiddenV4 mapped
    | none =>
      !inNet ip allowedV6.1 allowedV6.2 || forbiddenV6.any fun (net, len) => inNet ip net len

/-- The metadata address of a cloud is forbidden as an IPv4-mapped address too. -/
example : isForbidden (.v6 (ipv6Addr 0 0 0 0 0 0xffff 0xa9fe 0xa9fe)) = true := by decide

end SlogaBackend.January
