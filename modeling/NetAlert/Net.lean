import NetAlert.Lib.BitPrefix

/-!
# NetAlert.Net — addresses, prefixes and their texts

`std::net::IpAddr`, `ipnet::IpNet` and `ip_network::IpNetwork`.  An `IpNet` keeps the host bits it
was written with; an `IpNetwork` has none, and its parser rejects a text that has some.  The texts
themselves come from the two crates and the standard library: `IpText` is any printing and parsing
of prefixes that read back what they print, and `IpText.dotted` is one.
-/

namespace NetAlert

/-- `std::net::IpAddr`. -/
inductive IpAddr where
  | V4 (a : BitVec 32)
  | V6 (a : BitVec 128)
  deriving DecidableEq

/-- `ipnet::IpNet`. -/
inductive IpNet where
  | V4 (net : BitPrefix 32)
  | V6 (net : BitPrefix 128)
  deriving DecidableEq

namespace IpNet

def addr : IpNet → IpAddr
  | V4 n => .V4 n.addr
  | V6 n => .V6 n.addr

def prefixLen : IpNet → ℕ
  | V4 n => n.len
  | V6 n => n.len

/-- Containment; an address of the other family is in no prefix. -/
def contains : IpNet → IpAddr → Bool
  | V4 n, .V4 a => n.contains a
  | V6 n, .V6 a => n.contains a
  | _, _ => false

def trunc : IpNet → IpNet
  | V4 n => V4 n.trunc
  | V6 n => V6 n.trunc

/-- `subnets(prefix_len() + 1)`: the two halves, or an error at full length. -/
def subnets : IpNet → Option (List IpNet)
  | V4 n => if h : n.len < 32 then some ((n.halves h).map V4) else none
  | V6 n => if h : n.len < 128 then some ((n.halves h).map V6) else none

/-- An IPv4 prefix of 24 bits. -/
def slash24 (a : BitVec 32) : IpNet := V4 ⟨a, 24, by decide⟩

/-- The prefix of one address. -/
def host : IpAddr → IpNet
  | .V4 a => V4 (BitPrefix.host a)
  | .V6 a => V6 (BitPrefix.host a)

@[simp] theorem contains_trunc (n : IpNet) (ip : IpAddr) : n.trunc.contains ip = n.contains ip := by
  cases n <;> cases ip <;> simp [trunc, contains]

@[simp] theorem contains_host (ip ip' : IpAddr) : (host ip).contains ip' = decide (ip' = ip) := by
  cases ip <;> cases ip' <;> simp [host, contains]

end IpNet

/-- `ip_network::IpNetwork`: a prefix without host bits. -/
@[ext] structure IpNetwork where
  net : IpNet
  trunc_eq : net.trunc = net
  deriving DecidableEq

namespace IpNetwork

def contains (n : IpNetwork) (ip : IpAddr) : Bool := n.net.contains ip

theorem contains_eq {n : IpNetwork} {net : IpNet} (h : n.net = net) : n.contains = net.contains := by
  funext ip
  rw [contains, h]

/-- The network of a prefix, if its host bits are clear. -/
def ofNet (net : IpNet) : Option IpNetwork := if h : net.trunc = net then some ⟨net, h⟩ else none

theorem ofNet_eq_some {net : IpNet} {n : IpNetwork} : ofNet net = some n ↔ n.net = net := by
  obtain ⟨m, hm⟩ := n
  unfold ofNet
  split_ifs with h
  · simp [eq_comm]
  · simp only [false_iff]
    rintro rfl
    exact h hm

end IpNetwork

/-- Printing and parsing of addresses and prefixes: `Display` of `IpAddr`, `FromStr` of `IpNet` and
the error text of `IpNetwork`'s parser.  A prefix is printed as its address, a slash and its length,
and that text parses back. -/
structure IpText where
  addr : IpAddr → String
  parse : String → Option IpNet
  networkError : String
  parse_net : ∀ net : IpNet, parse (addr net.addr ++ "/" ++ toString net.prefixLen) = some net

namespace IpText

variable (T : IpText)

/-- `Display` of `IpNet`. -/
def net (n : IpNet) : String := T.addr n.addr ++ "/" ++ toString n.prefixLen

/-- `format!("{}/32", ip)` for IPv4, `format!("{}/128", ip)` for IPv6. -/
def host (ip : IpAddr) : String :=
  match ip with
  | .V4 _ => T.addr ip ++ "/32"
  | .V6 _ => T.addr ip ++ "/128"

/-- `FromStr` of `IpNetwork`, which accepts no host bits. -/
def parseNetwork (s : String) : Except String IpNetwork :=
  match (T.parse s).bind IpNetwork.ofNet with
  | some network => .ok network
  | none => .error T.networkError

@[simp] theorem parse_print (n : IpNet) : T.parse (T.net n) = some n := T.parse_net n

/-- Different prefixes have different texts. -/
theorem net_injective : Function.Injective T.net := by
  intro m n h
  exact Option.some.inj (by rw [← T.parse_print m, h, T.parse_print])

theorem host_eq (ip : IpAddr) : T.host ip = T.net (IpNet.host ip) := by
  cases ip <;> simp only [host, net, IpNet.host, IpNet.addr, IpNet.prefixLen, BitPrefix.host,
    String.append_assoc] <;> rfl

/-- A printed prefix is read as a network exactly if it has no host bits. -/
theorem parseNetwork_net {n : IpNet} {network : IpNetwork} :
    T.parseNetwork (T.net n) = .ok network ↔ network.net = n := by
  rw [← IpNetwork.ofNet_eq_some]
  simp only [parseNetwork, parse_print, Option.bind_some]
  cases IpNetwork.ofNet n <;> simp

end IpText

end NetAlert
