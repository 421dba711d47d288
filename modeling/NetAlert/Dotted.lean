import NetAlert.Lib.FieldText
import NetAlert.Config

/-!
# NetAlert.Dotted — a text of addresses and prefixes

`IpText.dotted` prints IPv4 addresses in dotted decimal and IPv6 addresses as eight hexadecimal
groups.  It shortens no run of zero groups; everything else prints as the standard library does.
-/

namespace NetAlert

namespace IpText

/-- The bytes of an IPv4 address. -/
def bytes4 (a : BitVec 32) : List ℕ :=
  [a.toNat / 2 ^ 24, a.toNat / 2 ^ 16 % 256, a.toNat / 2 ^ 8 % 256, a.toNat % 256]

/-- The groups of an IPv6 address. -/
def groups6 (a : BitVec 128) : List ℕ :=
  [a.toNat / 2 ^ 112, a.toNat / 2 ^ 96 % 65536, a.toNat / 2 ^ 80 % 65536, a.toNat / 2 ^ 64 % 65536,
    a.toNat / 2 ^ 48 % 65536, a.toNat / 2 ^ 32 % 65536, a.toNat / 2 ^ 16 % 65536, a.toNat % 65536]

/-- The number with the given digits in base `b`. -/
def fromDigits (b : ℕ) (ds : List ℕ) : ℕ := ds.foldl (fun n d => b * n + d) 0

theorem fromDigits_bytes4 (a : BitVec 32) : fromDigits 256 (bytes4 a) = a.toNat := by
  have := a.isLt
  simp only [fromDigits, bytes4, List.foldl_cons, List.foldl_nil]
  omega

theorem fromDigits_groups6 (a : BitVec 128) : fromDigits 65536 (groups6 a) = a.toNat := by
  have := a.isLt
  simp only [fromDigits, groups6, List.foldl_cons, List.foldl_nil]
  omega

/-- `Display` of an address. -/
def dottedAddr : IpAddr → String
  | .V4 a => String.ofList (FieldText.write 10 (a.toNat / 2 ^ 24)
      ((bytes4 a).tail.map fun d => ('.', 10, d)))
  | .V6 a => String.ofList (FieldText.write 16 (a.toNat / 2 ^ 112)
      ((groups6 a).tail.map fun d => (':', 16, d)))

/-- Read a prefix, first as IPv4, then as IPv6. -/
def dottedParse (s : String) : Option IpNet :=
  match FieldText.read 10 [('.', 10), ('.', 10), ('.', 10), ('/', 10)] s.toList with
  | some [a, b, c, d, len] =>
    if h : len ≤ 32 then some (.V4 ⟨BitVec.ofNat 32 (fromDigits 256 [a, b, c, d]), len, h⟩) else none
  | _ =>
    match FieldText.read 16 [(':', 16), (':', 16), (':', 16), (':', 16), (':', 16), (':', 16),
      (':', 16), ('/', 10)] s.toList with
    | some [a, b, c, d, e, f, g, h, len] =>
      if hl : len ≤ 128 then
        some (.V6 ⟨BitVec.ofNat 128 (fromDigits 65536 [a, b, c, d, e, f, g, h]), len, hl⟩)
      else none
    | _ => none

theorem toList_net (addr : String) (len : ℕ) :
    (addr ++ "/" ++ toString len).toList = addr.toList ++ '/' :: Nat.toDigits 10 len := by
  simp [Nat.toString_eq_repr, Nat.repr_eq_ofList_toDigits]

theorem dottedParse_net (net : IpNet) :
    dottedParse (dottedAddr net.addr ++ "/" ++ toString net.prefixLen) = some net := by
  have hdot : FieldText.isDigit '.' = false := by decide
  have hcolon : FieldText.isDigit ':' = false := by decide
  have hslash : FieldText.isDigit '/' = false := by decide
  cases net with
  | V4 n =>
    have h := FieldText.read_write (b := 10) (by norm_num) (by norm_num) (n.addr.toNat / 2 ^ 24)
      ((bytes4 n.addr).tail.map (fun d => ('.', 10, d)) ++ [('/', 10, n.len)]) (by simp [bytes4, hdot, hslash])
    have hw : (dottedAddr (IpNet.V4 n).addr ++ "/" ++ toString n.len).toList =
        FieldText.write 10 (n.addr.toNat / 2 ^ 24)
          ((bytes4 n.addr).tail.map (fun d => ('.', 10, d)) ++ [('/', 10, n.len)]) := by
      rw [toList_net]
      simp [dottedAddr, IpNet.addr, bytes4, FieldText.write]
    rw [← hw] at h
    have hval := fromDigits_bytes4 n.addr
    simp only [bytes4, List.tail_cons, List.map_cons, List.map_nil, List.cons_append, List.nil_append] at h hval
    simp only [dottedParse, IpNet.prefixLen, h, dif_pos n.len_le, hval, BitVec.ofNat_toNat,
      BitVec.setWidth_eq]
  | V6 n =>
    have h := FieldText.read_write (b := 16) (by norm_num) (by norm_num) (n.addr.toNat / 2 ^ 112)
      ((groups6 n.addr).tail.map (fun d => (':', 16, d)) ++ [('/', 10, n.len)]) (by simp [groups6, hcolon, hslash])
    have hw : (dottedAddr (IpNet.V6 n).addr ++ "/" ++ toString n.len).toList =
        FieldText.write 16 (n.addr.toNat / 2 ^ 112)
          ((groups6 n.addr).tail.map (fun d => (':', 16, d)) ++ [('/', 10, n.len)]) := by
      rw [toList_net]
      simp [dottedAddr, IpNet.addr, groups6, FieldText.write]
    have h4 : FieldText.read 10 [('.', 10), ('.', 10), ('.', 10), ('/', 10)]
        (dottedAddr (IpNet.V6 n).addr ++ "/" ++ toString n.len).toList = none := by
      rw [hw]
      exact FieldText.read_write_ne (by norm_num) (by norm_num) _ (by decide) hcolon _ _ _ _
    rw [← hw] at h
    have hval := fromDigits_groups6 n.addr
    simp only [groups6, List.tail_cons, List.map_cons, List.map_nil, List.cons_append, List.nil_append] at h hval
    simp only [dottedParse, IpNet.prefixLen, h4, h, dif_pos n.len_le, hval, BitVec.ofNat_toNat,
      BitVec.setWidth_eq]

/-- Dotted decimal and hexadecimal groups. -/
def dotted : IpText := ⟨dottedAddr, dottedParse, "host bits are set", dottedParse_net⟩

example : dotted.net (.slash24 0x0A020300) = "10.2.3.0/24" := by decide

example : Config.readme.validate dotted = .ok () := by decide

end IpText

end NetAlert
