import Protean.Firewall.Reading

open Netfilter

namespace Protean.Firewall

/-- `"443"`. -/
def fieldPort (t : Text) : Option Port :=
  (Text.readCanonical t).bind fun n => if n < 65536 then some (BitVec.ofNat 16 n) else none

/-- `"443"` or `"8000:8100"`. -/
def fieldRange (t : Text) : Option (Port × Port) :=
  match t.splitOn ':' with
  | [n] => (fieldPort n).map fun p => (p, p)
  | [lo, hi] => (fieldPort lo).bind fun l => (fieldPort hi).bind fun h =>
      if l ≤ h then some (l, h) else none
  | _ => none

/-- `"443"`, `"8000:8100"` or `"80,443"`. -/
def fieldPorts (t : Text) : Option (List (Port × Port)) := (t.splitOn ',').mapM fieldRange

def fieldOctet (t : Text) : Option Nat :=
  (Text.readCanonical t).bind fun n => if n < 256 then some n else none

def fieldAddr (t : Text) : Option Addr :=
  match t.splitOn '.' with
  | [a, b, c, d] => (fieldOctet a).bind fun a => (fieldOctet b).bind fun b =>
      (fieldOctet c).bind fun c => (fieldOctet d).map fun d => addrOf a b c d
  | _ => none

/-- `"10.0.0.0/8"`, or one address. -/
def fieldCidr (t : Text) : Option Cidr :=
  match t.splitOn '/' with
  | [a] => (fieldAddr a).map Cidr.host
  | [a, l] => (fieldAddr a).bind fun addr => (Text.readCanonical l).bind fun len =>
      if bounded : len ≤ 32 then some (Cidr.mk' addr len bounded) else none
  | _ => none

/-- A baseline row for a real protocol and port. -/
def BaselinePort.Valid (bp : BaselinePort) : Prop :=
  (bp.proto = Word.tcp ∨ bp.proto = Word.udp) ∧ 1 ≤ bp.port ∧ bp.port ≤ 65535

def BaselinePort.covers (bp : BaselinePort) (p : Packet) : Prop :=
  readProto bp.proto = some p.proto ∧ bp.port = p.dport.toNat

instance (bp : BaselinePort) (p : Packet) : Decidable (bp.covers p) := inferInstanceAs (Decidable (_ ∧ _))

def namesProto (r : Rule) : Prop := r.proto ≠ [] ∧ r.proto ≠ Field.any

instance (r : Rule) : Decidable (namesProto r) := inferInstanceAs (Decidable (_ ∧ _))

/-- What the protocol, port and source of a rule describe, if they are written
as the panel documents them. -/
structure Selector where
  proto : Option Proto
  ports : Option (List (Port × Port))
  source : Cidr

def Selector.selects (s : Selector) (p : Packet) : Bool :=
  s.proto.all (fun q => p.proto == q) &&
    s.ports.all (fun rs => rs.any fun r => inRange r.1 r.2 p.dport) && s.source.contains p.src

def protoField (r : Rule) : Option (Option Proto) :=
  if namesProto r then (readProto r.proto).map some else some none

/-- A port needs a protocol that has ports. -/
def portField (r : Rule) (proto : Option Proto) : Option (Option (List (Port × Port))) :=
  if r.portSpec = [] then some none
  else if proto = some .tcp ∨ proto = some .udp then (fieldPorts r.portSpec).map some
  else none

def sourceField (r : Rule) : Option Cidr :=
  if r.sourceCIDR = [] then some .any else fieldCidr r.sourceCIDR

def Rule.selector (r : Rule) : Option Selector :=
  (protoField r).bind fun proto => (portField r proto).bind fun ports =>
    (sourceField r).map fun source => ⟨proto, ports, source⟩

/- The packet filter reads what the panel documents as the panel means it. -/

variable {t : Text} {p : Port}

theorem fieldPort_read (field : fieldPort t = some p) : readPort t = some p := by
  obtain ⟨n, canonical, bounded⟩ := Option.bind_eq_some_iff.mp field
  rw [Text.readCanonical_eq_some.mp canonical, readPort, Text.readNumber_decimal]
  exact bounded

theorem fieldPort_ne_nil (field : fieldPort t = some p) : t ≠ [] := by
  obtain ⟨n, canonical, -⟩ := Option.bind_eq_some_iff.mp field
  rw [Text.readCanonical_eq_some.mp canonical]
  exact Text.decimal_ne_nil n

theorem fieldRange_read {r : Port × Port} (field : fieldRange t = some r) : readPortRange t = some r := by
  unfold fieldRange at field
  split at field
  · rename_i n parts
    obtain ⟨p, port, rfl⟩ := Option.map_eq_some_iff.mp field
    simp [readPortRange, parts, fieldPort_read port]
  · rename_i lo hi parts
    obtain ⟨l, low, field⟩ := Option.bind_eq_some_iff.mp field
    obtain ⟨h, high, field⟩ := Option.bind_eq_some_iff.mp field
    simp [readPortRange, parts, fieldPort_ne_nil low, fieldPort_ne_nil high, fieldPort_read low,
      fieldPort_read high, field]
  · cases field

theorem fieldPorts_read {rs : List (Port × Port)} (field : fieldPorts t = some rs) :
    (t.splitOn ',').mapM readPortRange = some rs :=
  List.mapM_option_eq_some.mpr
    ((List.mapM_option_eq_some.mp field).imp fun _ _ read => fieldRange_read read)

theorem fieldOctet_read {n : Nat} (field : fieldOctet t = some n) : readOctet t = some n := by
  obtain ⟨m, canonical, bounded⟩ := Option.bind_eq_some_iff.mp field
  rw [Text.readCanonical_eq_some.mp canonical, readOctet, Text.readNumber_decimal]
  exact bounded

theorem fieldAddr_read {a : Addr} (field : fieldAddr t = some a) : readAddr t = some a := by
  unfold fieldAddr at field
  split at field
  · rename_i parts
    obtain ⟨a, first, field⟩ := Option.bind_eq_some_iff.mp field
    obtain ⟨b, second, field⟩ := Option.bind_eq_some_iff.mp field
    obtain ⟨c, third, field⟩ := Option.bind_eq_some_iff.mp field
    obtain ⟨d, fourth, rfl⟩ := Option.map_eq_some_iff.mp field
    simp [readAddr, parts, fieldOctet_read first, fieldOctet_read second, fieldOctet_read third,
      fieldOctet_read fourth]
  · cases field

theorem fieldCidr_read {c : Cidr} (field : fieldCidr t = some c) : readCidr t = some c := by
  unfold fieldCidr at field
  split at field
  · rename_i parts
    obtain ⟨a, addr, rfl⟩ := Option.map_eq_some_iff.mp field
    simp [readCidr, parts, fieldAddr_read addr]
  · rename_i parts
    obtain ⟨a, addr, field⟩ := Option.bind_eq_some_iff.mp field
    obtain ⟨len, length, field⟩ := Option.bind_eq_some_iff.mp field
    rw [readCidr, parts, Text.readCanonical_eq_some.mp length]
    simp only [fieldAddr_read addr, Text.readNumber_decimal]
    exact field
  · cases field

/- Which characters such fields are made of. -/

def FieldChar (c : Char) : Prop := c.isDigit ∨ c ∈ [',', ':', '.', '/']

theorem FieldChar.plain {c : Char} (field : FieldChar c) : Plain c ∧ c ≠ '\n' := by
  have other : ∀ d ∈ ['"', ' ', '\t', '\n'], c ≠ d := by
    rintro d member rfl
    simp only [List.mem_cons, List.not_mem_nil, or_false] at member
    rcases member with rfl | rfl | rfl | rfl <;> exact absurd field (by unfold FieldChar; decide)
  exact ⟨⟨other _ (by simp), other _ (by simp), other _ (by simp)⟩, other _ (by simp)⟩

theorem canonical_fieldChar {n : Nat} (canonical : Text.readCanonical t = some n) : ∀ c ∈ t, FieldChar c := by
  rw [Text.readCanonical_eq_some.mp canonical]
  exact fun c member => .inl (Text.isDigit_of_mem_decimal member)

theorem fieldPort_fieldChar (field : fieldPort t = some p) : ∀ c ∈ t, FieldChar c := by
  obtain ⟨n, canonical, -⟩ := Option.bind_eq_some_iff.mp field
  exact canonical_fieldChar canonical

/-- A text is made of field characters when its parts are. -/
theorem fieldChar_of_parts (sep : Char) (separator : sep ∈ [',', ':', '.', '/'])
    (parts : ∀ part ∈ t.splitOn sep, ∀ c ∈ part, FieldChar c) : ∀ c ∈ t, FieldChar c := by
  intro c member
  by_cases same : c = sep
  · exact .inr (same ▸ separator)
  · obtain ⟨part, inside, member⟩ := (Text.mem_splitOn same t).mp member
    exact parts part inside c member

theorem fieldRange_fieldChar {r : Port × Port} (field : fieldRange t = some r) : ∀ c ∈ t, FieldChar c := by
  refine fieldChar_of_parts ':' (by simp) ?_
  unfold fieldRange at field
  split at field
  · rename_i n parts
    obtain ⟨p, port, -⟩ := Option.map_eq_some_iff.mp field
    simpa [parts] using fieldPort_fieldChar port
  · rename_i lo hi parts
    obtain ⟨l, low, field⟩ := Option.bind_eq_some_iff.mp field
    obtain ⟨h, high, -⟩ := Option.bind_eq_some_iff.mp field
    simpa [parts] using ⟨fieldPort_fieldChar low, fieldPort_fieldChar high⟩
  · cases field

theorem fieldPorts_fieldChar {rs : List (Port × Port)} (field : fieldPorts t = some rs) : ∀ c ∈ t, FieldChar c := by
  refine fieldChar_of_parts ',' (by simp) ?_
  intro part inside
  obtain ⟨r, read⟩ := List.exists_of_mapM_option field inside
  exact fieldRange_fieldChar read

theorem fieldAddr_fieldChar {a : Addr} (field : fieldAddr t = some a) : ∀ c ∈ t, FieldChar c := by
  have octet : ∀ {t n}, fieldOctet t = some n → ∀ c ∈ t, FieldChar c := fun field => by
    obtain ⟨n, canonical, -⟩ := Option.bind_eq_some_iff.mp field
    exact canonical_fieldChar canonical
  refine fieldChar_of_parts '.' (by simp) ?_
  unfold fieldAddr at field
  split at field
  · rename_i parts
    obtain ⟨a, first, field⟩ := Option.bind_eq_some_iff.mp field
    obtain ⟨b, second, field⟩ := Option.bind_eq_some_iff.mp field
    obtain ⟨c, third, field⟩ := Option.bind_eq_some_iff.mp field
    obtain ⟨d, fourth, -⟩ := Option.map_eq_some_iff.mp field
    simpa [parts] using ⟨octet first, octet second, octet third, octet fourth⟩
  · cases field

theorem fieldCidr_fieldChar {c : Cidr} (field : fieldCidr t = some c) : ∀ c ∈ t, FieldChar c := by
  refine fieldChar_of_parts '/' (by simp) ?_
  unfold fieldCidr at field
  split at field
  · rename_i parts
    obtain ⟨a, addr, -⟩ := Option.map_eq_some_iff.mp field
    simpa [parts] using fieldAddr_fieldChar addr
  · rename_i parts
    obtain ⟨a, addr, field⟩ := Option.bind_eq_some_iff.mp field
    obtain ⟨len, length, -⟩ := Option.bind_eq_some_iff.mp field
    simpa [parts] using ⟨fieldAddr_fieldChar addr, canonical_fieldChar length⟩
  · cases field

end Protean.Firewall
