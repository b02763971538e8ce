import Protean.Base64
import Protean.Split

namespace Protean

def encodePeerID (publicKey : Text) : Text :=
  match Base64.decodeStd publicKey with
  | some raw => "b.".toList ++ Base64.encode raw
  | none => "s.".toList ++ Base64.encode (utf8 publicKey)

/-- A link without a scheme is an old one, for a binary key. -/
def decodePeerID (urlID : Text) : Option Text := do
  let (scheme, rest) := (Text.cut '.' urlID).getD ("b".toList, urlID)
  let raw ← Base64.decode rest
  if scheme = "b".toList then some (Base64.encodeStd raw)
  else if scheme = "s".toList then ofUtf8 raw
  else none

theorem decodePeerID_tagged (scheme rest : Text) (tag : '.' ∉ scheme) :
    decodePeerID (scheme ++ '.' :: rest) = (Base64.decode rest).bind fun raw =>
      if scheme = "b".toList then some (Base64.encodeStd raw) else if scheme = "s".toList then ofUtf8 raw else none := by
  have cut : Text.cut '.' (scheme ++ '.' :: rest) = some (scheme, rest) := Text.cut_eq_some_iff.mpr ⟨rfl, tag⟩
  rw [decodePeerID, cut]
  rfl

/-- The bytes come back, and are written in their canonical form. -/
theorem decodePeerID_encodePeerID (s : Text) :
    decodePeerID (encodePeerID s) = some (((Base64.decodeStd s).map Base64.encodeStd).getD s) := by
  unfold encodePeerID
  cases Base64.decodeStd s with
  | some raw =>
    have tagged := decodePeerID_tagged "b".toList (Base64.encode raw) (by decide)
    rw [Base64.decode_encode] at tagged
    exact tagged
  | none =>
    have tagged := decodePeerID_tagged "s".toList (Base64.encode (utf8 s)) (by decide)
    rw [Base64.decode_encode, Option.bind_some, if_neg (by decide), if_pos rfl, ofUtf8_utf8] at tagged
    exact tagged

/-- A key in its canonical form comes back. -/
theorem decodePeerID_encodePeerID_encodeStd (bytes : List UInt8) :
    decodePeerID (encodePeerID (Base64.encodeStd bytes)) = some (Base64.encodeStd bytes) := by
  rw [decodePeerID_encodePeerID, Base64.decodeStd_encodeStd]
  rfl

end Protean
