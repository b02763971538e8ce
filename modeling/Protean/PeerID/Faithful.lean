import Protean.Base64.Canonical
import Protean.PeerID
import Protean.WgFamily.Create

/- Which peers the panel finds again under the id it gives them in a link. -/
namespace Protean

open Base64 (Canonical)
open WgFamily (validPeerName validWGPublicKey)

/-- The id of the links that are older than the schemes. -/
def legacyPeerID (publicKey : Text) : Option Text := (Base64.decodeStd publicKey).map Base64.encode

/-- A text that happens to be base64 must be the one that its bytes are written as. -/
def Faithful (s : Text) : Prop := (Base64.decodeStd s).isSome = true → Canonical s

section
variable {s s' : Text}

theorem encode_injective {bs bs' : List UInt8} (same : Base64.encode bs = Base64.encode bs') : bs = bs' :=
  Option.some.inj ((Base64.decode_encode bs).symm.trans ((congrArg Base64.decode same).trans (Base64.decode_encode bs')))

theorem utf8_injective (same : utf8 s = utf8 s') : s = s' :=
  Option.some.inj ((ofUtf8_utf8 s).symm.trans ((congrArg ofUtf8 same).trans (ofUtf8_utf8 s')))

theorem decodePeerID_legacy (raw : List UInt8) : decodePeerID (Base64.encode raw) = some (Base64.encodeStd raw) := by
  have untagged : Text.cut '.' (Base64.encode raw) = none :=
    Text.cut_eq_none_iff.mpr (Base64.not_mem_encode (by decide +kernel) raw)
  rw [decodePeerID, untagged]
  dsimp only [Option.getD_none]
  rw [Base64.decode_encode]
  rfl

theorem faithful_iff : decodePeerID (encodePeerID s) = some s ↔ Faithful s := by
  rw [decodePeerID_encodePeerID, Option.some_inj, Faithful]
  cases read : Base64.decodeStd s with
  | none => exact iff_of_true rfl nofun
  | some raw =>
    rw [Option.map_some, Option.getD_some, Base64.encodeStd_eq_iff read]
    exact ⟨fun canonical _ => canonical, fun faithful => faithful rfl⟩

/-- Two texts share an id exactly if both are base64 of the same bytes. -/
theorem encodePeerID_eq_iff (other : s' ≠ s) :
    encodePeerID s' = encodePeerID s ↔
      (Base64.decodeStd s').isSome = true ∧ Base64.decodeStd s' = Base64.decodeStd s := by
  unfold encodePeerID
  cases Base64.decodeStd s' with
  | some raw' =>
    cases Base64.decodeStd s with
    | some raw =>
      constructor
      · intro same
        exact ⟨rfl, congrArg some (encode_injective (List.append_cancel_left same))⟩
      · rintro ⟨-, same⟩
        rw [Option.some.inj same]
    | none => exact iff_of_false (fun same => absurd (List.cons.inj same).1 (by decide)) nofun
  | none =>
    cases Base64.decodeStd s with
    | some raw => exact iff_of_false (fun same => absurd (List.cons.inj same).1 (by decide)) nofun
    | none =>
      refine iff_of_false (fun same => other ?_) nofun
      exact utf8_injective (encode_injective (List.append_cancel_left same))

theorem Faithful.eq_of_encodePeerID_eq (faithful : Faithful s) (faithful' : Faithful s')
    (same : encodePeerID s' = encodePeerID s) : s' = s := by
  have back := faithful_iff.mpr faithful'
  rw [same, faithful_iff.mpr faithful] at back
  exact (Option.some.inj back).symm

/-- A name that the panel lets through has neither padding nor line breaks. -/
theorem faithful_of_validPeerName {letterOrNumber : Char → Bool}
    (plain : ∀ c ∈ "\r\n=".toList, letterOrNumber c = false) (valid : validPeerName letterOrNumber s = true) :
    Faithful s := by
  simp only [validPeerName, Bool.and_eq_true, List.all_eq_true, Bool.or_eq_true] at valid
  have free : ∀ c ∈ "\r\n=".toList, c ∉ s := by
    intro c special member
    rcases valid.2 c member with inClass | listed
    · rw [plain c special] at inClass
      cases inClass
    · have never : ∀ c ∈ "\r\n=".toList, " ._@-".toList.contains c = false := by decide
      rw [never c special] at listed
      cases listed
  intro some'
  obtain ⟨raw, read⟩ := Option.isSome_iff_exists.mp some'
  exact Base64.canonical_of_unpadded read ⟨free _ (by decide), free _ (by decide)⟩ (free _ (by decide))

/-- A peer is found under its own id exactly if its name is faithful, as every
name is that a request may give; of two faithful ones each has its own id, any
others share one if they are base64 of the same bytes; and an old link is read
as the canonical key. -/
theorem peerID_faithful_iff (s : Text) :
    (decodePeerID (encodePeerID s) = some s ↔ Faithful s) ∧
      (∀ s', s' ≠ s → (encodePeerID s' = encodePeerID s ↔
        (Base64.decodeStd s').isSome = true ∧ Base64.decodeStd s' = Base64.decodeStd s)) ∧
      (Faithful s → ∀ s', Faithful s' → encodePeerID s' = encodePeerID s → s' = s) ∧
      (∀ letterOrNumber : Char → Bool, (∀ c ∈ "\r\n=".toList, letterOrNumber c = false) →
        validPeerName letterOrNumber s = true → Faithful s) ∧
      ∀ id, legacyPeerID s = some id → (decodePeerID id = some s ↔ Canonical s) := by
  refine ⟨faithful_iff, fun s' other => encodePeerID_eq_iff other,
    fun faithful s' faithful' same => faithful.eq_of_encodePeerID_eq faithful' same,
    fun _ plain valid => faithful_of_validPeerName plain valid, fun id legacy => ?_⟩
  obtain ⟨raw, read, rfl⟩ := Option.map_eq_some_iff.mp legacy
  rw [decodePeerID_legacy, Option.some_inj, Base64.encodeStd_eq_iff read]

end

/-- Two keys that pass the check, which differ in a bit behind the last byte or in
a line break, and the name of a certificate. -/
theorem peerID_shared :
    let zero := Base64.encodeStd (List.replicate 32 0)
    let spare := List.replicate 42 'A' ++ "B=".toList
    let broken := 'A' :: '\n' :: (List.replicate 42 'A' ++ "=".toList)
    (validWGPublicKey zero = true ∧ validWGPublicKey spare = true ∧ validWGPublicKey broken = true) ∧
      (spare ≠ zero ∧ broken ≠ zero ∧ encodePeerID spare = encodePeerID zero ∧ encodePeerID broken = encodePeerID zero) ∧
      (decodePeerID (encodePeerID spare) = some zero ∧ decodePeerID (encodePeerID broken) = some zero) ∧
      decodePeerID (encodePeerID "ab==".toList) = some "aQ==".toList := by
  decide +kernel

end Protean
