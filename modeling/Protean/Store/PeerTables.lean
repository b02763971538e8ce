import Protean.KeyTable
import Protean.Text

namespace Protean.Store

/-- A row of `disabled_peers`. -/
structure DisabledPeer where
  name : Text
  allowedIPs : Text
  keepalive : Int
  deriving DecidableEq, Repr

/-- The tables with a row per peer, those of one provider instance. The first
five are keyed by the identifier of the peer itself, the others by its encoded
form. Forward rules are grouped: a peer without a destination has no row. -/
structure PeerTables where
  secrets : KeyTable Text Text := KeyTable.empty
  expiry : KeyTable Text Int := KeyTable.empty
  category : KeyTable Text Text := KeyTable.empty
  muted : KeyTable Text Unit := KeyTable.empty
  disabled : KeyTable Text DisabledPeer := KeyTable.empty
  forwardRules : KeyTable Text (List Text) := KeyTable.empty
  owner : KeyTable Text Int := KeyTable.empty
  node : KeyTable Text Int := KeyTable.empty

end Protean.Store
