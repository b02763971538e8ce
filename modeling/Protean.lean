import Protean.Xray.Parse
import Protean.Xray.Chain
import Protean.Xray.Reapply
import Protean.Firewall.Evaluation
import Protean.Firewall.Injection
import Protean.Firewall.Completeness
import Protean.Firewall.Lockout
import Protean.Firewall.Race
import Protean.Firewall.Frame
import Protean.PeerForward.Following
import Protean.PeerForward.Isolation
import Protean.Cert.Revocation
import Protean.Cert.Locked
import Protean.Cert.Numbering
import Protean.Cert.Enrolment
import Protean.KeyRotate.Exact
import Protean.BruteForce.Reset
import Protean.BruteForce.ClientIP
import Protean.SSHExec.WriteFile
import Protean.WgFamily.Networking
import Protean.Vpn.Accounting
import Protean.WgFamily.Routes
import Protean.WgFamily.Reenable
import Protean.WgFamily.ProvisionRace
import Protean.PeerID.Faithful
import Protean.WgFamily.Carry
import Protean.Access.States
import Protean.Accounts.Password
import Protean.Cert.Division
import Protean.Ikev2.Connections
import Protean.OpenVPN.ClientFiles
import Protean.OpenVPN.Server
import Protean.Xray.Defaults
import Protean.Network.Owners
import Protean.Network.Detection
import Protean.Network.SubnetNAT
import Protean.BruteForce.IPRules
import Protean.OpenVPN.Status
import Protean.WgFamily.Edits
import Protean.Accounts.Sessions
