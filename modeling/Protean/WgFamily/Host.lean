import Protean.KeyTable
import Protean.Proc
import Protean.WgFamily.Options

namespace Protean.WgFamily

inductive Kind
  | wireguard
  | amneziawg
  deriving DecidableEq, Repr

/-- A peer of the live interface. -/
structure LivePeer where
  allowedIPs : List Text
  keepalive : Int
  deriving DecidableEq, Repr

/-- One instance on its host: the config file and the live interface. -/
structure Host where
  file : Text
  publicKey : Text
  listenPort : Int
  live : KeyTable Text LivePeer

/-- What `showDump` finds: a failed command counts as an interface that is
down when the probe does not find it either. -/
inductive Dump
  | up
  | down
  | error
  deriving DecidableEq, Repr

/-- How the remote steps of one call go. A step that fails changes nothing. -/
structure Env where
  dump : Dump := .up
  readStatus : Bool := true
  readConf : Bool := true
  readPrev : Bool := true
  writeConf : Bool := true
  apply : Bool := true
  remove : Bool := true
  rollback : Bool := true
  restart : Bool := true
  deriving DecidableEq, Repr

def readFile (works : Bool) : Proc Host Text := Proc.read fun h => if works then some h.file else none

def writeFile (works : Bool) (content : Text) : Proc Host Unit := do
  Proc.guard works
  Proc.modify fun h => { h with file := content }

section
variable (env : Env)

def readConf : Proc Host ConfFile := do
  let raw ← readFile env.readConf
  return parseConf raw

/-- Gives the previous contents, and nothing if they could not be read. -/
def writeConf (conf : ConfFile) : Proc Host Text := do
  let prev ← Proc.attempt (readFile env.readPrev)
  writeFile env.writeConf conf.render
  return prev.getD []

@[simp] theorem exec_readConf (h : Host) :
    (readConf env).exec h = (if env.readConf then some (parseConf h.file) else none, h) := by
  unfold readConf readFile
  cases env.readConf <;> rfl

theorem exec_readConf_bind {β : Type} (f : ConfFile → Proc Host β) (h : Host) :
    (readConf env >>= f).exec h = if env.readConf then (f (parseConf h.file)).exec h else (none, h) := by
  rw [Proc.exec_bind, exec_readConf]
  cases env.readConf <;> rfl

/-- What the file held before is known only if it could be read. -/
@[simp] theorem exec_writeConf (conf : ConfFile) (h : Host) :
    (writeConf env conf).exec h =
      if env.writeConf then (some (if env.readPrev then h.file else []), { h with file := conf.render })
      else (none, h) := by
  unfold writeConf readFile writeFile
  cases env.writeConf <;> cases env.readPrev <;> rfl

structure ServerStatus where
  up : Bool
  address : Text := []
  dns : Text := []
  mtu : Int := 0
  publicKey : Text := []
  listenPort : Int := 0
  endpoint : Text := []
  deriving DecidableEq, Repr

/-- The settings are left out when the file cannot be read. -/
def status (publicHost : Text) : Proc Host ServerStatus :=
  match env.dump with
  | .error => Proc.lift none
  | .down => return { up := false }
  | .up => do
    let raw ← Proc.attempt (readFile env.readStatus)
    let conf := (raw.map parseConf).getD {}
    let publicKey ← Proc.read fun h => some h.publicKey
    let listenPort ← Proc.read fun h => some h.listenPort
    return {
      up := true
      address := (conf.interfaceGet "Address".toList).getD []
      dns := (conf.interfaceGet "DNS".toList).getD []
      mtu := ((conf.interfaceGet "MTU".toList).map Text.atoiValue).getD 0
      publicKey := publicKey
      listenPort := listenPort
      endpoint := if publicHost ≠ [] then publicHost ++ ':' :: Text.itoa listenPort else [] }

/-- The status has what the file and the interface say, where they could be read. -/
theorem exec_status (publicHost : Text) (h : Host) :
    (status env publicHost).exec h = (match env.dump with
      | .error => none
      | .down => some { up := false }
      | .up =>
        let conf := if env.readStatus then parseConf h.file else {}
        some {
          up := true
          address := (conf.interfaceGet "Address".toList).getD []
          dns := (conf.interfaceGet "DNS".toList).getD []
          mtu := ((conf.interfaceGet "MTU".toList).map Text.atoiValue).getD 0
          publicKey := h.publicKey
          listenPort := h.listenPort
          endpoint := if publicHost ≠ [] then publicHost ++ ':' :: Text.itoa h.listenPort else [] }, h) := by
  unfold status
  cases env.dump with
  | error => rfl
  | down => rfl
  | up => cases read : env.readStatus <;> rfl

end

end Protean.WgFamily
