import Protean.Split

namespace Protean.WgFamily

structure KV where
  key : Text
  value : Text
  deriving DecidableEq, Repr

structure ConfPeer where
  name : Text
  opts : List KV
  deriving DecidableEq, Repr

structure ConfFile where
  interfaceOpts : List KV := []
  peers : List ConfPeer := []
  deriving DecidableEq, Repr

inductive ConfSection
  | none
  | interface
  | peer
  deriving DecidableEq, Repr

/-- The variables of `ParseConf` between two lines. -/
structure Parser where
  cf : ConfFile := {}
  sec : ConfSection := .none
  opts : List KV := []
  name : Text := []
  nextName : Text := []
  deriving DecidableEq, Repr

/-- The options go to the section they are in, and those before any section nowhere. -/
def Parser.flush (p : Parser) : Parser :=
  match p.sec with
  | .none => { p with opts := [] }
  | .interface => { p with cf := { p.cf with interfaceOpts := p.cf.interfaceOpts ++ p.opts }, opts := [] }
  | .peer => { p with cf := { p.cf with peers := p.cf.peers ++ [⟨p.name, p.opts⟩] }, opts := [] }

def interfaceHeader : Text := "[Interface]".toList

def peerHeader : Text := "[Peer]".toList

/-- The comment that carries the name of the next peer. -/
def nameMark : Text := "# Name:".toList

/-- One line, already trimmed. -/
def Parser.line (p : Parser) (line : Text) : Parser :=
  if line = [] then p
  else if line.head? = some '#' then
    match Text.cutPrefix nameMark line with
    | some n => { p with nextName := Text.trimSpace n }
    | none => p
  else if line = interfaceHeader then { p.flush with sec := .interface, name := [] }
  else if line = peerHeader then { p.flush with sec := .peer, name := p.nextName, nextName := [] }
  else
    match Text.cut '=' line with
    | none => p
    | some (key, value) => { p with opts := p.opts ++ [⟨Text.trimSpace key, Text.trimSpace value⟩] }

def Parser.read (p : Parser) (raws : List Text) : Parser := raws.foldl (fun p raw => p.line (Text.trimSpace raw)) p

def parseConf (content : Text) : ConfFile := (Parser.read {} (Text.lines content)).flush.cf

def renderKV (kv : KV) : Text := kv.key ++ ' ' :: '=' :: ' ' :: (kv.value ++ ['\n'])

/-- No name may add a line to the file. -/
def safeName (name : Text) : Text :=
  (name.map fun c => if c = '\n' then ' ' else c).map fun c => if c = '\r' then ' ' else c

def renderPeer (p : ConfPeer) : Text :=
  '\n' :: ((if p.name ≠ [] then nameMark ++ ' ' :: (safeName p.name ++ ['\n']) else []) ++
    (peerHeader ++ '\n' :: p.opts.flatMap renderKV))

def ConfFile.render (cf : ConfFile) : Text :=
  interfaceHeader ++ '\n' :: (cf.interfaceOpts.flatMap renderKV ++ cf.peers.flatMap renderPeer)

/-- The keys and values that a line of the file can carry. -/
structure KV.Valid (kv : KV) : Prop where
  key_trimmed : Text.trimSpace kv.key = kv.key
  key_plain : '=' ∉ kv.key ∧ '\n' ∉ kv.key
  key_option : kv.key.head? ≠ some '#'
  value_trimmed : Text.trimSpace kv.value = kv.value
  value_plain : '\n' ∉ kv.value

structure ConfFile.Valid (cf : ConfFile) : Prop where
  interfaceOpts : ∀ kv ∈ cf.interfaceOpts, kv.Valid
  peers : ∀ p ∈ cf.peers, ∀ kv ∈ p.opts, kv.Valid

def ConfFile.mapNames (f : Text → Text) (cf : ConfFile) : ConfFile :=
  { cf with peers := cf.peers.map fun p => ⟨f p.name, p.opts⟩ }

end Protean.WgFamily
