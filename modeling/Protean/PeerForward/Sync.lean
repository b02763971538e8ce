import Protean.Netfilter.Print
import Protean.Regex
import Protean.Shell

open Netfilter

namespace Protean.PeerForward

def octetPattern : Regex := Regex.between Regex.digit 1 3

def addrPattern : Regex := octetPattern * Regex.exactly (.char '.' * octetPattern) 3

def lengthPattern : Regex := .char '/' * Regex.between Regex.digit 1 2

/-- `VALID_CIDR`. -/
def validCidr : Regex := addrPattern * lengthPattern

/-- `VALID_DEST_LIST`. -/
def validDestList : Regex := validCidr * Regex.upTo (.char ',' * validCidr) 63

/-- `validHostOrCIDR`: the length may be absent. -/
def validHostOrCIDR : Regex := addrPattern * (1 + lengthPattern)

def normalizeHostOrCIDR (s : Text) : Option Text :=
  if !validHostOrCIDR.accepts s then none
  else if '/' ∈ s then some s
  else some (s ++ ['/', '3', '2'])

def tagPrefix : Text :=
  ['p', 'r', 'o', 't', 'e', 'a', 'n', '-', 'p', 'e', 'e', 'r', '-', 'f', 'w', ':']

/-- The `iptables` of a host, if it has one: how it prints the specification of
a rule under `-S`, and which rule `-D` takes a list of words for. -/
structure Listing where
  present : Bool
  spec : Rule → Text
  parse : List Text → Option Rule

/-- The characters of the verb's own comments. -/
def tagChar (c : Char) : Bool := c.isAlphanum || c ∈ ['-', ':', '.']

/-- A printed specification names its rule, and a comment without characters
that need escaping is printed as it is. -/
structure Listing.Documented (listing : Listing) : Prop where
  readBack : ∀ r words, Shell.plainWords false none (listing.spec r) = some words → listing.parse words = some r
  verbatim : ∀ r t, .comment t ∈ r.modules → (∀ c ∈ t, tagChar c) → t <:+: listing.spec r

/-- `eval "iptables -D FORWARD ..."` on one line of the dump. A line the shell
does more with than split it into words is left open: `other` says what becomes
of the chain. -/
def evalDelete (listing : Listing) (other : Text → List Rule → List Rule) (chain : List Rule)
    (spec : Text) : List Rule :=
  match Shell.plainWords false none spec with
  | none => other spec chain
  | some words =>
    match listing.parse words with
    | none => chain
    | some r => chain.erase r

/-- `grep -F` over the dump, which is taken once, before the first deletion. -/
def taggedSpecs (listing : Listing) (tag : Text) (chain : List Rule) : List Text :=
  (chain.map listing.spec).filter fun spec => decide (tag <:+: spec)

def deletePass (listing : Listing) (other : Text → List Rule → List Rule) (tag : Text) (chain : List Rule) :
    List Rule :=
  (taggedSpecs listing tag chain).foldl (evalDelete listing other) chain

/-- `iptables -I FORWARD 1`, with its exit status. -/
def insertFirst (args : List Text) (chain : List Rule) : List Rule × Bool :=
  match readRule args with
  | some r => (r :: chain, true)
  | none => (chain, false)

def commentArgs (tag : Text) : List Text := [Word.dashM, Word.comment, Word.dashComment, tag]

def dropArgs (option peer tag : Text) : List Text := [option, peer, Word.dashJ, Word.drop] ++ commentArgs tag

def acceptArgs (option peer option' dest tag : Text) : List Text :=
  [option, peer, option', dest, Word.dashJ, Word.accept] ++ commentArgs tag

/-- The loop over the destinations. Its status is that of its last command; a
failed insertion in the middle goes unnoticed. -/
def insertAllows (peer tag : Text) : List Text → List Rule × Bool → List Rule × Bool
  | [], s => s
  | dest :: rest, s =>
    if !validCidr.accepts dest then (s.1, false)
    else
      insertAllows peer tag rest
        (insertFirst (acceptArgs Word.dashS peer Word.dashD dest tag)
          (insertFirst (acceptArgs Word.dashD peer Word.dashS dest tag) s.1).1)

def cmdPeerForwardRules (listing : Listing) (other : Text → List Rule → List Rule) (peer destCsv : Text)
    (chain : List Rule) : List Rule × Bool :=
  let tag := tagPrefix ++ Shell.beforeLast '/' peer
  if !listing.present then (chain, false)
  else
  let chain := deletePass listing other tag chain
  if destCsv = [] then (chain, true)
  else
    let chain := (insertFirst (dropArgs Word.dashD peer tag) chain).1
    let s := insertFirst (dropArgs Word.dashS peer tag) chain
    insertAllows peer tag (Shell.fields ',' destCsv) s

/-- The `peer-forward-rules` branch of `main`. -/
def mainPeerForwardRules (listing : Listing) (other : Text → List Rule → List Rule) (peer destCsv : Text)
    (chain : List Rule) : List Rule × Bool :=
  if !validCidr.accepts peer then (chain, false)
  else if destCsv ≠ [] ∧ !validDestList.accepts destCsv then (chain, false)
  else cmdPeerForwardRules listing other peer destCsv chain

/-- `SetPeerForwardRules`: the host's chain afterwards, and whether no error
came back. The arguments are digits, dots, slashes and commas, so the shell
passes them on as they are. -/
def setPeerForwardRules (listing : Listing) (other : Text → List Rule → List Rule) (peerAddr : Text)
    (allowed : List Text) (chain : List Rule) : List Rule × Bool :=
  match normalizeHostOrCIDR peerAddr, allowed.mapM normalizeHostOrCIDR with
  | some peer, some norm => mainPeerForwardRules listing other peer ([','].intercalate norm) chain
  | _, _ => (chain, false)

end Protean.PeerForward
