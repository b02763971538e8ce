import Mathlib.Data.List.Nodup
import Protean.Xray.Config

namespace Protean.Xray

def outbounds (conf : Json) : List Json := items (conf.field "outbounds")

def rules (conf : Json) : List Json := items (conf.path "routing" "rules")

def tag (o : Json) : Text := textField o "tag"

/-- The tag of the outbound that an outbound dials through. -/
def dialerProxy (o : Json) : Option Text :=
  ((o.path "streamSettings" "sockopt").bind (·.field "dialerProxy")).map fun
    | .str t => t
    | _ => []

/-- From a tag on, the outbounds that traffic goes through, up to one that dials by itself. -/
inductive Follows (conf : Json) : Text → List Json → Prop
  | last {o : Json} : o ∈ outbounds conf → dialerProxy o = none → Follows conf (tag o) [o]
  | next {o : Json} {t : Text} {os : List Json} :
      o ∈ outbounds conf → dialerProxy o = some t → Follows conf t os → Follows conf (tag o) (o :: os)

/-- Traffic of an outbound with the first tag may leave through one with the second. -/
def Dialed (conf : Json) (t u : Text) : Prop := ∃ o ∈ outbounds conf, tag o = t ∧ dialerProxy o = some u

/-- All traffic, whatever else is known of it, goes to the outbound of the tag. -/
structure CatchAll (rule : Json) (t : Text) : Prop where
  field : textField rule "type" = "field".toList
  tcp : "tcp".toList ∈ (textField rule "network").splitOn ','
  udp : "udp".toList ∈ (textField rule "network").splitOn ','
  target : textField rule "outboundTag" = t
  unconditional : ∀ name, (rule.field name).isSome → name ∈ ["type", "network", "outboundTag"]

/-- A hop is an outbound with a tag, and with its own socket options. -/
structure HopOf (o : Outbound) (hop : Json) : Prop where
  field : ∀ name, name ∉ ["tag", "streamSettings"] → hop.field name = (Json.obj o).field name
  stream : ∀ name, name ≠ "sockopt" → hop.path "streamSettings" name = (Json.obj o).path "streamSettings" name

/-- Everything goes through the hops, in their order. -/
structure Chained (outs : List Outbound) (conf : Json) : Prop where
  distinct : ((outbounds conf).map tag).Nodup
  chain : ∃ rule hops, rules conf = [rule] ∧ CatchAll rule (textField rule "outboundTag") ∧
    outbounds conf = hops ++ [.obj freedomOutbound, .obj blackholeOutbound] ∧
    Follows conf (textField rule "outboundTag") hops ∧ List.Forall₂ HopOf outs hops ∧
    ¬ Relation.ReflTransGen (Dialed conf) (textField rule "outboundTag") "direct".toList

/-- Everything leaves directly. -/
structure Direct (conf : Json) : Prop where
  unrouted : conf.field "routing" = none
  first : (outbounds conf).head? = some (.obj freedomOutbound)

section
variable {o : Outbound} {t u : Text}

theorem field_setField {fields : List (String × Json)} {name key : String} {value : Json} (other : key ≠ name) :
    (Json.obj (setField fields name value)).field key = (Json.obj fields).field key := lookup_setField_of_ne other

theorem field_setField_self {fields : List (String × Json)} {name : String} {value : Json} :
    (Json.obj (setField fields name value)).field name = some value := by
  unfold Json.field
  exact lookup_setField

/-- What the tag and the proxy of a hop leave as it was. -/
theorem hopOf_tagged (o : Outbound) (t : Text) : HopOf o (.obj (setField o "tag" (.str t))) := by
  refine ⟨fun name out => field_setField fun same => out (by simp [same]), fun name _ => ?_⟩
  rw [Json.path, field_setField (by decide)]
  rfl

/-- The stream settings, where there are any. -/
def streamFields (o : Outbound) : List (String × Json) :=
  match o.lookup "streamSettings" with
  | some (.obj fields) => fields
  | _ => []

theorem path_setDialerProxy (o : Outbound) (t : Text) (name : String) :
    (Json.obj (setDialerProxy o t)).path "streamSettings" name =
      (setField (streamFields o) "sockopt" (.obj [("dialerProxy", .str t)])).lookup name := by
  have form : setDialerProxy o t = setField o "streamSettings"
      (.obj (setField (streamFields o) "sockopt" (.obj [("dialerProxy", .str t)]))) := rfl
  have stream : (Json.obj (setDialerProxy o t)).field "streamSettings" =
      some (.obj (setField (streamFields o) "sockopt" (.obj [("dialerProxy", .str t)]))) := form ▸ field_setField_self
  rw [Json.path, stream]
  rfl

theorem dialerProxy_setDialerProxy (o : Outbound) (t : Text) : dialerProxy (.obj (setDialerProxy o t)) = some t := by
  rw [dialerProxy, path_setDialerProxy, lookup_setField]
  rfl

theorem path_streamFields (o : Outbound) (name : String) :
    (Json.obj o).path "streamSettings" name = (streamFields o).lookup name := by
  unfold streamFields Json.path
  change ((o.lookup "streamSettings").bind _) = _
  cases o.lookup "streamSettings" with
  | none => rfl
  | some j => cases j <;> rfl

theorem hopOf_setDialerProxy (o : Outbound) (t u : Text) :
    HopOf o (.obj (setDialerProxy (setField o "tag" (.str t)) u)) := by
  have tagged := hopOf_tagged o t
  refine ⟨fun name out => ?_, fun name other => ?_⟩
  · rw [← tagged.field name out]
    exact field_setField fun same => out (by simp [same])
  · rw [← tagged.stream name other, path_setDialerProxy, lookup_setField_of_ne other, path_streamFields]

theorem tag_setField (o : Outbound) (t : Text) : tag (.obj (setField o "tag" (.str t))) = t := by
  rw [tag, textField, field_setField_self]

theorem tag_setDialerProxy (o : Outbound) (t : Text) : tag (.obj (setDialerProxy o t)) = tag (.obj o) := by
  have same : (Json.obj (setDialerProxy o t)).field "tag" = (Json.obj o).field "tag" := field_setField (by decide)
  unfold tag textField
  rw [same]

/-- The hops from a number on. -/
def chainFrom (i : Nat) : List Outbound → List Outbound
  | [] => []
  | [o] => [setField o "tag" (.str (relayTag i))]
  | o :: next :: os => setDialerProxy (setField o "tag" (.str (relayTag i))) (relayTag (i + 1)) :: chainFrom (i + 1) (next :: os)

theorem chainHops_eq (outs : List Outbound) : chainHops outs = chainFrom 0 outs := by
  -- the numbers of a tail start one further on
  have from_ : ∀ (outs : List Outbound) (i n : Nat), n = i + outs.length → outs.mapIdx (fun k hop =>
      if i + k + 1 < n then setDialerProxy (setField hop "tag" (.str (relayTag (i + k)))) (relayTag (i + k + 1))
      else setField hop "tag" (.str (relayTag (i + k)))) = chainFrom i outs := by
    intro outs
    induction outs with
    | nil => exact fun _ _ _ => rfl
    | cons o os ih =>
      intro i n length
      have rest := ih (i + 1) n (by rw [length, List.length_cons]; omega)
      have tail : os.mapIdx (fun k hop =>
          if i + (k + 1) + 1 < n then
            setDialerProxy (setField hop "tag" (.str (relayTag (i + (k + 1))))) (relayTag (i + (k + 1) + 1))
          else setField hop "tag" (.str (relayTag (i + (k + 1))))) = chainFrom (i + 1) os := by
        refine Eq.trans (congrArg (os.mapIdx ·) (funext fun k => funext fun hop => ?_)) rest
        rw [show i + (k + 1) = i + 1 + k by omega]
      rw [List.mapIdx_cons, tail]
      cases os with
      | nil => rw [if_neg (by simp [length])]; rfl
      | cons next os => rw [if_pos (by simp [length])]; rfl
  have all := from_ outs 0 outs.length (Nat.zero_add _).symm
  simp only [Nat.zero_add] at all
  exact all

theorem relayTag_injective : Function.Injective relayTag := fun _ _ same =>
  Text.decimal_injective (List.append_cancel_left same)

theorem relayTag_ne {t : Text} (other : ¬ "relay".toList <+: t) (i : Nat) : relayTag i ≠ t := by
  rintro rfl
  exact other (List.prefix_append ..)

theorem map_tag_chainFrom (i : Nat) (outs : List Outbound) :
    ((chainFrom i outs).map fun o => tag (.obj o)) = (List.range' i outs.length).map relayTag := by
  induction i, outs using chainFrom.induct with
  | case1 => rfl
  | case2 i o => rw [chainFrom, List.map_singleton, tag_setField]; rfl
  | case3 i o next os ih =>
    rw [chainFrom, List.map_cons, tag_setDialerProxy, tag_setField, ih]
    rfl

theorem forall₂_chainFrom (i : Nat) (outs : List Outbound) :
    List.Forall₂ HopOf outs ((chainFrom i outs).map .obj) := by
  induction i, outs using chainFrom.induct with
  | case1 => exact .nil
  | case2 i o => exact .cons (hopOf_tagged o _) .nil
  | case3 i o next os ih => exact .cons (hopOf_setDialerProxy o _ _) ih

theorem dialerProxy_setField (o : Outbound) (t : Text) :
    dialerProxy (.obj (setField o "tag" (.str t))) = dialerProxy (.obj o) := by
  unfold dialerProxy Json.path
  rw [field_setField (by decide)]

theorem follows_chainFrom {conf : Json} (i : Nat) {outs : List Outbound} (some' : outs ≠ [])
    (plain : ∀ o ∈ outs, dialerProxy (.obj o) = none) (listed : ∀ o ∈ chainFrom i outs, .obj o ∈ outbounds conf) :
    Follows conf (relayTag i) ((chainFrom i outs).map .obj) := by
  induction i, outs using chainFrom.induct with
  | case1 => exact absurd rfl some'
  | case2 i o =>
    have alone : dialerProxy (.obj (setField o "tag" (.str (relayTag i)))) = none := by
      rw [dialerProxy_setField]
      exact plain o List.mem_cons_self
    have last := Follows.last (listed _ List.mem_cons_self) alone
    rwa [tag_setField] at last
  | case3 i o next os ih =>
    rw [List.forall_mem_cons] at plain
    have rest := ih (by simp) plain.2 fun o member => listed o (List.mem_cons_of_mem _ member)
    have hop := Follows.next (listed _ List.mem_cons_self) (dialerProxy_setDialerProxy _ _) rest
    rwa [tag_setDialerProxy, tag_setField] at hop

/-- A hop dials by itself or through another hop. -/
theorem dialerProxy_chainFrom {i : Nat} {outs : List Outbound} (plain : ∀ o ∈ outs, dialerProxy (.obj o) = none)
    {o : Outbound} (member : o ∈ chainFrom i outs) {t : Text} (dials : dialerProxy (.obj o) = some t) :
    ∃ j, t = relayTag j := by
  induction i, outs using chainFrom.induct with
  | case1 => cases member
  | case2 i first =>
    rw [List.mem_singleton.mp member, dialerProxy_setField, plain first List.mem_cons_self] at dials
    cases dials
  | case3 i first next os ih =>
    rw [List.forall_mem_cons] at plain
    rcases List.mem_cons.mp member with rfl | later
    · rw [dialerProxy_setDialerProxy] at dials
      exact ⟨i + 1, (Option.some.inj dials).symm⟩
    · exact ih plain.2 later

theorem dialerProxy_of_buildRelayOutbound {spec : RelaySpec} (built : buildRelayOutbound spec = some o) :
    dialerProxy (.obj o) = none := by
  unfold buildRelayOutbound at built
  dsimp only at built
  split at built
  all_goals first | (cases built; rfl) | cases built

end

section
variable {outs : List Outbound} {inbounds : List Json} {conf : Json}

theorem outbounds_buildServerConfig (built : buildServerConfig inbounds outs = some conf) :
    outbounds conf = (chainFrom 0 outs ++ [freedomOutbound, blackholeOutbound]).map .obj := by
  unfold buildServerConfig at built
  split at built
  · cases built
  · cases built
    rw [← chainHops_eq]
    rfl

theorem routing_buildServerConfig (built : buildServerConfig inbounds outs = some conf) :
    conf.field "routing" = if outs = [] then none else some (.obj [("domainStrategy", .text "AsIs"), ("rules", .arr [.obj
        [("type", .text "field"), ("network", .text "tcp,udp"), ("outboundTag", .str (relayTag 0))]])]) := by
  unfold buildServerConfig at built
  split at built
  · cases built
  · cases built
    split <;> rfl

theorem tags_distinct (built : buildServerConfig inbounds outs = some conf) : ((outbounds conf).map tag).Nodup := by
  have tags : (outbounds conf).map tag =
      (List.range' 0 outs.length).map relayTag ++ ["direct".toList, "blocked".toList] := by
    rw [outbounds_buildServerConfig built, List.map_map, List.map_append, ← map_tag_chainFrom]
    rfl
  rw [tags, List.nodup_append]
  refine ⟨List.Nodup.map relayTag_injective List.nodup_range', by decide, fun a hop b other => ?_⟩
  obtain ⟨i, _, rfl⟩ := List.mem_map.mp hop
  have apart : ∀ t ∈ ["direct".toList, "blocked".toList], ¬ "relay".toList <+: t := by decide
  exact relayTag_ne (apart b other) i

theorem catchAll_rule (t : Text) :
    CatchAll (.obj [("type", .text "field"), ("network", .text "tcp,udp"), ("outboundTag", .str t)]) t := by
  have networks : ∀ network ∈ ["tcp".toList, "udp".toList], network ∈ "tcp,udp".toList.splitOn ',' := by decide
  refine ⟨rfl, networks _ (by decide), networks _ (by decide), rfl, fun name there => ?_⟩
  by_contra other
  simp only [List.mem_cons, List.not_mem_nil, or_false, not_or] at other
  have absent : (Json.obj [("type", .text "field"), ("network", .text "tcp,udp"), ("outboundTag", .str t)]).field name =
      none := by
    change List.lookup name _ = none
    rw [List.lookup_cons, beq_eq_false_iff_ne.mpr other.1, List.lookup_cons, beq_eq_false_iff_ne.mpr other.2.1,
      List.lookup_cons, beq_eq_false_iff_ne.mpr other.2.2]
    rfl
  rw [absent] at there
  cases there

/-- From a hop only hops are reached. -/
theorem reaches_hop (built : buildServerConfig inbounds outs = some conf) (plain : ∀ o ∈ outs, dialerProxy (.obj o) = none)
    {t : Text} (reached : Relation.ReflTransGen (Dialed conf) (relayTag 0) t) : ∃ j, t = relayTag j := by
  induction reached with
  | refl => exact ⟨0, rfl⟩
  | tail _ dials ih =>
    obtain ⟨o, listed, _, through⟩ := dials
    rw [outbounds_buildServerConfig built] at listed
    obtain ⟨fields, member, rfl⟩ := List.mem_map.mp listed
    rcases List.mem_append.mp member with hop | leaves
    · exact dialerProxy_chainFrom plain hop through
    · have alone : ∀ o ∈ [freedomOutbound, blackholeOutbound], dialerProxy (.obj o) = none := by
        intro o
        simp only [List.mem_cons, List.not_mem_nil, or_false]
        rintro (rfl | rfl) <;> rfl
      rw [alone fields leaves] at through
      cases through

theorem chained_of_built (some' : outs ≠ []) (plain : ∀ o ∈ outs, dialerProxy (.obj o) = none)
    (built : buildServerConfig inbounds outs = some conf) : Chained outs conf := by
  refine ⟨tags_distinct built, _, (chainFrom 0 outs).map .obj, ?_, catchAll_rule (relayTag 0), ?_, ?_,
    forall₂_chainFrom 0 outs, fun reached => ?_⟩
  · rw [rules, Json.path, routing_buildServerConfig built, if_neg some']
    rfl
  · rw [outbounds_buildServerConfig built, List.map_append]
    rfl
  · refine follows_chainFrom 0 some' plain fun o member => ?_
    rw [outbounds_buildServerConfig built]
    exact List.mem_map_of_mem (List.mem_append_left _ member)
  · obtain ⟨j, direct⟩ := reaches_hop built plain reached
    exact relayTag_ne (by decide) j direct.symm

theorem direct_of_built (built : buildServerConfig inbounds [] = some conf) : Direct conf := by
  refine ⟨?_, ?_⟩
  · rw [routing_buildServerConfig built, if_pos rfl]
  · rw [outbounds_buildServerConfig built]
    rfl

end

/-- Strategies that can dial a relay. -/
def Dialable (spec : RelaySpec) : Prop := ∃ s : Builtin, s ≠ .vmessWSTLS ∧ spec.strategy = s.name

theorem Dialable.built {spec : RelaySpec} (dialable : Dialable spec) : ∃ o, buildRelayOutbound spec = some o := by
  obtain ⟨s, other, named⟩ := dialable
  unfold buildRelayOutbound
  dsimp only
  rw [named, s.find_name]
  cases s with
  | vmessWSTLS => exact absurd rfl other
  | _ => exact ⟨_, rfl⟩

theorem Dialable.relayOutbounds {relays : List RelaySpec} (dialable : ∀ r ∈ relays, Dialable r) :
    ∃ outs, relayOutbounds relays = some outs ∧ List.Forall₂ (fun r o => buildRelayOutbound r = some o) relays outs := by
  have kept : relays.filter (·.strategy ≠ []) = relays := by
    refine List.filter_eq_self.mpr fun r member => decide_eq_true ?_
    obtain ⟨s, _, named⟩ := dialable r member
    rw [named]
    cases s <;> decide
  have outs : ∃ outs, List.Forall₂ (fun r o => buildRelayOutbound r = some o) relays outs := by
    clear kept
    induction relays with
    | nil => exact ⟨[], .nil⟩
    | cons r relays ih =>
      rw [List.forall_mem_cons] at dialable
      obtain ⟨o, built⟩ := dialable.1.built
      obtain ⟨outs, rest⟩ := ih dialable.2
      exact ⟨o :: outs, .cons built rest⟩
  obtain ⟨outs, each⟩ := outs
  refine ⟨outs, ?_, each⟩
  rw [Xray.relayOutbounds, kept]
  exact List.mapM_option_eq_some.mpr each

/-- No traffic leaves around the relays. -/
theorem relays_chained {relays : List RelaySpec} {inbounds : List Json} (dialable : ∀ r ∈ relays, Dialable r)
    (listens : inbounds ≠ []) :
    ∃ outs conf, List.Forall₂ (fun r o => buildRelayOutbound r = some o) relays outs ∧
      relayOutbounds relays = some outs ∧ buildServerConfig inbounds outs = some conf ∧
      (relays ≠ [] → Chained outs conf) ∧ (relays = [] → Direct conf) := by
  obtain ⟨outs, read, each⟩ := Dialable.relayOutbounds dialable
  have built : ∃ conf, buildServerConfig inbounds outs = some conf := ⟨_, if_neg listens⟩
  obtain ⟨conf, built⟩ := built
  refine ⟨outs, conf, each, read, built, fun filled => ?_, fun empty => ?_⟩
  · refine chained_of_built (fun none => filled ?_) (fun o member => ?_) built
    · rw [none] at each
      cases each
      rfl
    · obtain ⟨r, _, made⟩ := (List.mem_mapM_option_iff (List.mapM_option_eq_some.mpr each)).mp member
      exact dialerProxy_of_buildRelayOutbound made
  · rw [empty] at each
    cases each
    exact direct_of_built built

def twoRelays : List RelaySpec :=
  [⟨"shadowsocks-2022".toList, "one.example.com".toList, [("password", "secret".toList)]⟩,
    ⟨"trojan-tcp-tls".toList, "two.example.com".toList, [("password", "hidden".toList)]⟩]

theorem relays_chained_two :
    ∃ outs conf, List.Forall₂ (fun r o => buildRelayOutbound r = some o) twoRelays outs ∧
      relayOutbounds twoRelays = some outs ∧ buildServerConfig [.null] outs = some conf ∧
      (twoRelays ≠ [] → Chained outs conf) ∧ (twoRelays = [] → Direct conf) := by
  refine relays_chained (fun r member => ?_) (by simp)
  simp only [twoRelays, List.mem_cons, List.not_mem_nil, or_false] at member
  rcases member with rfl | rfl
  · exact ⟨.shadowsocks2022, by decide, rfl⟩
  · exact ⟨.trojanTCPTLS, by decide, rfl⟩

end Protean.Xray
