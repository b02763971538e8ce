import Protean.Xray.Credentials

namespace Protean.Xray

variable {J B : Type} (k : Codecs J B)

/-- The steps of a rebuild work, up to the write. -/
structure Rebuilds (e : Rebuilding) (t : Site B) (inst : Instance) (strat : StrategyMethods) (clients : List Client)
    (inbound : Json) : Prop where
  read : instanceOf k e.read t = some inst
  known : get e.modules inst.strategy = some strat
  listed : clientsOf k e.list t = some clients
  accepts : strat.buildInbound inst.params clients = .ok inbound
  relays : (relayOutbounds inst.relays).isSome
  written : e.writeFile ≠ .failed

def CanRebuild (e : Rebuilding) (t : Site B) : Prop :=
  ∃ inst strat clients inbound, Rebuilds k e t inst strat clients inbound

def Client.credentials (c : Client) : List Credential :=
  [⟨.uuid, c.uuid⟩, ⟨.password, c.password⟩].filter (·.value ≠ [])

def storedClient (t : Site B) (name : Text) : Option Client :=
  (t.clients.get name).bind fun blob => readRow k (name, blob)

/-- A client that is no longer in the store is not let in. -/
def Revoked (e : Removing) (name : Text) (t : Site B) : Prop :=
  ∀ c, storedClient k t name = some c → ((removeClient k e name).exec t).2.clients.get name = none →
    ∀ cred ∈ c.credentials, cred ∉ ((removeClient k e name).exec t).2.accepted

/-- The client stays in the store, or the new config does not let it in, or there is no
new config and the old one did not. -/
def RevokeSafe (e : Removing) (name : Text) (t : Site B) : Prop :=
  ∀ c, storedClient k t name = some c → e.deleteClient ≠ .failed → ∀ cred ∈ c.credentials,
    (∀ inst strat clients inbound, e.deleteClient = .ok →
      Rebuilds k e.rebuild (t.without name) inst strat clients inbound → cred ∉ accepted inbound) ∧
    ((e.deleteClient = .ok → ¬ CanRebuild k e.rebuild (t.without name)) → cred ∉ t.accepted)

/-- The stored instance is the one the config on the host was built from. -/
def Synced (t : Site B) : Prop :=
  ∀ inst, t.row.bind (decode k) = some inst → t.config.map HostConfig.builtFrom = some inst

/-- After the save the config is written, by the call itself or by that of the first client. -/
def Writes (e : Applying) (t : Site B) : Prop :=
  (∃ c rest, clientsOf k e.list t = some (c :: rest) ∧ CanRebuild k e.rebuild t) ∨
  (clientsOf k e.list t = some [] ∧ ∃ n c, addedClient k e.add "default".toList t = some (n, c) ∧
    e.add.saveClient = .ok ∧ CanRebuild k e.add.rebuild (t.withClient k n c))

/-- Nothing is saved, and the host was in step; or the config is written; or the host has
the config of what is saved already. -/
def ApplySafe (e : Applying) (strategyName : Text) (params : Params) (relays : Option (List RelaySpec))
    (t : Site B) : Prop :=
  match appliedRow k e strategyName params relays t with
  | none => Synced k t
  | some row =>
    match e.persist.saveInstance with
    | .failed => Synced k t
    | .lost => Synced k { t with row := some row }
    | .ok => Writes k e { t with row := some row } ∨ Synced k { t with row := some row }

section
variable {k} {t : Site B}

theorem Rebuilds.unique {e : Rebuilding} {inst inst' : Instance} {strat strat' : StrategyMethods}
    {clients clients' : List Client} {inbound inbound' : Json} (first : Rebuilds k e t inst strat clients inbound)
    (second : Rebuilds k e t inst' strat' clients' inbound') : inbound = inbound' := by
  obtain rfl := Option.some.inj (first.read.symm.trans second.read)
  obtain rfl := Option.some.inj (first.known.symm.trans second.known)
  obtain rfl := Option.some.inj (first.listed.symm.trans second.listed)
  exact Except.ok.inj (first.accepts.symm.trans second.accepts)

theorem built_of_rebuilds {e : Rebuilding} {inst : Instance} {strat : StrategyMethods} {clients : List Client}
    {inbound : Json} (rebuilds : Rebuilds k e t inst strat clients inbound) :
    ∃ conf, built k e t = some ⟨conf, inst⟩ ∧ credentials conf = accepted inbound := by
  obtain ⟨outs, relays⟩ := Option.isSome_iff_exists.mp rebuilds.relays
  obtain ⟨conf, whole⟩ : ∃ conf, buildServerConfig [inbound] outs = some conf := ⟨_, rfl⟩
  refine ⟨conf, ?_, credentials_buildServerConfig whole⟩
  unfold built
  simp only [Option.bind_eq_bind, rebuilds.read, Option.bind_some, rebuilds.known, rebuilds.listed, rebuilds.accepts,
    Except.toOption, relays, whole]
  rfl

/-- A rebuild writes the config of the rows, or leaves the host as it is. -/
theorem rebuild_cases (k : Codecs J B) (e : Rebuilding) (t : Site B) :
    (∃ inst strat clients inbound conf, Rebuilds k e t inst strat clients inbound ∧
      credentials conf = accepted inbound ∧ ((rebuild k e).exec t).2 = { t with config := some ⟨conf, inst⟩ }) ∨
    (¬ CanRebuild k e t ∧ (rebuild k e).exec t = (none, t)) := by
  rw [exec_rebuild]
  by_cases failed : e.writeFile = .failed
  · refine .inr ⟨fun ⟨_, _, _, _, rebuilds⟩ => rebuilds.written failed, ?_⟩
    cases built k e t with
    | none => rfl
    | some h => simp [failed]
  · cases made : built k e t with
    | none =>
      refine .inr ⟨fun ⟨_, _, _, _, rebuilds⟩ => ?_, rfl⟩
      obtain ⟨conf, some', _⟩ := built_of_rebuilds rebuilds
      rw [made] at some'
      cases some'
    | some h =>
      obtain ⟨strat, clients, inbound, relays, read, known, listed, accepts, outs, whole⟩ := of_built k made
      have rebuilds : Rebuilds k e t h.builtFrom strat clients inbound :=
        ⟨read, known, listed, accepts, Option.isSome_iff_exists.mpr ⟨relays, outs⟩, failed⟩
      exact .inl ⟨_, strat, clients, inbound, h.conf, rebuilds, credentials_buildServerConfig whole, if_neg failed⟩

theorem revoked_iff (k : Codecs J B) (e : Removing) (name : Text) (t : Site B) :
    Revoked k e name t ↔ RevokeSafe k e name t := by
  unfold Revoked RevokeSafe
  refine forall₂_congr fun c stored => ?_
  have present : t.clients.get name ≠ none := by
    intro none
    rw [storedClient, none] at stored
    cases stored
  have deleted : (t.without name).clients.get name = none := KeyTable.get_delete_self ..
  rw [exec_removeClient]
  cases e.deleteClient with
  | failed => exact iff_of_true (fun none => absurd none present) fun no => absurd rfl no
  | lost =>
    simp only [deleted, forall_const, ne_eq, reduceCtorEq, not_false_eq_true, false_implies, implies_true, true_and]
    rfl
  | ok =>
    simp only [ne_eq, reduceCtorEq, not_false_eq_true, forall_const]
    rcases rebuild_cases k e.rebuild (t.without name) with
      ⟨inst, strat, clients, inbound, conf, rebuilds, same, ends⟩ | ⟨no, ends⟩
    · rw [ends, forall_prop_of_true deleted]
      refine forall₂_congr fun cred _ => ?_
      have new : Site.accepted { t.without name with config := some ⟨conf, inst⟩ } = accepted inbound := same
      rw [new]
      constructor
      · refine fun refused => ⟨fun _ _ _ _ rebuilds' => ?_, fun no => absurd ⟨_, _, _, _, rebuilds⟩ no⟩
        rwa [rebuilds'.unique rebuilds]
      · exact fun safe => safe.1 _ _ _ _ rebuilds
    · rw [ends]
      rw [forall_prop_of_true deleted]
      refine forall₂_congr fun cred _ => ?_
      constructor
      · exact fun refused => ⟨fun _ _ _ _ rebuilds => absurd ⟨_, _, _, _, rebuilds⟩ no, fun _ => refused⟩
      · exact fun safe => safe.2 no

theorem synced_rebuild_iff (k : Codecs J B) (e : Rebuilding) (t : Site B) :
    Synced k ((rebuild k e).exec t).2 ↔ CanRebuild k e t ∨ Synced k t := by
  rcases rebuild_cases k e t with ⟨inst, strat, clients, inbound, conf, rebuilds, _, ends⟩ | ⟨no, ends⟩
  · rw [ends]
    refine iff_of_true (fun inst' here => ?_) (.inl ⟨_, _, _, _, rebuilds⟩)
    exact (decode_of_instanceOf k rebuilds.read).symm.trans here
  · rw [ends]
    exact (or_iff_right no).symm

theorem synced_rebuild_of_some {e : Rebuilding} {t' : Site B} (done : (rebuild k e).exec t = (some (), t')) :
    Synced k t' := by
  have after := synced_rebuild_iff k e t
  rcases rebuild_cases k e t with ⟨_, _, _, _, _, rebuilds, _⟩ | ⟨_, ends⟩
  · rw [done] at after
    exact after.mpr (.inl ⟨_, _, _, _, rebuilds⟩)
  · rw [done] at ends
    cases ends

/-- The call for the first client, and the rebuild that follows if it goes through. -/
theorem synced_addClient_iff (k : Codecs J B) (e : Adding) (again : Rebuilding) (name : Text) (t : Site B) :
    Synced k ((addClient k e name >>= fun _ => rebuild k again).exec t).2 ↔
      (∃ n c, addedClient k e name t = some (n, c) ∧ e.saveClient = .ok ∧
        CanRebuild k e.rebuild (t.withClient k n c)) ∨ Synced k t := by
  rw [Proc.exec_bind, exec_addClient]
  cases addedClient k e name t with
  | none => simp
  | some pair =>
    obtain ⟨n, c⟩ := pair
    have only : (∃ m d, some (n, c) = some (m, d) ∧ e.saveClient = .ok ∧ CanRebuild k e.rebuild (t.withClient k m d)) ↔
        e.saveClient = .ok ∧ CanRebuild k e.rebuild (t.withClient k n c) := by
      constructor
      · rintro ⟨_, _, same, holds⟩
        cases same
        exact holds
      · exact fun holds => ⟨n, c, rfl, holds⟩
    rw [only]
    cases e.saveClient with
    | failed | lost => exact (or_iff_right fun no => by cases no.1).symm
    | ok =>
      dsimp only [Option.elim_some]
      have first := synced_rebuild_iff k e.rebuild (t.withClient k n c)
      rcases rebuild_cases k e.rebuild (t.withClient k n c) with ⟨_, _, _, _, _, rebuilds, _, _⟩ | ⟨no, ends⟩
      · have can : CanRebuild k e.rebuild (t.withClient k n c) := ⟨_, _, _, _, rebuilds⟩
        refine iff_of_true ?_ (.inl ⟨rfl, can⟩)
        have synced := first.mpr (.inl can)
        generalize (rebuild k e.rebuild).exec (t.withClient k n c) = result at synced
        obtain ⟨_ | _, t'⟩ := result
        · exact synced
        · exact (synced_rebuild_iff k again t').mpr (.inr synced)
      · rw [ends]
        exact (or_iff_right fun both => no both.2).symm

theorem synced_afterSave_iff (k : Codecs J B) (e : Applying) (t : Site B) :
    Synced k ((afterSave k e).exec t).2 ↔ Writes k e t ∨ Synced k t := by
  unfold afterSave Writes
  rw [Proc.exec_bind, exec_listClients]
  cases clientsOf k e.list t with
  | none => simp
  | some clients =>
    cases clients with
    | cons c rest => exact (synced_rebuild_iff k e.rebuild t).trans (by simp)
    | nil => exact (synced_addClient_iff k e.add e.rebuild "default".toList t).trans (by simp)

theorem synced_afterSave_of_some {e : Applying} {t' : Site B} (done : (afterSave k e).exec t = (some (), t')) :
    Synced k t' := by
  obtain ⟨_, _, _, done⟩ := Proc.exec_bind_eq_some_iff.mp done
  obtain ⟨_, _, _, done⟩ := Proc.exec_bind_eq_some_iff.mp done
  exact synced_rebuild_of_some done

theorem synced_apply_iff (k : Codecs J B) (e : Applying) (strategyName : Text) (params : Params)
    (relays : Option (List RelaySpec)) (t : Site B) :
    Synced k ((apply k e strategyName params relays).exec t).2 ↔ ApplySafe k e strategyName params relays t := by
  rw [exec_apply, ApplySafe]
  cases appliedRow k e strategyName params relays t with
  | none => exact Iff.rfl
  | some row =>
    cases e.persist.saveInstance with
    | ok => exact synced_afterSave_iff k e _
    | failed | lost => exact Iff.rfl

theorem synced_apply_of_some {e : Applying} {strategyName : Text} {params : Params} {relays : Option (List RelaySpec)}
    {t' : Site B} (done : (apply k e strategyName params relays).exec t = (some (), t')) : Synced k t' := by
  obtain ⟨_, _, done⟩ := exec_apply_eq_some k done
  exact synced_afterSave_of_some done

/-- A client that is removed loses access exactly if the host gets a config without its
credential, or had none with it; and a failed call leaves the host in step exactly if nothing
was saved or the config was still written. -/
theorem revocation_iff (k : Codecs J B) (t : Site B) (e : Removing) (name : Text) (a : Applying) (strategyName : Text)
    (params : Params) (relays : Option (List RelaySpec)) :
    (Revoked k e name t ↔ RevokeSafe k e name t) ∧
    ((((apply k a strategyName params relays).exec t).1 = none →
        Synced k ((apply k a strategyName params relays).exec t).2) ↔ ApplySafe k a strategyName params relays t) := by
  refine ⟨revoked_iff k e name t, Iff.trans ⟨fun holds => ?_, fun synced _ => synced⟩ (synced_apply_iff ..)⟩
  rcases result : (apply k a strategyName params relays).exec t with ⟨_ | _, t'⟩
  · rw [result] at holds
    exact holds rfl
  · exact synced_apply_of_some result

end

/-- One client, and the config with it. -/
def visionSite : Site (Nat × Plain) := Op.step plain (Site.fresh _) (.apply {} .vlessVisionTLS visionParams none)

/-- Another strategy, for a host that cannot be written to. -/
def refusedApply : Proc (Site (Nat × Plain)) Unit :=
  apply plain { rebuild := { writeFile := .failed } } Builtin.trojanTCPTLS.name visionParams none

/-- The last client is deleted from the store and still let in, since no config is built without
clients; and a new strategy is stored for a host that keeps the old one. -/
theorem revocation_lost :
    ¬ Revoked plain {} "default".toList visionSite ∧
    Synced plain visionSite ∧ (refusedApply.exec visionSite).1 = none ∧
      ¬ Synced plain (refusedApply.exec visionSite).2 := by
  have done : (apply plain {} Builtin.vlessVisionTLS.name visionParams none).exec (Site.fresh _) =
      (some (), visionSite) := Prod.ext (by decide +kernel) rfl
  have stored : (refusedApply.exec visionSite).2.row.bind (decode plain) =
      some ⟨Builtin.trojanTCPTLS.name, visionParams, []⟩ := by decide +kernel
  have host : (refusedApply.exec visionSite).2.config.map HostConfig.builtFrom =
      some ⟨Builtin.vlessVisionTLS.name, visionParams, []⟩ := by decide +kernel
  refine ⟨fun revoked => ?_, synced_apply_of_some done, by decide +kernel, fun synced => ?_⟩
  · exact revoked defaultClient (by decide +kernel) (by decide +kernel) ⟨.uuid, defaultClient.uuid⟩ (by decide +kernel)
      (by decide +kernel)
  · have same := host.symm.trans (synced _ stored)
    exact absurd same (by decide +kernel)

end Protean.Xray
