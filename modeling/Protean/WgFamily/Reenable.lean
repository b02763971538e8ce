import Protean.WgFamily.Disable
import Protean.WgFamily.OtherOptions

namespace Protean.WgFamily

/-- The peer as it was: with the name and the other options of its block and
the settings it had on the interface, in the file as well. -/
structure Restored (key : Text) (block : ConfPeer) (live : LivePeer) (h : Host) : Prop where
  file : ∃ b, (parseConf h.file).findPeer key = some b ∧ b.name = block.name ∧ b.allowedIPs = live.allowedIPs ∧
    getOpt b.opts "PersistentKeepalive".toList = (if 0 < live.keepalive then some (Text.itoa live.keepalive) else none) ∧
    b.otherOpts = block.otherOpts
  live : h.live.get key = some live

/-- The row that keeps a disabled peer. -/
def disabledRow (block : ConfPeer) (live : LivePeer) : Store.DisabledPeer :=
  ⟨block.name, [','].intercalate live.allowedIPs, live.keepalive⟩

section
variable {key : Text} {block : ConfPeer} {live : LivePeer} {p : Panel}

/-- With every step done, the peer is in the table and nowhere else. -/
theorem exec_disablePeer_works (inFile : (parseConf p.host.file).findPeer key = some block)
    (onLive : p.host.live.get key = some live) :
    (disablePeer {} key).exec p = (some (),
      ⟨{ p.host with file := ((parseConf p.host.file).removePeer key).render, live := p.host.live.delete key },
        { p.tables with disabled := p.tables.disabled.upsert key (disabledRow block live) }⟩) := by
  rw [exec_disablePeer, exec_findListed, exec_removePeer, onLive, inFile]
  rfl

/-- The addresses come back from the table as they were, if they are addresses. -/
theorem disabledSpec_allowedIPs (ips : validateAllowedIPs live.allowedIPs = true) :
    (disabledSpec (disabledRow block live)).allowedIPs = live.allowedIPs := by
  have plain := validateAllowedIPs_plain ips
  have some' : live.allowedIPs ≠ [] := by
    intro none
    rw [none] at ips
    cases ips
  have joined : [','].intercalate live.allowedIPs ≠ [] := (Text.Trimmed.intercalate _ some' plain.trimmed).2
  exact (if_pos joined).trans ((Text.splitOn_eq_iff some').mpr
    ⟨rfl, fun part member inside => ((plain part member).2 ',' inside).2 rfl⟩)

theorem findPeer_removePeer_isNone_iff {file : Text} (inFile : (parseConf file).findPeer key = some block) :
    ((parseConf ((parseConf file).removePeer key).render).findPeer key).isNone = true ↔ blockCount file key = 1 := by
  have there : 0 < blockCount file key := isSome_findPeer_iff.mp (by rw [inFile]; rfl)
  have count := blockCount_removePeer_self there
  have some' : ((parseConf ((parseConf file).removePeer key).render).findPeer key).isSome = true ↔
      0 < (parseConf ((parseConf file).removePeer key).render).peers.countP (·.hasKey key) := isSome_findPeer_iff
  rw [← Option.not_isSome, Bool.not_eq_true', ← Bool.not_eq_true, some']
  unfold blockCount at count ⊢ there
  omega

/-- What must hold of a peer that is enabled again. -/
def Readmitted (key file : Text) (block : ConfPeer) (live : LivePeer) : Prop :=
  validateName block.name = true ∧ validateAllowedIPs (disabledSpec (disabledRow block live)).allowedIPs = true ∧
    blockCount file key = 1

theorem admitted_iff (inFile : (parseConf p.host.file).findPeer key = some block) :
    admitted {} (disabledSpec (disabledRow block live))
        ((parseConf ((parseConf p.host.file).removePeer key).render).findPeer key).isNone = true ↔
      Readmitted key p.host.file block live := by
  rw [admitted, Bool.and_eq_true, Bool.and_eq_true, Bool.and_eq_true, findPeer_removePeer_isNone_iff inFile]
  unfold Readmitted disabledSpec disabledRow
  tauto

theorem enabled_isSome_iff (inFile : (parseConf p.host.file).findPeer key = some block)
    (onLive : p.host.live.get key = some live) :
    ((apiEnablePeer {} key).exec ((disablePeer {} key).exec p).2).1 = some () ↔
      Readmitted key p.host.file block live := by
  rw [exec_disablePeer_works inFile onLive, exec_apiEnablePeer, if_pos rfl, KeyTable.get_upsert_self]
  dsimp only
  rw [exec_addConfiguredPeer, ← admitted_iff inFile]
  cases admitted {} (disabledSpec (disabledRow block live))
      ((parseConf ((parseConf p.host.file).removePeer key).render).findPeer key).isNone with
  | false => simp
  | true => simp [exec_writeConfAndApply]

/-- The file without the peer. -/
def removedFile (p : Panel) (key : Text) : Text := ((parseConf p.host.file).removePeer key).render

theorem enabled_host (inFile : (parseConf p.host.file).findPeer key = some block)
    (onLive : p.host.live.get key = some live) (readmitted : Readmitted key p.host.file block live) :
    ((apiEnablePeer {} key).exec ((disablePeer {} key).exec p).2).2.host = { p.host with
      file := ((parseConf (removedFile p key)).addPeer
        ⟨block.name, peerOpts key (disabledSpec (disabledRow block live))⟩).render
      live := (p.host.live.delete key).upsert key
        ⟨(disabledSpec (disabledRow block live)).allowedIPs, max live.keepalive 0⟩ } := by
  rw [exec_disablePeer_works inFile onLive, exec_apiEnablePeer, if_pos rfl, KeyTable.get_upsert_self]
  dsimp only
  rw [exec_addConfiguredPeer, if_pos ((admitted_iff inFile).mpr readmitted), exec_writeConfAndApply]
  rfl

/-- The block that enabling the peer writes. -/
theorem enabled_block (inFile : (parseConf p.host.file).findPeer key = some block)
    (readmitted : Readmitted key p.host.file block live) :
    (parseConf ((parseConf (removedFile p key)).addPeer
        ⟨block.name, peerOpts key (disabledSpec (disabledRow block live))⟩).render).findPeer key =
      some ⟨block.name, peerOpts key (disabledSpec (disabledRow block live))⟩ := by
  obtain ⟨named, ips, single⟩ := readmitted
  have fresh := (findPeer_removePeer_isNone_iff inFile).mpr single
  have read := (parser_valid p.host.file).peerNames block (List.mem_of_find?_eq_some inFile)
  have some' : block.name ≠ [] := by
    intro none
    rw [none] at named
    cases named
  have name : nameAfter [] block.name = block.name := by
    obtain ⟨read, plain⟩ := readName_of_validateName named read.trimmed
    rw [nameAfter, if_neg some', (cleanName_eq_self_iff read).mpr plain]
  have found := (addPeer_placed fresh ⟨block.name, peerOpts key (disabledSpec (disabledRow block live))⟩).findPeer
    (plainValue_of_findPeer inFile) ips
  rw [name] at found
  exact found

theorem restored_iff (inFile : (parseConf p.host.file).findPeer key = some block)
    (onLive : p.host.live.get key = some live) (readmitted : Readmitted key p.host.file block live) :
    Restored key block live ((apiEnablePeer {} key).exec ((disablePeer {} key).exec p).2).2.host ↔
      (disabledSpec (disabledRow block live)).allowedIPs = live.allowedIPs ∧ 0 ≤ live.keepalive ∧
        block.otherOpts = [] := by
  have found : (parseConf ((parseConf (removedFile p key)).addPeer
      ⟨block.name, peerOpts key (disabledSpec (disabledRow block live))⟩).render).findPeer key =
        some ⟨block.name, peerOpts key (disabledSpec (disabledRow block live))⟩ := enabled_block inFile readmitted
  have others := otherOpts_peerOpts block.name key (disabledSpec (disabledRow block live))
  have keepalive : getOpt (peerOpts key (disabledSpec (disabledRow block live))) "PersistentKeepalive".toList =
      if 0 < live.keepalive then some (Text.itoa live.keepalive) else none := getOpt_keepalive _ _
  have back : ConfPeer.allowedIPs ⟨block.name, peerOpts key (disabledSpec (disabledRow block live))⟩ =
      (disabledSpec (disabledRow block live)).allowedIPs := allowedIPs_peerOpts block.name readmitted.2.1
  rw [enabled_host inFile onLive readmitted]
  constructor
  · rintro ⟨⟨b, there, _, _, _, kept⟩, same⟩
    dsimp only at there same
    rw [found] at there
    obtain rfl := Option.some.inj there
    rw [KeyTable.get_upsert_self] at same
    obtain ⟨ips, count⟩ := LivePeer.mk.inj (Option.some.inj same)
    exact ⟨ips, by omega, kept.symm.trans others⟩
  · rintro ⟨ips, count, none⟩
    refine ⟨⟨_, found, rfl, back.trans ips, keepalive, others.trans none.symm⟩, ?_⟩
    dsimp only
    rw [KeyTable.get_upsert_self, ips, max_eq_left count]

/-- Disabling and enabling a peer gives it back exactly if its name and
addresses pass the checks for new peers and its block has nothing else. -/
theorem disable_enable_iff (inFile : (parseConf p.host.file).findPeer key = some block)
    (onLive : p.host.live.get key = some live) :
    (((disablePeer {} key).exec p).1 = some () ∧
        ((apiEnablePeer {} key).exec ((disablePeer {} key).exec p).2).1 = some () ∧
        Restored key block live ((apiEnablePeer {} key).exec ((disablePeer {} key).exec p).2).2.host) ↔
      blockCount p.host.file key = 1 ∧ validateName block.name = true ∧ validateAllowedIPs live.allowedIPs = true ∧
        0 ≤ live.keepalive ∧ block.otherOpts = [] := by
  have disabled : ((disablePeer {} key).exec p).1 = some () := by rw [exec_disablePeer_works inFile onLive]
  rw [and_iff_right disabled, enabled_isSome_iff inFile onLive]
  constructor
  · rintro ⟨readmitted, restored⟩
    obtain ⟨ips, count, none⟩ := (restored_iff inFile onLive readmitted).mp restored
    exact ⟨readmitted.2.2, readmitted.1, ips ▸ readmitted.2.1, count, none⟩
  · rintro ⟨single, named, ips, count, none⟩
    have same : (disabledSpec (disabledRow block live)).allowedIPs = live.allowedIPs := disabledSpec_allowedIPs ips
    have readmitted : Readmitted key p.host.file block live := ⟨named, same.symm ▸ ips, single⟩
    exact ⟨readmitted, (restored_iff inFile onLive readmitted).mpr ⟨same, count, none⟩⟩

end

theorem disable_enable_iff_sample :
    Restored homeKey ⟨"b".toList, [⟨"PublicKey".toList, homeKey⟩, ⟨"AllowedIPs".toList, "10.0.0.2/32".toList⟩]⟩
      ⟨["10.0.0.2/32".toList], 0⟩
      ((apiEnablePeer {} homeKey).exec ((disablePeer {} homeKey).exec homePanel).2).2.host := by
  have inFile : (parseConf homePanel.host.file).findPeer homeKey = some
      ⟨"b".toList, [⟨"PublicKey".toList, homeKey⟩, ⟨"AllowedIPs".toList, "10.0.0.2/32".toList⟩]⟩ := by decide +kernel
  have onLive : homePanel.host.live.get homeKey = some ⟨["10.0.0.2/32".toList], 0⟩ := KeyTable.get_upsert_self _ _ _
  have passes : blockCount homePanel.host.file homeKey = 1 ∧ validateName "b".toList = true ∧
      validateAllowedIPs ["10.0.0.2/32".toList] = true := by decide +kernel
  have none : ConfPeer.otherOpts
      ⟨"b".toList, [⟨"PublicKey".toList, homeKey⟩, ⟨"AllowedIPs".toList, "10.0.0.2/32".toList⟩]⟩ = [] := by decide +kernel
  exact ((disable_enable_iff inFile onLive).mpr ⟨passes.1, passes.2.1, passes.2.2, by decide, none⟩).2.2

def sharedKeyPanel : Panel :=
  ⟨⟨"# Name: b\n[Peer]\nPublicKey = a2V5\nAllowedIPs = 10.0.0.2/32\nPresharedKey = cHNr\n".toList, [], 0,
    KeyTable.empty.upsert homeKey ⟨["10.0.0.2/32".toList], 0⟩⟩, {}⟩

/-- A peer without a name cannot be enabled again, and one with a preshared key
comes back without it. -/
theorem disable_enable_loses :
    ((parseConf rotationPanel.host.file).findPeer homeKey).isSome = true ∧
    ((disablePeer {} homeKey).exec rotationPanel).1 = some () ∧
    ((apiEnablePeer {} homeKey).exec ((disablePeer {} homeKey).exec rotationPanel).2).1 = none ∧
    ((apiEnablePeer {} homeKey).exec ((disablePeer {} homeKey).exec sharedKeyPanel).2).1 = some () ∧
    loadedOpts sharedKeyPanel.host.file homeKey = [⟨"PresharedKey".toList, "cHNr".toList⟩] ∧
    loadedOpts ((apiEnablePeer {} homeKey).exec ((disablePeer {} homeKey).exec sharedKeyPanel).2).2.host.file homeKey =
      [] := by
  decide +kernel

end Protean.WgFamily
