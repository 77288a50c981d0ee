import LegacySignal.KeyTransparency.Calls

/-!
# Signatures on accepted tree heads

Which signatures are checked before a tree head is accepted. They are looked up
by the auditor keys of the deployment mode, so that a mode without such keys
leaves nothing to check.
-/

namespace LegacySignal.KeyTransparency

open Run
open Result (bind_eq_ok forM_eq_ok)

variable {C : Crypto} {config : PublicConfig} {root : C.Hash}

theorem findMatching_eq_some {Key Item Projected : Type} {keys : List Key} {items : List Item}
    {eq : Key → Item → Bool} {project : Key → Item → Projected} {result : List Projected}
    (found : findMatching keys items eq project = some result) :
    ∀ key ∈ keys, ∃ item ∈ items, project key item ∈ result := by
  induction keys generalizing result with
  | nil => exact nofun
  | cons first rest ih =>
    simp only [findMatching, List.mapM_cons, Option.bind_eq_bind, Option.bind_eq_some_iff,
      Option.map_eq_some_iff, Option.pure_def, Option.some.injEq] at found
    rcases found with ⟨_, ⟨item, isItem, rfl⟩, _, isRest, rfl⟩
    intro key member
    rcases List.mem_cons.mp member with rfl | member
    · exact ⟨item, List.mem_of_find?_eq_some isItem, List.mem_cons_self⟩
    · obtain ⟨other, isOther, inRest⟩ := ih isRest key member
      exact ⟨other, isOther, List.mem_cons_of_mem _ inRest⟩

theorem verifyTreeHeadSignature_eq_ok {treeSize : UInt64} {timestamp : Int64}
    {signature : List UInt8} {verifyingKey : VerifyingKey} {maybeAuditorKey : Option VerifyingKey}
    (verified : verifyTreeHeadSignature config treeSize timestamp signature root verifyingKey
      maybeAuditorKey = .ok ()) :
    C.verify verifyingKey (toSignableHeader treeSize timestamp root config maybeAuditorKey)
      signature := by
  obtain ⟨_, _, checked⟩ := bind_eq_ok.mp verified
  exact ensure_eq_ok.mp checked

/-- The key has signed a head that has the accepted size and root, or that a consistency proof
ties to the accepted root. -/
def SignedByAuditor (config : PublicConfig) (fullTreeHead : FullTreeHead C)
    (accepted : LastTreeHead C) (key : VerifyingKey) : Prop :=
  ∃ auditor ∈ fullTreeHead.fullAuditorTreeHeads, ∃ head, auditor.treeHead = some head ∧
    ∃ root, C.verify key (toSignableHeader head.treeSize head.timestamp root config (some key))
        head.signature ∧
      (head.treeSize = accepted.1.treeSize ∧ root = accepted.2 ∨
        ∃ proof, auditor.consistency.mapM C.toHash = some proof ∧
          verifyConsistencyProof head.treeSize.toNat accepted.1.treeSize.toNat proof root
            accepted.2 = .ok ())

structure Signed (config : PublicConfig) (fullTreeHead : FullTreeHead C)
    (accepted : LastTreeHead C) : Prop where
  received : fullTreeHead.treeHead = some accepted.1
  server : ∃ signature ∈ accepted.1.signatures, ∃ auditorKey,
    C.verify config.signatureKey (toSignableHeader accepted.1.treeSize accepted.1.timestamp
      accepted.2 config auditorKey) signature.signature
  auditors : ∀ keys, config.mode = .thirdPartyAuditing keys →
    ∀ key ∈ keys, SignedByAuditor config fullTreeHead accepted key

variable {fullTreeHead : FullTreeHead C} {treeHead : TreeHead} {now : ℕ}

theorem verifyAuditorTreeHead_signed {key : VerifyingKey} {auditor : FullAuditorTreeHead C}
    (member : auditor ∈ fullTreeHead.fullAuditorTreeHeads)
    (verified : verifyAuditorTreeHead config treeHead root now key auditor = .ok ()) :
    SignedByAuditor config fullTreeHead (treeHead, root) key := by
  simp only [verifyAuditorTreeHead, getProtoField, getHashProof, bind_eq_ok, okOr_eq_ok,
    ensure_eq_ok, exists_const] at verified
  rcases verified with ⟨head, isHead, _, _, notAhead, _, verified⟩
  split at verified
  · simp only [bind_eq_ok, okOr_eq_ok, mapFailure_eq_ok] at verified
    rcases verified with ⟨_, _, auditorRoot, _, proof, isProof, _, consistent, verified⟩
    exact ⟨auditor, member, head, isHead, auditorRoot, verifyTreeHeadSignature_eq_ok verified,
      .inr ⟨proof, isProof, consistent⟩⟩
  · next notBehind =>
      simp only [bind_eq_ok] at verified
      rcases verified with ⟨_, _, _, _, verified⟩
      exact ⟨auditor, member, head, isHead, root, verifyTreeHeadSignature_eq_ok verified,
        .inl ⟨UInt64.le_antisymm notAhead (UInt64.not_lt.mp notBehind), rfl⟩⟩

theorem verifyAuditorTreeHeads_signed {keys : List VerifyingKey}
    (mode : config.mode = .thirdPartyAuditing keys)
    (verified : verifyAuditorTreeHeads config fullTreeHead treeHead root now = .ok ()) :
    ∀ key ∈ keys, SignedByAuditor config fullTreeHead (treeHead, root) key := by
  intro key member
  rw [verifyAuditorTreeHeads, mode] at verified
  obtain ⟨pairs, matched, verified⟩ := bind_eq_ok.mp verified
  obtain ⟨auditor, isAuditor, inPairs⟩ :=
    findMatching_eq_some (okOr_eq_ok.mp matched) key member
  exact verifyAuditorTreeHead_signed isAuditor (forM_eq_ok.mp verified _ inPairs)

theorem verifyFullTreeHead_signed {last distinguished : Option (LastTreeHead C)}
    {accepted : LastTreeHead C} (hasKeys : config.mode.getAssociatedKeys ≠ [])
    (verified : verifyFullTreeHead config fullTreeHead root last distinguished now =
      .ok accepted) :
    Signed config fullTreeHead accepted := by
  simp only [verifyFullTreeHead, getProtoField, bind_eq_ok, okOr_eq_ok, pure, Except.pure,
    Except.ok.injEq] at verified
  rcases verified with ⟨treeHead, isHead, _, _, _, _, _, _, _, _, signatures, matched, _, checked,
    _, _, _, audited, rfl⟩
  obtain ⟨key, isKey⟩ := List.exists_mem_of_ne_nil _ hasKeys
  obtain ⟨signature, isSignature, inSignatures⟩ := findMatching_eq_some matched key isKey
  refine ⟨isHead, ⟨signature, isSignature, some key, ?_⟩, ?_⟩
  · exact verifyTreeHeadSignature_eq_ok (forM_eq_ok.mp checked _ inSignatures)
  · intro keys mode
    exact verifyAuditorTreeHeads_signed mode audited

def unsignedTreeHead : TreeHead := ⟨1, 0, []⟩

theorem verifyFullTreeHead_unsigned (noKeys : config.mode.getAssociatedKeys = []) (root : C.Hash) :
    verifyFullTreeHead config ⟨some unsignedTreeHead, [], [], []⟩ root none none 0 =
      .ok (unsignedTreeHead, root) := by
  obtain ⟨mode, signatureKey, vrfKey⟩ := config
  cases mode with
  | contactMonitoring => rfl
  | thirdPartyManagement keys =>
    cases (noKeys : keys = [])
    rfl
  | thirdPartyAuditing keys =>
    cases (noKeys : keys = [])
    rfl

/-- Every accepted tree head is signed exactly under the configurations with an auditor key. -/
theorem accepted_signed_iff (C : Crypto) (config : PublicConfig) :
    ((∀ (fullTreeHead : FullTreeHead C) root last distinguished now accepted,
        verifyFullTreeHead config fullTreeHead root last distinguished now = .ok accepted →
          Signed config fullTreeHead accepted) ∧
      (∀ order req (res : FullSearchResponse C) context monitor now update,
        verifySearch order config req res context monitor now = .ok update →
          Signed config res.treeHead (update.treeHead, update.treeRoot)) ∧
      ∀ order req (res : MonitorResponse C) context now update,
        verifyMonitor order config req res context now = .ok update →
          ∃ fullTreeHead, res.treeHead = some fullTreeHead ∧
            Signed config fullTreeHead (update.treeHead, update.treeRoot)) ↔
      config.mode.getAssociatedKeys ≠ [] := by
  constructor
  · rintro ⟨signed, -, -⟩ noKeys
    obtain ⟨signature, member, _⟩ :=
      (signed _ _ _ _ _ _ (verifyFullTreeHead_unsigned noKeys (C.sha256 []))).server
    cases member
  · intro hasKeys
    refine ⟨?_, ?_, ?_⟩
    · intro fullTreeHead root last distinguished now accepted verified
      exact verifyFullTreeHead_signed hasKeys verified
    · intro order req res context monitor now update accepted
      obtain ⟨_, _, _, _, _, _, _, _, opened, _⟩ := verifySearch_eq_ok accepted
      exact verifyFullTreeHead_signed hasKeys opened.verified
    · intro order req res context now update accepted
      obtain ⟨fullTreeHead, _, _, monitored, _⟩ := verifyMonitor_eq_ok accepted
      exact ⟨fullTreeHead, monitored.full, verifyFullTreeHead_signed hasKeys monitored.verified⟩

/-- Hashes with a single value, under which no signature verifies. -/
def silentCrypto : Crypto where
  Hash := Unit
  decEqHash := inferInstance
  Bytes := Unit
  toHash := some
  sha256 _ := ()
  hmacSha256 _ _ := ()
  verify _ _ _ := false
  proofToHash _ _ _ := none

def contactMonitoringConfig : PublicConfig :=
  ⟨.contactMonitoring, Vector.replicate 32 0, Vector.replicate 32 0⟩

def unsignedMonitorResponse : MonitorResponse silentCrypto :=
  ⟨some ⟨some unsignedTreeHead, [], [], []⟩, [], [()]⟩

/-- Under contact monitoring a response without any signature is accepted. -/
theorem verifyMonitor_accepts_unsigned :
    ∃ update, verifyMonitor storedOrder contactMonitoringConfig ⟨[], none⟩
        unsignedMonitorResponse ⟨none, (unsignedTreeHead, ()), fun _ => none⟩ 0 = .ok update ∧
      ¬∃ fullTreeHead, unsignedMonitorResponse.treeHead = some fullTreeHead ∧
        Signed contactMonitoringConfig fullTreeHead (update.treeHead, update.treeRoot) := by
  refine ⟨⟨unsignedTreeHead, (), fun _ => none⟩, rfl, ?_⟩
  rintro ⟨fullTreeHead, -, signed⟩
  obtain ⟨signature, member, _⟩ := signed.server
  cases member

end LegacySignal.KeyTransparency
