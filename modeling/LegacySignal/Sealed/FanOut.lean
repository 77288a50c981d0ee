import LegacySignal.Sealed.SentMessage
import LegacySignal.Protocol.Symbolic

/-!
# Every device is reached

The message for several recipients is parsed back into its recipients, in the
order in which they first appear, each with all its devices; and what a
recipient receives decrypts to the content.
-/

namespace LegacySignal

open SealedSenderV2 SealedSenderV2SentMessage OrderedMap Chunks Result List

section bits

variable {id : UInt16}

theorem toNat_and_mask (value : UInt16) :
    (value &&& VALID_REGISTRATION_ID_MASK).toNat = value.toNat % 2 ^ 14 := by
  rw [UInt16.toNat_and]
  exact Nat.and_two_pow_sub_one_eq_mod value.toNat 14

theorem toNat_or_more (small : id.toNat < 2 ^ 14) :
    (id ||| 0x8000).toNat = 2 ^ 15 + id.toNat := by
  have belowBit : id.toNat < 2 ^ 15 := by omega
  rw [UInt16.toNat_or, Nat.or_comm]
  exact (Nat.two_pow_add_eq_or_of_lt belowBit 1).symm

theorem toNat_and_more (value : UInt16) :
    (value &&& 0x8000).toNat = (value.toNat.testBit 15).toNat * 2 ^ 15 := by
  rw [UInt16.toNat_and]
  exact Nat.and_two_pow value.toNat 15

section

variable (small : id.toNat < 2 ^ 14)

include small

theorem and_mask : id &&& VALID_REGISTRATION_ID_MASK = id := by
  apply UInt16.toNat_inj.mp
  rw [toNat_and_mask]
  omega

theorem or_more_and_mask : (id ||| 0x8000) &&& VALID_REGISTRATION_ID_MASK = id := by
  apply UInt16.toNat_inj.mp
  rw [toNat_and_mask, toNat_or_more small]
  omega

theorem and_more : id &&& 0x8000 = 0 := by
  apply UInt16.toNat_inj.mp
  rw [toNat_and_more, Nat.testBit_lt_two_pow (by omega)]
  rfl

theorem or_more_and_more : (id ||| 0x8000) &&& 0x8000 ≠ 0 := by
  intro none
  have value := congrArg UInt16.toNat none
  rw [toNat_and_more, toNat_or_more small, Nat.testBit_two_pow_add_eq,
    Nat.testBit_lt_two_pow (by omega)] at value
  exact absurd value (by decide)

theorem toUInt32_and_mask : id.toUInt32 &&& VALID_REGISTRATION_ID_MASK.toUInt32 = id.toUInt32 := by
  apply UInt32.toNat_inj.mp
  rw [UInt32.toNat_and, UInt16.toNat_toUInt32]
  exact (Nat.and_two_pow_sub_one_eq_mod id.toNat 14).trans (Nat.mod_eq_of_lt small)

end

theorem fromBeBytes_toBeBytes (value : UInt16) :
    fromBeBytes (UInt8.ofNat (value.toNat / 256)) (UInt8.ofNat (value.toNat % 256)) = value := by
  have small := value.toNat_lt
  apply UInt16.toNat_inj.mp
  simp only [fromBeBytes, UInt16.toNat_ofNat', UInt8.toNat_ofNat']
  omega

end bits

def deviceBytes : List (DeviceId × UInt16) → List UInt8
  | [] => []
  | (device, id) :: rest =>
    device.value :: toBeBytes (if rest.isEmpty then id else id ||| 0x8000) ++ deviceBytes rest

theorem parseDevices_cons (device : DeviceId) (value : UInt16) (rest : List UInt8)
    (found : List (DeviceId × UInt16)) :
    parseDevices (device.value :: toBeBytes value ++ rest) found =
      if value &&& 0x8000 ≠ 0 then
        parseDevices rest (found ++ [(device, value &&& VALID_REGISTRATION_ID_MASK)])
      else .ok (found ++ [(device, value &&& VALID_REGISTRATION_ID_MASK)], rest) := by
  conv_lhs => unfold parseDevices
  simp only [toBeBytes, cons_append, nil_append, if_neg device.value_ne_zero,
    DeviceId.new_value, fromBeBytes_toBeBytes]

theorem parseDevices_deviceBytes {devices : List (DeviceId × UInt16)} (nonempty : devices ≠ [])
    (small : ∀ device ∈ devices, device.2.toNat < 2 ^ 14) (found : List (DeviceId × UInt16))
    (rest : List UInt8) :
    parseDevices (deviceBytes devices ++ rest) found = .ok (found ++ devices, rest) := by
  induction devices generalizing found with
  | nil => exact absurd rfl nonempty
  | cons device others ih =>
    obtain ⟨deviceId, id⟩ := device
    have idSmall : id.toNat < 2 ^ 14 := small (deviceId, id) (by simp)
    cases others with
    | nil =>
      rw [deviceBytes, append_assoc, parseDevices_cons]
      simp [and_more idSmall, and_mask idSmall, deviceBytes]
    | cons next others =>
      have restParsed := ih (by simp) (fun device member => small device (by simp [member]))
        (found ++ [(deviceId, id)])
      rw [deviceBytes, append_assoc, parseDevices_cons]
      simp only [isEmpty_cons, Bool.false_eq_true, if_false, or_more_and_mask idSmall]
      rw [if_pos (or_more_and_more idSmall), restParsed]
      simp

section entries

def entryBytes (entry : ServiceId × SentMessageRecipient) : List UInt8 :=
  entry.1.serviceIdFixedWidthBinary ++
    (if entry.2.devices.isEmpty then [0] else deviceBytes entry.2.devices ++ entry.2.cAndAt)

structure SentMessageRecipient.Wellformed (recipient : SentMessageRecipient) : Prop where
  small : ∀ device ∈ recipient.devices, device.2.toNat < 2 ^ 14
  length_cAndAt : recipient.devices ≠ [] →
    recipient.cAndAt.length = MESSAGE_KEY_LEN + AUTH_TAG_LEN
  cAndAt_eq_nil : recipient.devices = [] → recipient.cAndAt = []

theorem advance_append {front : List UInt8} {count : ℕ} (length_eq : front.length = count)
    (rest : List UInt8) : advance count (front ++ rest) = .ok (front, rest) := by
  have enough : count ≤ (front ++ rest).length := by
    rw [length_append, length_eq]
    exact Nat.le_add_right count rest.length
  simp only [advance, ensure, if_pos enough, take_left' length_eq,
    drop_left' length_eq]
  rfl

theorem parseServiceId_append (id : ServiceId) (rest : List UInt8) :
    parseServiceId SEALED_SENDER_V2_SERVICE_ID_FULL_VERSION
      (id.serviceIdFixedWidthBinary ++ rest) = .ok (id, rest) := by
  rw [parseServiceId, if_neg (by decide), advance_append id.length_fixedWidthBinary]
  change (do
    let id ← okOr
      (ServiceId.parseFromServiceIdFixedWidthBinary id.serviceIdFixedWidthBinary) _
    _) = _
  rw [ServiceId.parse_fixedWidthBinary]
  rfl

theorem parseRecipient_entryBytes {entry : ServiceId × SentMessageRecipient}
    (wellformed : entry.2.Wellformed) (rest : List UInt8) :
    parseRecipient SEALED_SENDER_V2_SERVICE_ID_FULL_VERSION (entryBytes entry ++ rest) =
      .ok (entry, rest) := by
  obtain ⟨id, devices, cAndAt⟩ := entry
  unfold parseRecipient entryBytes
  rw [append_assoc, parseServiceId_append]
  change (parseDevices _ [] >>= _) = _
  by_cases noDevices : devices = []
  · have noMaterial : cAndAt = [] := wellformed.cAndAt_eq_nil noDevices
    subst noDevices noMaterial
    rfl
  · have isFalse : devices.isEmpty = false := by simpa using noDevices
    have parsed := parseDevices_deviceBytes noDevices wellformed.small [] (cAndAt ++ rest)
    simp only [isFalse, Bool.false_eq_true, if_false, append_assoc, parsed, nil_append]
    change (if devices.isEmpty = true then _ else
      advance (MESSAGE_KEY_LEN + AUTH_TAG_LEN) (cAndAt ++ rest) >>= _) = _
    rw [isFalse, advance_append (wellformed.length_cAndAt noDevices)]
    rfl

theorem parseRecipients_entryBytes {entries : List (ServiceId × SentMessageRecipient)}
    (wellformed : ∀ entry ∈ entries, entry.2.Wellformed)
    (recipients : List (ServiceId × SentMessageRecipient)) (rest : List UInt8) :
    parseRecipients SEALED_SENDER_V2_SERVICE_ID_FULL_VERSION entries.length
        (entries.flatMap entryBytes ++ rest) recipients =
      (insertAll mergeRecipient entries recipients).map (·, rest) := by
  induction entries generalizing recipients with
  | nil => rfl
  | cons entry others ih =>
    rw [length_cons, flatMap_cons, append_assoc, parseRecipients,
      parseRecipient_entryBytes (wellformed entry (by simp)), insertAll,
      foldlM_cons]
    change (do
      let merged ← insert mergeRecipient recipients entry.1 entry.2
      parseRecipients _ others.length (others.flatMap entryBytes ++ rest) merged) = _
    cases insert mergeRecipient recipients entry.1 entry.2 with
    | error error => rfl
    | ok merged => exact ih (fun other member => wellformed other (by simp [member])) merged

end entries

variable {P : SealedPrimitives} {F : SealedFormat P} {Q : Primitives} {W : SealedWire P}

/-- The outcome does not depend on the number of threads, also when it is an error. -/
theorem serializeRecipients_eq (ourIdentity : P.PrivateKey) (m : P.Secret) (parallelism : ℕ)
    (groups : List (RecipientGroup P Q)) :
    serializeRecipients W ourIdentity m parallelism groups =
      processChunk W ourIdentity m groups := by
  unfold serializeRecipients
  dsimp only
  split_ifs with single
  · rfl
  · have whole := flatten_toChunks
      (max 6 ((groups.length + parallelism - 1) / parallelism)) groups
    split
    next none =>
      rw [none] at whole
      rw [← whole]
      rfl
    next firstChunk chunks found =>
      rw [found, flatten_cons] at whole
      rw [← whole]
      simp only [processChunk, concatM_append, foldlM_concatM]
      cases concatM (serializeRecipientDestinations W ourIdentity m) firstChunk <;>
        cases concatM (serializeRecipientDestinations W ourIdentity m) chunks.flatten <;>
        rfl

/-- What a destination with its session stands for: a service id, a device of it and the
device's registration id. Its identity key is the one of the service id. -/
structure Reachable (store : IdentityKeys P) (identity : ServiceId → P.PrivateKey)
    (destination : ProtocolAddress × SessionRecord Q) (item : ServiceId × DeviceId × UInt16) :
    Prop where
  serviceId : ServiceId.parseFromServiceIdString destination.1.name = some item.1
  deviceId : destination.1.deviceId = item.2.1
  registrationId : destination.2.remoteRegistrationId = some item.2.2.toUInt32
  small : item.2.2.toNat < 2 ^ 14
  known : store.getIdentity destination.1 = some (P.publicKey (identity item.1))

/-- A destination with its session, and what it stands for. -/
abbrev Reached (Q : Primitives) :=
  (ProtocolAddress × SessionRecord Q) × ServiceId × DeviceId × UInt16

section reached

variable {store : IdentityKeys P} {identity : ServiceId → P.PrivateKey} {m : P.Secret}
  {reached : List (Reached Q)} {run : Reached Q × List (Reached Q)}

/-- The recipient that a run of destinations is written for. -/
def heldRecipient (W : SealedWire P) (store : IdentityKeys P) (identity : ServiceId → P.PrivateKey)
    (m : P.Secret) (id : ServiceId) (devices : List (DeviceId × UInt16)) : SentMessageRecipient :=
  ⟨devices, keyMaterial W store.ourIdentity m (P.publicKey (identity id))⟩

theorem mergeRecipient_held (id : ServiceId) (devices others : List (DeviceId × UInt16))
    (nonempty : devices ≠ []) (othersNonempty : others ≠ []) :
    mergeRecipient (heldRecipient W store identity m id devices)
        (heldRecipient W store identity m id others) =
      .ok (heldRecipient W store identity m id (devices ++ others)) := by
  simp [mergeRecipient, heldRecipient, nonempty, othersNonempty]

theorem length_keyMaterial (wire : W.Lawful) (ourIdentity : P.PrivateKey) (m : P.Secret)
    (theirIdentity : P.PublicKey) :
    (keyMaterial W ourIdentity m theirIdentity).length = MESSAGE_KEY_LEN + AUTH_TAG_LEN := by
  rw [keyMaterial, length_append, wire.length_messageKeyBytes, wire.length_tagBytes]

/-- The runs of destinations with the same name. -/
abbrev runsOf (reached : List (Reached Q)) :=
  chunkBy (fun pair => pair.1.1.name) reached

def runItems (run : Reached Q × List (Reached Q)) : ServiceId × List (DeviceId × UInt16) :=
  (run.1.2.1, (run.1 :: run.2).map (·.2.2))

def groupOf (identity : ServiceId → P.PrivateKey) (run : Reached Q × List (Reached Q)) :
    RecipientGroup P Q :=
  (P.publicKey (identity run.1.2.1), run.1.1, run.2.map (·.1))

/-- The recipients as they are written: a run of destinations each, then the excluded ones. -/
def sentEntries (W : SealedWire P) (store : IdentityKeys P) (identity : ServiceId → P.PrivateKey)
    (m : P.Secret) (reached : List (Reached Q)) (excluded : List ServiceId) :
    List (ServiceId × SentMessageRecipient) :=
  ((runsOf reached).map runItems).map
      (fun run => (run.1, heldRecipient W store identity m run.1 run.2)) ++
    excluded.map fun id => (id, ⟨[], []⟩)

def sharedBytes (W : SealedWire P) (m : P.Secret) (usmc : UnidentifiedSenderMessageContent F) :
    List UInt8 :=
  W.publicKeyBytes (P.publicKey (deriveE m)) ++ SealedSenderV2.ciphertext m usmc

variable (reachable : ∀ pair ∈ reached, Reachable store identity pair.1 pair.2)

include reachable

theorem serializeDevices_reached :
    serializeDevices (reached.map (·.1)) = .ok (deviceBytes (reached.map (·.2.2))) := by
  induction reached with
  | nil => rfl
  | cons pair rest ih =>
    obtain ⟨⟨address, session⟩, id, device, registrationId⟩ := pair
    have first := reachable _ mem_cons_self
    have restBytes := ih fun other member => reachable other (mem_cons_of_mem _ member)
    have sameDevice : address.deviceId = device := first.deviceId
    have sameId : session.remoteRegistrationId = some registrationId.toUInt32 :=
      first.registrationId
    have checked := toUInt32_and_mask first.small
    have narrowed : registrationId.toUInt32.toUInt16 = registrationId := by
      apply UInt16.toNat_inj.mp
      simp
    simp only [map_cons, serializeDevices, deviceBytes, sameId, okOr, ensure,
      restBytes, sameDevice, isEmpty_map]
    change (do
      (if _ then Except.ok () else _ : Except SealedError Unit)
      _) = _
    rw [if_pos checked, narrowed]
    rfl

theorem reachable_of_mem_run (member : run ∈ runsOf reached) :
    ∀ pair ∈ run.1 :: run.2, Reachable store identity pair.1 pair.2 := by
  intro pair inRun
  have whole : (runsOf reached).flatMap (fun run => run.1 :: run.2) = reached :=
    flatten_chunkBy reached
  apply reachable
  rw [← whole]
  exact mem_flatMap.mpr ⟨run, member, inRun⟩

theorem items_of_run (member : run ∈ runsOf reached) :
    (runItems run).2.map ((runItems run).1, ·) = (run.1 :: run.2).map (·.2) := by
  simp only [runItems, map_map]
  apply map_congr_left
  intro pair inRun
  have runReachable := reachable_of_mem_run reachable member
  have sameName := key_of_mem_chunkBy member inRun
  have sameId : some pair.2.1 = some run.1.2.1 := by
    rw [← (runReachable pair inRun).serviceId, sameName,
      (runReachable run.1 mem_cons_self).serviceId]
  simp [← Option.some.inj sameId]

theorem items_of_runs :
    ((runsOf reached).map runItems).flatMap (fun run => run.2.map (run.1, ·)) =
      reached.map (·.2) := by
  rw [flatMap_map]
  calc (runsOf reached).flatMap (fun run => (runItems run).2.map ((runItems run).1, ·))
      = (runsOf reached).flatMap (fun run => (run.1 :: run.2).map (·.2)) :=
        flatMap_congr fun run member => items_of_run reachable member
    _ = ((runsOf reached).flatMap (fun run => run.1 :: run.2)).map (·.2) :=
        (map_flatMap ..).symm
    _ = reached.map (·.2) := by rw [flatten_chunkBy]

theorem identityKeysAndRanges_reached :
    identityKeysAndRanges store (reached.map (·.1)) =
      .ok ((runsOf reached).map (groupOf identity)) := by
  rw [identityKeysAndRanges, chunkBy_map, mapM_map]
  apply mapM_eq_ok
  intro run member
  have known := (reachable_of_mem_run reachable member run.1 mem_cons_self).known
  change (do
    let theirIdentity ← okOr (store.getIdentity run.1.1.1) _
    _) = _
  rw [known]
  rfl

theorem serialize_group (member : run ∈ runsOf reached) :
    serializeRecipientDestinations W store.ourIdentity m (groupOf identity run) =
      .ok (entryBytes ((runItems run).1,
        heldRecipient W store identity m (runItems run).1 (runItems run).2)) := by
  have runReachable := reachable_of_mem_run reachable member
  have first := runReachable run.1 mem_cons_self
  have devices := serializeDevices_reached runReachable
  rw [map_cons] at devices
  simp only [serializeRecipientDestinations, groupOf, first.serviceId, okOr, devices]
  simp [entryBytes, heldRecipient, runItems, bind, Except.bind, pure, Except.pure]

theorem wellformed_sentEntries (wire : W.Lawful) (excluded : List ServiceId) :
    ∀ entry ∈ sentEntries W store identity m reached excluded, entry.2.Wellformed := by
  intro entry member
  rcases mem_append.mp member with fromRun | fromExcluded
  · simp only [map_map, mem_map, Function.comp_apply] at fromRun
    obtain ⟨run, inRuns, rfl⟩ := fromRun
    refine ⟨?_, fun _ => length_keyMaterial wire _ _ _, fun none => by cases none⟩
    intro device inDevices
    obtain ⟨pair, inRun, rfl⟩ := mem_map.mp inDevices
    exact (reachable_of_mem_run reachable inRuns pair inRun).small
  · obtain ⟨id, -, rfl⟩ := mem_map.mp fromExcluded
    exact ⟨by simp, fun some => absurd rfl some, fun _ => rfl⟩

theorem insertAll_sentEntries {excluded : List ServiceId} (distinct : excluded.Nodup)
    (disjoint : ∀ id ∈ excluded, id ∉ (reached.map (·.2)).map (·.1)) :
    insertAll mergeRecipient (sentEntries W store identity m reached excluded) [] =
      .ok ((grouped (reached.map (·.2))).map
          (fun entry => (entry.1, heldRecipient W store identity m entry.1 entry.2)) ++
        excluded.map fun id => (id, ⟨[], []⟩)) := by
  have nonempty : ∀ run ∈ (runsOf reached).map runItems, run.2 ≠ [] := by
    intro run member
    obtain ⟨source, -, rfl⟩ := mem_map.mp member
    exact cons_ne_nil _ _
  have runs := insertAll_runs (@mergeRecipient_held P W store identity m) nonempty []
  rw [items_of_runs reachable, nil_append] at runs
  change insertAll mergeRecipient _ [] = _ at runs
  rw [sentEntries, insertAll_append, runs]
  apply insertAll_of_notMem
  · simpa [Function.comp_def] using distinct
  · intro id member
    rw [map_map] at member ⊢
    obtain ⟨other, inExcluded, rfl⟩ := mem_map.mp member
    intro known
    obtain ⟨entry, inGroups, same⟩ := mem_map.mp known
    obtain ⟨key, inFirsts, rfl⟩ := mem_map.mp inGroups
    cases same
    exact disjoint _ inExcluded (mem_firsts.mp inFirsts)

theorem encrypt_reached {destinations : List ProtocolAddress} {sessions : List (SessionRecord Q)}
    (sameLength : destinations.length = sessions.length)
    (paired : destinations.zip sessions = reached.map (·.1)) (excluded : List ServiceId)
    (usmc : UnidentifiedSenderMessageContent F) (parallelism : ℕ) :
    sealedSenderMultiRecipientEncrypt W destinations sessions excluded usmc store m parallelism =
      .ok (SEALED_SENDER_V2_SERVICE_ID_FULL_VERSION ::
        (Varint.encode (sentEntries W store identity m reached excluded).length ++
          ((sentEntries W store identity m reached excluded).flatMap entryBytes ++
            sharedBytes W m usmc))) := by
  have groups := identityKeysAndRanges_reached reachable
  have recipients : processChunk W store.ourIdentity m ((runsOf reached).map (groupOf identity)) =
      .ok (((runsOf reached).map runItems).flatMap fun run =>
        entryBytes (run.1, heldRecipient W store identity m run.1 run.2)) := by
    rw [processChunk, flatMap_map, concatM_map]
    exact concatM_eq_ok fun run member => serialize_group reachable member
  have excludedBytes : excluded.flatMap (fun id => id.serviceIdFixedWidthBinary ++ [0]) =
      (excluded.map fun id => (id, (⟨[], []⟩ : SentMessageRecipient))).flatMap entryBytes := by
    rw [flatMap_map]
    rfl
  unfold sealedSenderMultiRecipientEncrypt
  rw [paired]
  simp only [ensure, if_pos sameLength, groups, serializeRecipients_eq]
  change (do
    let recipients ← processChunk W store.ourIdentity m _
    _) = _
  rw [recipients, excludedBytes]
  simp [sentEntries, sharedBytes, bind, Except.bind, pure, Except.pure, flatMap_append,
    flatMap_map]

end reached

theorem decodeVarint_encode {count : ℕ} (fits : count < 2 ^ 32) (rest : List UInt8) :
    decodeVarint (Varint.encode count ++ rest) = .ok (count, rest) := by
  have decoded := Varint.decode_encode (show count < 2 ^ 64 by omega) rest
  simp only [decodeVarint, decoded, okOr, ensure]
  change (do
    (if count < 2 ^ 32 then Except.ok () else _ : Except SealedError Unit)
    _) = _
  rw [if_pos fits, drop_left]
  rfl

theorem parse_entries {entries : List (ServiceId × SentMessageRecipient)}
    (wellformed : ∀ entry ∈ entries, entry.2.Wellformed) (fits : entries.length < 2 ^ 32)
    {shared : List UInt8} (enough : PUBLIC_KEY_LEN ≤ shared.length)
    {recipients : List (ServiceId × SentMessageRecipient)}
    (merged : insertAll mergeRecipient entries [] = .ok recipients) :
    parse (SEALED_SENDER_V2_SERVICE_ID_FULL_VERSION ::
        (Varint.encode entries.length ++ (entries.flatMap entryBytes ++ shared))) =
      .ok ⟨SEALED_SENDER_V2_SERVICE_ID_FULL_VERSION ::
        (Varint.encode entries.length ++ (entries.flatMap entryBytes ++ shared)),
        SEALED_SENDER_V2_SERVICE_ID_FULL_VERSION, recipients, shared⟩ := by
  have parsed := parseRecipients_entryBytes wellformed [] shared
  rw [merged] at parsed
  simp only [parse, bind_eq_ok, ensure_eq_ok]
  exact ⟨(), .inr trivial, _, decodeVarint_encode fits _, _, parsed, (), enough, rfl⟩

theorem deserialize_received (wire : W.Lawful) (ourIdentity : P.PrivateKey) (m : P.Secret)
    (theirIdentity : P.PublicKey) (usmc : UnidentifiedSenderMessageContent F) :
    UnidentifiedSenderMessage.deserialize W (SEALED_SENDER_V2_UUID_FULL_VERSION ::
        (keyMaterial W ourIdentity m theirIdentity ++ sharedBytes W m usmc)) =
      .ok (SealedSenderV2.encrypt ourIdentity theirIdentity m usmc) := by
  have keyLength := wire.length_messageKeyBytes (encryptedMessageKey m theirIdentity)
  have tagLength := wire.length_tagBytes (authenticationTag ourIdentity m theirIdentity)
  have publicLength := wire.length_publicKeyBytes (P.publicKey (deriveE m))
  have enough : MESSAGE_KEY_LEN + AUTH_TAG_LEN + PUBLIC_KEY_LEN ≤
      (keyMaterial W ourIdentity m theirIdentity ++ sharedBytes W m usmc).length := by
    rw [length_append, length_keyMaterial wire, sharedBytes, length_append, publicLength]
    omega
  rw [UnidentifiedSenderMessage.deserialize, if_neg (by decide), if_pos (by decide), ensure,
    if_pos enough]
  simp only [keyMaterial, sharedBytes, append_assoc, take_left' keyLength,
    drop_left' keyLength, take_left' tagLength, drop_left' tagLength,
    take_left' publicLength, drop_left' publicLength, wire.fromDjbPublicKeyBytes_bytes,
    wire.readMessageKey_bytes, wire.readTag_bytes]
  rfl

section fanOut

variable {destinations : List ProtocolAddress} {sessions : List (SessionRecord Q)}
  {excluded : List ServiceId} {items : List (ServiceId × DeviceId × UInt16)}
  {store : IdentityKeys P} {identity : ServiceId → P.PrivateKey} (wire : W.Lawful)
  (sameLength : destinations.length = sessions.length)
  (reachable : Forall₂ (Reachable store identity) (destinations.zip sessions) items)
  (distinct : excluded.Nodup) (disjoint : ∀ id ∈ excluded, id ∉ items.map (·.1))
  (fits : (chunkBy (·.name) destinations).length + excluded.length < 2 ^ 32)

include wire sameLength reachable distinct disjoint fits

/-- The message parses to the recipients in order, and what each of them receives decrypts as the
message that was encrypted for it. -/
theorem fanOut_parsed (usmc : UnidentifiedSenderMessageContent F) (m : P.Secret) :
    ∃ bytes message,
      (∀ parallelism, sealedSenderMultiRecipientEncrypt W destinations sessions excluded usmc
        store m parallelism = .ok bytes) ∧
      parse bytes = .ok message ∧
      message.recipients.map (fun entry => (entry.1, entry.2.devices)) =
        grouped items ++ excluded.map (fun id => (id, [])) ∧
      ∀ entry ∈ message.recipients, entry.1 ∉ excluded → ∀ reader,
        sealedSenderDecryptToUsmc W F
            (message.receivedMessagePartsForRecipient entry.2).flatten reader =
          (SealedSenderV2.encrypt store.ourIdentity (P.publicKey (identity entry.1)) m
            usmc).decryptToUsmc F reader := by
  obtain ⟨itemsLength, pairs⟩ := forall₂_iff_zip.mp reachable
  -- Each destination with what it stands for, as one list.
  obtain ⟨reached, isZip⟩ : ∃ reached, reached = (destinations.zip sessions).zip items := ⟨_, rfl⟩
  have paired : destinations.zip sessions = reached.map (·.1) := by
    rw [isZip, ← unzip_fst, unzip_zip itemsLength]
  have sameItems : reached.map (·.2) = items := by
    rw [isZip, ← unzip_snd, unzip_zip itemsLength]
  have sameDestinations : reached.map (·.1.1) = destinations := by
    calc reached.map (·.1.1) = (destinations.zip sessions).map (·.1) := by
          rw [paired, map_map]
          rfl
      _ = destinations := by rw [← unzip_fst, unzip_zip sameLength]
  have reachedReachable : ∀ pair ∈ reached, Reachable store identity pair.1 pair.2 := by
    intro pair member
    rw [isZip] at member
    exact pairs member
  have count : (sentEntries W store identity m reached excluded).length < 2 ^ 32 := by
    rw [← sameDestinations, chunkBy_map, length_map] at fits
    change (runsOf reached).length + excluded.length < 2 ^ 32 at fits
    simpa [sentEntries] using fits
  have enough : PUBLIC_KEY_LEN ≤ (sharedBytes W m usmc).length := by
    rw [sharedBytes, length_append, wire.length_publicKeyBytes]
    exact Nat.le_add_right _ _
  rw [← sameItems] at disjoint
  have merged := insertAll_sentEntries (W := W) (m := m) reachedReachable distinct disjoint
  rw [sameItems] at merged
  refine ⟨_, _, encrypt_reached reachedReachable sameLength paired excluded usmc,
    parse_entries (wellformed_sentEntries reachedReachable wire excluded) count enough merged,
    ?_, ?_⟩
  · simp [heldRecipient, Function.comp_def]
  · intro entry member notExcluded reader
    rcases mem_append.mp member with fromGroup | fromExcluded
    · obtain ⟨group, -, rfl⟩ := mem_map.mp fromGroup
      have received := deserialize_received wire store.ourIdentity m
        (P.publicKey (identity group.1)) usmc
      simp only [sealedSenderDecryptToUsmc, receivedMessagePartsForRecipient, heldRecipient,
        flatten_cons, flatten_nil, append_nil, singleton_append, received]
      rfl
    · obtain ⟨id, inExcluded, rfl⟩ := mem_map.mp fromExcluded
      exact absurd inExcluded notExcluded

/-- Every device of every destination is reached: the message lists the recipients in the
order in which they first appear, each with all its devices, and each of them decrypts what
it receives to the content. -/
theorem fanOut_reaches (lawful : P.Lawful) (format : F.Lawful)
    {usmc : UnidentifiedSenderMessageContent F} (made : usmc.Made)
    (sentBySender : usmc.sender.key = P.publicKey store.ourIdentity) (m : P.Secret) :
    ∃ bytes message,
      (∀ parallelism, sealedSenderMultiRecipientEncrypt W destinations sessions excluded usmc
        store m parallelism = .ok bytes) ∧
      parse bytes = .ok message ∧
      message.recipients.map (fun entry => (entry.1, entry.2.devices)) =
        grouped items ++ excluded.map (fun id => (id, [])) ∧
      ∀ entry ∈ message.recipients, entry.1 ∉ excluded → ∃ read,
        sealedSenderDecryptToUsmc W F
            (message.receivedMessagePartsForRecipient entry.2).flatten (identity entry.1) =
          .ok read ∧ read.Same usmc := by
  obtain ⟨bytes, message, encrypted, parsed, listed, received⟩ :=
    fanOut_parsed wire sameLength reachable distinct disjoint fits usmc m
  obtain ⟨read, reads, same⟩ :=
    UnidentifiedSenderMessageContent.deserialize_serialized format made
  rw [← same.sender] at sentBySender
  refine ⟨bytes, message, encrypted, parsed, listed, ?_⟩
  intro entry member notExcluded
  refine ⟨read, ?_, same⟩
  rw [received entry member notExcluded]
  exact SealedSenderV2.decrypt_encrypt lawful reads sentBySender

end fanOut

namespace Bytewise

/-- Keys, secrets and tags are single bytes. -/
def primitives : SealedPrimitives where
  PrivateKey := UInt8
  PublicKey := UInt8
  Secret := UInt8
  Mac := UInt8
  Tag := UInt8
  publicKey key := key
  serialize key := [5, key]
  deserialize bytes := bytes[1]?
  calculateAgreement key other := key + other
  hkdfEphemeral recipient ephemeral agreement := (recipient, ephemeral, agreement)
  hkdfStatic chainKey _ agreement := (chainKey, agreement, agreement)
  aes256Ctr text key := text.map (· ^^^ key)
  hmacSha256 key text := text.foldl (· + ·) key
  hkdfR m := m
  hkdfK m := m
  hkdfDh agreement first second := agreement + first + second
  hkdfDhSender agreement ephemeral messageKey sender recipient :=
    agreement + ephemeral + messageKey + 3 * sender + 5 * recipient
  xor first second := first ^^^ second
  aesGcmSivEncrypt key text := key :: text
  aesGcmSivDecrypt key text := if text.head? = some key then some text.tail else none

theorem primitives_lawful : primitives.Lawful where
  agreement_comm (first second : UInt8) := UInt8.add_comm first second
  deserialize_serialize _ := rfl
  ctr_ctr text (key : UInt8) := by
    change (text.map (· ^^^ key)).map (· ^^^ key) = text
    simp [Function.comp_def]
  xor_xor (key text : UInt8) := by
    change key ^^^ (key ^^^ text) = text
    rw [← UInt8.xor_assoc, UInt8.xor_self, UInt8.zero_xor]
  gcmSiv_decrypt_encrypt (key : UInt8) text := by
    change (if (key :: text).head? = some key then some (key :: text).tail else none) = some text
    rw [head?_cons, if_pos rfl, tail_cons]

/-- The key of a certificate is the number of its bytes. -/
def format : SealedFormat primitives where
  encodeContent := Numbered.format.encodeContent
  decodeContent := Numbered.format.decodeContent
  readCertificate bytes :=
    .ok ⟨Numbered.senderUuid, Numbered.firstDevice, UInt8.ofNat bytes.length⟩

theorem format_lawful : format.Lawful where
  decode_encode := Numbered.format_lawful.decode_encode

def wire : SealedWire primitives where
  messageKeyBytes (key : UInt8) := replicate 32 key
  readMessageKey bytes := bytes.headD (0 : UInt8)
  tagBytes (tag : UInt8) := replicate 16 tag
  readTag bytes := bytes.headD (0 : UInt8)
  publicKeyBytes (key : UInt8) := replicate 32 key
  fromDjbPublicKeyBytes bytes := bytes.head?
  decodeV1 _ := .error .invalidProtobufEncoding

theorem wire_lawful : wire.Lawful where
  length_messageKeyBytes _ := rfl
  length_tagBytes _ := rfl
  length_publicKeyBytes _ := rfl
  readMessageKey_bytes _ := rfl
  readTag_bytes _ := rfl
  fromDjbPublicKeyBytes_bytes _ := rfl

def account (byte : UInt8) : ServiceId := .aci ⟨replicate 16 byte, rfl⟩

def secondDevice : DeviceId := ⟨2, by decide, by decide⟩

def session (registrationId : UInt16) : SessionRecord symbolic :=
  let state : SessionState symbolic := SessionState.new CIPHERTEXT_MESSAGE_CURRENT_VERSION
    (1 : ℕ) (2 : ℕ) Symbolic.Term.discontinuity (3 : ℕ)
    (Symbolic.PqState.mk .discontinuity .a2b 0)
  ⟨some { state with remoteRegistrationId := registrationId.toUInt32 }, []⟩

def identity : ServiceId → primitives.PrivateKey
  | .aci uuid => uuid.bytes.headD (0 : UInt8)
  | .pni uuid => uuid.bytes.headD (0 : UInt8)

def certificate (key : UInt8) : SenderCertificate format where
  serialized := replicate key.toNat 0
  data := ⟨Numbered.senderUuid, Numbered.firstDevice, key⟩
  reads := by
    change Except.ok (CertificateData.mk (P := primitives) _ _
      (UInt8.ofNat (replicate key.toNat (0 : UInt8)).length)) = _
    rw [length_replicate, UInt8.ofNat_toNat]

def store : IdentityKeys primitives where
  ourIdentity := (1 : UInt8)
  getIdentity address := (ServiceId.parseFromServiceIdString address.name).map fun id =>
    primitives.publicKey (identity id)

theorem reachable (byte : UInt8) (device : DeviceId) {registrationId : UInt16}
    (small : registrationId.toNat < 2 ^ 14) :
    Reachable store identity (⟨(account byte).serviceIdString, device⟩, session registrationId)
      (account byte, device, registrationId) where
  serviceId := ServiceId.parse_serviceIdString _
  deviceId := rfl
  registrationId := rfl
  small := small
  known := by
    change (ServiceId.parseFromServiceIdString (account byte).serviceIdString).map _ = _
    rw [ServiceId.parse_serviceIdString]
    rfl

def destinations : List ProtocolAddress :=
  [⟨(account 7).serviceIdString, Numbered.firstDevice⟩,
    ⟨(account 9).serviceIdString, Numbered.firstDevice⟩,
    ⟨(account 7).serviceIdString, secondDevice⟩]

def sessions : List (SessionRecord symbolic) := [session 11, session 12, session 13]

def items : List (ServiceId × DeviceId × UInt16) :=
  [(account 7, Numbered.firstDevice, 11), (account 9, Numbered.firstDevice, 12),
    (account 7, secondDevice, 13)]

theorem items_reachable :
    Forall₂ (Reachable store identity) (destinations.zip sessions) items :=
  .cons (reachable 7 _ (by decide)) (.cons (reachable 9 _ (by decide))
    (.cons (reachable 7 _ (by decide)) .nil))

theorem count_fits :
    (chunkBy (·.name) destinations).length + [account 4].length < 2 ^ 32 := by
  have names : (account 9).serviceIdString ≠ (account 7).serviceIdString := by
    intro same
    have parsed := congrArg ServiceId.parseFromServiceIdString same
    rw [ServiceId.parse_serviceIdString, ServiceId.parse_serviceIdString] at parsed
    exact absurd parsed (by decide)
  simp [destinations, chunkBy, names, names.symm]

theorem fanOut_reaches_accounts :
    ∃ bytes message,
      (∀ parallelism, sealedSenderMultiRecipientEncrypt wire destinations sessions [account 4]
        (.new .whisper (certificate 1) [8] .default none) store (6 : UInt8) parallelism =
          .ok bytes) ∧
      parse bytes = .ok message ∧
      message.recipients.map (fun entry => (entry.1, entry.2.devices)) =
        [(account 7, [(Numbered.firstDevice, 11), (secondDevice, 13)]),
          (account 9, [(Numbered.firstDevice, 12)]), (account 4, [])] ∧
      ∀ entry ∈ message.recipients, entry.1 ∉ [account 4] → ∃ read,
        sealedSenderDecryptToUsmc wire format
            (message.receivedMessagePartsForRecipient entry.2).flatten (identity entry.1) =
          .ok read ∧ read.Same (.new .whisper (certificate 1) [8] .default none) :=
  fanOut_reaches wire_lawful rfl items_reachable (by decide) (by decide) count_fits
    primitives_lawful format_lawful (.new _ _ _ _ _) rfl (6 : UInt8)

/-- With another key in the certificate the recipients refuse what they receive. -/
theorem fanOut_refused :
    ∃ bytes message,
      sealedSenderMultiRecipientEncrypt wire destinations sessions [account 4]
        (.new .whisper (certificate 3) [8] .default none) store (6 : UInt8) 1 = .ok bytes ∧
      parse bytes = .ok message ∧
      ∃ entry ∈ message.recipients, entry.1 = account 7 ∧
        sealedSenderDecryptToUsmc wire format
            (message.receivedMessagePartsForRecipient entry.2).flatten (identity (account 7)) =
          .error (.invalidSealedSenderMessage
            "sender certificate key does not match authentication tag") := by
  obtain ⟨bytes, message, encrypted, parsed, listed, received⟩ :=
    fanOut_parsed wire_lawful rfl items_reachable (by decide) (by decide) count_fits
      (.new .whisper (certificate 3) [8] .default none) (6 : UInt8)
  have isListed : (account 7, [(Numbered.firstDevice, (11 : UInt16)), (secondDevice, 13)]) ∈
      message.recipients.map (fun entry => (entry.1, entry.2.devices)) := by
    rw [listed]
    decide
  obtain ⟨entry, member, same⟩ := mem_map.mp isListed
  have sameId : entry.1 = account 7 := (Prod.mk.inj same).1
  refine ⟨bytes, message, encrypted 1, parsed, entry, member, sameId, ?_⟩
  obtain ⟨read, reads, sameContent⟩ :=
    UnidentifiedSenderMessageContent.deserialize_serialized format_lawful
      (.new .whisper (certificate 3) [8] .default none)
  rw [received entry member (by rw [sameId]; decide), sameId]
  refine (SealedSenderV2.decrypt_received primitives_lawful reads).trans ?_
  rw [sameContent.sender]
  rfl

end Bytewise

end LegacySignal
