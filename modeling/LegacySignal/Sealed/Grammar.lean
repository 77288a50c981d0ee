import LegacySignal.Sealed.FanOut

/-!
# The grammar of sent messages

The documentation of `sealed_sender_multi_recipient_encrypt` gives the grammar of a sent message.
It is stated here as relations between bytes and what they stand for, and compared with what
`SealedSenderV2SentMessage::parse` accepts and reports.

The two differ in one place. The count is read as any encoding of a variable-width number, but
what is skipped for it is the length of its shortest one, so that the recipients of a message
whose count is written longer are read from the wrong position.
-/

namespace LegacySignal

open SealedSenderV2 SealedSenderV2SentMessage OrderedMap Result Varint List

namespace SentMessageGrammar

/-- `Recipient`; the older version has the UUID of an ACI only. -/
inductive IsServiceId (version : UInt8) : List UInt8 → ServiceId → Prop
  | uuid (uuid : UuidBytes) : version = SEALED_SENDER_V2_UUID_FULL_VERSION →
      IsServiceId version uuid.bytes (.aci uuid)
  | fixedWidth (id : ServiceId) : version = SEALED_SENDER_V2_SERVICE_ID_FULL_VERSION →
      IsServiceId version id.serviceIdFixedWidthBinary id

/-- `[DeviceList]`, whose last element alone has no `has_more`. -/
inductive IsDeviceList : List UInt8 → List (DeviceId × UInt16) → Prop
  | last (device : DeviceId) {high low : UInt8} :
      fromBeBytes high low &&& 0x8000 = 0 →
      IsDeviceList [device.value, high, low]
        [(device, fromBeBytes high low &&& VALID_REGISTRATION_ID_MASK)]
  | more (device : DeviceId) {high low : UInt8} {bytes : List UInt8}
      {devices : List (DeviceId × UInt16)} :
      fromBeBytes high low &&& 0x8000 ≠ 0 → IsDeviceList bytes devices →
      IsDeviceList (device.value :: high :: low :: bytes)
        ((device, fromBeBytes high low &&& VALID_REGISTRATION_ID_MASK) :: devices)

/-- One element of `recipients`. -/
inductive IsRecipient (version : UInt8) :
    List UInt8 → ServiceId × SentMessageRecipient → Prop
  | perRecipientData {idBytes deviceBytes c tag : List UInt8} {id : ServiceId}
      {devices : List (DeviceId × UInt16)} :
      IsServiceId version idBytes id → IsDeviceList deviceBytes devices →
      c.length = MESSAGE_KEY_LEN → tag.length = AUTH_TAG_LEN →
      IsRecipient version (idBytes ++ deviceBytes ++ c ++ tag) (id, ⟨devices, c ++ tag⟩)
  | excludedRecipient {idBytes : List UInt8} {id : ServiceId} :
      IsServiceId version idBytes id → IsRecipient version (idBytes ++ [0]) (id, ⟨[], []⟩)

/-- A recipient that occurs twice is not empty either time. -/
def Compatible (first second : ServiceId × SentMessageRecipient) : Prop :=
  first.1 = second.1 → first.2.devices ≠ [] ∧ second.2.devices ≠ []

/-- Everything after the count: the parts of the recipients, one after the other, then `e_pub`
and the message. -/
structure IsBody (version : UInt8) (bytes : List UInt8) (parts : List (List UInt8))
    (occurrences : List (ServiceId × SentMessageRecipient)) (shared : List UInt8) : Prop where
  split : bytes = parts.flatten ++ shared
  recipients : Forall₂ (IsRecipient version) parts occurrences
  compatible : occurrences.Pairwise Compatible
  shared : PUBLIC_KEY_LEN ≤ shared.length

structure IsHeader (data : List UInt8) (version : UInt8) (countBytes : List UInt8) (count : ℕ)
    (rest : List UInt8) : Prop where
  split : data = version :: (countBytes ++ rest)
  version : version = SEALED_SENDER_V2_UUID_FULL_VERSION ∨
    version = SEALED_SENDER_V2_SERVICE_ID_FULL_VERSION
  encodes : Encodes countBytes count
  short : countBytes.length ≤ 10
  small : count < 2 ^ 32

/-- The devices of all occurrences of a recipient, with the key material of the first. -/
def joined (occurrences : List SentMessageRecipient) : SentMessageRecipient where
  devices := occurrences.flatMap (·.devices)
  cAndAt := (occurrences.head?.map (·.cAndAt)).getD []

def reported (occurrences : List (ServiceId × SentMessageRecipient)) :
    List (ServiceId × SentMessageRecipient) :=
  (grouped occurrences).map fun entry => (entry.1, joined entry.2)

/-- The message is accepted exactly as the grammar has it, and every field is what the grammar
says of its bytes. -/
def ParsedByGrammar (data : List UInt8) : Prop :=
  ∀ message, parse data = .ok message ↔
    ∃ version countBytes rest parts occurrences shared,
      IsHeader data version countBytes occurrences.length rest ∧
      IsBody version rest parts occurrences shared ∧
      message = ⟨data, version, reported occurrences, shared⟩

variable {count : ℕ} {bytes : List UInt8} {id : ServiceId} {version : UInt8} {rest : List UInt8}
  {devices : List (DeviceId × UInt16)} {existing found merged : SentMessageRecipient}
  {items : List SentMessageRecipient}
  {occurrences before map : List (ServiceId × SentMessageRecipient)} {data : List UInt8}

theorem advance_eq_ok_iff {bytes front rest : List UInt8} :
    advance count bytes = .ok (front, rest) ↔ bytes = front ++ rest ∧ front.length = count := by
  constructor
  · intro advanced
    obtain ⟨_, checked, advanced⟩ := bind_eq_ok.mp advanced
    have enough := ensure_eq_ok.mp checked
    cases advanced
    exact ⟨(take_append_drop count bytes).symm, length_take_of_le enough⟩
  · rintro ⟨rfl, length_eq⟩
    exact advance_append length_eq rest

theorem fromSlice_eq_some_iff {uuid : UuidBytes} :
    UuidBytes.fromSlice bytes = some uuid ↔ bytes = uuid.bytes := by
  constructor
  · intro found
    unfold UuidBytes.fromSlice at found
    split at found
    · cases found
      rfl
    · cases found
  · rintro rfl
    exact uuid.fromSlice_bytes

theorem parse_fixedWidthBinary_iff :
    ServiceId.parseFromServiceIdFixedWidthBinary bytes = some id ↔
      bytes = id.serviceIdFixedWidthBinary := by
  constructor
  · intro parsed
    cases bytes with
    | nil => cases parsed
    | cons kind bytes =>
      obtain ⟨uuid, found, kindOf⟩ := Option.bind_eq_some_iff.mp parsed
      rw [fromSlice_eq_some_iff.mp found]
      by_cases aci : kind = 0
      · rw [if_pos aci] at kindOf
        cases kindOf
        rw [aci]
        rfl
      · rw [if_neg aci, Option.ite_none_right_eq_some] at kindOf
        obtain ⟨pni, same⟩ := kindOf
        cases same
        rw [pni]
        rfl
  · rintro rfl
    exact id.parse_fixedWidthBinary

theorem parseServiceId_eq_ok_iff (known : version = SEALED_SENDER_V2_UUID_FULL_VERSION ∨
      version = SEALED_SENDER_V2_SERVICE_ID_FULL_VERSION) :
    parseServiceId version bytes = .ok (id, rest) ↔
      ∃ idBytes, bytes = idBytes ++ rest ∧ IsServiceId version idBytes id := by
  constructor
  · intro parsed
    by_cases old : version = SEALED_SENDER_V2_UUID_FULL_VERSION
    · rw [parseServiceId, if_pos old] at parsed
      obtain ⟨⟨front, after⟩, advanced, continued⟩ := bind_eq_ok.mp parsed
      obtain ⟨uuid, found, ended⟩ := bind_eq_ok.mp continued
      cases ended
      have front_eq := fromSlice_eq_some_iff.mp (okOr_eq_ok.mp found)
      exact ⟨front, (advance_eq_ok_iff.mp advanced).1, front_eq ▸ .uuid uuid old⟩
    · rw [parseServiceId, if_neg old] at parsed
      obtain ⟨⟨front, after⟩, advanced, continued⟩ := bind_eq_ok.mp parsed
      obtain ⟨id, found, ended⟩ := bind_eq_ok.mp continued
      cases ended
      have front_eq := parse_fixedWidthBinary_iff.mp (okOr_eq_ok.mp found)
      exact ⟨front, (advance_eq_ok_iff.mp advanced).1,
        front_eq ▸ .fixedWidth _ (known.resolve_left old)⟩
  · rintro ⟨_, rfl, isId⟩
    cases isId with
    | uuid uuid old =>
      rw [parseServiceId, if_pos old, advance_append uuid.length_eq]
      change (do
        let uuid ← okOr (UuidBytes.fromSlice uuid.bytes) _
        _) = _
      rw [UuidBytes.fromSlice_bytes]
      rfl
    | fixedWidth _ new =>
      rw [new]
      exact parseServiceId_append id rest

theorem IsDeviceList.ne_nil (listed : IsDeviceList bytes devices) : devices ≠ [] := by
  cases listed <;> exact cons_ne_nil _ _

theorem deviceId_new_eq_some {byte : UInt8} {device : DeviceId}
    (valid : DeviceId.new byte = some device) : byte = device.value := by
  unfold DeviceId.new at valid
  split at valid
  · cases valid
    rfl
  · cases valid

theorem parseDevices_device (device : DeviceId) (high low : UInt8) (rest : List UInt8)
    (found : List (DeviceId × UInt16)) :
    parseDevices (device.value :: high :: low :: rest) found =
      if fromBeBytes high low &&& 0x8000 ≠ 0 then
        parseDevices rest
          (found ++ [(device, fromBeBytes high low &&& VALID_REGISTRATION_ID_MASK)])
      else .ok
        (found ++ [(device, fromBeBytes high low &&& VALID_REGISTRATION_ID_MASK)], rest) := by
  conv_lhs => unfold parseDevices
  simp only [if_neg device.value_ne_zero, DeviceId.new_value]

theorem parseDevices_listed (listed : IsDeviceList bytes devices) (found : List (DeviceId × UInt16))
    (rest : List UInt8) :
    parseDevices (bytes ++ rest) found = .ok (found ++ devices, rest) := by
  induction listed generalizing found with
  | last device clear =>
    simp only [cons_append, nil_append]
    rw [parseDevices_device, if_neg (not_not.mpr clear)]
  | more device set _ ih =>
    simp only [cons_append]
    rw [parseDevices_device, if_pos set, ih, append_assoc]
    rfl

theorem parseDevices_eq_ok {found devices : List (DeviceId × UInt16)}
    (parsed : parseDevices bytes found = .ok (devices, rest)) :
    (∃ front listed, bytes = front ++ rest ∧ IsDeviceList front listed ∧
      devices = found ++ listed) ∨ bytes = 0 :: rest ∧ found = [] ∧ devices = [] := by
  fun_induction parseDevices bytes found with
  | case1 found => cases parsed
  | case2 remaining found =>
    obtain ⟨_, checked, ended⟩ := bind_eq_ok.mp parsed
    cases ended
    have none := isEmpty_iff.mp (ensure_eq_ok.mp checked)
    exact .inr ⟨rfl, none, none⟩
  | case3 byte found nonzero device high low remaining valid value extended more ih =>
    obtain rfl := deviceId_new_eq_some valid
    rcases ih parsed with ⟨front, listed, rfl, isList, rfl⟩ | ⟨-, none, -⟩
    · left
      refine ⟨device.value :: high :: low :: front, _, rfl, .more device more isList, ?_⟩
      exact append_assoc ..
    · exact absurd none (append_ne_nil_of_right_ne_nil _ (cons_ne_nil _ _))
  | case4 byte found nonzero device high low remaining valid value extended clear =>
    obtain rfl := deviceId_new_eq_some valid
    obtain ⟨rfl, rfl⟩ := Prod.mk.inj (Except.ok.inj parsed)
    exact .inl ⟨[device.value, high, low], _, rfl, .last device (not_not.mp clear), rfl⟩
  | case5 => cases parsed

section recipients

section

variable (known : version = SEALED_SENDER_V2_UUID_FULL_VERSION ∨
  version = SEALED_SENDER_V2_SERVICE_ID_FULL_VERSION)

include known

theorem parseRecipient_eq_ok_iff {entry : ServiceId × SentMessageRecipient} :
    parseRecipient version bytes = .ok (entry, rest) ↔
      ∃ part, bytes = part ++ rest ∧ IsRecipient version part entry := by
  constructor
  · intro parsed
    obtain ⟨⟨id, afterId⟩, idParsed, continued⟩ := bind_eq_ok.mp parsed
    obtain ⟨idBytes, rfl, isId⟩ := (parseServiceId_eq_ok_iff known).mp idParsed
    obtain ⟨⟨devices, afterDevices⟩, devicesParsed, ending⟩ := bind_eq_ok.mp continued
    rcases parseDevices_eq_ok devicesParsed with
      ⟨front, listed, rfl, isList, same⟩ | ⟨rfl, -, rfl⟩
    · rw [nil_append] at same
      subst same
      have nonempty : ¬(devices.isEmpty = true) := by
        simpa using isList.ne_nil
      dsimp only at ending
      rw [if_neg nonempty] at ending
      obtain ⟨⟨cAndAt, after⟩, advanced, ended⟩ := bind_eq_ok.mp ending
      cases ended
      obtain ⟨rfl, length_eq⟩ := advance_eq_ok_iff.mp advanced
      have cLength : (cAndAt.take MESSAGE_KEY_LEN).length = MESSAGE_KEY_LEN :=
        length_take_of_le (by omega)
      have tagLength : (cAndAt.drop MESSAGE_KEY_LEN).length = AUTH_TAG_LEN := by
        rw [length_drop]
        omega
      have isRecipient := IsRecipient.perRecipientData isId isList cLength tagLength
      rw [append_assoc, take_append_drop] at isRecipient
      exact ⟨_, by simp only [append_assoc], isRecipient⟩
    · cases ending
      exact ⟨idBytes ++ [0], by simp, .excludedRecipient isId⟩
  · rintro ⟨part, rfl, isRecipient⟩
    cases isRecipient with
    | @perRecipientData idBytes deviceBytes c tag id devices isId isList cLength tagLength =>
      have nonempty : ¬(devices.isEmpty = true) := by
        simpa using isList.ne_nil
      have length_eq : (c ++ tag).length = MESSAGE_KEY_LEN + AUTH_TAG_LEN := by
        rw [length_append, cLength, tagLength]
      refine bind_eq_ok.mpr ⟨(id, deviceBytes ++ (c ++ tag ++ rest)),
        (parseServiceId_eq_ok_iff known).mpr ⟨idBytes, by simp, isId⟩, ?_⟩
      refine bind_eq_ok.mpr ⟨(devices, c ++ tag ++ rest),
        parseDevices_listed isList [] _, ?_⟩
      dsimp only
      rw [if_neg nonempty]
      exact bind_eq_ok.mpr ⟨(c ++ tag, rest), advance_append length_eq rest, rfl⟩
    | @excludedRecipient idBytes id isId =>
      exact bind_eq_ok.mpr ⟨(id, 0 :: rest),
        (parseServiceId_eq_ok_iff known).mpr ⟨idBytes, by simp, isId⟩, rfl⟩

theorem parseRecipients_eq_ok_iff {count : ℕ}
    {recipients merged : List (ServiceId × SentMessageRecipient)} :
    parseRecipients version count bytes recipients = .ok (merged, rest) ↔
      ∃ parts occurrences, bytes = parts.flatten ++ rest ∧ occurrences.length = count ∧
        Forall₂ (IsRecipient version) parts occurrences ∧
        insertAll mergeRecipient occurrences recipients = .ok merged := by
  induction count generalizing bytes recipients with
  | zero =>
    constructor
    · intro parsed
      cases parsed
      exact ⟨[], [], rfl, rfl, .nil, rfl⟩
    · rintro ⟨parts, occurrences, rfl, length_eq, isRecipients, inserted⟩
      obtain rfl := length_eq_zero_iff.mp length_eq
      cases isRecipients
      cases inserted
      rfl
  | succ count ih =>
    constructor
    · intro parsed
      obtain ⟨⟨entry, after⟩, first, continued⟩ := bind_eq_ok.mp parsed
      obtain ⟨part, rfl, isRecipient⟩ := (parseRecipient_eq_ok_iff known).mp first
      obtain ⟨map, inserted, later⟩ := bind_eq_ok.mp continued
      obtain ⟨parts, occurrences, rfl, rfl, isRecipients, allInserted⟩ := ih.mp later
      refine ⟨part :: parts, entry :: occurrences, by simp, rfl, .cons isRecipient isRecipients,
        ?_⟩
      rw [insertAll, foldlM_cons, inserted]
      exact allInserted
    · rintro ⟨parts, occurrences, rfl, length_eq, isRecipients, inserted⟩
      cases isRecipients with
      | nil => cases length_eq
      | @cons part entry parts occurrences isRecipient isRecipients =>
        rw [insertAll, foldlM_cons] at inserted
        obtain ⟨map, first, later⟩ := bind_eq_ok.mp inserted
        refine bind_eq_ok.mpr ⟨(entry, parts.flatten ++ rest),
          (parseRecipient_eq_ok_iff known).mpr ⟨part, by simp, isRecipient⟩, ?_⟩
        refine bind_eq_ok.mpr ⟨map, first, ?_⟩
        exact ih.mpr ⟨parts, occurrences, rfl, Nat.succ.inj length_eq, isRecipients, later⟩

end

end recipients

theorem mergeRecipient_eq_ok_iff :
    mergeRecipient existing found = .ok merged ↔
      (existing.devices ≠ [] ∧ found.devices ≠ []) ∧
        merged = ⟨existing.devices ++ found.devices, existing.cAndAt⟩ := by
  unfold mergeRecipient
  simp only [List.isEmpty_iff]
  by_cases empty : existing.devices = [] ∨ found.devices = []
  · rw [if_pos empty]
    constructor
    · intro failed
      cases failed
    · rintro ⟨⟨existing_ne, found_ne⟩, -⟩
      exact (empty.elim existing_ne found_ne).elim
  · rw [if_neg empty]
    constructor
    · intro merges
      cases merges
      exact ⟨not_or.mp empty, rfl⟩
    · rintro ⟨-, rfl⟩
      rfl

theorem joined_append (nonempty : items ≠ []) (item : SentMessageRecipient) :
    joined (items ++ [item]) =
      ⟨(joined items).devices ++ item.devices, (joined items).cAndAt⟩ := by
  obtain ⟨first, rest, rfl⟩ := exists_cons_of_ne_nil nonempty
  simp [joined]

theorem compatible_itemsOf (compatible : occurrences.Pairwise Compatible) (id : ServiceId) :
    (itemsOf id occurrences).Pairwise
      fun first second => first.devices ≠ [] ∧ second.devices ≠ [] := by
  rw [itemsOf, pairwise_map]
  apply (compatible.filter _).imp_of_mem
  intro first second firstMember secondMember together
  have firstId : first.1 = id := by simpa using (mem_filter.mp firstMember).2
  have secondId : second.1 = id := by simpa using (mem_filter.mp secondMember).2
  exact together (firstId.trans secondId.symm)

theorem devices_joined_ne_nil (nonempty : items ≠ [])
    (compatible : items.Pairwise fun first second => first.devices ≠ [] ∧ second.devices ≠ []) :
    (joined items).devices ≠ [] ↔ ∀ item ∈ items, item.devices ≠ [] := by
  obtain ⟨first, rest, rfl⟩ := exists_cons_of_ne_nil nonempty
  constructor
  · intro some item member
    cases rest with
    | nil =>
      obtain rfl := mem_singleton.mp member
      simpa [joined] using some
    | cons second rest =>
      have withFirst := (pairwise_cons.mp compatible).1
      rcases mem_cons.mp member with rfl | later
      · exact (withFirst second mem_cons_self).1
      · exact (withFirst item later).2
  · intro all
    exact append_ne_nil_of_left_ne_nil (all first mem_cons_self) _

theorem reported_eq (occurrences : List (ServiceId × SentMessageRecipient)) :
    reported occurrences = (firsts occurrences).map fun id =>
      (id, joined (itemsOf id occurrences)) := by
  rw [reported, grouped, map_map]
  rfl

theorem compatible_all_iff {item : SentMessageRecipient} :
    (∀ earlier ∈ before, Compatible earlier (id, item)) ↔
      ∀ held ∈ itemsOf id before, held.devices ≠ [] ∧ item.devices ≠ [] := by
  constructor
  · intro all held member
    exact all (id, held) (mem_itemsOf.mp member) rfl
  · rintro all ⟨_, held⟩ member rfl
    exact all held (mem_itemsOf.mpr member)

theorem reported_append_of_mem (known : id ∈ firsts before)
    (item : SentMessageRecipient) :
    reported (before ++ [(id, item)]) = (firsts before).map fun other =>
      (other, if other = id then joined (itemsOf id before ++ [item])
        else joined (itemsOf other before)) := by
  have keys := firsts_append_run before id (cons_ne_nil item [])
  rw [if_pos known] at keys
  rw [reported_eq]
  change (firsts (before ++ [item].map (id, ·))).map _ = _
  rw [keys]
  apply map_congr_left
  intro other _
  have items : itemsOf other [(id, item)] = if id = other then [item] else [] :=
    itemsOf_run other id [item]
  rw [itemsOf_append, items]
  by_cases same : other = id
  · simp [same]
  · simp [same, Ne.symm same]

theorem reported_append_of_notMem (new : id ∉ firsts before)
    (item : SentMessageRecipient) :
    reported (before ++ [(id, item)]) = reported before ++ [(id, item)] := by
  have absent : itemsOf id before = [] := by
    by_contra held
    obtain ⟨other, member⟩ := exists_mem_of_ne_nil _ held
    apply new
    rw [mem_firsts]
    exact mem_map_of_mem (mem_itemsOf.mp member)
  have keys := firsts_append_run before id (cons_ne_nil item [])
  rw [if_neg new] at keys
  rw [reported_eq, reported_eq]
  change (firsts (before ++ [item].map (id, ·))).map _ = _
  rw [keys, map_append]
  congr 1
  · apply map_congr_left
    intro other member
    have different : id ≠ other := by
      rintro rfl
      exact new member
    have items : itemsOf other [(id, item)] = if id = other then [item] else [] :=
      itemsOf_run other id [item]
    rw [itemsOf_append, items, if_neg different, append_nil]
  · have items : itemsOf id [(id, item)] = if id = id then [item] else [] :=
      itemsOf_run id id [item]
    simp [absent, items, joined]

theorem insert_reported (compatible : before.Pairwise Compatible)
    (entry : ServiceId × SentMessageRecipient) :
    insert mergeRecipient (reported before) entry.1 entry.2 = .ok map ↔
      (∀ earlier ∈ before, Compatible earlier entry) ∧ map = reported (before ++ [entry]) := by
  obtain ⟨id, item⟩ := entry
  rw [compatible_all_iff]
  dsimp only
  by_cases known : id ∈ firsts before
  · have held_ne := itemsOf_ne_nil known
    have joined_ne := devices_joined_ne_nil held_ne (compatible_itemsOf compatible id)
    rw [reported_append_of_mem known, reported_eq]
    by_cases merges : (∀ held ∈ itemsOf id before, held.devices ≠ []) ∧
        item.devices ≠ []
    · have merged := mergeRecipient_eq_ok_iff.mpr ⟨⟨joined_ne.mpr merges.1, merges.2⟩, rfl⟩
      rw [← joined_append held_ne] at merged
      rw [insert_of_mem (nodup_firsts before) known merged]
      constructor
      · intro inserted
        exact ⟨fun held member => ⟨merges.1 held member, merges.2⟩, (Except.ok.inj inserted).symm⟩
      · rintro ⟨-, rfl⟩
        rfl
    · have failing : ∃ error, mergeRecipient (joined (itemsOf id before)) item =
          .error error := by
        cases outcome : mergeRecipient (joined (itemsOf id before)) item with
        | error error => exact ⟨error, rfl⟩
        | ok merged =>
          obtain ⟨⟨joinedSome, some⟩, -⟩ := mergeRecipient_eq_ok_iff.mp outcome
          exact absurd ⟨joined_ne.mp joinedSome, some⟩ merges
      obtain ⟨error, fails⟩ := failing
      rw [insert_error_of_mem known fails]
      constructor
      · intro inserted
        cases inserted
      · rintro ⟨all, -⟩
        obtain ⟨held, member⟩ := exists_mem_of_ne_nil _ held_ne
        exact absurd ⟨fun held member => (all held member).1, (all held member).2⟩ merges
  · have notThere : id ∉ (reported before).map (·.1) := by
      rw [reported_eq, map_map]
      simpa [Function.comp_def] using known
    rw [insert_of_notMem item notThere, reported_append_of_notMem known]
    constructor
    · intro inserted
      refine ⟨fun held member => ?_, (Except.ok.inj inserted).symm⟩
      exact absurd (mem_firsts.mpr (mem_map_of_mem
        (mem_itemsOf.mp member))) known
    · rintro ⟨-, rfl⟩
      rfl

theorem insertAll_reported {before occurrences : List (ServiceId × SentMessageRecipient)}
    (compatible : before.Pairwise Compatible) :
    insertAll mergeRecipient occurrences (reported before) = .ok map ↔
      (before ++ occurrences).Pairwise Compatible ∧ map = reported (before ++ occurrences) := by
  induction occurrences generalizing before with
  | nil =>
    rw [append_nil]
    constructor
    · intro inserted
      cases inserted
      exact ⟨compatible, rfl⟩
    · rintro ⟨-, rfl⟩
      rfl
  | cons entry rest ih =>
    rw [append_cons, insertAll, foldlM_cons]
    constructor
    · intro inserted
      obtain ⟨next, first, later⟩ := bind_eq_ok.mp inserted
      obtain ⟨withEntry, rfl⟩ := (insert_reported compatible entry).mp first
      have nextCompatible : (before ++ [entry]).Pairwise Compatible := by
        refine pairwise_append.mpr ⟨compatible, pairwise_singleton _ _, ?_⟩
        intro earlier member _ isEntry
        rw [mem_singleton.mp isEntry]
        exact withEntry earlier member
      exact (ih nextCompatible).mp later
    · rintro ⟨all, rfl⟩
      have nextCompatible := (pairwise_append.mp all).1
      refine bind_eq_ok.mpr ⟨reported (before ++ [entry]), ?_,
        (ih nextCompatible).mpr ⟨all, rfl⟩⟩
      refine (insert_reported compatible entry).mpr ⟨?_, rfl⟩
      intro earlier member
      exact (pairwise_append.mp nextCompatible).2.2 earlier member entry
        (mem_singleton_self entry)

theorem decodeVarint_eq_ok_iff :
    decodeVarint bytes = .ok (count, rest) ↔
      ∃ countBytes after, bytes = countBytes ++ after ∧ Encodes countBytes count ∧
        countBytes.length ≤ 10 ∧ count < 2 ^ 32 ∧
        rest = bytes.drop (encode count).length := by
  constructor
  · intro decoded
    obtain ⟨number, read, continued⟩ := bind_eq_ok.mp decoded
    obtain ⟨_, checked, ended⟩ := bind_eq_ok.mp continued
    have small : number < 2 ^ 32 := ensure_eq_ok.mp checked
    cases ended
    obtain ⟨countBytes, after, split, encodes, short⟩ :=
      (decode_eq_some_iff (small.trans (by decide))).mp (okOr_eq_ok.mp read)
    exact ⟨countBytes, after, split, encodes, short, small, rfl⟩
  · rintro ⟨countBytes, after, split, encodes, short, small, rfl⟩
    have read := (decode_eq_some_iff (small.trans (by decide))).mpr
      ⟨countBytes, after, split, encodes, short⟩
    exact bind_eq_ok.mpr ⟨count, okOr_eq_ok.mpr read,
      bind_eq_ok.mpr ⟨(), ensure_eq_ok.mpr small, rfl⟩⟩

/-- What the code skips as the count leaves this. -/
def afterCount (countBytes rest : List UInt8) (count : ℕ) : List UInt8 :=
  (countBytes ++ rest).drop (encode count).length

/-- What is accepted and reported: the grammar, but for the place where the recipients start. -/
theorem parse_eq_ok_iff {message : SealedSenderV2SentMessage} :
    parse data = .ok message ↔
      ∃ version countBytes rest parts occurrences shared,
        IsHeader data version countBytes occurrences.length rest ∧
        IsBody version (afterCount countBytes rest occurrences.length) parts occurrences shared ∧
        message = ⟨data, version, reported occurrences, shared⟩ := by
  constructor
  · intro parsed
    cases data with
    | nil => cases parsed
    | cons version body =>
      obtain ⟨_, checked, counted⟩ := bind_eq_ok.mp parsed
      have known := ensure_eq_ok.mp checked
      obtain ⟨⟨count, bytes⟩, decoded, read⟩ := bind_eq_ok.mp counted
      obtain ⟨countBytes, rest, rfl, encodes, short, small, rfl⟩ :=
        decodeVarint_eq_ok_iff.mp decoded
      obtain ⟨⟨recipients, shared⟩, recipientsRead, ending⟩ := bind_eq_ok.mp read
      obtain ⟨_, sharedChecked, ended⟩ := bind_eq_ok.mp ending
      cases ended
      obtain ⟨parts, occurrences, split, rfl, isRecipients, inserted⟩ :=
        (parseRecipients_eq_ok_iff known).mp recipientsRead
      obtain ⟨compatible, rfl⟩ := (insertAll_reported .nil).mp inserted
      exact ⟨version, countBytes, rest, parts, occurrences, shared,
        ⟨rfl, known, encodes, short, small⟩,
        ⟨split, isRecipients, compatible, ensure_eq_ok.mp sharedChecked⟩, rfl⟩
  · rintro ⟨version, countBytes, rest, parts, occurrences, shared, header, body, rfl⟩
    rw [header.split]
    refine bind_eq_ok.mpr ⟨(), ensure_eq_ok.mpr header.version, ?_⟩
    refine bind_eq_ok.mpr ⟨(occurrences.length, _), decodeVarint_eq_ok_iff.mpr
      ⟨countBytes, rest, rfl, header.encodes, header.short, header.small, rfl⟩, ?_⟩
    refine bind_eq_ok.mpr ⟨(reported occurrences, shared),
      (parseRecipients_eq_ok_iff header.version).mpr ⟨parts, occurrences, body.split, rfl,
        body.recipients, ?_⟩, ?_⟩
    · exact (insertAll_reported .nil).mpr ⟨body.compatible, rfl⟩
    · exact bind_eq_ok.mpr ⟨(), ensure_eq_ok.mpr body.shared, rfl⟩

theorem cAndAt_infix_flatten {parts : List (List UInt8)}
    (recipients : Forall₂ (IsRecipient version) parts occurrences)
    {entry : ServiceId × SentMessageRecipient} (member : entry ∈ occurrences) :
    entry.2.cAndAt <:+: parts.flatten := by
  induction recipients with
  | nil => cases member
  | cons isRecipient _ ih =>
    rw [flatten_cons]
    rcases mem_cons.mp member with rfl | later
    · apply IsInfix.trans _ (prefix_append _ _).isInfix
      cases isRecipient with
      | perRecipientData _ _ _ _ =>
        rw [append_assoc]
        exact (suffix_append _ _).isInfix
      | excludedRecipient _ => exact nil_infix
    · exact (ih later).trans (suffix_append _ _).isInfix

/-- The fields are slices of the input: the shared bytes from their offset on, and the key
material of each recipient somewhere before. -/
theorem slices_of_parse {message : SealedSenderV2SentMessage} (parsed : parse data = .ok message) :
    data.drop message.offsetOfSharedBytes = message.sharedBytes ∧
      ∀ entry ∈ message.recipients,
        entry.2.cAndAt <:+: data.take message.offsetOfSharedBytes := by
  obtain ⟨version, countBytes, rest, parts, occurrences, shared, header, body, rfl⟩ :=
    parse_eq_ok_iff.mp parsed
  obtain ⟨front, split⟩ : ∃ front, data = front ++ parts.flatten ++ shared := by
    refine ⟨version :: (countBytes ++ rest).take (encode occurrences.length).length, ?_⟩
    rw [append_assoc, ← body.split, afterCount, cons_append, take_append_drop, header.split]
  have offset : data.length - shared.length = (front ++ parts.flatten).length := by
    rw [split, length_append, Nat.add_sub_cancel]
  simp only [offsetOfSharedBytes, offset]
  rw [split, drop_left, take_left]
  refine ⟨rfl, fun entry member => .trans ?_ (suffix_append _ _).isInfix⟩
  rw [reported_eq] at member
  obtain ⟨id, -, rfl⟩ := mem_map.mp member
  cases held : itemsOf id occurrences with
  | nil => exact nil_infix
  | cons first others =>
    have member : (id, first) ∈ occurrences := mem_itemsOf.mp (held ▸ mem_cons_self)
    exact (cAndAt_infix_flatten body.recipients member :)

def idLength (version : UInt8) : ℕ :=
  if version = SEALED_SENDER_V2_UUID_FULL_VERSION then 16 else 17

theorem IsServiceId.length_eq (isId : IsServiceId version bytes id) :
    bytes.length = idLength version := by
  cases isId with
  | uuid uuid old =>
    rw [idLength, if_pos old]
    exact uuid.length_eq
  | fixedWidth _ new =>
    rw [idLength, new, if_neg (by decide)]
    exact id.length_fixedWidthBinary

theorem IsDeviceList.length_eq (isList : IsDeviceList bytes devices) :
    bytes.length = 3 * devices.length := by
  induction isList with
  | last => rfl
  | more _ _ _ ih =>
    simp only [length_cons, ih]
    omega

def emptyCount (recipient : SentMessageRecipient) : ℕ :=
  if recipient.devices = [] then 1 else 0

theorem IsRecipient.length_eq {part : List UInt8} {entry : ServiceId × SentMessageRecipient}
    (isRecipient : IsRecipient version part entry) :
    part.length + 47 * emptyCount entry.2 =
      idLength version + 48 + 3 * entry.2.devices.length := by
  cases isRecipient with
  | perRecipientData isId isList cLength tagLength =>
    simp only [emptyCount, if_neg isList.ne_nil, length_append, isId.length_eq,
      isList.length_eq, cLength, tagLength, MESSAGE_KEY_LEN, AUTH_TAG_LEN]
    omega
  | excludedRecipient isId =>
    simp [emptyCount, isId.length_eq]

theorem length_parts {parts : List (List UInt8)}
    (isRecipients : Forall₂ (IsRecipient version) parts occurrences) :
    parts.flatten.length + 47 * (occurrences.map fun entry => emptyCount entry.2).sum =
      occurrences.length * (idLength version + 48) +
        3 * (occurrences.map fun entry => entry.2.devices.length).sum := by
  induction isRecipients with
  | nil => simp
  | cons isRecipient _ ih =>
    have first := isRecipient.length_eq
    simp only [flatten_cons, length_append, map_cons, sum_cons,
      length_cons, Nat.add_mul, Nat.one_mul] at ih ⊢
    omega

theorem emptyCount_merged (merges : mergeRecipient existing found = .ok merged) :
    emptyCount merged = emptyCount existing + emptyCount found := by
  obtain ⟨⟨existing_ne, found_ne⟩, rfl⟩ := mergeRecipient_eq_ok_iff.mp merges
  simp [emptyCount, existing_ne, found_ne]

theorem devices_merged (merges : mergeRecipient existing found = .ok merged) :
    merged.devices.length = existing.devices.length + found.devices.length := by
  obtain ⟨-, rfl⟩ := mergeRecipient_eq_ok_iff.mp merges
  exact length_append

theorem sum_reported {weight : SentMessageRecipient → ℕ}
    (adds : ∀ {existing found merged}, mergeRecipient existing found = .ok merged →
      weight merged = weight existing + weight found)
    (compatible : occurrences.Pairwise Compatible) :
    ((reported occurrences).map fun entry => weight entry.2).sum =
      (occurrences.map fun entry => weight entry.2).sum := by
  have inserted := (insertAll_reported .nil).mpr ⟨compatible, rfl⟩
  have total := sum_insertAll adds inserted
  simpa [reported, grouped, firsts] using total

theorem IsBody.length_parts_eq {bytes others : List UInt8} {parts otherParts : List (List UInt8)}
    {occurrences otherOccurrences : List (ServiceId × SentMessageRecipient)}
    {shared otherShared : List UInt8} (body : IsBody version bytes parts occurrences shared)
    (otherBody : IsBody version others otherParts otherOccurrences otherShared)
    (sameCount : occurrences.length = otherOccurrences.length)
    (same : reported occurrences = reported otherOccurrences) :
    parts.flatten.length = otherParts.flatten.length := by
  have length_eq := length_parts body.recipients
  have otherLength_eq := length_parts otherBody.recipients
  rw [← sum_reported emptyCount_merged body.compatible,
    ← sum_reported devices_merged body.compatible] at length_eq
  rw [← sum_reported emptyCount_merged otherBody.compatible,
    ← sum_reported devices_merged otherBody.compatible, ← same, ← sameCount] at otherLength_eq
  omega

/-- The bytes have as many recipients and what all of them receive. -/
def HasBody (version : UInt8) (count : ℕ) (bytes : List UInt8) : Prop :=
  ∃ parts occurrences shared, occurrences.length = count ∧
    IsBody version bytes parts occurrences shared

theorem IsHeader.unique {version otherVersion : UInt8}
    {countBytes otherBytes rest otherRest : List UInt8} {count otherCount : ℕ}
    (header : IsHeader data version countBytes count rest)
    (other : IsHeader data otherVersion otherBytes otherCount otherRest) :
    version = otherVersion ∧ countBytes = otherBytes ∧ count = otherCount ∧ rest = otherRest := by
  obtain ⟨sameVersion, same⟩ := cons.inj (header.split.symm.trans other.split)
  exact ⟨sameVersion, header.encodes.unique other.encodes same⟩

/-- The count is written with as few bytes as possible, or else the message is not accepted,
neither by the grammar nor by the code, which then reads the recipients from another place. -/
def CountSkipped (data : List UInt8) : Prop :=
  ∀ version countBytes count rest, IsHeader data version countBytes count rest →
    countBytes = encode count ∨
      ¬HasBody version count rest ∧ ¬HasBody version count (afterCount countBytes rest count)

theorem afterCount_encode (rest : List UInt8) (count : ℕ) :
    afterCount (encode count) rest count = rest :=
  drop_left

theorem IsHeader.length_afterCount {countBytes rest : List UInt8}
    (header : IsHeader data version countBytes count rest)
    (notShortest : countBytes ≠ encode count) :
    rest.length < (afterCount countBytes rest count).length := by
  have notLonger : (encode count).length ≤ countBytes.length :=
    header.encodes.length_encodeLoop_le _
  have different : (encode count).length ≠ countBytes.length := by
    intro same
    have encodes := encodes_encode (header.small.trans (show 2 ^ 32 < 2 ^ 64 by decide))
    exact notShortest (header.encodes.eq_of_length encodes same.symm)
  rw [afterCount, length_drop, length_append]
  omega

/-- The parser agrees with the grammar on an input exactly if what it skips for the count does not
matter there. -/
theorem parsedByGrammar_iff (data : List UInt8) : ParsedByGrammar data ↔ CountSkipped data := by
  constructor
  · intro agrees version countBytes count rest header
    by_cases shortest : countBytes = encode count
    · exact .inl shortest
    have longer := header.length_afterCount shortest
    have noneForCode : ¬HasBody version count (afterCount countBytes rest count) := by
      -- What is reported fixes the length of the recipients, and so where the shared bytes start.
      rintro ⟨parts, occurrences, shared, rfl, body⟩
      have parsed := parse_eq_ok_iff.mpr
        ⟨version, countBytes, rest, parts, occurrences, shared, header, body, rfl⟩
      obtain ⟨_, _, _, otherParts, others, otherShared, otherHeader, otherBody, same⟩ :=
        (agrees _).mp parsed
      obtain ⟨rfl, rfl, sameCount, rfl⟩ := header.unique otherHeader
      obtain ⟨-, -, sameRecipients, sameShared⟩ := SealedSenderV2SentMessage.mk.inj same
      have sameLength := body.length_parts_eq otherBody sameCount sameRecipients
      have length_eq := congrArg length body.split
      have otherLength_eq := congrArg length otherBody.split
      rw [length_append, sameShared] at length_eq
      rw [length_append] at otherLength_eq
      omega
    refine .inr ⟨?_, noneForCode⟩
    rintro ⟨parts, occurrences, shared, rfl, body⟩
    have accepted := (agrees _).mpr
      ⟨version, countBytes, rest, parts, occurrences, shared, header, body, rfl⟩
    obtain ⟨_, _, _, otherParts, others, otherShared, otherHeader, otherBody, -⟩ :=
      parse_eq_ok_iff.mp accepted
    obtain ⟨rfl, rfl, sameCount, rfl⟩ := header.unique otherHeader
    rw [← sameCount] at otherBody
    exact noneForCode ⟨otherParts, others, otherShared, sameCount.symm, otherBody⟩
  · intro skipped message
    rw [parse_eq_ok_iff]
    constructor
    · rintro ⟨version, countBytes, rest, parts, occurrences, shared, header, body, rfl⟩
      rcases skipped _ _ _ _ header with rfl | ⟨-, noneForCode⟩
      · rw [afterCount_encode] at body
        exact ⟨version, _, rest, parts, occurrences, shared, header, body, rfl⟩
      · exact absurd ⟨parts, occurrences, shared, rfl, body⟩ noneForCode
    · rintro ⟨version, countBytes, rest, parts, occurrences, shared, header, body, rfl⟩
      rcases skipped _ _ _ _ header with rfl | ⟨none, -⟩
      · refine ⟨version, _, rest, parts, occurrences, shared, header, ?_, rfl⟩
        rw [afterCount_encode]
        exact body
      · exact absurd ⟨parts, occurrences, shared, rfl, body⟩ none

/-- No recipients, with the count in two bytes, and 32 bytes after it. -/
def longCount : List UInt8 :=
  [SEALED_SENDER_V2_SERVICE_ID_FULL_VERSION, 0x80, 0x00] ++ replicate 32 0

/-- The second byte of the count is reported as the first one of the shared bytes. -/
theorem not_parsedByGrammar_longCount :
    parse longCount =
      .ok ⟨longCount, SEALED_SENDER_V2_SERVICE_ID_FULL_VERSION, [], replicate 33 0⟩ ∧
    IsHeader longCount SEALED_SENDER_V2_SERVICE_ID_FULL_VERSION [0x80, 0x00] 0
      (replicate 32 0) ∧
    IsBody SEALED_SENDER_V2_SERVICE_ID_FULL_VERSION (replicate 32 0) [] []
      (replicate 32 0) ∧
    ¬ParsedByGrammar longCount := by
  have parsed : parse longCount =
      .ok ⟨longCount, SEALED_SENDER_V2_SERVICE_ID_FULL_VERSION, [], replicate 33 0⟩ := by
    decide +kernel
  have header : IsHeader longCount SEALED_SENDER_V2_SERVICE_ID_FULL_VERSION [0x80, 0x00] 0
      (replicate 32 0) :=
    ⟨rfl, .inr rfl, .more (by decide) (.last (by decide)), by decide, by decide⟩
  have body : IsBody SEALED_SENDER_V2_SERVICE_ID_FULL_VERSION (replicate 32 0) [] []
      (replicate 32 0) :=
    ⟨rfl, .nil, .nil, Nat.le_refl 32⟩
  refine ⟨parsed, header, body, ?_⟩
  intro agrees
  have accepted := (agrees _).mpr ⟨_, _, _, _, _, _, header, body, rfl⟩
  have same := Except.ok.inj (parsed.symm.trans accepted)
  exact absurd (congrArg (·.sharedBytes.length) same) (by decide)

end SentMessageGrammar

end LegacySignal
