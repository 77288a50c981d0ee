import LegacySignal.Data.AttachmentCipher

/-!
# Formats of attachments

`AttachmentCipher.decrypt` does not know how the bytes were encrypted and tries
one format after the other. Since a MAC that does not match is ignored, bytes in
one format may also decrypt in another that comes earlier.

Not covered here is a plain AES-CBC text under a key of 32 bytes, which is only
tried after AES-CTR.
-/

namespace LegacySignal

open List

/-- The ciphers undo what was encrypted, CBC fails exactly on bad padding and GCM exactly on a bad
tag. -/
structure AttachmentFormats (C : AttachmentPrimitives) where
  aesGcmEncrypt : List UInt8 → List UInt8 → List UInt8 → List UInt8
  aesCtrEncrypt : List UInt8 → List UInt8 → List UInt8 → List UInt8
  length_hmac (key text : List UInt8) : (C.hmacSha256 key text).length = 32
  length_derived (key info : List UInt8) : (C.deriveSecrets key info).length = 64
  cbc_ne_nil (key iv text : List UInt8) : C.aesCbcEncrypt key iv text ≠ []
  cbc_iff (key iv text data : List UInt8) (notEmpty : data ≠ []) :
    C.aesCbcDecrypt key iv data = some text ↔ data = C.aesCbcEncrypt key iv text
  gcm_iff (key iv text data : List UInt8) :
    C.aesGcmDecrypt key iv data = some text ↔ data = aesGcmEncrypt key iv text
  length_gcm (key iv text : List UInt8) : (aesGcmEncrypt key iv text).length = text.length + 16
  ctr_encrypt (key iv text : List UInt8) :
    C.aesCtrDecrypt key iv (aesCtrEncrypt key iv text) = some text
  length_ctr (key iv text : List UInt8) : (aesCtrEncrypt key iv text).length = text.length

theorem AttachmentFormats.lawful {C : AttachmentPrimitives} (formats : AttachmentFormats C) :
    C.Lawful where
  length_hmac := formats.length_hmac
  encrypted_ne_nil := formats.cbc_ne_nil
  decrypt_encrypt key iv text :=
    (formats.cbc_iff key iv text _ (formats.cbc_ne_nil key iv text)).mpr rfl

/-- The formats for a key of 32 bytes. -/
inductive AttachmentFormat where
  /-- CBC and HMAC under the 64 bytes derived with the info -/
  | cbcHmac (info : List UInt8)
  | gcm
  | ctr

namespace AttachmentFormat

def ivLength : AttachmentFormat → ℕ
  | cbcHmac _ => 16
  | gcm => 12
  | ctr => 16

def Covers : AttachmentFormat → List UInt8 → Prop
  | cbcHmac info, _ => info ∈ AttachmentCipher.infos
  | gcm, text => text ≠ []
  | ctr, text => text ≠ []

end AttachmentFormat

def AttachmentFormats.encode {C : AttachmentPrimitives} (formats : AttachmentFormats C)
    (key iv text : List UInt8) : AttachmentFormat → List UInt8
  | .cbcHmac info => (AttachmentCipher.encrypt C (C.deriveSecrets key info) iv text).ciphertext
  | .gcm => iv ++ formats.aesGcmEncrypt key iv text
  | .ctr => iv ++ formats.aesCtrEncrypt key iv text

namespace AttachmentCipher

variable {C : AttachmentPrimitives}

variable (C) in
def expandedReading (encryptedBytes keyBytes info : List UInt8) : Option (List UInt8) :=
  (decryptWith64ByteKey C encryptedBytes (C.deriveSecrets keyBytes info)).1.toOption

variable (C) in
def gcmReading (encryptedBytes keyBytes : List UInt8) : Option (List UInt8) :=
  (tryReading C.aesGcmDecrypt 12 28 .gcmFailed encryptedBytes keyBytes).1

variable (C) in
def ctrReading (encryptedBytes keyBytes : List UInt8) : Option (List UInt8) :=
  (tryReading C.aesCtrDecrypt 16 16 .ctrFailed encryptedBytes keyBytes).1

variable (C) in
def cbcReading (encryptedBytes keyBytes : List UInt8) : Option (List UInt8) :=
  (tryReading C.aesCbcDecrypt 16 16 .cbcFailed encryptedBytes keyBytes).1

variable (C) in
/-- The readings that are tried before the one for the format. -/
def earlierReadings (encryptedBytes keyBytes : List UInt8) :
    AttachmentFormat → List (Option (List UInt8))
  | .cbcHmac info =>
    (infos.takeWhile (· != info)).map (expandedReading C encryptedBytes keyBytes)
  | .gcm => infos.map (expandedReading C encryptedBytes keyBytes)
  | .ctr =>
    infos.map (expandedReading C encryptedBytes keyBytes) ++
      [gcmReading C encryptedBytes keyBytes]

section readings

variable {encryptedBytes keyBytes text : List UInt8}

theorem fst_firstReading (readings : List (Option (List UInt8) × List AttachmentWarning)) :
    (firstReading readings).1 = (readings.map Prod.fst).findSome? id := by
  induction readings with
  | nil => rfl
  | cons reading rest ih =>
    obtain ⟨plaintext, warnings⟩ := reading
    cases plaintext with
    | some plaintext => rfl
    | none => exact ih

theorem fst_tryExpanded (tried : List (List UInt8)) :
    (tryExpanded C encryptedBytes keyBytes tried).1 =
      (tried.map (expandedReading C encryptedBytes keyBytes)).findSome? id := by
  induction tried with
  | nil => rfl
  | cons info rest ih =>
    rw [tryExpanded, map_cons, expandedReading]
    cases decryptWith64ByteKey C encryptedBytes (C.deriveSecrets keyBytes info) with
    | mk result warnings =>
      cases result with
      | ok plaintext => rfl
      | error exception => exact ih

theorem findSome?_nested (nested : List (Option (List UInt8)))
    (rest : List (Option (List UInt8))) :
    (nested.findSome? id :: rest).findSome? id = (nested ++ rest).findSome? id := by
  rw [findSome?_append, findSome?_cons]
  cases nested.findSome? id <;> rfl

theorem fst_strategies (thirtyTwo : keyBytes.length = 32) :
    (strategies C encryptedBytes keyBytes).1 =
      (infos.map (expandedReading C encryptedBytes keyBytes) ++
        [gcmReading C encryptedBytes keyBytes, ctrReading C encryptedBytes keyBytes,
          cbcReading C encryptedBytes keyBytes]).findSome? id := by
  unfold strategies
  rw [if_neg (by omega), if_pos thirtyTwo, fst_firstReading]
  simp only [map_cons, map_nil]
  rw [fst_tryExpanded, findSome?_nested]
  rfl

/-- The text is returned exactly if no reading before the one that gives it succeeds with another
result. -/
theorem decrypt_eq_ok_iff_earlier (thirtyTwo : keyBytes.length = 32)
    (notEmpty : encryptedBytes ≠ []) {earlier later : List (Option (List UInt8))}
    (isReading : infos.map (expandedReading C encryptedBytes keyBytes) ++
        [gcmReading C encryptedBytes keyBytes, ctrReading C encryptedBytes keyBytes,
          cbcReading C encryptedBytes keyBytes] = earlier ++ some text :: later) :
    (decrypt C encryptedBytes keyBytes).1 = .ok text ↔
      ∀ other, earlier.findSome? id = some other → other = text := by
  have found := @fst_strategies C encryptedBytes keyBytes thirtyTwo
  rw [isReading, findSome?_append] at found
  unfold decrypt
  rw [if_neg (by simpa using notEmpty)]
  generalize strategies C encryptedBytes keyBytes = tried at found
  obtain ⟨plaintext, warnings⟩ := tried
  dsimp only at found
  subst found
  cases earlier.findSome? id with
  | none => simp
  | some other =>
    change Except.ok other = Except.ok text ↔ _
    simp

end readings

theorem exists_takeWhile {info : List UInt8} {tried : List (List UInt8)} (isTried : info ∈ tried) :
    ∃ before rest, tried = before ++ info :: rest ∧ tried.takeWhile (· != info) = before := by
  induction tried with
  | nil => cases isTried
  | cons first tried ih =>
    by_cases same : first = info
    · subst same
      exact ⟨[], tried, rfl, takeWhile_cons_of_neg (by simp)⟩
    · have inRest : info ∈ tried := (mem_cons.mp isTried).resolve_left (Ne.symm same)
      obtain ⟨before, rest, isTried, isBefore⟩ := ih inRest
      refine ⟨first :: before, rest, by rw [isTried, cons_append], ?_⟩
      rw [takeWhile_cons_of_pos (by simpa using same), isBefore]

section formats

variable (formats : AttachmentFormats C) {key iv text : List UInt8}

theorem decryptWith64ByteKey_encrypt (lawful : C.Lawful) (sixteen : iv.length = 16) :
    (decryptWith64ByteKey C (encrypt C key iv text).ciphertext key).1 = .ok text := by
  have macLength := lawful.length_hmac ((key.drop 32).take 32)
    (iv ++ C.aesCbcEncrypt (key.take 32) iv text)
  have blocks : 0 < (C.aesCbcEncrypt (key.take 32) iv text).length :=
    length_pos_iff.mpr (lawful.encrypted_ne_nil _ _ _)
  have length : 48 < (encrypt C key iv text).ciphertext.length := by
    simp only [encrypt, length_append, sixteen, macLength]
    omega
  have isIv : (encrypt C key iv text).ciphertext.take 16 = iv := by
    simp only [encrypt, append_assoc, take_left' sixteen]
  have isData : stripped (encrypt C key iv text).ciphertext =
      C.aesCbcEncrypt (key.take 32) iv text := by
    simp only [encrypt, stripped, append_assoc, drop_left' sixteen, length_append,
      sixteen, macLength]
    exact take_left' (by omega)
  rw [fst_decryptWith64ByteKey, if_pos length, isIv, isData, lawful.decrypt_encrypt]

theorem exists_reading (format : AttachmentFormat) (isIv : iv.length = format.ivLength)
    (covers : format.Covers text) :
    ∃ later, infos.map (expandedReading C (formats.encode key iv text format) key) ++
        [gcmReading C (formats.encode key iv text format) key,
          ctrReading C (formats.encode key iv text format) key,
          cbcReading C (formats.encode key iv text format) key] =
      earlierReadings C (formats.encode key iv text format) key format ++ some text :: later := by
  cases format with
  | cbcHmac info =>
    have isText : expandedReading C (formats.encode key iv text (.cbcHmac info)) key info =
        some text :=
      congrArg Except.toOption (decryptWith64ByteKey_encrypt formats.lawful isIv)
    obtain ⟨before, rest, isInfos, isBefore⟩ := exists_takeWhile covers
    have parted : infos.map (expandedReading C (formats.encode key iv text (.cbcHmac info)) key) =
        before.map (expandedReading C (formats.encode key iv text (.cbcHmac info)) key) ++
          some text ::
            rest.map (expandedReading C (formats.encode key iv text (.cbcHmac info)) key) := by
      rw [isInfos, map_append, map_cons, isText]
    rw [parted, earlierReadings, isBefore, append_assoc]
    exact ⟨_, rfl⟩
  | gcm =>
    have isText : gcmReading C (formats.encode key iv text .gcm) key = some text := by
      have long : 28 < (formats.encode key iv text .gcm).length := by
        have := length_pos_of_ne_nil covers
        simp only [AttachmentFormats.encode, length_append, isIv,
          AttachmentFormat.ivLength, formats.length_gcm]
        omega
      have twelve : iv.length = 12 := isIv
      rw [gcmReading, tryReading, if_pos long, AttachmentFormats.encode, take_left' twelve,
        drop_left' twelve, (formats.gcm_iff key iv text _).mpr rfl]
    exact ⟨_, by rw [isText]; rfl⟩
  | ctr =>
    have isText : ctrReading C (formats.encode key iv text .ctr) key = some text := by
      have long : 16 < (formats.encode key iv text .ctr).length := by
        have := length_pos_of_ne_nil covers
        simp only [AttachmentFormats.encode, length_append, isIv,
          AttachmentFormat.ivLength, formats.length_ctr]
        omega
      have sixteen : iv.length = 16 := isIv
      rw [ctrReading, tryReading, if_pos long, AttachmentFormats.encode, take_left' sixteen,
        drop_left' sixteen, formats.ctr_encrypt]
    refine ⟨[cbcReading C (formats.encode key iv text .ctr) key], ?_⟩
    rw [isText, earlierReadings, append_assoc]
    rfl

theorem encode_ne_nil (format : AttachmentFormat) (isIv : iv.length = format.ivLength) :
    formats.encode key iv text format ≠ [] := by
  have long : iv ≠ [] := by
    rw [ne_eq, ← length_eq_zero_iff, isIv]
    cases format <;> simp [AttachmentFormat.ivLength]
  cases format <;> simp [AttachmentFormats.encode, encrypt, long]

/-- Texts that were encrypted here decrypt. A text in one of the formats for a key of 32 bytes
decrypts exactly if no earlier reading succeeds with another result. -/
theorem decrypt_encode_iff :
    (∀ key iv text : List UInt8, key.length = 64 → iv.length = 16 →
      (decrypt C (encrypt C key iv text).ciphertext key).1 = .ok text) ∧
    ∀ (key iv text : List UInt8) (format : AttachmentFormat), key.length = 32 →
      iv.length = format.ivLength → format.Covers text →
      ((decrypt C (formats.encode key iv text format) key).1 = .ok text ↔
        ∀ other, (earlierReadings C (formats.encode key iv text format) key format).findSome? id =
          some other → other = text) := by
  refine ⟨fun key iv text sixtyFour sixteen => decrypt_encrypt formats.lawful sixtyFour sixteen, ?_⟩
  intro key iv text format thirtyTwo isIv covers
  obtain ⟨later, isReading⟩ := exists_reading formats format isIv covers
  exact decrypt_eq_ok_iff_earlier thirtyTwo (encode_ne_nil formats format isIv) isReading

end formats

namespace PaddedToy

open Toy (total)

def pad (text : List UInt8) : List UInt8 :=
  text ++ replicate (16 - text.length % 16) (UInt8.ofNat (16 - text.length % 16))

def unpad (data : List UInt8) : Option (List UInt8) :=
  let count := (data.getLastD 0).toNat
  let text := data.take (data.length - count)
  if data = pad text then some text else none

theorem unpad_pad (text : List UInt8) : unpad (pad text) = some text := by
  have positive : 0 < 16 - text.length % 16 := by omega
  have last : (pad text).getLastD 0 = UInt8.ofNat (16 - text.length % 16) := by
    obtain ⟨count, isCount⟩ := Nat.exists_eq_succ_of_ne_zero (Nat.ne_of_gt positive)
    rw [pad, isCount, replicate_succ', ← append_assoc, getLastD_concat]
  have count : ((pad text).getLastD 0).toNat = 16 - text.length % 16 := by
    rw [last, UInt8.toNat_ofNat']
    omega
  have text_eq : (pad text).take ((pad text).length - ((pad text).getLastD 0).toNat) = text := by
    rw [count, pad, length_append, length_replicate, Nat.add_sub_cancel,
      take_left' rfl]
  unfold unpad
  dsimp only
  rw [text_eq, if_pos rfl]

theorem unpad_iff {data text : List UInt8} : unpad data = some text ↔ data = pad text := by
  constructor
  · intro unpadded
    unfold unpad at unpadded
    dsimp only at unpadded
    split at unpadded
    · next padded => rwa [← Option.some.inj unpadded]
    · cases unpadded
  · rintro rfl
    exact unpad_pad text

def mask (key iv : List UInt8) : UInt8 := (key.headD 0 &&& 15) ^^^ total iv

def masked (key iv text : List UInt8) : List UInt8 := text.map (· ^^^ mask key iv)

@[simp]
theorem masked_masked (key iv text : List UInt8) : masked key iv (masked key iv text) = text := by
  simp [masked, Function.comp_def]

def tag (key iv text : List UInt8) : List UInt8 :=
  replicate 16 (key.headD 0 + total iv + total text)

def primitives : AttachmentPrimitives where
  hmacSha256 key text := replicate 32 (total key + total text)
  sha256 text := replicate 32 (total text)
  deriveSecrets key info := replicate 64 (total key + total info)
  aesCbcEncrypt key iv text := masked key iv (pad text)
  aesCbcDecrypt key iv data := unpad (masked key iv data)
  aesGcmDecrypt key iv data :=
    let text := masked key iv (data.take (data.length - 16))
    if data = masked key iv text ++ tag key iv text then some text else none
  aesCtrDecrypt key iv data := some (masked key iv data)

def formats : AttachmentFormats primitives where
  aesGcmEncrypt key iv text := masked key iv text ++ tag key iv text
  aesCtrEncrypt := masked
  length_hmac _ _ := length_replicate
  length_derived _ _ := length_replicate
  cbc_ne_nil key iv text := by
    have : 0 < 16 - text.length % 16 := by omega
    simp [primitives, masked, pad]
    omega
  cbc_iff key iv text data _ := by
    change unpad (masked key iv data) = some text ↔ data = masked key iv (pad text)
    rw [unpad_iff]
    constructor
    · intro same
      rw [← same, masked_masked]
    · rintro rfl
      exact masked_masked _ _ _
  gcm_iff key iv text data := by
    change (if data = masked key iv (masked key iv (data.take (data.length - 16))) ++
      tag key iv (masked key iv (data.take (data.length - 16))) then
        some (masked key iv (data.take (data.length - 16))) else none) = some text ↔ _
    constructor
    · intro opened
      split at opened
      · next isEncrypted => rwa [← Option.some.inj opened]
      · cases opened
    · rintro rfl
      have isText : masked key iv ((masked key iv text ++ tag key iv text).take
          ((masked key iv text ++ tag key iv text).length - 16)) = text := by
        rw [length_append, tag, length_replicate, Nat.add_sub_cancel,
          take_left' rfl, masked_masked]
      rw [isText, if_pos rfl]
  length_gcm key iv text := by simp [masked, tag]
  ctr_encrypt key iv text := by simp [primitives]
  length_ctr key iv text := length_map ..

def key : List UInt8 := replicate 32 0

def iv : List UInt8 := replicate 16 0

def text : List UInt8 := replicate 13 0 ++ [1, 1]

def format : AttachmentFormat := .cbcHmac "Signal Attachment".toUTF8.toList

theorem decrypt_encode_iff_secondInfo :
    format.Covers [1, 2, 3, 4] ∧
      (decrypt primitives (formats.encode key iv [1, 2, 3, 4] format) key).1 =
        .ok [1, 2, 3, 4] := by
  have covers : format.Covers [1, 2, 3, 4] := mem_cons_of_mem _ mem_cons_self
  have unread : (earlierReadings primitives (formats.encode key iv [1, 2, 3, 4] format) key
      format).findSome? id = none := by
    decide +kernel
  refine ⟨covers, ((decrypt_encode_iff formats).2 key iv [1, 2, 3, 4] format rfl rfl covers).mpr ?_⟩
  intro other found
  cases unread.symm.trans found

/-- A text under the key for the second info decrypts under that for the first, although the MAC
does not match. -/
theorem decrypt_secondInfo :
    key.length = 32 ∧ iv.length = 16 ∧ "Signal Attachment".toUTF8.toList ∈ infos ∧
      decrypt primitives (formats.encode key iv text format) key =
        (.ok (replicate 13 2), [.hmacMismatch]) ∧ text ≠ replicate 13 2 := by
  decide +kernel

end PaddedToy

end AttachmentCipher

end LegacySignal
