import LegacySignal.Library.Result

/-!
# Attachments

`AttachmentCipher`: an attachment is encrypted under a key of 64 bytes, half of
it for AES and half for the MAC, and decrypted by trying several readings of the
bytes one after the other. A MAC that does not match is logged and otherwise
ignored, and the bytes are also tried without a MAC.

The ciphers are parameters; a decryption that throws is `none`.
-/

namespace LegacySignal

structure AttachmentPrimitives where
  hmacSha256 : List UInt8 → List UInt8 → List UInt8
  sha256 : List UInt8 → List UInt8
  /-- `HKDF.deriveSecrets` of a key with an info, 64 bytes. -/
  deriveSecrets : List UInt8 → List UInt8 → List UInt8
  /-- `AES/CBC/PKCS5Padding` under a key and an initialisation vector. -/
  aesCbcEncrypt : List UInt8 → List UInt8 → List UInt8 → List UInt8
  aesCbcDecrypt : List UInt8 → List UInt8 → List UInt8 → Option (List UInt8)
  /-- `AES/GCM/NoPadding` with a tag of 128 bits. -/
  aesGcmDecrypt : List UInt8 → List UInt8 → List UInt8 → Option (List UInt8)
  /-- `AES/CTR/NoPadding` -/
  aesCtrDecrypt : List UInt8 → List UInt8 → List UInt8 → Option (List UInt8)

/-- Decryption undoes encryption, a MAC has 32 bytes and padding is never empty. -/
structure AttachmentPrimitives.Lawful (C : AttachmentPrimitives) : Prop where
  length_hmac (key text : List UInt8) : (C.hmacSha256 key text).length = 32
  encrypted_ne_nil (key iv text : List UInt8) : C.aesCbcEncrypt key iv text ≠ []
  decrypt_encrypt (key iv text : List UInt8) :
    C.aesCbcDecrypt key iv (C.aesCbcEncrypt key iv text) = some text

structure EncryptedAttachment where
  key : List UInt8
  ciphertext : List UInt8
  digest : List UInt8
deriving DecidableEq, Repr

inductive AttachmentException where
  | illegalArgument (message : String)
  | indexOutOfBounds
  /-- What a cipher throws. -/
  | generalSecurity
deriving DecidableEq, Repr

/-- What is logged on the way. -/
inductive AttachmentWarning where
  | hmacMismatch
  | macStripFailed
  | directKeyFailed
  | gcmFailed
  | ctrFailed
  | cbcFailed
deriving DecidableEq, Repr

namespace AttachmentCipher

variable (C : AttachmentPrimitives)

def encrypt (combinedKey iv rawBytes : List UInt8) : EncryptedAttachment :=
  let aesKey := combinedKey.take 32
  let macKey := (combinedKey.drop 32).take 32
  let encrypted := C.aesCbcEncrypt aesKey iv rawBytes
  let mac := C.hmacSha256 macKey (iv ++ encrypted)
  let combinedCiphertext := iv ++ encrypted ++ mac
  ⟨combinedKey, combinedCiphertext, C.sha256 combinedCiphertext⟩

/-- The first reading, for more than 48 bytes: the last 32 are the MAC. -/
def decryptStripped (aesKey macKey encryptedBytes : List UInt8) :
    Option (List UInt8) × List AttachmentWarning :=
  let iv := encryptedBytes.take 16
  let ciphertext := (encryptedBytes.drop 16).take (encryptedBytes.length - 16 - 32)
  let expectedMac := encryptedBytes.drop (encryptedBytes.length - 32)
  let computedMac := C.hmacSha256 macKey (iv ++ ciphertext)
  let mismatch := if expectedMac = computedMac then [] else [.hmacMismatch]
  match C.aesCbcDecrypt aesKey iv ciphertext with
  | some plaintext => (some plaintext, mismatch)
  | none => (none, mismatch ++ [.macStripFailed])

def orThrow (plaintext : Option (List UInt8)) : Except AttachmentException (List UInt8) :=
  Result.okOr plaintext .generalSecurity

def decryptWith64ByteKey (encryptedBytes keyBytes : List UInt8) :
    Except AttachmentException (List UInt8) × List AttachmentWarning :=
  let aesKey := keyBytes.take 32
  let macKey := (keyBytes.drop 32).take 32
  let (stripped, warnings) :=
    if 48 < encryptedBytes.length then decryptStripped C aesKey macKey encryptedBytes
    else (none, [])
  match stripped with
  | some plaintext => (.ok plaintext, warnings)
  | none =>
    if 16 < encryptedBytes.length then
      (orThrow (C.aesCbcDecrypt aesKey (encryptedBytes.take 16) (encryptedBytes.drop 16)),
        warnings)
    else (.error (.illegalArgument "Ciphertext too short for 64-byte key decryption"), warnings)

/-- The infos that a key of 32 bytes is expanded with, one after the other. -/
def infos : List (List UInt8) :=
  ["Attachment Keys".toUTF8.toList, "Signal Attachment".toUTF8.toList,
    "WhisperAttachment".toUTF8.toList, []]

def tryExpanded (encryptedBytes keyBytes : List UInt8) :
    List (List UInt8) → Option (List UInt8) × List AttachmentWarning
  | [] => (none, [])
  | info :: rest =>
    match decryptWith64ByteKey C encryptedBytes (C.deriveSecrets keyBytes info) with
    | (.ok plaintext, warnings) => (some plaintext, warnings)
    | (.error _, warnings) =>
      let (plaintext, others) := tryExpanded encryptedBytes keyBytes rest
      (plaintext, warnings ++ others)

/-- A reading with an initialisation vector of some length before the data. -/
def tryReading (decryption : List UInt8 → List UInt8 → List UInt8 → Option (List UInt8))
    (ivLength leastLength : ℕ) (warning : AttachmentWarning)
    (encryptedBytes keyBytes : List UInt8) : Option (List UInt8) × List AttachmentWarning :=
  if leastLength < encryptedBytes.length then
    match decryption keyBytes (encryptedBytes.take ivLength) (encryptedBytes.drop ivLength) with
    | some plaintext => (some plaintext, [])
    | none => (none, [warning])
  else (none, [])

/-- The first reading that gives a plaintext, with all warnings up to it. -/
def firstReading : List (Option (List UInt8) × List AttachmentWarning) →
    Option (List UInt8) × List AttachmentWarning
  | [] => (none, [])
  | (some plaintext, warnings) :: _ => (some plaintext, warnings)
  | (none, warnings) :: rest =>
    let (plaintext, others) := firstReading rest
    (plaintext, warnings ++ others)

/-- Strategies 1 to 5; exceptions in them are caught. -/
def strategies (encryptedBytes keyBytes : List UInt8) :
    Option (List UInt8) × List AttachmentWarning :=
  if keyBytes.length = 64 then
    match decryptWith64ByteKey C encryptedBytes keyBytes with
    | (.ok plaintext, warnings) => (some plaintext, warnings)
    | (.error _, warnings) => (none, warnings ++ [.directKeyFailed])
  else if keyBytes.length = 32 then
    firstReading [tryExpanded C encryptedBytes keyBytes infos,
      tryReading C.aesGcmDecrypt 12 28 .gcmFailed encryptedBytes keyBytes,
      tryReading C.aesCtrDecrypt 16 16 .ctrFailed encryptedBytes keyBytes,
      tryReading C.aesCbcDecrypt 16 16 .cbcFailed encryptedBytes keyBytes]
  else (none, [])

/-- Strategy 6. A range beyond the end of an array is an error. -/
def decryptFallback (encryptedBytes keyBytes : List UInt8) :
    Except AttachmentException (List UInt8) :=
  let key := if 32 ≤ keyBytes.length then keyBytes.take 32 else keyBytes
  if encryptedBytes.length < 16 then .error .indexOutOfBounds
  else orThrow (C.aesCbcDecrypt key (encryptedBytes.take 16) (encryptedBytes.drop 16))

def decrypt (encryptedBytes keyBytes : List UInt8) :
    Except AttachmentException (List UInt8) × List AttachmentWarning :=
  if encryptedBytes.isEmpty then (.error (.illegalArgument "Empty encrypted bytes"), [])
  else
    match strategies C encryptedBytes keyBytes with
    | (some plaintext, warnings) => (.ok plaintext, warnings)
    | (none, warnings) => (decryptFallback C encryptedBytes keyBytes, warnings)

section sixtyFour

variable {C} {encryptedBytes keyBytes plaintext : List UInt8}

def stripped (encryptedBytes : List UInt8) : List UInt8 :=
  (encryptedBytes.drop 16).take (encryptedBytes.length - 48)

theorem fst_decryptStripped (aesKey macKey encryptedBytes : List UInt8) :
    (decryptStripped C aesKey macKey encryptedBytes).1 =
      C.aesCbcDecrypt aesKey (encryptedBytes.take 16) (stripped encryptedBytes) := by
  unfold decryptStripped stripped
  dsimp only
  rw [show encryptedBytes.length - 16 - 32 = encryptedBytes.length - 48 by omega]
  split <;> simp_all

theorem fst_decryptWith64ByteKey (encryptedBytes keyBytes : List UInt8) :
    (decryptWith64ByteKey C encryptedBytes keyBytes).1 =
      match (if 48 < encryptedBytes.length then
        C.aesCbcDecrypt (keyBytes.take 32) (encryptedBytes.take 16) (stripped encryptedBytes)
        else none) with
      | some plaintext => .ok plaintext
      | none =>
        if 16 < encryptedBytes.length then
          orThrow (C.aesCbcDecrypt (keyBytes.take 32) (encryptedBytes.take 16)
            (encryptedBytes.drop 16))
        else .error (.illegalArgument "Ciphertext too short for 64-byte key decryption") := by
  have first := fst_decryptStripped (C := C) (keyBytes.take 32) ((keyBytes.drop 32).take 32)
    encryptedBytes
  unfold decryptWith64ByteKey
  dsimp only
  by_cases long : 48 < encryptedBytes.length
  · rw [if_pos long, if_pos long, ← first]
    cases decryptStripped C (keyBytes.take 32) ((keyBytes.drop 32).take 32) encryptedBytes with
    | mk result warnings =>
      cases result with
      | some plaintext => rfl
      | none => exact apply_ite Prod.fst _ _ _
  · rw [if_neg long, if_neg long]
    exact apply_ite Prod.fst _ _ _

theorem fst_decrypt (sixtyFour : keyBytes.length = 64) :
    (decrypt C encryptedBytes keyBytes).1 =
      if encryptedBytes.isEmpty then .error (.illegalArgument "Empty encrypted bytes")
      else
        match (decryptWith64ByteKey C encryptedBytes keyBytes).1 with
        | .ok plaintext => .ok plaintext
        | .error _ => decryptFallback C encryptedBytes keyBytes := by
  unfold decrypt strategies
  rw [if_pos sixtyFour]
  split
  · rfl
  · cases decryptWith64ByteKey C encryptedBytes keyBytes with
    | mk result warnings => cases result <;> rfl

/-- Under a key of 64 bytes a plaintext is returned exactly when one of two readings decrypts:
the one with the last 32 bytes taken off, or else the one of all bytes. What these last bytes
are does not matter, and everything else throws. -/
theorem decrypt_eq_ok_iff (sixtyFour : keyBytes.length = 64) :
    (decrypt C encryptedBytes keyBytes).1 = .ok plaintext ↔
      (48 < encryptedBytes.length ∧ C.aesCbcDecrypt (keyBytes.take 32) (encryptedBytes.take 16)
          (stripped encryptedBytes) = some plaintext) ∨
      ((encryptedBytes.length ≤ 48 ∨ C.aesCbcDecrypt (keyBytes.take 32) (encryptedBytes.take 16)
          (stripped encryptedBytes) = none) ∧ 16 ≤ encryptedBytes.length ∧
        C.aesCbcDecrypt (keyBytes.take 32) (encryptedBytes.take 16) (encryptedBytes.drop 16) =
          some plaintext) := by
  have fallback : decryptFallback C encryptedBytes keyBytes =
      if encryptedBytes.length < 16 then .error .indexOutOfBounds
      else orThrow (C.aesCbcDecrypt (keyBytes.take 32) (encryptedBytes.take 16)
        (encryptedBytes.drop 16)) := by
    unfold decryptFallback
    rw [if_pos (show 32 ≤ keyBytes.length by omega)]
  have nonempty : encryptedBytes.isEmpty = true ↔ encryptedBytes.length = 0 := by
    rw [List.isEmpty_iff_length_eq_zero]
  rw [fst_decrypt sixtyFour, fst_decryptWith64ByteKey, fallback]
  by_cases long : 48 < encryptedBytes.length
  · have notEmpty : ¬encryptedBytes.isEmpty = true := by
      rw [nonempty]
      omega
    rw [if_neg notEmpty, if_pos long, if_pos (show 16 < encryptedBytes.length by omega),
      if_neg (show ¬encryptedBytes.length < 16 by omega)]
    cases C.aesCbcDecrypt (keyBytes.take 32) (encryptedBytes.take 16) (stripped encryptedBytes) with
    | some found => simp [long, show ¬encryptedBytes.length ≤ 48 by omega]
    | none =>
      cases C.aesCbcDecrypt (keyBytes.take 32) (encryptedBytes.take 16)
        (encryptedBytes.drop 16) <;>
        simp [orThrow, Result.okOr, show 16 ≤ encryptedBytes.length by omega]
  · rw [if_neg long]
    by_cases enough : 16 ≤ encryptedBytes.length
    · have notEmpty : ¬encryptedBytes.isEmpty = true := by
        rw [nonempty]
        omega
      rw [if_neg notEmpty, if_neg (show ¬encryptedBytes.length < 16 by omega)]
      -- With exactly 16 bytes only the last strategy is left.
      cases C.aesCbcDecrypt (keyBytes.take 32) (encryptedBytes.take 16)
        (encryptedBytes.drop 16) <;>
        by_cases exact : 16 < encryptedBytes.length <;>
        simp [orThrow, Result.okOr, long, enough, exact, show encryptedBytes.length ≤ 48 by omega]
    · rw [if_neg (show ¬16 < encryptedBytes.length by omega),
        if_pos (show encryptedBytes.length < 16 by omega)]
      by_cases empty : encryptedBytes.isEmpty = true <;> simp [empty, long, enough]

theorem decrypt_encrypt (lawful : C.Lawful) {iv rawBytes : List UInt8}
    (sixtyFour : keyBytes.length = 64) (sixteen : iv.length = 16) :
    (decrypt C (encrypt C keyBytes iv rawBytes).ciphertext keyBytes).1 = .ok rawBytes := by
  have macLength := lawful.length_hmac ((keyBytes.drop 32).take 32)
    (iv ++ C.aesCbcEncrypt (keyBytes.take 32) iv rawBytes)
  have blocks : 0 < (C.aesCbcEncrypt (keyBytes.take 32) iv rawBytes).length :=
    List.length_pos_iff.mpr (lawful.encrypted_ne_nil _ _ _)
  rw [decrypt_eq_ok_iff sixtyFour]
  left
  simp only [encrypt, stripped, List.append_assoc, List.take_left' sixteen,
    List.drop_left' sixteen, List.length_append, sixteen, macLength]
  refine ⟨by omega, ?_⟩
  rw [List.take_left' (by omega)]
  exact lawful.decrypt_encrypt _ _ _

end sixtyFour

namespace Toy

def total (bytes : List UInt8) : UInt8 := bytes.foldl (· + ·) 0

/-- Encryption adds a byte of padding; all other functions only depend on sums. -/
def primitives : AttachmentPrimitives where
  hmacSha256 key text := List.replicate 32 (total key + total text)
  sha256 text := List.replicate 32 (total text)
  deriveSecrets key info := List.replicate 64 (total key + total info)
  aesCbcEncrypt key iv text := (text ++ [1]).map (· ^^^ (total key + total iv))
  aesCbcDecrypt key iv text :=
    if text = [] then none else some (text.map (· ^^^ (total key + total iv))).dropLast
  aesGcmDecrypt _ _ _ := none
  aesCtrDecrypt _ _ text := some text

def key : List UInt8 := List.replicate 64 3

def tampered : List UInt8 := List.replicate 16 2 ++ [9, 9] ++ List.replicate 32 0

theorem decrypt_eq_ok_iff_tampered :
    (decrypt primitives tampered key).1 = .ok [137] ↔
      (48 < tampered.length ∧ primitives.aesCbcDecrypt (key.take 32) (tampered.take 16)
          (stripped tampered) = some [137]) ∨
      ((tampered.length ≤ 48 ∨ primitives.aesCbcDecrypt (key.take 32) (tampered.take 16)
          (stripped tampered) = none) ∧ 16 ≤ tampered.length ∧
        primitives.aesCbcDecrypt (key.take 32) (tampered.take 16) (tampered.drop 16) =
          some [137]) :=
  decrypt_eq_ok_iff rfl

/-- A plaintext is returned although the last 32 bytes are not the MAC of the rest. -/
theorem decrypt_tampered :
    key.length = 64 ∧ (decrypt primitives tampered key) = (.ok [137], [.hmacMismatch]) ∧
      tampered.drop (tampered.length - 32) ≠
        primitives.hmacSha256 (key.drop 32) (tampered.take (tampered.length - 32)) := by
  decide

end Toy

end AttachmentCipher

end LegacySignal
