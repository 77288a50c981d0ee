import Mathlib

/-!
# What the session code is built on

The session code of libsignal computes with keys and messages whose internals
it never looks at. Their types and the functions on them are collected here:
the curve, the hashes, the block cipher, Kyber and the post-quantum ratchet.

The functions of this structure are total functions of what they read. Where
the code draws randomness, the drawn value is an argument.

`Ideal` and `PqLink` state what results about whole sessions assume of them.
-/

namespace LegacySignal

instance neZeroThree : NeZero 3 := ⟨by decide⟩

/-- The labels that keys are derived under. -/
inductive KdfInfo where
  /-- `WhisperText_X25519_SHA-256_CRYSTALS-KYBER-1024` -/
  | whisperText
  | whisperMessageKeys
  | whisperRatchet
deriving DecidableEq, Repr

/-- The side of a session that its post-quantum ratchet belongs to. -/
inductive PqDirection where
  | a2b
  | b2a
deriving DecidableEq, Repr

/-- Errors of the post-quantum ratchet, as far as the session code tells them apart. -/
inductive PqError where
  | stateDecode
  | other
deriving DecidableEq, Repr

/-- The content of a message, which its MAC covers. -/
structure SignalContent (PublicKey Bytes PqMessage : Type) where
  messageVersion : ℕ
  senderRatchetKey : PublicKey
  counter : UInt32
  previousCounter : UInt32
  ciphertext : Bytes
  pqRatchet : PqMessage
deriving DecidableEq, Repr

structure Primitives where
  PrivateKey : Type
  PublicKey : Type
  /-- Keys, shared secrets and hashes of 32 bytes. -/
  Secret : Type
  Bytes : Type
  Tag : Type
  Signature : Type
  KemPublicKey : Type
  KemSecretKey : Type
  KemCiphertext : Type
  PqState : Type
  PqMessage : Type
  Random : Type
  [decidablePublicKey : DecidableEq PublicKey]
  [decidableTag : DecidableEq Tag]
  publicKey : PrivateKey → PublicKey
  isCanonical : PublicKey → Bool
  calculateAgreement : PrivateKey → PublicKey → Secret
  verifySignature : PublicKey → PublicKey → Signature → Bool
  verifyKemSignature : PublicKey → KemPublicKey → Signature → Bool
  /-- The 32 bytes `0xFF` in front of the agreements. -/
  discontinuity : Secret
  /-- The given block of 32 bytes of what HKDF expands from a salt and key material. -/
  hkdf : Option Secret → List Secret → KdfInfo → Fin 3 → Secret
  hmacSha256 : Secret → UInt8 → Secret
  /-- The MAC of a content from the owner of the first to the owner of the second key. -/
  computeMac : Secret → PublicKey → PublicKey → SignalContent PublicKey Bytes PqMessage → Tag
  aesCbcEncrypt : Bytes → Secret → Secret → Bytes
  aesCbcDecrypt : Bytes → Secret → Secret → Option Bytes
  encapsulate : KemPublicKey → Random → Option (Secret × KemCiphertext)
  decapsulate : KemSecretKey → KemCiphertext → Option Secret
  /-- The last argument says whether the session is one with oneself. -/
  pqInitialState : Secret → PqDirection → Bool → Option PqState
  pqSend : PqState → Random → Option (PqState × PqMessage × Option Secret)
  pqRecv : PqState → PqMessage → Except PqError (PqState × Option Secret)

attribute [instance] Primitives.decidablePublicKey Primitives.decidableTag

namespace Primitives

/-- `KeyPair`: the private key, which the public key belongs to. -/
structure KeyPair (P : Primitives) where
  privateKey : P.PrivateKey

def KeyPair.publicKey {P : Primitives} (pair : P.KeyPair) : P.PublicKey :=
  P.publicKey pair.privateKey

/-- The primitives as the session code relies on them: agreements do not depend on the side,
hashes do not collide, a MAC determines its key, and decryption undoes encryption. -/
structure Ideal (P : Primitives) : Prop where
  agreement_comm (ours theirs : P.PrivateKey) :
    P.calculateAgreement ours (P.publicKey theirs) = P.calculateAgreement theirs (P.publicKey ours)
  hkdf_injective {salt other : Option P.Secret} {material otherMaterial : List P.Secret}
    {info otherInfo : KdfInfo} {block otherBlock : Fin 3} :
    P.hkdf salt material info block = P.hkdf other otherMaterial otherInfo otherBlock →
      salt = other ∧ material = otherMaterial ∧ info = otherInfo ∧ block = otherBlock
  hmac_injective {key other : P.Secret} {seed otherSeed : UInt8} :
    P.hmacSha256 key seed = P.hmacSha256 other otherSeed → key = other ∧ seed = otherSeed
  computeMac_injective {key other : P.Secret} {sender receiver : P.PublicKey}
    {content : SignalContent P.PublicKey P.Bytes P.PqMessage} :
    P.computeMac key sender receiver content = P.computeMac other sender receiver content →
      key = other
  decrypt_encrypt (ptext : P.Bytes) (key iv : P.Secret) :
    P.aesCbcDecrypt (P.aesCbcEncrypt ptext key iv) key iv = some ptext

/-- The two ends of a post-quantum ratchet, with the messages and keys that each end has sent and
the other one has not received yet. A message gives the receiver the key that it gave the sender,
in whatever order messages arrive. The limits `max_jump` and `max_ooo_keys` that
`spqr_chain_params` sets for the ratchet are thus taken to refuse no message. -/
structure PqLink (P : Primitives) where
  Linked : P.PqState → P.PqState → List (P.PqMessage × Option P.Secret) →
    List (P.PqMessage × Option P.Secret) → Prop
  initial {key : P.Secret} {withSelf : Bool} {alice bob : P.PqState} :
    P.pqInitialState key .a2b withSelf = some alice →
    P.pqInitialState key .b2a withSelf = some bob → Linked alice bob [] []
  symm {one other : P.PqState} {outgoing incoming : List (P.PqMessage × Option P.Secret)} :
    Linked one other outgoing incoming → Linked other one incoming outgoing
  send {one other next : P.PqState} {outgoing incoming : List (P.PqMessage × Option P.Secret)}
    {random : P.Random} {message : P.PqMessage} {key : Option P.Secret} :
    Linked one other outgoing incoming → P.pqSend one random = some (next, message, key) →
      Linked next other (outgoing ++ [(message, key)]) incoming
  receive {one other : P.PqState} {before after incoming : List (P.PqMessage × Option P.Secret)}
    {message : P.PqMessage} {key : Option P.Secret} :
    Linked one other (before ++ (message, key) :: after) incoming →
      ∃ next, P.pqRecv other message = .ok (next, key) ∧
        Linked one next (before ++ after) incoming

end Primitives

end LegacySignal
