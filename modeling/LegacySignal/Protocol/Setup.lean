import LegacySignal.Protocol.Cipher

/-!
# Setting up a session

The first state of a session on the side that fetched a prekey bundle (Alice)
and on the side whose prekeys were used (Bob). Alice steps the root key once
at the setup; Bob sends on the chain of the signed prekey until the first
message arrives.
-/

namespace LegacySignal

variable {P : Primitives}

def deriveKeys (secretInput : List P.Secret) : P.Secret × ChainKey P × P.Secret :=
  (P.hkdf none secretInput .whisperText 0, ⟨P.hkdf none secretInput .whisperText 1, 0⟩,
    P.hkdf none secretInput .whisperText 2)

structure AliceSignalProtocolParameters (P : Primitives) where
  ourIdentityKeyPair : P.KeyPair
  ourBaseKeyPair : P.KeyPair
  theirIdentityKey : P.PublicKey
  theirSignedPreKey : P.PublicKey
  theirOneTimePreKey : Option P.PublicKey
  theirRatchetKey : P.PublicKey
  theirKyberPreKey : P.KemPublicKey

structure BobSignalProtocolParameters (P : Primitives) where
  ourIdentityKeyPair : P.KeyPair
  ourSignedPreKeyPair : P.KeyPair
  ourOneTimePreKeyPair : Option P.KeyPair
  ourRatchetKeyPair : P.KeyPair
  ourKyberPreKeyPair : P.KemSecretKey
  theirIdentityKey : P.PublicKey
  theirBaseKey : P.PublicKey
  theirKyberCiphertext : P.KemCiphertext

def AliceSignalProtocolParameters.secrets (parameters : AliceSignalProtocolParameters P)
    (sharedSecret : P.Secret) : List P.Secret :=
  let ourBasePrivateKey := parameters.ourBaseKeyPair.privateKey
  [P.discontinuity,
    P.calculateAgreement parameters.ourIdentityKeyPair.privateKey parameters.theirSignedPreKey,
    P.calculateAgreement ourBasePrivateKey parameters.theirIdentityKey,
    P.calculateAgreement ourBasePrivateKey parameters.theirSignedPreKey] ++
  (parameters.theirOneTimePreKey.map (P.calculateAgreement ourBasePrivateKey)).toList ++
  [sharedSecret]

def BobSignalProtocolParameters.secrets (parameters : BobSignalProtocolParameters P)
    (sharedSecret : P.Secret) : List P.Secret :=
  let ourSignedPrivateKey := parameters.ourSignedPreKeyPair.privateKey
  [P.discontinuity,
    P.calculateAgreement ourSignedPrivateKey parameters.theirIdentityKey,
    P.calculateAgreement parameters.ourIdentityKeyPair.privateKey parameters.theirBaseKey,
    P.calculateAgreement ourSignedPrivateKey parameters.theirBaseKey] ++
  (parameters.ourOneTimePreKeyPair.map fun pair =>
    P.calculateAgreement pair.privateKey parameters.theirBaseKey).toList ++
  [sharedSecret]

/-- `initialize_alice_session`, with the drawn randomness of Kyber and the drawn ratchet key. -/
def initializeAliceSession (parameters : AliceSignalProtocolParameters P) (random : P.Random)
    (sendingRatchetKey : P.PrivateKey) : Except SignalProtocolError (SessionState P) := do
  let localIdentity := parameters.ourIdentityKeyPair.publicKey
  let (sharedSecret, kyberCiphertext) ←
    Result.okOr (P.encapsulate parameters.theirKyberPreKey random) .kemFailure
  let (rootKey, chainKey, pqrKey) := deriveKeys (parameters.secrets sharedSecret)
  let (sendingRoot, sendingChainKey) :=
    createChain rootKey parameters.theirRatchetKey sendingRatchetKey
  let pqrState ← Result.okOr
    (P.pqInitialState pqrKey .a2b (localIdentity = parameters.theirIdentityKey))
    (.invalidArgument "post-quantum ratchet: error creating initial A2B state")
  let session := SessionState.new CIPHERTEXT_MESSAGE_CURRENT_VERSION localIdentity
    parameters.theirIdentityKey sendingRoot parameters.ourBaseKeyPair.publicKey pqrState
  let chained := (session.addReceiverChain parameters.theirRatchetKey chainKey).setSenderChain
    ⟨sendingRatchetKey⟩ sendingChainKey
  -- The identifier is the placeholder `u32::MAX` until it is set by the caller.
  .ok { chained with pendingKyberPreKey := some ⟨0xFFFFFFFF, kyberCiphertext⟩ }

def initializeBobSession (parameters : BobSignalProtocolParameters P) :
    Except SignalProtocolError (SessionState P) := do
  Result.ensure (P.isCanonical parameters.theirBaseKey)
    (.invalidMessage .preKey "incoming base key is invalid")
  let localIdentity := parameters.ourIdentityKeyPair.publicKey
  let sharedSecret ← Result.okOr
    (P.decapsulate parameters.ourKyberPreKeyPair parameters.theirKyberCiphertext) .kemFailure
  let (rootKey, chainKey, pqrKey) := deriveKeys (parameters.secrets sharedSecret)
  let pqrState ← Result.okOr
    (P.pqInitialState pqrKey .b2a (localIdentity = parameters.theirIdentityKey))
    (.invalidArgument "post-quantum ratchet: error creating initial B2A state")
  let session := SessionState.new CIPHERTEXT_MESSAGE_CURRENT_VERSION localIdentity
    parameters.theirIdentityKey rootKey parameters.theirBaseKey pqrState
  .ok (session.setSenderChain parameters.ourRatchetKeyPair chainKey)

/-- The bundle that the server hands out for a device. -/
structure PreKeyBundle (P : Primitives) where
  registrationId : UInt32
  preKeyId : Option UInt32
  preKeyPublic : Option P.PublicKey
  signedPreKeyId : UInt32
  signedPreKeyPublic : P.PublicKey
  signedPreKeySignature : P.Signature
  identityKey : P.PublicKey
  kyberPreKeyId : UInt32
  kyberPreKeyPublic : P.KemPublicKey
  kyberPreKeySignature : P.Signature

/-- The parameters that `process_prekey_bundle` takes from the bundle. -/
def PreKeyBundle.parameters (bundle : PreKeyBundle P)
    (ourIdentityKeyPair ourBaseKeyPair : P.KeyPair) : AliceSignalProtocolParameters P where
  ourIdentityKeyPair := ourIdentityKeyPair
  ourBaseKeyPair := ourBaseKeyPair
  theirIdentityKey := bundle.identityKey
  theirSignedPreKey := bundle.signedPreKeyPublic
  theirOneTimePreKey := bundle.preKeyPublic
  theirRatchetKey := bundle.signedPreKeyPublic
  theirKyberPreKey := bundle.kyberPreKeyPublic

/-- The new session with what its prekey messages carry. The time is in nanoseconds. -/
def SessionState.setUnacknowledged (session : SessionState P) (bundle : PreKeyBundle P)
    (baseKey : P.PublicKey) (now : ℕ) (localRegistrationId : UInt32) : SessionState P :=
  { session with
    pendingPreKey := some ⟨bundle.preKeyId, bundle.signedPreKeyId, baseKey, now / 10 ^ 9⟩
    pendingKyberPreKey := session.pendingKyberPreKey.map fun pending =>
      { pending with preKeyId := bundle.kyberPreKeyId }
    localRegistrationId := localRegistrationId
    remoteRegistrationId := bundle.registrationId }

end LegacySignal
