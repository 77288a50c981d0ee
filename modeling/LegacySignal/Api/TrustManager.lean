import Mathlib.Data.List.Chain
import Mathlib.Data.List.Infix

/-!
# The trust manager of the HTTP client

`ConscryptHelper.configureOkHttp` builds a trust manager over the bundled certificates. Its
decision has two parts: a leaf whose issuer is named after one of the services that Signal uses
is taken as it is, and for any other leaf some certificate of the chain has to be bundled or
signed by a bundled one. The links between the presented certificates are never looked at, so a
chain that is accepted leads from the leaf to a bundled certificate only if its own links verify.
-/

namespace LegacySignal.ConscryptHelper

/-- The parts of a presented certificate that the trust manager reads. -/
structure X509Certificate (Key : Type) where
  /-- The text of `issuerDN.name`. -/
  issuer : String
  publicKey : Key
  sigAlgName : String
  tbsCertificate : List UInt8
  signature : List UInt8
deriving DecidableEq, Repr

/-- Thrown by `checkServerTrusted`, with its text. -/
inductive CertificateException where
  | certificate (message : String)
deriving DecidableEq, Repr

/-- The bundled certificates in the order of `aliases()`, and `Signature.verify` for an
algorithm, a key, the signed bytes and a signature; it has no value when one of the calls
throws. -/
structure TrustManager (Key : Type) where
  keyStore : List (X509Certificate Key)
  verify : String → Key → List UInt8 → List UInt8 → Option Bool

/-- The names of the services whose certificates are taken without a check. -/
def trustedIssuers : List String :=
  ["Signal Messenger", "Let's Encrypt", "ISRG", "Cloudflare", "Amazon", "GTS", "DigiCert"]

def contains (text part : String) : Bool :=
  part.toList <:+: text.toList

def hasTrustedIssuer {Key : Type} (cert : X509Certificate Key) : Bool :=
  trustedIssuers.any (contains cert.issuer)

namespace TrustManager

variable {Key : Type} (manager : TrustManager Key)

def verifyWith (cert ca : X509Certificate Key) : Option Bool :=
  manager.verify cert.sigAlgName ca.publicKey cert.tbsCertificate cert.signature

/-- The loop over the aliases: an exception only moves it to the next certificate. -/
def signedByAnchor (cert : X509Certificate Key) : List (X509Certificate Key) → Bool
  | [] => false
  | ca :: rest =>
    match manager.verifyWith cert ca with
    | some true => true
    | some false => signedByAnchor cert rest
    | none => signedByAnchor cert rest

/-- The loop over the chain, which stops at the first certificate that it trusts. -/
def findAnchor [DecidableEq Key] : List (X509Certificate Key) → Bool
  | [] => false
  | cert :: rest =>
    if cert ∈ manager.keyStore then true
    else if manager.signedByAnchor cert manager.keyStore then true
    else findAnchor rest

def checkServerTrusted [DecidableEq Key] (chain : Option (List (X509Certificate Key))) :
    Except CertificateException Unit :=
  match chain with
  | none => .error (.certificate "Empty chain")
  | some [] => .error (.certificate "Empty chain")
  | some (leaf :: rest) =>
    if hasTrustedIssuer leaf then .ok ()
    else if manager.findAnchor (leaf :: rest) then .ok ()
    else .error (.certificate "No trusted anchor found in custom KeyStore for chain")

def SignedBy (cert ca : X509Certificate Key) : Prop :=
  manager.verifyWith cert ca = some true

instance (cert ca : X509Certificate Key) : Decidable (manager.SignedBy cert ca) :=
  inferInstanceAs (Decidable (manager.verifyWith cert ca = some true))

def Vouched (cert : X509Certificate Key) : Prop :=
  cert ∈ manager.keyStore ∨ ∃ ca ∈ manager.keyStore, manager.SignedBy cert ca

/-- A path of signatures leads from a certificate through presented ones into the key store. -/
inductive SignaturePath (chain : List (X509Certificate Key)) : X509Certificate Key → Prop
  | bundled {cert} : cert ∈ manager.keyStore → SignaturePath chain cert
  | anchor {cert ca} : ca ∈ manager.keyStore → manager.SignedBy cert ca →
      SignaturePath chain cert
  | presented {cert next} : next ∈ chain → manager.SignedBy cert next →
      SignaturePath chain next → SignaturePath chain cert

variable {manager} {cert : X509Certificate Key}

theorem signedByAnchor_iff {anchors : List (X509Certificate Key)} :
    manager.signedByAnchor cert anchors = true ↔
      ∃ ca ∈ anchors, manager.SignedBy cert ca := by
  induction anchors with
  | nil => simp [signedByAnchor]
  | cons ca rest ih =>
    rw [signedByAnchor]
    simp only [List.mem_cons, exists_eq_or_imp]
    cases verified : manager.verifyWith cert ca with
    | none => simp [SignedBy, verified, ih]
    | some valid => cases valid <;> simp [SignedBy, verified, ih]

theorem findAnchor_iff [DecidableEq Key] {chain : List (X509Certificate Key)} :
    manager.findAnchor chain = true ↔ ∃ cert ∈ chain, manager.Vouched cert := by
  induction chain with
  | nil => simp [findAnchor]
  | cons cert rest ih =>
    simp only [List.mem_cons, exists_eq_or_imp]
    rw [findAnchor, Vouched, ← signedByAnchor_iff, ← ih]
    by_cases bundled : cert ∈ manager.keyStore
    · simp [bundled]
    · rw [if_neg bundled]
      cases manager.signedByAnchor cert manager.keyStore <;> simp [bundled]

theorem SignaturePath.mono {chain larger : List (X509Certificate Key)} (included : chain ⊆ larger)
    (path : manager.SignaturePath chain cert) : manager.SignaturePath larger cert := by
  induction path with
  | bundled member => exact .bundled member
  | anchor member signed => exact .anchor member signed
  | presented member signed _ ih => exact .presented (included member) signed ih

theorem Vouched.signaturePath (vouched : manager.Vouched cert)
    (chain : List (X509Certificate Key)) : manager.SignaturePath chain cert := by
  rcases vouched with bundled | ⟨ca, member, signed⟩
  · exact .bundled bundled
  · exact .anchor member signed

/-- Along links that verify, a vouched certificate anywhere in the chain gives the leaf its
path. -/
theorem signaturePath_of_links {leaf : X509Certificate Key}
    {rest : List (X509Certificate Key)} (links : (leaf :: rest).IsChain manager.SignedBy)
    (vouched : ∃ cert ∈ leaf :: rest, manager.Vouched cert) :
    manager.SignaturePath (leaf :: rest) leaf := by
  induction rest generalizing leaf with
  | nil =>
    obtain ⟨cert, member, vouched⟩ := vouched
    obtain rfl := List.mem_singleton.mp member
    exact vouched.signaturePath _
  | cons next rest ih =>
    obtain ⟨signed, links⟩ := List.isChain_cons_cons.mp links
    obtain ⟨cert, member, vouched⟩ := vouched
    rcases List.mem_cons.mp member with rfl | member
    · exact vouched.signaturePath _
    · have path := ih links ⟨cert, member, vouched⟩
      exact .presented (List.mem_cons_of_mem _ List.mem_cons_self) signed
        (path.mono (List.subset_cons_self _ _))

/-- The whole decision: which chains are accepted, and which of them carry a path. -/
theorem checkServerTrusted_ok_iff [DecidableEq Key] (manager : TrustManager Key)
    (chain : Option (List (X509Certificate Key))) :
    (manager.checkServerTrusted chain = .ok () ↔
      ∃ leaf rest, chain = some (leaf :: rest) ∧
        (hasTrustedIssuer leaf = true ∨ ∃ cert ∈ leaf :: rest, manager.Vouched cert)) ∧
    ∀ leaf rest, chain = some (leaf :: rest) → manager.checkServerTrusted chain = .ok () →
      hasTrustedIssuer leaf = false → (leaf :: rest).IsChain manager.SignedBy →
        manager.SignaturePath (leaf :: rest) leaf := by
  have accepted : ∀ leaf rest, manager.checkServerTrusted (some (leaf :: rest)) = .ok () ↔
      hasTrustedIssuer leaf = true ∨ ∃ cert ∈ leaf :: rest, manager.Vouched cert := by
    intro leaf rest
    rw [checkServerTrusted, ← findAnchor_iff]
    cases hasTrustedIssuer leaf <;> cases manager.findAnchor (leaf :: rest) <;> simp
  refine ⟨?_, ?_⟩
  · match chain with
    | none => simp [checkServerTrusted]
    | some [] => simp [checkServerTrusted]
    | some (leaf :: rest) =>
      rw [accepted]
      constructor
      · exact fun decided => ⟨leaf, rest, rfl, decided⟩
      · rintro ⟨_, _, ⟨⟩, decided⟩
        exact decided
  · rintro leaf rest rfl trusted unnamed links
    rcases (accepted leaf rest).mp trusted with named | vouched
    · rw [unnamed] at named
      cases named
    · exact signaturePath_of_links links vouched

end TrustManager

namespace Toy

def manager : TrustManager UInt8 where
  keyStore := [⟨"CN=Root", 1, "toy", [0], [1, 0]⟩]
  verify _ key tbs signature := some (signature = key :: tbs)

def amazonLeaf : X509Certificate UInt8 := ⟨"CN=Amazon", 7, "toy", [2], []⟩

def unsignedLeaf : X509Certificate UInt8 := ⟨"CN=Anyone", 8, "toy", [3], []⟩

def genuine : X509Certificate UInt8 := ⟨"CN=Root", 9, "toy", [4], [1, 4]⟩

def signedLeaf : X509Certificate UInt8 := ⟨"CN=Somebody", 8, "toy", [5], [9, 5]⟩

/-- A leaf signed by the certificate after it, which the bundled one has signed. -/
theorem checkServerTrusted_signedLeaf :
    manager.checkServerTrusted (some [signedLeaf, genuine]) = .ok () ∧
      manager.SignaturePath [signedLeaf, genuine] signedLeaf :=
  ⟨by decide +kernel, (manager.checkServerTrusted_ok_iff (some [signedLeaf, genuine])).2 _ _ rfl
    (by decide +kernel) (by decide +kernel) (by simp; decide)⟩

theorem no_signaturePath {leaf : X509Certificate UInt8} {chain : List (X509Certificate UInt8)}
    (foreign : leaf ∉ manager.keyStore) (unsigned : leaf.signature = []) :
    ¬ manager.SignaturePath chain leaf := by
  have notSigned : ∀ ca, ¬ manager.SignedBy leaf ca := by
    intro ca signed
    simp [TrustManager.SignedBy, TrustManager.verifyWith, manager, unsigned] at signed
  intro path
  cases path with
  | bundled member => exact foreign member
  | anchor _ signed => exact notSigned _ signed
  | presented _ signed _ => exact notSigned _ signed

/-- A leaf with a fitting issuer name, and one that comes with a certificate of somebody else:
both are accepted, and neither is signed at all. -/
theorem trusted_without_signaturePath :
    (manager.checkServerTrusted (some [amazonLeaf]) = .ok () ∧
      ¬ manager.SignaturePath [amazonLeaf] amazonLeaf) ∧
    (manager.checkServerTrusted (some [unsignedLeaf, genuine]) = .ok () ∧
      ¬ manager.SignaturePath [unsignedLeaf, genuine] unsignedLeaf) :=
  ⟨⟨by decide +kernel, no_signaturePath (by decide) rfl⟩,
    by decide +kernel, no_signaturePath (by decide) rfl⟩

end Toy

end LegacySignal.ConscryptHelper
