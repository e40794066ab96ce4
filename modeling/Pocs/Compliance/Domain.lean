import Pocs.Compliance.Circuits

/-! # Payloads of the Rust crate

`domain/payload.rs`: the framing of the encrypted notes of a call. -/

namespace Pocs.Compliance.Client

inductive CryptoError where
  | notCanonical (value : Word)
  | malformedCiphertext
  | decryptionFailed
  deriving DecidableEq, Repr

inductive PayloadKind where
  | valueNote
  | complianceNoteToOwner
  | complianceNoteToCommittee (committeeVersion : UInt64)
  deriving DecidableEq, Repr

namespace PayloadKind

def tag : PayloadKind → UInt8
  | .valueNote => 0x01
  | .complianceNoteToOwner => 0x02
  | .complianceNoteToCommittee _ => 0x03

/-- The `committee_version` bytes of the `0x03` kind. -/
def versionBytes : PayloadKind → List UInt8
  | .complianceNoteToCommittee committeeVersion => beOfNat 8 committeeVersion.toNat
  | _ => []

def aad (self : PayloadKind) : List UInt8 := self.tag :: self.versionBytes

end PayloadKind

structure PayloadElement where
  kind : PayloadKind
  ciphertext : List UInt8
  deriving DecidableEq, Repr

abbrev Payload := List PayloadElement

/-- The `as u32` of the lengths drops high bits. -/
def Payload.encode (self : Payload) : List UInt8 :=
  beOfNat 4 self.length ++ self.flatMap fun element =>
    element.kind.tag :: element.kind.versionBytes ++ beOfNat 4 element.ciphertext.length ++ element.ciphertext

end Pocs.Compliance.Client
