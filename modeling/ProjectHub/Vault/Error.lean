import ProjectHub.Encoding.Base64
import ProjectHub.ErrorKind
import ProjectHub.Storage.Error

/-!
# Errors of the vault
-/

namespace ProjectHub.Vault

/-- Why a sealed text does not open to a value. -/
inductive Unreadable where
  | notBase64 (fault : Base64.Fault)
  | tooShort (bytes : Nat)
  | notAuthentic
  | notText
  deriving DecidableEq

/-- The wording of a reason. -/
def Unreadable.message : Unreadable → String
  | notBase64 fault => "invalid base64: " ++ fault.message
  | tooShort bytes => "ciphertext too short: " ++ toString bytes ++ " bytes"
  | notAuthentic => "secret decryption failed: aead::Error"
  | notText => "secret value is not valid UTF-8"

/-- What an operation of the vault can fail with. -/
inductive Error where
  /-- A key of the wrong length. -/
  | keyLength (actual : Nat)
  /-- No secret of that name. -/
  | notFound (project key : String)
  | emptyProject
  | emptyKey
  /-- A stored value that cannot be opened. -/
  | unreadable (reason : Unreadable)
  /-- The store failed. -/
  | store (error : Storage.Error)
  deriving DecidableEq

namespace Error

/-- The wording of an error. -/
def message : Error → String
  | keyLength actual =>
    "invalid key length: expected 32 bytes, got " ++ toString actual
  | notFound project key => "secret not found: " ++ project ++ "/" ++ key
  | emptyProject => "invalid input: project_id must not be empty"
  | emptyKey => "invalid input: secret key must not be empty"
  | unreadable reason => "decryption failed: " ++ reason.message
  | store error => "secret store error: " ++ error.message

/-- The kind of an error. -/
def kind : Error → ErrorKind
  | notFound _ _ => .notFound
  | emptyProject | emptyKey => .invalidInput
  | keyLength _ | unreadable _ | store _ => .internal

/-- Whether the error is the absence of a secret. -/
def isNotFound : Error → Bool
  | notFound _ _ => true
  | _ => false

end Error

end ProjectHub.Vault
