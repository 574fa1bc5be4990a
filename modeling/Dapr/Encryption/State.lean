import Dapr.Lib.Encodings
import Mathlib.Data.List.AList
/-!
# Encryption of state

A state store may have a primary and a secondary encryption key, taken from the metadata of its
component. A value is sealed under the primary key, and the name of the key is appended to it after
a separator. To read a value, the name behind the last separator selects the key.

Strings that are compared or cut byte by byte are lists of bytes. The cipher is AES-GCM; of it only
that it opens what it sealed is assumed.
-/

namespace Dapr.Encryption

open Lib Base64

/-- A cipher that opens what it sealed. -/
structure Aead where
  sealed : (key nonce value : Bytes) → Bytes
  opened : (key nonce text : Bytes) → Option Bytes
  opened_sealed : ∀ key nonce value, opened key nonce (sealed key nonce value) = some value

inductive Error where
  | message (text : String)
  | wrapped (text : String) (cause : Error)
  | secretStore (text : String)
  | invalidHex
  | keySize (n : Nat)
  | random
  | illegalBase64
  | authentication
  deriving DecidableEq, Repr

/-! ## Keys -/

structure Key where
  key : Bytes
  name : Bytes
  /-- The bytes of the key, once the cipher is made. -/
  cipherObj : Option Bytes
  deriving DecidableEq, Repr

def Key.zero : Key := ⟨[], [], none⟩

structure ComponentEncryptionKeys where
  primary : Key
  secondary : Key
  deriving DecidableEq, Repr

def ComponentEncryptionKeys.zero : ComponentEncryptionKeys := ⟨.zero, .zero⟩

/-- The JSON of a value, and the text that it stands for. -/
structure DynamicValue where
  raw : Bytes
  text : Bytes
  deriving DecidableEq, Repr

structure SecretKeyRef where
  name : Bytes
  key : Bytes
  deriving DecidableEq, Repr

structure NameValuePair where
  name : String
  value : DynamicValue
  secretKeyRef : SecretKeyRef
  deriving DecidableEq, Repr

structure Component where
  ns : String
  metadata : List NameValuePair
  deriving DecidableEq, Repr

/-- The data of a secret, by its name and the namespace. -/
abbrev SecretStore := Bytes → String → Except String (Bytes → Option Bytes)

def primaryEncryptionKey : String := "primaryEncryptionKey"

def secondaryEncryptionKey : String := "secondaryEncryptionKey"

def errPrefix : String := "failed to extract encryption key"

def tryGetEncryptionKeyFromMetadataItem (ns : String) (item : NameValuePair) (secretStore : SecretStore) :
    Except Error Key :=
  if item.secretKeyRef.name = [] then .error (.message (errPrefix ++ ": secretKeyRef cannot be empty"))
  else
    match secretStore item.secretKeyRef.name ns with
    | .error err => .error (.wrapped errPrefix (.secretStore err))
    | .ok data =>
      let key := if item.secretKeyRef.key = [] then item.secretKeyRef.name else item.secretKeyRef.key
      match data key with
      | some val =>
        if val = [] then .error (.message (errPrefix ++ ": encryption key cannot be empty"))
        else .ok ⟨val, item.secretKeyRef.name, none⟩
      | none => .ok .zero

/-- The key of a metadata item: extracted already, or to be read from the secret store. -/
def keyOf (ns : String) (item : NameValuePair) (secretStore : SecretStore) : Except Error Key :=
  if 0 < item.value.raw.length then .ok ⟨item.value.text, item.secretKeyRef.name, none⟩
  else
    match tryGetEncryptionKeyFromMetadataItem ns item secretStore with
    | .error err => .error (.wrapped errPrefix err)
    | .ok key => .ok key

def takeKey (ns : String) (secretStore : SecretStore) (cek : ComponentEncryptionKeys) (m : NameValuePair) :
    Except Error ComponentEncryptionKeys :=
  if m.name = primaryEncryptionKey then (keyOf ns m secretStore).map fun key => { cek with primary := key }
  else if m.name = secondaryEncryptionKey then (keyOf ns m secretStore).map fun key => { cek with secondary := key }
  else .ok cek

def createCipher (key : Key) : Except Error Bytes :=
  match Hex.decode key.key with
  | none => .error .invalidHex
  | some bytes =>
    if bytes.length = 16 ∨ bytes.length = 24 ∨ bytes.length = 32 then .ok bytes else .error (.keySize bytes.length)

def withCipher (key : Key) : Except Error Key :=
  if key.key = [] then .ok key else (createCipher key).map fun bytes => { key with cipherObj := some bytes }

def componentEncryptionKey (component : Component) (secretStore : Option SecretStore) :
    Except Error ComponentEncryptionKeys :=
  match secretStore with
  | none => .ok .zero
  | some secretStore => do
    let cek ← component.metadata.foldlM (takeKey component.ns secretStore) .zero
    let primary ← withCipher cek.primary
    let secondary ← withCipher cek.secondary
    return ⟨primary, secondary⟩

/-! ## Values -/

abbrev Stores := AList fun _ : String => ComponentEncryptionKeys

/-- A store keeps the keys that it was added with first. -/
def addEncryptedStateStore (stores : Stores) (storeName : String) (keys : ComponentEncryptionKeys) : Stores × Bool :=
  if storeName ∈ stores then (stores, false) else (stores.insert storeName keys, true)

def keysOf (stores : Stores) (storeName : String) : ComponentEncryptionKeys := (stores.lookup storeName).getD .zero

def bar : UInt8 := 124

def separator : Bytes := [bar, bar]

/-- The place of the last occurrence. -/
def lastIndex (sep : Bytes) : Bytes → Option Nat
  | [] => if sep = [] then some 0 else none
  | a :: rest =>
    match lastIndex sep rest with
    | some i => some (i + 1)
    | none => if sep.isPrefixOf (a :: rest) then some 0 else none

def nonceSize : Nat := 12

abbrev Nonce := { nonce : Bytes // nonce.length = nonceSize }

/-- Nothing comes of a key without a cipher: the pointer is nil. -/
def encrypt (aead : Aead) (random : Option Nonce) (value : Bytes) (key : Key) : Option (Bytes × Option Error) :=
  key.cipherObj.map fun cipherObj =>
    match random with
    | none => (value, some .random)
    | some nonce => (nonce.val ++ aead.sealed cipherObj nonce.val value, none)

def decrypt (aead : Aead) (value cipherObj : Bytes) : Bytes × Option Error :=
  match decode value with
  | none => (value, some .illegalBase64)
  | some enc =>
    if enc.length < nonceSize then (value, some (.message "ciphertext is shorter than the nonce size"))
    else
      match aead.opened cipherObj (enc.take nonceSize) (enc.drop nonceSize) with
      | some plain => (plain, none)
      | none => ([], some .authentication)

def tryEncryptValue (aead : Aead) (stores : Stores) (storeName : String) (random : Option Nonce) (value : Bytes) :
    Option (Bytes × Option Error) :=
  let keys := keysOf stores storeName
  (encrypt aead random value keys.primary).map fun
    | (_, some err) => (value, some err)
    | (enc, none) => (encode enc ++ separator ++ keys.primary.name, none)

def tryDecryptValue (aead : Aead) (stores : Stores) (storeName : String) (value : Bytes) : Bytes × Option Error :=
  if value.length = 0 then ([], none)
  else
    let keys := keysOf stores storeName
    match lastIndex separator value with
    | none => (value, some (notFound storeName))
    | some ind =>
      if ind + separator.length = value.length then (value, some (notFound storeName))
      else
        let keyName := value.drop (ind + separator.length)
        let key :=
          if keys.primary.name = keyName then keys.primary
          else if keys.secondary.name = keyName then keys.secondary
          else .zero
        match key.cipherObj with
        | none =>
          (value, some (.message ("could not decrypt data for state store " ++ storeName ++
            ": encryption key name on record does not match a configured key")))
        | some cipherObj => decrypt aead (value.take ind) cipherObj
where
  notFound (storeName : String) : Error :=
    .message ("could not decrypt data for state store " ++ storeName ++ ": encryption key name not found on record")

end Dapr.Encryption
